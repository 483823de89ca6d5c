import Bmb.Base.Triple

namespace Bmb.Base

/-! Programs over different states that do the same: they return the same values or
stop in the same traps, and keep their states related. -/

variable {σ ρ α β : Type} {related : σ → ρ → Prop}

inductive Outcome.Matches (related : σ → ρ → Prop) : Outcome σ α → Outcome ρ α → Prop where
  | returned {value : α} {state : σ} {image : ρ} (relates : related state image) :
      Matches related (.returned value state) (.returned value image)
  | trapped {trap : Trap} {state : σ} {image : ρ} (relates : related state image) :
      Matches related (.trapped trap state) (.trapped trap image)

namespace Outcome.Matches

variable {left : Outcome σ α} {right : Outcome ρ α}

theorem states (same : Matches related left right) : related left.state right.state := by
  cases same with
  | returned relates => exact relates
  | trapped relates => exact relates

theorem weaken {weaker : σ → ρ → Prop} (same : Matches related left right)
    (implied : ∀ state image, related state image → weaker state image) :
    Matches weaker left right := by
  cases same with
  | returned relates => exact .returned (implied _ _ relates)
  | trapped relates => exact .trapped (implied _ _ relates)

theorem of_returned {value : α} {state : σ}
    (same : Matches related (.returned value state) right) :
    ∃ image, right = .returned value image ∧ related state image := by
  cases same with
  | returned relates => exact ⟨_, rfl, relates⟩

theorem of_trapped {trap : Trap} {state : σ}
    (same : Matches related (.trapped trap state) right) :
    ∃ image, right = .trapped trap image ∧ related state image := by
  cases same with
  | trapped relates => exact ⟨_, rfl, relates⟩

theorem to_returned {value : α} {image : ρ}
    (same : Matches related left (.returned value image)) :
    ∃ state, left = .returned value state ∧ related state image := by
  cases same with
  | returned relates => exact ⟨_, rfl, relates⟩

theorem to_trapped {trap : Trap} {image : ρ}
    (same : Matches related left (.trapped trap image)) :
    ∃ state, left = .trapped trap state ∧ related state image := by
  cases same with
  | trapped relates => exact ⟨_, rfl, relates⟩

theorem result_eq (same : Matches related left right) : left.result = right.result := by
  cases same <;> rfl

end Outcome.Matches

namespace Program

theorem matches_map {first : Program σ α} {other : Program ρ α} {state : σ} {image : ρ}
    (f : α → β) (head : Outcome.Matches related (first state) (other image)) :
    Outcome.Matches related ((f <$> first) state) ((f <$> other) image) := by
  rw [run_map, run_map]
  generalize first state = left at head
  generalize other image = right at head
  cases head with
  | returned relates => exact .returned relates
  | trapped relates => exact .trapped relates

/-- From related states both programs do the same. -/
def Alike (related : σ → ρ → Prop) (left : Program σ α) (right : Program ρ α) : Prop :=
  ∀ ⦃state image⦄, related state image → Outcome.Matches related (left state) (right image)

namespace Alike

variable {left other : Program σ α} {right counterpart : Program ρ α}

theorem pure (value : α) :
    Alike related (Pure.pure value : Program σ α) (Pure.pure value : Program ρ α) :=
  fun _ _ relates => .returned relates

theorem stop (trap : Trap) :
    Alike related (Program.stop trap : Program σ α) (Program.stop trap : Program ρ α) :=
  fun _ _ relates => .trapped relates

theorem bind {next : α → Program σ β} {following : α → Program ρ β} (head : Alike related left right)
    (tail : ∀ value, Alike related (next value) (following value)) :
    Alike related (left >>= next) (right >>= following) := by
  intro state image relates
  have first := head relates
  rw [run_bind, run_bind]
  generalize left state = outcome at first
  generalize right image = mirrored at first
  cases first with
  | returned relates => exact tail _ relates
  | trapped relates => exact .trapped relates

theorem ite {condition : Prop} [Decidable condition] (yes : Alike related left right)
    (no : Alike related other counterpart) :
    Alike related (if condition then left else other)
      (if condition then right else counterpart) := by
  split
  · exact yes
  · exact no

theorem map (f : α → β) (alike : Alike related left right) :
    Alike related (f <$> left) (f <$> right) :=
  fun _ _ relates => matches_map f (alike relates)

theorem read {next : σ → Program σ β} {following : ρ → Program ρ β}
    (tail : ∀ state image, related state image → Alike related (next state) (following image)) :
    Alike related (Program.read >>= next) (Program.read >>= following) :=
  fun _ _ relates => tail _ _ relates relates

theorem modify {f : σ → σ} {g : ρ → ρ}
    (kept : ∀ state image, related state image → related (f state) (g image)) :
    Alike related (Program.modify f) (Program.modify g) :=
  fun _ _ relates => .returned (kept _ _ relates)

theorem zoom {υ φ : Type} {whole : υ → φ → Prop} {view : υ → σ} {update : σ → υ → υ}
    {viewImage : φ → ρ} {updateImage : ρ → φ → φ}
    (shows : ∀ state image, whole state image → related (view state) (viewImage image))
    (kept : ∀ state image part other, whole state image → related part other →
      whole (update part state) (updateImage other image))
    (alike : Alike related left right) :
    Alike whole (left.zoom view update) (right.zoom viewImage updateImage) := by
  intro state image relates
  have inner := alike (shows state image relates)
  unfold Program.zoom
  generalize left (view state) = outcome at inner
  generalize right (viewImage image) = mirrored at inner
  cases inner with
  | returned close => exact .returned (kept _ _ _ _ relates close)
  | trapped close => exact .trapped (kept _ _ _ _ relates close)

/-- Programs that change nothing come to the same value or the same trap. -/
theorem of_reading {state : σ} {image : ρ} (alike : Alike related left right)
    (relates : related state image) (keeps : Keeps (· = state) left)
    (keepsImage : Keeps (· = image) right) :
    (∃ value, left state = .returned value state ∧ right image = .returned value image) ∨
      ∃ trap, left state = .trapped trap state ∧ right image = .trapped trap image := by
  have same := alike relates
  have still := keeps state rfl
  have stillImage := keepsImage image rfl
  generalize left state = outcome at same still
  generalize right image = mirrored at same stillImage
  cases same with
  | returned =>
      cases still
      cases stillImage
      exact .inl ⟨_, rfl, rfl⟩
  | trapped =>
      cases still
      cases stillImage
      exact .inr ⟨_, rfl, rfl⟩

end Alike

end Program

end Bmb.Base
