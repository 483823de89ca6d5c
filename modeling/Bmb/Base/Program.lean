import Mathlib.Order.Defs.Unbundled

namespace Bmb.Base

/-! Sequential C code as a computation over an explicit state.

A computation either returns a value or stops in a trap.  The state is kept in
both cases: what a program had already done when it stopped is observable.
-/

/-- The ways in which C code stops without returning to its caller. -/
inductive Trap where
  | nullPointer
  | danglingPointer
  | outOfBounds
  | divergence
  | exit (status : Nat)
deriving DecidableEq, Repr

inductive Outcome (σ α : Type) where
  | returned (value : α) (state : σ)
  | trapped (trap : Trap) (state : σ)

def Program (σ α : Type) := σ → Outcome σ α

variable {σ ρ α β : Type}

/-- The state at the end of a run, whether it returned or trapped. -/
def Outcome.state : Outcome σ α → σ
  | .returned _ state => state
  | .trapped _ state => state

@[simp] theorem Outcome.state_returned (value : α) (state : σ) :
    (Outcome.returned value state).state = state := rfl

@[simp] theorem Outcome.state_trapped (trap : Trap) (state : σ) :
    (Outcome.trapped trap state : Outcome σ α).state = state := rfl

/-- What a run gives to its caller. -/
def Outcome.result : Outcome σ α → Except Trap α
  | .returned value _ => .ok value
  | .trapped trap _ => .error trap

theorem Outcome.result_eq_ok {outcome : Outcome σ α} {value : α} :
    outcome.result = .ok value ↔ ∃ state, outcome = .returned value state := by
  cases outcome with
  | returned other state => simp [result]
  | trapped trap state => simp [result]

def Outcome.isReturned : Outcome σ α → Bool
  | .returned _ _ => true
  | .trapped _ _ => false

theorem Outcome.eq_returned {outcome : Outcome σ α} (ran : outcome.isReturned = true) :
    ∃ value, outcome = .returned value outcome.state := by
  cases outcome with
  | returned value state => exact ⟨value, rfl⟩
  | trapped trap state => cases ran

namespace Program

def stop (trap : Trap) : Program σ α := fun state => .trapped trap state

def read : Program σ σ := fun state => .returned state state

def modify (f : σ → σ) : Program σ Unit := fun state => .returned () (f state)

def bind (first : Program σ α) (next : α → Program σ β) : Program σ β := fun state =>
  match first state with
  | .returned value after => next value after
  | .trapped trap after => .trapped trap after

instance : Monad (Program σ) where
  pure value := fun state => .returned value state
  bind := bind

/-- The status of a process that has called `abort`. -/
def abortStatus : Nat := 134

/-- Go on in states that meet the condition, and else stop as `assert` does. -/
def require (condition : σ → Bool) : Program σ Unit := fun state =>
  if condition state then .returned () state else .trapped (.exit abortStatus) state

/-- Run a computation on one component of a larger state. -/
def zoom (view : σ → ρ) (update : ρ → σ → σ) (program : Program ρ α) : Program σ α :=
  fun state =>
    match program (view state) with
    | .returned value part => .returned value (update part state)
    | .trapped trap part => .trapped trap (update part state)

@[simp] theorem run_require (condition : σ → Bool) (state : σ) :
    require condition state =
      if condition state then .returned () state else .trapped (.exit abortStatus) state := rfl

@[simp] theorem run_pure (value : α) (state : σ) :
    (pure value : Program σ α) state = .returned value state := rfl

@[simp] theorem run_stop (trap : Trap) (state : σ) :
    (stop trap : Program σ α) state = .trapped trap state := rfl

@[simp] theorem run_read (state : σ) : (read : Program σ σ) state = .returned state state := rfl

@[simp] theorem run_modify (f : σ → σ) (state : σ) :
    (modify f : Program σ Unit) state = .returned () (f state) := rfl

@[simp] theorem run_bind (first : Program σ α) (next : α → Program σ β) (state : σ) :
    (first >>= next) state =
      match first state with
      | .returned value after => next value after
      | .trapped trap after => .trapped trap after := rfl

@[simp] theorem run_map (f : α → β) (program : Program σ α) (state : σ) :
    (f <$> program) state =
      match program state with
      | .returned value after => .returned (f value) after
      | .trapped trap after => .trapped trap after := rfl

@[simp] theorem run_ite (condition : Prop) [Decidable condition]
    (yes no : Program σ α) (state : σ) :
    (if condition then yes else no) state = if condition then yes state else no state := by
  split <;> rfl

theorem run_bind_congr {first other : Program σ α} {next : α → Program σ β} {state image : σ}
    (same : first state = other image) : (first >>= next) state = (other >>= next) image := by
  rw [run_bind, run_bind, same]

theorem bind_eq_returned {first : Program σ α} {next : α → Program σ β}
    {before after : σ} {value : β} :
    (first >>= next) before = .returned value after ↔
      ∃ middle state, first before = .returned middle state ∧
        next middle state = .returned value after := by
  rw [run_bind]
  cases ran : first before with
  | returned middle state =>
      constructor
      · intro rest
        exact ⟨middle, state, rfl, rest⟩
      · rintro ⟨_, _, same, rest⟩
        cases same
        exact rest
  | trapped trap state => simp

theorem zoom_eq_returned {view : σ → ρ} {update : ρ → σ → σ} {program : Program ρ α}
    {before after : σ} {value : α} (ran : program.zoom view update before = .returned value after) :
    ∃ part, program (view before) = .returned value part ∧ after = update part before := by
  unfold zoom at ran
  cases shape : program (view before) with
  | trapped trap part =>
      rw [shape] at ran
      cases ran
  | returned result part =>
      rw [shape] at ran
      cases ran
      exact ⟨part, rfl, rfl⟩

theorem map_eq_returned {f : α → β} {program : Program σ α} {before after : σ} {value : β}
    (ran : (f <$> program) before = .returned value after) :
    ∃ result, program before = .returned result after ∧ value = f result := by
  rw [run_map] at ran
  cases shape : program before with
  | returned result state =>
      rw [shape] at ran
      cases ran
      exact ⟨result, rfl, rfl⟩
  | trapped trap state =>
      rw [shape] at ran
      cases ran

/-- If the program returns, its value is of the required kind. -/
def Ensures (post : α → Prop) (program : Program σ α) : Prop :=
  ∀ state value after, program state = .returned value after → post value

namespace Ensures

variable {post : α → Prop}

theorem pure {value : α} (kind : post value) : Ensures post (Pure.pure value : Program σ α) := by
  intro state other after ran
  cases ran
  exact kind

theorem stop (trap : Trap) : Ensures post (Program.stop trap : Program σ α) := by
  intro state value after ran
  cases ran

theorem bind {first : Program σ β} {next : β → Program σ α} {middle : β → Prop}
    (head : Ensures middle first) (tail : ∀ value, middle value → Ensures post (next value)) :
    Ensures post (first >>= next) := by
  intro state result after ran
  obtain ⟨value, between, begun, rest⟩ := bind_eq_returned.mp ran
  exact tail value (head state value between begun) between result after rest

theorem after {first : Program σ β} {next : β → Program σ α}
    (tail : ∀ value, Ensures post (next value)) : Ensures post (first >>= next) := by
  intro state result after ran
  obtain ⟨value, between, _, rest⟩ := bind_eq_returned.mp ran
  exact tail value between result after rest

theorem zoom {view : σ → ρ} {update : ρ → σ → σ} {program : Program ρ α}
    (ensures : Ensures post program) : Ensures post (program.zoom view update) := by
  intro state value after ran
  obtain ⟨part, shape, _⟩ := zoom_eq_returned ran
  exact ensures _ _ _ shape

end Ensures

/-- Every run of the program returns, relates its first state to its last one, and
gives a value of the required kind. -/
def Returns (relation : σ → σ → Prop) (post : α → Prop) (program : Program σ α) : Prop :=
  ∀ state, ∃ value after, program state = .returned value after ∧ relation state after ∧ post value

namespace Returns

variable {relation : σ → σ → Prop} {post other : α → Prop} {program : Program σ α}

theorem pure [Std.Refl relation] {value : α} (kind : post value) :
    Returns relation post (Pure.pure value : Program σ α) :=
  fun state => ⟨value, state, rfl, refl_of relation state, kind⟩

theorem weaken (returns : Returns relation post program) (weaker : ∀ value, post value → other value) :
    Returns relation other program := by
  intro state
  obtain ⟨value, after, ran, related, kind⟩ := returns state
  exact ⟨value, after, ran, related, weaker value kind⟩

theorem bind [IsTrans σ relation] {next : α → Program σ β} {final : β → Prop}
    (head : Returns relation post program)
    (tail : ∀ value, post value → Returns relation final (next value)) :
    Returns relation final (program >>= next) := by
  intro state
  obtain ⟨value, middle, ran, left, kind⟩ := head state
  obtain ⟨result, after, rest, right, done⟩ := tail value kind middle
  refine ⟨result, after, ?_, trans_of relation left right, done⟩
  simpa only [run_bind, ran] using rest

end Returns

end Program

end Bmb.Base
