import Bmb.Base.Program

namespace Bmb.Base.Program

/-! Rules of pre- and postconditions for programs that may stop in a trap. -/

variable {σ ρ α β : Type}

/-- From a state with `pre` the program returns in a state with `post`, or it stops in one
with `stopped`. -/
def Triple (pre : σ → Prop) (program : Program σ α) (post : α → σ → Prop) (stopped : σ → Prop) :
    Prop :=
  ∀ state, pre state →
    match program state with
    | .returned value after => post value after
    | .trapped _ after => stopped after

namespace Triple

variable {pre stronger stopped : σ → Prop} {post weaker : α → σ → Prop}
  {program : Program σ α}

theorem pure {value : α} (kind : ∀ state, pre state → post value state) :
    Triple pre (Pure.pure value) post stopped :=
  kind

theorem stop {trap : Trap} (kind : ∀ state, pre state → stopped state) :
    Triple pre (Program.stop trap) post stopped :=
  kind

theorem read {post : σ → σ → Prop} (kind : ∀ state, pre state → post state state) :
    Triple pre Program.read post stopped :=
  kind

theorem modify {post : Unit → σ → Prop} {f : σ → σ} (kind : ∀ state, pre state → post () (f state)) :
    Triple pre (Program.modify f) post stopped :=
  kind

theorem bind {next : α → Program σ β} {final : β → σ → Prop}
    (head : Triple pre program post stopped)
    (tail : ∀ value, Triple (post value) (next value) final stopped) :
    Triple pre (program >>= next) final stopped := by
  intro state holds
  have begun := head state holds
  rw [run_bind]
  cases ran : program state with
  | returned value middle =>
      rw [ran] at begun
      exact tail value middle begun
  | trapped trap middle =>
      rw [ran] at begun
      exact begun

theorem map {f : α → β} {final : β → σ → Prop}
    (head : Triple pre program (fun value => final (f value)) stopped) :
    Triple pre (f <$> program) final stopped := by
  intro state holds
  have done := head state holds
  rw [run_map]
  cases ran : program state <;> rw [ran] at done <;> exact done

theorem weaken (triple : Triple pre program post stopped)
    (enough : ∀ state, stronger state → pre state)
    (implied : ∀ value state, post value state → weaker value state) :
    Triple stronger program weaker stopped := by
  intro state holds
  have done := triple state (enough state holds)
  cases ran : program state <;> rw [ran] at done
  · exact implied _ _ done
  · exact done

theorem and {otherPre : σ → Prop} (left : Triple pre program post stopped)
    (right : Triple otherPre program weaker fun _ => True) :
    Triple (fun state => pre state ∧ otherPre state) program
      (fun value state => post value state ∧ weaker value state) stopped := by
  intro state holds
  have one := left state holds.1
  have two := right state holds.2
  cases ran : program state <;> rw [ran] at one two
  · exact ⟨one, two⟩
  · exact one

theorem under {fact : Prop} (triple : fact → Triple pre program post stopped) :
    Triple (fun state => pre state ∧ fact) program post stopped :=
  fun state holds => triple holds.2 state holds.1

theorem zoom {view : ρ → σ} {update : σ → ρ → ρ} (lens : ∀ part state, view (update part state) = part)
    (triple : Triple pre program post stopped) :
    Triple (fun state => pre (view state)) (program.zoom view update)
      (fun value state => post value (view state)) (fun state => stopped (view state)) := by
  intro state holds
  have done := triple (view state) holds
  unfold Program.zoom
  cases ran : program (view state) <;> rw [ran] at done <;> simpa only [lens] using done

theorem state {final : σ → Prop} {first : σ} (triple : Triple pre program (fun _ => final) final)
    (holds : pre first) : final (program first).state := by
  have done := triple first holds
  cases ran : program first <;> rw [ran] at done <;> exact done

theorem returned {state after : σ} {value : α} (triple : Triple pre program post stopped)
    (holds : pre state) (ran : program state = .returned value after) : post value after := by
  have done := triple state holds
  rwa [ran] at done

end Triple

/-- A program that keeps an invariant, whether it returns or not. -/
abbrev Keeps (invariant : σ → Prop) (program : Program σ α) : Prop :=
  Triple invariant program (fun _ => invariant) invariant

namespace Keeps

variable {invariant : σ → Prop} {program : Program σ α}

theorem pure (value : α) : Keeps invariant (Pure.pure value : Program σ α) :=
  Triple.pure fun _ holds => holds

theorem stop (trap : Trap) : Keeps invariant (Program.stop trap : Program σ α) :=
  Triple.stop fun _ holds => holds

theorem read : Keeps invariant (Program.read : Program σ σ) := Triple.read fun _ holds => holds

theorem modify {f : σ → σ} (kept : ∀ state, invariant state → invariant (f state)) :
    Keeps invariant (Program.modify f) :=
  Triple.modify kept

theorem bind {next : α → Program σ β} (head : Keeps invariant program)
    (tail : ∀ value, Keeps invariant (next value)) : Keeps invariant (program >>= next) :=
  Triple.bind head tail

theorem map {f : α → β} (keeps : Keeps invariant program) : Keeps invariant (f <$> program) :=
  Triple.map keeps

theorem returned {state after : σ} {value : α} (keeps : Keeps invariant program)
    (holds : invariant state) (ran : program state = .returned value after) : invariant after :=
  Triple.returned keeps holds ran

end Keeps

/-- What a returning program adds to a measure of the state, by the value it returns. -/
def Costs (measure : σ → Int) (cost : α → Int) (program : Program σ α) : Prop :=
  ∀ state value after, program state = .returned value after →
    measure after = measure state + cost value

namespace Costs

variable {measure : σ → Int} {cost other : α → Int} {program : Program σ α}

theorem pure {value : α} (free : cost value = 0) :
    Costs measure cost (Pure.pure value : Program σ α) := by
  intro state _ _ ran
  cases ran
  rw [free, Int.add_zero]

theorem stop (trap : Trap) : Costs measure cost (Program.stop trap : Program σ α) := by
  intro state _ _ ran
  cases ran

theorem modify {f : σ → σ} {cost : Unit → Int}
    (changed : ∀ state, measure (f state) = measure state + cost ()) :
    Costs measure cost (Program.modify f) := by
  intro state _ _ ran
  cases ran
  exact changed state

theorem read : Costs measure (fun _ => 0) (Program.read : Program σ σ) := by
  intro state _ _ ran
  cases ran
  exact (Int.add_zero _).symm

theorem unchanged {f : σ → σ} (same : ∀ state, measure (f state) = measure state) :
    Costs measure (fun _ => 0) (Program.modify f) :=
  modify fun state => (same state).trans (Int.add_zero _).symm

/-- What is left of the total after a program has to be paid by the rest. -/
theorem bind {next : α → Program σ β} {total : β → Int} (head : Costs measure cost program)
    (tail : ∀ value, Costs measure (fun result => total result - cost value) (next value)) :
    Costs measure total (program >>= next) := by
  intro state result after ran
  obtain ⟨value, middle, begun, rest⟩ := bind_eq_returned.mp ran
  have first := head _ _ _ begun
  have second : measure after = measure middle + (total result - cost value) :=
    tail value _ _ _ rest
  omega

theorem congr (costs : Costs measure cost program) (same : ∀ value, cost value = other value) :
    Costs measure other program := by
  intro state value after ran
  rw [costs _ _ _ ran, same]

end Costs

end Bmb.Base.Program
