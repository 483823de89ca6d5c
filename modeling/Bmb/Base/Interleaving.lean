import Mathlib.Logic.Basic
import Bmb.Base.Refinement

namespace Bmb.Base

open Program

/-! Threads that share a state and enter a critical section under one lock.

Outside of their sections threads may only change what a relation between states forgets.
Then any interleaving does what the threads do one after the other, in the order in which
they have held the lock.
-/

/-- What a thread does before, inside and after its critical section; `accept` is what the main
thread does before it creates one. -/
structure ThreadCode (σ ι ρ τ ω : Type) where
  accept : Program σ Unit
  prepare : ι → Program σ ρ
  critical : ρ → Program σ τ
  finish : τ → Program σ ω

inductive Phase (ρ τ ω : Type) where
  | created
  | ready (value : ρ)
  | holding (value : ρ)
  | leaving (result : τ)
  | left (result : τ)
  | done (output : ω)

structure Thread (ι ρ τ ω : Type) where
  input : ι
  phase : Phase ρ τ ω

structure Process (σ ι ρ τ ω : Type) where
  shared : σ
  lock : Option Nat
  threads : List (Thread ι ρ τ ω)

/-- What is seen of a run: the threads that are created, and those that pass through their
critical sections. -/
inductive Event (ι : Type) where
  | admitted (input : ι)
  | served (thread : Nat) (input : ι)
deriving DecidableEq

variable {σ ι ρ τ ω : Type}

namespace ThreadCode

variable (code : ThreadCode σ ι ρ τ ω) (same : σ → σ → Prop)

/-- A thread that is not interrupted. -/
def whole (input : ι) : Program σ ω := do
  let value ← code.prepare input
  let result ← code.critical value
  code.finish result

/-- One step of some thread, or a change that `same` forgets. -/
inductive Step (process : Process σ ι ρ τ ω) : List (Event ι) → Process σ ι ρ τ ω → Prop where
  | accept {shared : σ} (input : ι) (ran : code.accept process.shared = .returned () shared) :
      Step process [.admitted input]
        { process with shared, threads := process.threads ++ [⟨input, .created⟩] }
  | drift {shared : σ} (drifted : same process.shared shared) :
      Step process [] { process with shared }
  | prepare {index : Nat} {input : ι} {value : ρ} {shared : σ}
      (turn : process.threads[index]? = some ⟨input, .created⟩)
      (ran : code.prepare input process.shared = .returned value shared) :
      Step process []
        { process with shared, threads := process.threads.set index ⟨input, .ready value⟩ }
  | lock {index : Nat} {input : ι} {value : ρ} (free : process.lock = none)
      (turn : process.threads[index]? = some ⟨input, .ready value⟩) :
      Step process []
        { process with
          lock := some index, threads := process.threads.set index ⟨input, .holding value⟩ }
  | critical {index : Nat} {input : ι} {value : ρ} {result : τ} {shared : σ}
      (turn : process.threads[index]? = some ⟨input, .holding value⟩)
      (ran : code.critical value process.shared = .returned result shared) :
      Step process [.served index input]
        { process with shared, threads := process.threads.set index ⟨input, .leaving result⟩ }
  | unlock {index : Nat} {input : ι} {result : τ}
      (turn : process.threads[index]? = some ⟨input, .leaving result⟩) :
      Step process []
        { process with lock := none, threads := process.threads.set index ⟨input, .left result⟩ }
  | finish {index : Nat} {input : ι} {result : τ} {output : ω} {shared : σ}
      (turn : process.threads[index]? = some ⟨input, .left result⟩)
      (ran : code.finish result process.shared = .returned output shared) :
      Step process []
        { process with shared, threads := process.threads.set index ⟨input, .done output⟩ }

/-- The next step of some thread is a trap, which ends the whole process. -/
inductive Stops (process : Process σ ι ρ τ ω) : Trap → Prop where
  | accept {trap : Trap} {shared : σ} (ran : code.accept process.shared = .trapped trap shared) :
      Stops process trap
  | prepare {index : Nat} {input : ι} {trap : Trap} {shared : σ}
      (turn : process.threads[index]? = some ⟨input, .created⟩)
      (ran : code.prepare input process.shared = .trapped trap shared) : Stops process trap
  | critical {index : Nat} {input : ι} {value : ρ} {trap : Trap} {shared : σ}
      (turn : process.threads[index]? = some ⟨input, .holding value⟩)
      (ran : code.critical value process.shared = .trapped trap shared) : Stops process trap
  | finish {index : Nat} {input : ι} {result : τ} {trap : Trap} {shared : σ}
      (turn : process.threads[index]? = some ⟨input, .left result⟩)
      (ran : code.finish result process.shared = .trapped trap shared) : Stops process trap

/-- Steps in any order. -/
inductive Run (first : Process σ ι ρ τ ω) : List (Event ι) → Process σ ι ρ τ ω → Prop where
  | start : Run first [] first
  | step {events more : List (Event ι)} {process later : Process σ ι ρ τ ω}
      (run : Run first events process) (step : code.Step same process more later) :
      Run first (events ++ more) later

/-- Threads that run one after the other. -/
inductive Serial (first : σ) : List (Event ι) → List (Nat × ω) → σ → Prop where
  | start : Serial first [] [] first
  | admitted {events : List (Event ι)} {outputs : List (Nat × ω)} {state after : σ}
      (serial : Serial first events outputs state) (input : ι)
      (ran : code.accept state = .returned () after) :
      Serial first (events ++ [.admitted input]) outputs after
  | served {events : List (Event ι)} {outputs : List (Nat × ω)} {state after : σ} {input : ι}
      {output : ω} (serial : Serial first events outputs state) (index : Nat)
      (ran : code.whole input state = .returned output after) :
      Serial first (events ++ [.served index input]) (outputs ++ [(index, output)]) after

/-- Outside of the critical section nothing depends on the shared state, and what is changed
there is forgotten; a thread that has left its section does not fail any more. -/
structure Discreet : Prop where
  admits : Alike same code.accept code.accept
  prepares : ∀ input, ∃ prepared : Except Trap ρ, ∀ state image, same state image →
    (code.prepare input state).result = prepared ∧ same (code.prepare input state).state image
  enters : ∀ value, Alike same (code.critical value) (code.critical value)
  finishes : ∀ value state result after, code.critical value state = .returned result after →
    ∃ output, ∀ state image, same state image →
      ∃ ended, code.finish result state = .returned output ended ∧ same ended image

end ThreadCode

/-- A process without threads. -/
def Process.idle (shared : σ) : Process σ ι ρ τ ω := ⟨shared, none, []⟩

/-- The thread is between its entrance to the critical section and its exit. -/
def Phase.Inside : Phase ρ τ ω → Prop
  | .holding _ | .leaving _ => True
  | _ => False

/-- The number of steps that a thread still has to take. -/
def Phase.remaining : Phase ρ τ ω → Nat
  | .created => 5
  | .ready _ => 4
  | .holding _ => 3
  | .leaving _ => 2
  | .left _ => 1
  | .done _ => 0

def Process.remaining (process : Process σ ι ρ τ ω) : Nat :=
  process.threads.foldr (fun thread steps => thread.phase.remaining + steps) 0

namespace ThreadCode

variable {code : ThreadCode σ ι ρ τ ω} {same : σ → σ → Prop}
  {first process later : Process σ ι ρ τ ω} {events more : List (Event ι)}

theorem Run.trans (left : code.Run same first events process) (right : code.Run same process more later) :
    code.Run same first (events ++ more) later := by
  induction right with
  | start => rwa [List.append_nil]
  | step _ step ih =>
      rw [← List.append_assoc]
      exact .step ih step

section Alone

variable {index : Nat} {input : ι} {value : ρ} {output : ω} {shared : σ}

/-- A thread that is not disturbed on its way to its critical section. -/
theorem Run.enter (free : process.lock = none)
    (turn : process.threads[index]? = some ⟨input, .created⟩)
    (prepared : code.prepare input process.shared = .returned value shared) :
    code.Run same process []
      ⟨shared, some index, process.threads.set index ⟨input, .holding value⟩⟩ := by
  have bound := (List.getElem?_eq_some_iff.mp turn).1
  have begun : code.Run same process [] process := .start
  have ready := begun.step (.prepare turn prepared)
  have entered := ready.step (.lock free (List.getElem?_set_self bound))
  rw [List.set_set] at entered
  exact entered

/-- A thread that is not disturbed at all. -/
theorem Run.whole (free : process.lock = none)
    (turn : process.threads[index]? = some ⟨input, .created⟩)
    (ran : code.whole input process.shared = .returned output shared) :
    code.Run same process [.served index input]
      ⟨shared, none, process.threads.set index ⟨input, .done output⟩⟩ := by
  obtain ⟨value, ready, prepared, ran⟩ := bind_eq_returned.mp ran
  obtain ⟨result, middle, entered, finished⟩ := bind_eq_returned.mp ran
  have bound := (List.getElem?_eq_some_iff.mp turn).1
  have here {phase : Phase ρ τ ω} :
      (process.threads.set index ⟨input, phase⟩)[index]? = some ⟨input, phase⟩ :=
    List.getElem?_set_self bound
  have waited : code.Run same process [] _ := .enter free turn prepared
  have passed := waited.step (.critical here entered)
  rw [List.set_set] at passed
  have unlocked := passed.step (.unlock here)
  rw [List.set_set] at unlocked
  have ended := unlocked.step (.finish here finished)
  rw [List.set_set] at ended
  exact ended

end Alone

/-- What holds at the start and is kept by every step holds throughout. -/
theorem Run.invariant {invariant : Process σ ι ρ τ ω → Prop} (run : code.Run same first events process)
    (start : invariant first)
    (kept : ∀ before more after, invariant before → code.Step same before more after → invariant after) :
    invariant process := by
  induction run with
  | start => exact start
  | step _ step ih => exact kept _ _ _ ih step

/-- Every thread has been created with its input. -/
theorem Run.admitted {shared : σ} (run : code.Run same (.idle shared) events process) :
    ∀ thread ∈ process.threads, .admitted thread.input ∈ events := by
  induction run with
  | start => simp [Process.idle]
  | @step events more process later _ step ih =>
      have kept {index : Nat} {input : ι} {phase next : Phase ρ τ ω}
          (turn : process.threads[index]? = some ⟨input, phase⟩) :
          ∀ thread ∈ process.threads.set index ⟨input, next⟩, .admitted thread.input ∈ events ++ more := by
        intro thread member
        rcases List.mem_or_eq_of_mem_set member with old | rfl
        · exact List.mem_append_left _ (ih thread old)
        · exact List.mem_append_left _ (ih ⟨input, phase⟩ (List.mem_of_getElem? turn))
      cases step with
      | accept input ran =>
          intro thread member
          rcases List.mem_append.mp member with old | new
          · exact List.mem_append_left _ (ih thread old)
          · rw [List.mem_singleton.mp new]
            exact List.mem_append_right _ (List.mem_singleton_self _)
      | drift drifted => exact fun thread member => List.mem_append_left _ (ih thread member)
      | prepare turn ran => exact kept turn
      | lock free turn => exact kept turn
      | critical turn ran => exact kept turn
      | unlock turn => exact kept turn
      | finish turn ran => exact kept turn

/-- What a thread carries with it, if each of its steps passes it on. -/
theorem Run.carries {shared : σ} {carries : ι → Phase ρ τ ω → Prop}
    (run : code.Run same (.idle shared) events process)
    (created : ∀ input, carries input .created)
    (prepared : ∀ input state value after,
      code.prepare input state = .returned value after → carries input (.ready value))
    (locked : ∀ input value, carries input (.ready value) → carries input (.holding value))
    (passed : ∀ input value state result after, carries input (.holding value) →
      code.critical value state = .returned result after → carries input (.leaving result))
    (unlocked : ∀ input result, carries input (.leaving result) → carries input (.left result))
    (finished : ∀ input result state output after, carries input (.left result) →
      code.finish result state = .returned output after → carries input (.done output)) :
    ∀ thread ∈ process.threads, carries thread.input thread.phase := by
  let all (process : Process σ ι ρ τ ω) : Prop :=
    ∀ thread ∈ process.threads, carries thread.input thread.phase
  have start : all (.idle shared) := by simp [all, Process.idle]
  refine (run.invariant start fun before more after all step => ?_ : all process)
  have set {index : Nat} {input : ι} {phase next : Phase ρ τ ω}
      (turn : before.threads[index]? = some ⟨input, phase⟩)
      (passes : carries input phase → carries input next) :
      ∀ thread ∈ before.threads.set index ⟨input, next⟩, carries thread.input thread.phase := by
    intro thread member
    rcases List.mem_or_eq_of_mem_set member with old | rfl
    · exact all thread old
    · exact passes (all ⟨input, phase⟩ (List.mem_of_getElem? turn))
  cases step with
  | accept input ran =>
      intro thread member
      rcases List.mem_append.mp member with old | new
      · exact all thread old
      · rw [List.mem_singleton.mp new]
        exact created input
  | drift drifted => exact all
  | prepare turn ran => exact set turn fun _ => prepared _ _ _ _ ran
  | lock free turn => exact set turn (locked _ _)
  | critical turn ran => exact set turn fun before => passed _ _ _ _ _ before ran
  | unlock turn => exact set turn (unlocked _ _)
  | finish turn ran => exact set turn fun before => finished _ _ _ _ _ before ran

/-! ## Mutual exclusion -/

/-- The lock belongs to the thread that is in its critical section. -/
def Guarded (process : Process σ ι ρ τ ω) : Prop :=
  ∀ index, process.lock = some index ↔
    ∃ thread, process.threads[index]? = some thread ∧ thread.phase.Inside

section Guarded

variable {index : Nat} {thread next : Thread ι ρ τ ω} {lock : Option Nat}
  {threads : List (Thread ι ρ τ ω)}

theorem getElem?_set_of_turn (turn : threads[index]? = some thread) (other : Nat) :
    (threads.set index next)[other]? = if other = index then some next else threads[other]? := by
  have bound := (List.getElem?_eq_some_iff.mp turn).1
  by_cases here : other = index
  · subst here
    rw [if_pos rfl, List.getElem?_set_self bound]
  · rw [if_neg here, List.getElem?_set_ne (Ne.symm here)]

/-- A step of a thread keeps the lock in order if it takes or leaves it as it changes its phase. -/
theorem Guarded.set {shared : σ} (guarded : Guarded process)
    (turn : process.threads[index]? = some thread)
    (own : lock = some index ↔ next.phase.Inside)
    (others : ∀ other, other ≠ index → (lock = some other ↔ process.lock = some other)) :
    Guarded ⟨shared, lock, process.threads.set index next⟩ := by
  intro other
  simp only [getElem?_set_of_turn turn]
  by_cases here : other = index
  · subst here
    simp only [if_true, Option.some.injEq, exists_eq_left']
    exact own
  · simp only [if_neg here]
    exact (others other here).trans (guarded other)

theorem Guarded.of_turn (guarded : Guarded process)
    (turn : process.threads[index]? = some thread) :
    process.lock = some index ↔ thread.phase.Inside := by
  rw [guarded index]
  constructor
  · rintro ⟨found, there, inside⟩
    rw [turn] at there
    cases there
    exact inside
  · intro inside
    exact ⟨thread, turn, inside⟩

/-- A step inside or outside of the critical section has nothing to do with the lock. -/
theorem Guarded.still {shared : σ} (guarded : Guarded process)
    (turn : process.threads[index]? = some thread)
    (stays : thread.phase.Inside ↔ next.phase.Inside) :
    Guarded ⟨shared, process.lock, process.threads.set index next⟩ :=
  guarded.set turn ((guarded.of_turn turn).trans stays) fun _ _ => .rfl

theorem Step.guarded (guarded : Guarded process) (step : code.Step same process more later) :
    Guarded later := by
  cases step with
  | accept input ran =>
      intro index
      rw [guarded index]
      constructor
      · rintro ⟨thread, there, inside⟩
        refine ⟨thread, ?_, inside⟩
        rw [List.getElem?_append_left (List.getElem?_eq_some_iff.mp there).1]
        exact there
      · rintro ⟨thread, there, inside⟩
        rcases Nat.lt_or_ge index process.threads.length with old | new
        · rw [List.getElem?_append_left old] at there
          exact ⟨thread, there, inside⟩
        · rw [List.getElem?_append_right new] at there
          have created := List.mem_singleton.mp (List.mem_of_getElem? there)
          rw [created] at inside
          cases inside
  | drift drifted => exact guarded
  | prepare turn ran => exact guarded.still turn .rfl
  | lock free turn =>
      refine guarded.set turn (by simp [Phase.Inside]) fun other different => ?_
      rw [free]
      simp [Ne.symm different]
  | critical turn ran => exact guarded.still turn .rfl
  | unlock turn =>
      have held := (guarded.of_turn turn).mpr trivial
      refine guarded.set turn (by simp [Phase.Inside]) fun other different => ?_
      rw [held]
      simp [Ne.symm different]
  | finish turn ran => exact guarded.still turn .rfl

theorem Run.guarded {shared : σ} (run : code.Run same (.idle shared) events process) :
    Guarded process := by
  refine run.invariant ?_ fun _ _ _ guarded step => step.guarded guarded
  intro index
  simp [Process.idle]

/-- In any interleaving at most one thread is in its critical section. -/
theorem Run.exclusive {shared : σ} {other : Nat} {rival : Thread ι ρ τ ω}
    (run : code.Run same (.idle shared) events process)
    (turn : process.threads[index]? = some thread) (inside : thread.phase.Inside)
    (turnOther : process.threads[other]? = some rival) (insideOther : rival.phase.Inside) :
    index = other := by
  have held := (run.guarded index).mpr ⟨thread, turn, inside⟩
  have heldOther := (run.guarded other).mpr ⟨rival, turnOther, insideOther⟩
  rw [held] at heldOther
  exact Option.some.inj heldOther

end Guarded

/-! ## Threads one after the other -/

/-- What is known of a thread when some threads, perhaps with it, have been served. -/
inductive Sound (code : ThreadCode σ ι ρ τ ω) (same : σ → σ → Prop) (outputs : List (Nat × ω))
    (index : Nat) (input : ι) : Phase ρ τ ω → Prop where
  | created (unserved : ∀ output, (index, output) ∉ outputs) :
      Sound code same outputs index input .created
  | ready {value : ρ} (unserved : ∀ output, (index, output) ∉ outputs)
      (prepared : ∀ state image, same state image → (code.prepare input state).result = .ok value) :
      Sound code same outputs index input (.ready value)
  | holding {value : ρ} (unserved : ∀ output, (index, output) ∉ outputs)
      (prepared : ∀ state image, same state image → (code.prepare input state).result = .ok value) :
      Sound code same outputs index input (.holding value)
  | leaving {result : τ} {output : ω} (served : (index, output) ∈ outputs)
      (gives : ∀ state image, same state image →
        ∃ ended, code.finish result state = .returned output ended ∧ same ended image) :
      Sound code same outputs index input (.leaving result)
  | left {result : τ} {output : ω} (served : (index, output) ∈ outputs)
      (gives : ∀ state image, same state image →
        ∃ ended, code.finish result state = .returned output ended ∧ same ended image) :
      Sound code same outputs index input (.left result)
  | done {output : ω} (served : (index, output) ∈ outputs) :
      Sound code same outputs index input (.done output)

/-- A process and the threads that have been served, run one after the other. -/
structure Serialized (code : ThreadCode σ ι ρ τ ω) (same : σ → σ → Prop) (first : σ)
    (events : List (Event ι)) (outputs : List (Nat × ω)) (state : σ) (process : Process σ ι ρ τ ω) :
    Prop where
  serial : code.Serial first events outputs state
  agrees : same process.shared state
  once : (outputs.map Prod.fst).Nodup
  sound : ∀ index thread, process.threads[index]? = some thread →
    Sound code same outputs index thread.input thread.phase
  known : ∀ index output, (index, output) ∈ outputs →
    ∃ thread, process.threads[index]? = some thread ∧ .served index thread.input ∈ events
  asked : ∀ index input, .served index input ∈ events →
    ∃ phase, process.threads[index]? = some ⟨input, phase⟩

section Serialized

variable {start state shared : σ} {outputs : List (Nat × ω)} {index : Nat} {input : ι}
  {phase next : Phase ρ τ ω} {lock : Option Nat}

/-- A thread that goes on without being served. -/
theorem Serialized.advance (serialized : Serialized code same start events outputs state process)
    (turn : process.threads[index]? = some ⟨input, phase⟩) (agrees : same shared state)
    (sound : Sound code same outputs index input next) :
    Serialized code same start events outputs state
      ⟨shared, lock, process.threads.set index ⟨input, next⟩⟩ where
  serial := serialized.serial
  agrees := agrees
  once := serialized.once
  sound other thread there := by
    rw [getElem?_set_of_turn turn] at there
    split at there
    · rename_i here
      cases there
      exact here ▸ sound
    · exact serialized.sound other thread there
  known other output member := by
    obtain ⟨thread, there, event⟩ := serialized.known other output member
    rw [getElem?_set_of_turn turn]
    by_cases here : other = index
    · subst here
      rw [turn] at there
      cases there
      exact ⟨_, if_pos rfl, event⟩
    · exact ⟨thread, (if_neg here).trans there, event⟩
  asked other given event := by
    obtain ⟨old, there⟩ := serialized.asked other given event
    rw [getElem?_set_of_turn turn]
    by_cases here : other = index
    · subst here
      rw [turn] at there
      cases there
      exact ⟨next, if_pos rfl⟩
    · exact ⟨old, (if_neg here).trans there⟩

/-- That another thread is served changes nothing for a thread. -/
theorem Sound.served_other {fresh : Nat × ω} (sound : Sound code same outputs index input phase)
    (other : fresh.1 ≠ index) : Sound code same (outputs ++ [fresh]) index input phase := by
  have unserved (before : ∀ output, (index, output) ∉ outputs) (output : ω) :
      (index, output) ∉ outputs ++ [fresh] := by
    intro member
    rcases List.mem_append.mp member with old | new
    · exact before output old
    · rw [List.mem_singleton] at new
      exact other (by rw [← new])
  cases sound with
  | created before => exact .created (unserved before)
  | ready before prepared => exact .ready (unserved before) prepared
  | holding before prepared => exact .holding (unserved before) prepared
  | leaving served gives => exact .leaving (List.mem_append_left _ served) gives
  | left served gives => exact .left (List.mem_append_left _ served) gives
  | done served => exact .done (List.mem_append_left _ served)

theorem Serialized.idle (agrees : same start start) :
    Serialized code same start [] [] start (.idle start) where
  serial := .start
  agrees := agrees
  once := .nil
  sound := by simp [Process.idle]
  known := by simp
  asked := by simp

/-- No more threads have been served than there are. -/
theorem Serialized.indices (serialized : Serialized code same start events outputs state process) :
    outputs.map Prod.fst ⊆ List.range process.threads.length := by
  intro index member
  obtain ⟨⟨_, output⟩, served, rfl⟩ := List.mem_map.mp member
  obtain ⟨thread, there, _⟩ := serialized.known _ output served
  exact List.mem_range.mpr (List.getElem?_eq_some_iff.mp there).1

theorem Serialized.length_le (serialized : Serialized code same start events outputs state process) :
    outputs.length ≤ process.threads.length := by
  have bound := List.Nodup.length_le_of_subset serialized.once serialized.indices
  rwa [List.length_map, List.length_range] at bound

/-- A thread that has not been served leaves room for its output. -/
theorem Serialized.length_lt (serialized : Serialized code same start events outputs state process)
    {thread : Thread ι ρ τ ω} (turn : process.threads[index]? = some thread)
    (unserved : ∀ output, (index, output) ∉ outputs) : outputs.length < process.threads.length := by
  have fresh : index ∉ outputs.map Prod.fst := by
    intro member
    obtain ⟨⟨_, output⟩, served, rfl⟩ := List.mem_map.mp member
    exact unserved output served
  have here := List.mem_range.mpr (List.getElem?_eq_some_iff.mp turn).1
  have bound := List.Nodup.length_le_of_subset (List.nodup_cons.mpr ⟨fresh, serialized.once⟩)
    (List.cons_subset.mpr ⟨here, serialized.indices⟩)
  rw [List.length_cons, List.length_map, List.length_range] at bound
  exact bound

theorem Serialized.accept (discreet : code.Discreet same)
    (serialized : Serialized code same start events outputs state process)
    (ran : code.accept process.shared = .returned () shared) :
    ∃ after, Serialized code same start (events ++ [.admitted input]) outputs after
      { process with shared, threads := process.threads ++ [⟨input, .created⟩] } := by
  have alike := discreet.admits serialized.agrees
  rw [ran] at alike
  obtain ⟨after, again, agrees⟩ := alike.of_returned
  have old {index : Nat} {thread : Thread ι ρ τ ω} (there : process.threads[index]? = some thread) :
      (process.threads ++ [⟨input, .created⟩])[index]? = some thread := by
    rw [List.getElem?_append_left (List.getElem?_eq_some_iff.mp there).1]
    exact there
  refine ⟨after, .admitted serialized.serial input again, agrees, serialized.once, ?_, ?_, ?_⟩
  · intro index thread there
    rcases Nat.lt_or_ge index process.threads.length with before | new
    · rw [List.getElem?_append_left before] at there
      exact serialized.sound index thread there
    · rw [List.getElem?_append_right new] at there
      rw [List.mem_singleton.mp (List.mem_of_getElem? there)]
      refine .created fun output member => ?_
      obtain ⟨_, known, _⟩ := serialized.known index output member
      exact Nat.not_le_of_lt (List.getElem?_eq_some_iff.mp known).1 new
  · intro index output member
    obtain ⟨thread, there, event⟩ := serialized.known index output member
    exact ⟨thread, old there, List.mem_append_left _ event⟩
  · intro index given event
    rcases List.mem_append.mp event with before | new
    · obtain ⟨phase, there⟩ := serialized.asked index given before
      exact ⟨phase, old there⟩
    · simp at new

variable [Std.Symm same]

/-- When a thread passes through its section, it is as if it ran as a whole at that moment. -/
theorem Serialized.serve {value : ρ} {result : τ} (discreet : code.Discreet same)
    (serialized : Serialized code same start events outputs state process)
    (turn : process.threads[index]? = some ⟨input, .holding value⟩)
    (ran : code.critical value process.shared = .returned result shared) :
    ∃ output after, Serialized code same start (events ++ [.served index input])
      (outputs ++ [(index, output)]) after
      { process with shared, threads := process.threads.set index ⟨input, .leaving result⟩ } := by
  have agrees := symm_of same serialized.agrees
  cases serialized.sound index _ turn with
  | holding unserved prepared =>
      -- the thread prepares, in the state of the others, what it has prepared before
      obtain ⟨_, prepares⟩ := discreet.prepares input
      obtain ⟨_, quiet⟩ := prepares state process.shared agrees
      obtain ⟨before, prepareRan⟩ := Outcome.result_eq_ok.mp (prepared state process.shared agrees)
      rw [prepareRan, Outcome.state_returned] at quiet
      -- then it passes through its section as it has done
      have alike := discreet.enters value (symm_of same quiet)
      rw [ran] at alike
      obtain ⟨between, criticalRan, close⟩ := alike.of_returned
      -- and what it finishes with is settled
      obtain ⟨output, gives⟩ := discreet.finishes value _ result _ ran
      obtain ⟨after, finishRan, near⟩ := gives between shared (symm_of same close)
      have whole : code.whole input state = .returned output after := by
        simp only [whole, run_bind, prepareRan, criticalRan, finishRan]
      refine ⟨output, after, .served serialized.serial index whole, symm_of same near, ?_, ?_, ?_, ?_⟩
      · rw [List.map_append, List.nodup_append]
        refine ⟨serialized.once, List.pairwise_singleton _ _, ?_⟩
        rintro _ member _ only rfl
        obtain ⟨⟨_, earlier⟩, inside, rfl⟩ := List.mem_map.mp member
        rw [List.map_singleton, List.mem_singleton] at only
        cases only
        exact unserved earlier inside
      · intro other thread there
        rw [getElem?_set_of_turn turn] at there
        split at there
        · rename_i here
          cases there
          subst here
          exact .leaving (List.mem_append_right _ (List.mem_singleton_self _)) gives
        · rename_i different
          exact (serialized.sound other thread there).served_other (Ne.symm different)
      · intro other given member
        rw [getElem?_set_of_turn turn]
        rcases List.mem_append.mp member with old | new
        · obtain ⟨thread, there, event⟩ := serialized.known other given old
          have different : other ≠ index := fun here => unserved given (here ▸ old)
          exact ⟨thread, (if_neg different).trans there, List.mem_append_left _ event⟩
        · cases List.mem_singleton.mp new
          exact ⟨_, if_pos rfl, List.mem_append_right _ (List.mem_singleton_self _)⟩
      · intro other given event
        rw [getElem?_set_of_turn turn]
        by_cases here : other = index
        · rw [if_pos here]
          rcases List.mem_append.mp event with old | new
          · obtain ⟨phase, there⟩ := serialized.asked other given old
            rw [here, turn] at there
            cases there
            exact ⟨_, rfl⟩
          · cases List.mem_singleton.mp new
            exact ⟨_, rfl⟩
        · rcases List.mem_append.mp event with old | new
          · obtain ⟨phase, there⟩ := serialized.asked other given old
            exact ⟨phase, (if_neg here).trans there⟩
          · cases List.mem_singleton.mp new
            exact absurd rfl here

variable [IsTrans σ same]

/-- Every step of an interleaving is a step of the threads one after the other, or none. -/
theorem Step.serialized (discreet : code.Discreet same)
    (serialized : Serialized code same start events outputs state process)
    (step : code.Step same process more later) :
    ∃ fresh after, Serialized code same start (events ++ more) (outputs ++ fresh) after later := by
  have quietly {after : Process σ ι ρ τ ω}
      (kept : Serialized code same start events outputs state after) :
      ∃ fresh last, Serialized code same start (events ++ []) (outputs ++ fresh) last after :=
    ⟨[], state, by rwa [List.append_nil, List.append_nil]⟩
  cases step with
  | accept input ran =>
      obtain ⟨after, admitted⟩ := serialized.accept discreet ran
      exact ⟨[], after, by rwa [List.append_nil]⟩
  | drift drifted =>
      have agrees := trans_of same (symm_of same drifted) serialized.agrees
      exact quietly ⟨serialized.serial, agrees, serialized.once, serialized.sound, serialized.known,
        serialized.asked⟩
  | @prepare index input value shared turn ran =>
      obtain ⟨prepared, prepares⟩ := discreet.prepares input
      obtain ⟨result, quiet⟩ := prepares process.shared state serialized.agrees
      rw [ran] at result quiet
      cases result
      cases serialized.sound index _ turn with
      | created unserved =>
          exact quietly (serialized.advance turn quiet
            (.ready unserved fun _ _ close => (prepares _ _ close).1))
  | lock free turn =>
      cases serialized.sound _ _ turn with
      | ready unserved prepared =>
          exact quietly (serialized.advance turn serialized.agrees (.holding unserved prepared))
  | critical turn ran =>
      obtain ⟨output, after, served⟩ := serialized.serve discreet turn ran
      exact ⟨[_], after, served⟩
  | unlock turn =>
      cases serialized.sound _ _ turn with
      | leaving served gives =>
          exact quietly (serialized.advance turn serialized.agrees (.left served gives))
  | finish turn ran =>
      cases serialized.sound _ _ turn with
      | left served gives =>
          obtain ⟨ended, finished, close⟩ := gives process.shared state serialized.agrees
          rw [ran] at finished
          cases finished
          exact quietly (serialized.advance turn close (.done served))

theorem Run.serialized (discreet : code.Discreet same)
    (serialized : Serialized code same start events outputs state process)
    (run : code.Run same process more later) :
    ∃ fresh after, Serialized code same start (events ++ more) (outputs ++ fresh) after later := by
  induction run with
  | start => exact ⟨[], state, by rwa [List.append_nil, List.append_nil]⟩
  | step _ step ih =>
      obtain ⟨fresh, middle, reached⟩ := ih
      obtain ⟨other, last, ended⟩ := step.serialized discreet reached
      rw [List.append_assoc, List.append_assoc] at ended
      exact ⟨fresh ++ other, last, ended⟩

end Serialized

/-! ## Progress -/

section Progress

variable {index : Nat} {input : ι} {phase next : Phase ρ τ ω} {shared : σ} {lock : Option Nat}

theorem remaining_set (turn : process.threads[index]? = some ⟨input, phase⟩) :
    Process.remaining ⟨shared, lock, process.threads.set index ⟨input, next⟩⟩ + phase.remaining =
      process.remaining + next.remaining := by
  obtain ⟨shared, lock, threads⟩ := process
  simp only [Process.remaining] at turn ⊢
  induction threads generalizing index with
  | nil => simp at turn
  | cons thread threads ih =>
      cases index with
      | zero =>
          simp only [List.getElem?_cons_zero, Option.some.injEq] at turn
          subst turn
          simp only [List.set_cons_zero, List.foldr_cons]
          omega
      | succ index =>
          have rest := ih turn
          simp only [List.set_cons_succ, List.foldr_cons]
          omega

/-- A step that brings some thread further, and creates none. -/
def Advances (code : ThreadCode σ ι ρ τ ω) (same : σ → σ → Prop) (process later : Process σ ι ρ τ ω) :
    Prop :=
  ∃ more, code.Step same process more later ∧ later.remaining < process.remaining ∧
    later.threads.length = process.threads.length ∧ ∀ input, .admitted input ∉ more

theorem Step.advances {more : List (Event ι)} (served : ∀ input, .admitted input ∉ more)
    (turn : process.threads[index]? = some ⟨input, phase⟩)
    (step : code.Step same process more
      ⟨shared, lock, process.threads.set index ⟨input, next⟩⟩)
    (further : next.remaining + 1 = phase.remaining) :
    Advances code same process ⟨shared, lock, process.threads.set index ⟨input, next⟩⟩ := by
  have total : Process.remaining ⟨shared, lock, process.threads.set index ⟨input, next⟩⟩ +
      phase.remaining = process.remaining + next.remaining := remaining_set turn
  exact ⟨more, step, by omega, List.length_set, served⟩

/-- A thread that does not wait for the lock can go on, or it ends the process. -/
theorem advances_of_turn (turn : process.threads[index]? = some ⟨input, phase⟩)
    (unfinished : ∀ output, phase ≠ .done output)
    (free : process.lock = none ∨ ∀ value, phase ≠ .ready value) :
    (∃ trap, code.Stops process trap) ∨ ∃ later, Advances code same process later := by
  cases phase with
  | created =>
      cases ran : code.prepare input process.shared with
      | returned value shared =>
          exact .inr ⟨_, Step.advances (by simp) turn (.prepare turn ran) rfl⟩
      | trapped trap shared => exact .inl ⟨trap, .prepare turn ran⟩
  | ready value =>
      rcases free with free | other
      · exact .inr ⟨_, Step.advances (by simp) turn (.lock free turn) rfl⟩
      · exact absurd rfl (other value)
  | holding value =>
      cases ran : code.critical value process.shared with
      | returned result shared =>
          exact .inr ⟨_, Step.advances (by simp) turn (.critical turn ran) rfl⟩
      | trapped trap shared => exact .inl ⟨trap, .critical turn ran⟩
  | leaving result => exact .inr ⟨_, Step.advances (by simp) turn (.unlock turn) rfl⟩
  | left result =>
      cases ran : code.finish result process.shared with
      | returned output shared =>
          exact .inr ⟨_, Step.advances (by simp) turn (.finish turn ran) rfl⟩
      | trapped trap shared => exact .inl ⟨trap, .finish turn ran⟩
  | done output => exact absurd rfl (unfinished output)

/-- There is no deadlock: when a thread waits for the lock, the one that holds it can go on. -/
theorem Guarded.advances (guarded : Guarded process)
    (turn : process.threads[index]? = some ⟨input, phase⟩)
    (unfinished : ∀ output, phase ≠ .done output) :
    (∃ trap, code.Stops process trap) ∨ ∃ later, Advances code same process later := by
  cases held : process.lock with
  | none => exact advances_of_turn turn unfinished (.inl held)
  | some owner =>
      obtain ⟨⟨given, own⟩, there, inside⟩ := (guarded owner).mp held
      refine advances_of_turn there ?_ (.inr ?_)
      · rintro output rfl
        cases inside
      · rintro value rfl
        cases inside

end Progress

end ThreadCode

end Bmb.Base
