import Bmb.Base.Triple
import Bmb.Persist.Calls

namespace Bmb

open Bmb.Base Bmb.Base.Program Bmb.Posix

/-! Which calls of `persist_dispatch` leave a stream open. -/

/-- So many directory streams and files are open. -/
abbrev Streams (count : Nat) (world : World) : Prop := world.system.streams = count

/-- A returning program leaves so many streams open besides those that were open before. -/
abbrev Opens {α : Type} (streams : α → Nat) (program : Program World α) : Prop :=
  ∀ count, Triple (Streams count) program (fun value => Streams (count + streams value)) fun _ => True

/-- A returning program leaves as many streams open as there were. -/
abbrev Closes {α : Type} (program : Program World α) : Prop :=
  ∀ count, Triple (Streams count) program (fun _ => Streams count) fun _ => True

namespace Closes

variable {α β : Type}

theorem pure (value : α) : Closes (Pure.pure value : Program World α) :=
  fun _ => Triple.pure fun _ holds => holds

theorem stop (trap : Trap) : Closes (Program.stop trap : Program World α) :=
  fun _ => Triple.stop fun _ _ => trivial

theorem read : Closes (Program.read : Program World World) := fun _ => Triple.read fun _ holds => holds

theorem modify {f : World → World} (same : ∀ world, (f world).system.streams = world.system.streams) :
    Closes (Program.modify f) :=
  fun _ => Triple.modify fun world holds => (same world).trans holds

theorem bind {program : Program World α} {next : α → Program World β} (head : Closes program)
    (tail : ∀ value, Closes (next value)) : Closes (program >>= next) :=
  fun count => Triple.bind (head count) fun value => tail value count

theorem system {call : System → α × System}
    (same : ∀ current, (call current).2.streams = current.streams) : Closes (Bmb.system call) :=
  fun _ world holds => (same world.system).trans holds

end Closes

theorem Opens.bind {α β : Type} {streams : α → Nat} {program : Program World α}
    {next : α → Program World β} (head : Opens streams program)
    (tail : ∀ value count, Triple (Streams (count + streams value)) (next value)
      (fun _ => Streams count) fun _ => True) : Closes (program >>= next) :=
  fun count => Triple.bind (head count) fun value => tail value count

theorem closeStream_closes (count : Nat) :
    Triple (Streams (count + 1)) closeStream (fun _ => Streams count) fun _ => True := by
  intro world holds
  show world.system.streams - 1 = count
  rw [holds, Nat.add_sub_cancel]

theorem memAlloc_closes : Closes memAlloc := .modify fun _ => rfl

theorem memFree_closes : Closes memFree := .modify fun _ => rfl

theorem memFreeNullable_closes {α : Type} (pointer : Option α) : Closes (memFreeNullable pointer) := by
  cases pointer with
  | none => exact .pure ()
  | some value => exact memFree_closes

/-- The stream behind a pointer that may be `NULL`. -/
def streamOf {α : Type} (pointer : Option α) : Nat := if pointer.isSome then 1 else 0

section Functions

variable {env : Environment} {path : Bytes}

/-! ## System calls -/

theorem viaPath_streams {α : Type} {call : Call} {failure : α} {act : Path → α × System}
    {current : System} (streams : α → Nat) (failed : streams failure = 0)
    (acted : ∀ target, (act target).2.streams = current.streams + streams (act target).1) :
    (viaPath env path current call failure act).2.streams =
      current.streams + streams (viaPath env path current call failure act).1 := by
  rcases viaPath_cases env call path current failure act with ⟨target, _, ran⟩ | ⟨_, errno, ran⟩
  · rw [ran, acted target]
  · rw [ran, failed]
    rfl

theorem checkDir_opens : Opens streamOf (checkDir env path) := by
  intro count world holds
  show (opendir env path world.system).2.streams = count + _
  rw [← holds]
  refine viaPath_streams streamOf rfl fun target => ?_
  split <;> rfl

theorem fopenWrite_opens : Opens streamOf (system (fopenWrite env path)) := by
  intro count world holds
  show (fopenWrite env path world.system).2.streams = count + _
  rw [← holds]
  refine viaPath_streams streamOf rfl fun target => ?_
  split <;> rfl

theorem fopenRead_opens : Opens streamOf (system (fopenRead env path)) := by
  intro count world holds
  show (fopenRead env path world.system).2.streams = count + _
  rw [← holds]
  refine viaPath_streams streamOf rfl fun target => ?_
  split <;> rfl

theorem mkdir_closes : Closes (system (mkdir env path)) := by
  refine .system fun current => viaPath_streams (fun _ => 0) rfl fun target => ?_
  split <;> rfl

theorem rmdir_closes : Closes (system (rmdir env path)) := by
  refine .system fun current => viaPath_streams (fun _ => 0) rfl fun target => ?_
  split
  · rfl
  · split
    · split <;> rfl
    · rfl
    · rfl

theorem unlink_closes : Closes (system (unlink env path)) := by
  refine .system fun current => viaPath_streams (fun _ => 0) rfl fun target => ?_
  split <;> rfl

/-! ## The functions of `persist.c` -/

theorem filePath_closes (file : Option Bytes) : Closes (filePath path file) := by
  cases file with
  | none => exact .stop _
  | some name => exact .bind (.modify fun _ => rfl) fun _ => .pure _

theorem persistFailure_closes (part1 : Bytes) : Closes (persistFailure part1) :=
  .bind .read fun _ => .bind (.bind memAlloc_closes fun _ => .pure _) fun _ => .pure _

theorem closeStream_pure {α : Type} (value : α) (count : Nat) :
    Triple (Streams (count + 1)) (do
      closeStream
      pure value) (fun _ => Streams count) fun _ => True :=
  Triple.bind (closeStream_closes count) fun _ => Closes.pure value count

theorem getQueueLength_closes : Closes (getQueueLength env path) := by
  refine checkDir_opens.bind fun opened count => ?_
  cases opened with
  | none => exact Closes.pure 0 count
  | some entries => exact closeStream_pure _ count

theorem readQueue_closes : Closes (readQueue env path) := by
  refine checkDir_opens.bind fun opened count => ?_
  cases opened with
  | none => exact Closes.pure none count
  | some entries =>
      exact Triple.bind (memAlloc_closes (count + 1)) fun _ => closeStream_pure _ count

theorem getNextNodeId_closes : Closes (getNextNodeId env path) := by
  refine .bind getQueueLength_closes fun _ => .bind readQueue_closes fun queue => ?_
  cases queue with
  | none => exact .pure none
  | some queue => exact .bind memAlloc_closes fun _ => .bind memFree_closes fun _ => .pure _

theorem getQueueList_closes : Closes (getQueueList env) := by
  refine checkDir_opens.bind fun opened count => ?_
  cases opened with
  | none => exact Closes.pure none count
  | some entries =>
      refine Triple.bind (closeStream_closes count) fun _ => Closes.bind ?_ (fun _ => ?_) count
      · exact .modify fun _ => rfl
      · exact .pure _

theorem createQueueDir_closes : Closes (createQueueDir env path) := by
  refine checkDir_opens.bind fun opened count => ?_
  cases opened with
  | some entries => exact closeStream_pure true count
  | none =>
      refine Closes.bind .read (fun world => ?_) count
      split
      · exact mkdir_closes
      · exact .pure false

theorem createNodeFile_closes (file content : Option Bytes) :
    Closes (createNodeFile env path file content) := by
  refine .bind (filePath_closes file) fun built => fopenWrite_opens.bind fun stream count => ?_
  cases stream with
  | none => exact Closes.pure false count
  | some stream =>
      refine Triple.bind (Closes.system (fun current => ?_) (count + 1)) fun _ => closeStream_pure true count
      unfold writeContent
      split <;> rfl

theorem readNode_closes (file : Option Bytes) : Closes (readNode env path file) := by
  refine .bind (filePath_closes file) fun built => fopenRead_opens.bind fun stream count => ?_
  cases stream with
  | none => exact Closes.pure none count
  | some content =>
      exact Triple.bind (memAlloc_closes (count + 1)) fun _ => closeStream_pure _ count

theorem removeNode_closes (file : Option Bytes) : Closes (removeNode env path file) :=
  .bind (filePath_closes file) fun _ => unlink_closes

theorem arrayGet_closes (array : Option (List Int)) (index : Nat) : Closes (arrayGet array index) := by
  cases array with
  | none => exact .stop _
  | some ids =>
      unfold arrayGet
      dsimp only
      split
      · exact .stop _
      · exact .pure _

theorem removeNodeFiles_closes (array : Option (List Int)) (index remaining : Nat) :
    Closes (removeNodeFiles env path array index remaining) := by
  induction remaining generalizing index with
  | zero => exact .pure true
  | succ remaining ih =>
      refine .bind (arrayGet_closes _ _) fun id => .bind memAlloc_closes fun _ => ?_
      refine .bind (removeNode_closes _) fun removed => .bind memFree_closes fun _ => ?_
      cases removed with
      | true => exact ih (index + 1)
      | false => exact .pure false

theorem removal_closes : Closes (do
    let nodeFileArr ← readQueue env path
    let queueLength ← getQueueLength env path
    if ← removeNodeFiles env path nodeFileArr 1 queueLength then do
      memFreeNullable nodeFileArr
      system (rmdir env path)
    else pure false) := by
  refine .bind readQueue_closes fun array => .bind getQueueLength_closes fun length => ?_
  refine .bind (removeNodeFiles_closes array 1 length) fun removed => ?_
  cases removed with
  | true => exact .bind (memFreeNullable_closes array) fun _ => rmdir_closes
  | false => exact .pure false

/-- A removal does not close the stream that it has opened first. -/
theorem persistRemoveQueue_streams {world after : World} {removed : Bool}
    (ran : persistRemoveQueue env path world = .returned removed after) :
    (∃ target, CanOpen env path world.system.tree world.system.clock target) ∧
        after.system.streams = world.system.streams + 1 ∨
      (∀ target, ¬CanOpen env path world.system.tree world.system.clock target) ∧
        after.system.streams = world.system.streams := by
  obtain ⟨opened, middle, checked, rest⟩ := bind_eq_returned.mp ran
  have streams := (checkDir_opens world.system.streams).returned rfl checked
  rcases checkDir_run env path world with ⟨target, _, can, same, _⟩ | ⟨cannot, _, same, _⟩
  all_goals
    rw [checked] at same
    cases same
  · exact .inl ⟨⟨target, can⟩, (removal_closes _).returned streams rest⟩
  · cases rest
    exact .inr ⟨cannot, streams⟩

end Functions

/-! ## Requests -/

section Calls

variable {env : Environment} {req : PersistRequest} {world after : World} {res : PersistResponse}

theorem persistAction_closes (path : Bytes) (nodeIdStr : Option Bytes)
    (other : req.type ≠ .removeQueue) : Closes (persistAction env req path nodeIdStr) := by
  unfold persistAction
  split
  · refine .bind createQueueDir_closes fun made => ?_
    cases made with
    | true => exact .pure _
    | false => exact persistFailure_closes _
  · rename_i removal
    exact absurd removal other
  · refine .bind getQueueLength_closes fun _ => .bind readQueue_closes fun queue => ?_
    cases queue with
    | none => exact persistFailure_closes _
    | some queue => exact .pure _
  · refine .bind getQueueList_closes fun queues => ?_
    cases queues with
    | none => exact persistFailure_closes _
    | some queues => exact .pure _
  · refine .bind (createNodeFile_closes _ _) fun made => ?_
    cases made with
    | true => exact .pure _
    | false => exact persistFailure_closes _
  · refine .bind (removeNode_closes _) fun removed => ?_
    cases removed with
    | true => exact .pure _
    | false => exact persistFailure_closes _
  · refine .bind (readNode_closes _) fun content => ?_
    cases content with
    | some content => exact .pure _
    | none => exact persistFailure_closes _
  · refine .bind getNextNodeId_closes fun nextId => ?_
    cases nextId with
    | some nextId => exact .pure _
    | none => exact persistFailure_closes _
  · exact .bind (.bind memAlloc_closes fun _ => .pure _) fun _ => .pure _

theorem persistDispatch_closes (other : req.type ≠ .removeQueue ∨ req.queueName = none) :
    Closes (persistDispatch env req) := by
  have recorded (response : PersistResponse) : Closes (do
      .modify (·.record ⟨req.type, response.success⟩)
      pure response) := .bind (.modify fun _ => rfl) fun _ => .pure response
  unfold persistDispatch
  dsimp only
  split
  · exact .bind (.bind memAlloc_closes fun _ => .pure _) fun _ => .bind (.pure _) recorded
  · rename_i named
    have kind : req.type ≠ .removeQueue := by
      intro removal
      have unnamed := other.resolve_left (not_not.mpr removal)
      rw [removal, unnamed] at named
      exact named rfl
    have finished (path : Bytes) : Closes (do
        let response ← persistAction env req path (nodeIdText req.nodeId)
        memFreeNullable (nodeIdText req.nodeId)
        let response ← pure response
        .modify (·.record ⟨req.type, response.success⟩)
        pure response) :=
      .bind (persistAction_closes path _ kind) fun _ => .bind (memFreeNullable_closes _) fun _ =>
        .bind (.pure _) recorded
    refine .bind (.modify fun _ => rfl) fun _ => ?_
    split
    · exact .bind memAlloc_closes fun _ => finished _
    · exact finished _

/-- The request removes a queue whose directory can be opened. -/
def LeavesOpen (env : Environment) (req : PersistRequest) (world : World) : Prop :=
  req.type = .removeQueue ∧ ∃ name, req.queueName = some name ∧
    ∃ target, CanOpen env (queuePath name) world.system.tree world.system.clock target

theorem removeQueue_streams {name : Bytes} {nodeId : Nat} {data : Option Bytes}
    (ran : persistDispatch env ⟨.removeQueue, some name, nodeId, data⟩ world = .returned res after) :
    (∃ target, CanOpen env (queuePath name) world.system.tree world.system.clock target) ∧
        after.system.streams = world.system.streams + 1 ∨
      (∀ target, ¬CanOpen env (queuePath name) world.system.tree world.system.clock target) ∧
        after.system.streams = world.system.streams := by
  obtain ⟨middle, acted, rfl⟩ := persistDispatch_eq_returned ran
  obtain ⟨removed, first, removal, rest⟩ := bind_eq_returned.mp acted
  have streams := persistRemoveQueue_streams removal
  rw [branchStart_system] at streams
  have ended : ((branchEnd nodeId middle).record ⟨.removeQueue, res.success⟩).system.streams =
      first.system.streams := by
    have kept : middle.system.streams = first.system.streams := by
      cases removed with
      | true =>
          cases rest
          rfl
      | false => exact (persistFailure_closes _ _).returned rfl rest
    rw [← kept]
    unfold branchEnd
    split <;> rfl
  rwa [ended]

/-- A call leaves a stream open exactly if it removes a queue that can be opened. -/
theorem persistDispatch_streams_iff (ran : persistDispatch env req world = .returned res after) :
    after.system.streams = world.system.streams ↔ ¬LeavesOpen env req world := by
  obtain ⟨type, queueName, nodeId, data⟩ := req
  by_cases other : type ≠ .removeQueue ∨ queueName = none
  · have closed := (persistDispatch_closes other world.system.streams).returned rfl ran
    refine iff_of_true closed ?_
    rintro ⟨removal, name, named, _⟩
    rcases other with different | unnamed
    · exact different removal
    · rw [unnamed] at named
      contradiction
  · rw [not_or, not_not] at other
    obtain ⟨rfl, some_⟩ := other
    obtain ⟨name, rfl⟩ := Option.ne_none_iff_exists'.mp some_
    rcases removeQueue_streams ran with ⟨can, more⟩ | ⟨cannot, same⟩
    · refine iff_of_false (by omega) (not_not.mpr ⟨rfl, name, rfl, can⟩)
    · refine iff_of_true same ?_
      rintro ⟨_, _, same, target, can⟩
      cases same
      exact cannot target can

end Calls

/-! ## Runs -/

/-- A call of `persist_dispatch` that has returned. -/
structure PersistStep where
  before : World
  req : PersistRequest
  after : World

/-- Calls of `persist_dispatch` one after the other. -/
inductive PersistRun (env : Environment) (first : World) : List PersistStep → World → Prop where
  | start : PersistRun env first [] first
  | called {steps : List PersistStep} {before after : World} {req : PersistRequest}
      {res : PersistResponse} (run : PersistRun env first steps before)
      (ran : persistDispatch env req before = .returned res after) :
      PersistRun env first (steps ++ [⟨before, req, after⟩]) after

/-- In a run, the calls that leave a stream open are the removals of queues that can be opened. -/
theorem streams_balanced_iff {env : Environment} {first last : World} {steps : List PersistStep}
    (run : PersistRun env first steps last) :
    (∀ step ∈ steps, step.after.system.streams = step.before.system.streams) ↔
      ∀ step ∈ steps, ¬LeavesOpen env step.req step.before := by
  induction run with
  | start => simp
  | called run ran ih =>
      have here := persistDispatch_streams_iff ran
      simp only [List.forall_mem_append, List.forall_mem_singleton, ih, here]

/-- An environment in which nothing fails. -/
def obliging : Environment where
  cwd := []
  fails := fun _ _ => false
  order := fun _ names => names
  order_perm := fun _ _ => .refl _

/-- A world with an empty queue on disk. -/
def oneQueue : World where
  system :=
    { tree := ⟨((AList.insert [] .directory (∅ : AList fun _ : Path => Entry)).insert
        [text "data"] .directory).insert [text "a", text "data"] .directory⟩ }

theorem streams_balanced_iff_computed :
    let req : PersistRequest := ⟨.getNextId, some (text "a"), 0, none⟩
    let steps : List PersistStep := [⟨oneQueue, req, (persistDispatch obliging req oneQueue).state⟩]
    (∀ step ∈ steps, step.after.system.streams = step.before.system.streams) ↔
      ∀ step ∈ steps, ¬LeavesOpen obliging step.req step.before :=
  streams_balanced_iff (.called .start rfl)

/-- The removal of a queue leaves the stream open on which it has checked the directory. -/
theorem removal_leaks_stream :
    ¬∀ steps last, PersistRun obliging oneQueue steps last →
      ∀ step ∈ steps, step.after.system.streams = step.before.system.streams := by
  intro balanced
  have kept := balanced _ _ (.called .start (show persistDispatch obliging
    ⟨.removeQueue, some (text "a"), 0, none⟩ oneQueue = .returned _ _ from rfl)) _
    (List.mem_singleton_self _)
  exact absurd kept (by decide)

end Bmb
