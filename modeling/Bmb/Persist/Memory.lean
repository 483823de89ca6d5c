import Bmb.Base.Triple
import Bmb.Persist.Queues

namespace Bmb

open Bmb.Base Bmb.Base.Program Bmb.Posix

/-! What the functions of `persist.c` leave allocated. -/

/-- The blocks that have been allocated and not been freed. -/
def World.balance (world : World) : Int := world.memAllocated - world.memFreed

/-- A returning program leaves so many more blocks allocated. -/
abbrev Leaves {α : Type} (blocks : α → Int) (program : Program World α) : Prop :=
  Costs World.balance blocks program

/-- The block behind a pointer that may be `NULL`. -/
def blockOf {α : Type} (pointer : Option α) : Int := if pointer.isSome then 1 else 0

@[simp] theorem blockOf_none {α : Type} : blockOf (none : Option α) = 0 := rfl

@[simp] theorem blockOf_some {α : Type} (value : α) : blockOf (some value) = 1 := rfl

namespace World

variable (world : World)

@[simp] theorem balance_allocate (blocks : Nat) :
    (world.allocate blocks).balance = world.balance + blocks := by
  simp only [balance, allocate]
  omega

@[simp] theorem balance_release (blocks : Nat) :
    (world.release blocks).balance = world.balance - blocks := by
  simp only [balance, release]
  omega

@[simp] theorem balance_record (call : PersistCall) : (world.record call).balance = world.balance :=
  rfl

@[simp] theorem balance_build (path : Bytes) : (world.build path).balance = world.balance := rfl

end World

variable {env : Environment} {path name : Bytes}

theorem memAlloc_leaves : Leaves (fun _ => 1) memAlloc := .modify fun world => by simp

theorem memFree_leaves : Leaves (fun _ => -1) memFree := .modify fun world => by simp; omega

theorem memFreeNullable_leaves {α : Type} (pointer : Option α) :
    Leaves (fun _ => -blockOf pointer) (memFreeNullable pointer) := by
  cases pointer with
  | none => exact .pure rfl
  | some value => exact memFree_leaves

theorem system_leaves {α : Type} (call : System → α × System) : Leaves (fun _ => 0) (system call) := by
  intro world value after ran
  cases ran
  exact (Int.add_zero _).symm

theorem filePath_leaves (file : Option Bytes) : Leaves (fun _ => 0) (filePath path file) := by
  cases file with
  | none => exact .stop _
  | some name => exact .bind (.unchanged fun _ => rfl) fun _ => .pure rfl

theorem persistFailure_leaves (part1 : Bytes) : Leaves (fun _ => 1) (persistFailure part1) := by
  intro world res after ran
  cases ran
  simp

theorem getQueueLength_leaves : Leaves (fun _ => 0) (getQueueLength env path) := by
  refine .bind (system_leaves _) fun opened => ?_
  cases opened with
  | none => exact .pure rfl
  | some entries => exact .bind (system_leaves _) fun _ => .pure rfl

theorem readQueue_leaves : Leaves blockOf (readQueue env path) := by
  refine .bind (system_leaves _) fun opened => ?_
  cases opened with
  | none => exact .pure rfl
  | some entries =>
      exact .bind memAlloc_leaves fun _ => .bind (system_leaves _) fun _ => .pure rfl

theorem getNextNodeId_leaves : Leaves blockOf (getNextNodeId env path) := by
  refine .bind getQueueLength_leaves fun _ => .bind readQueue_leaves fun queue => ?_
  cases queue with
  | none => exact .pure rfl
  | some queue =>
      exact .bind memAlloc_leaves fun _ => .bind memFree_leaves fun _ => .pure rfl

theorem createQueueDir_leaves : Leaves (fun _ => 0) (createQueueDir env path) := by
  refine .bind (system_leaves _) fun opened => ?_
  cases opened with
  | some entries => exact .bind (system_leaves _) fun _ => .pure rfl
  | none =>
      refine .bind .read fun seen => ?_
      split
      · exact system_leaves _
      · exact .pure rfl

theorem createNodeFile_leaves (file content : Option Bytes) :
    Leaves (fun _ => 0) (createNodeFile env path file content) := by
  refine .bind (filePath_leaves file) fun built => .bind (system_leaves _) fun stream => ?_
  cases stream with
  | none => exact .pure rfl
  | some stream =>
      exact .bind (system_leaves _) fun _ => .bind (system_leaves _) fun _ => .pure rfl

theorem readNode_leaves (file : Option Bytes) : Leaves blockOf (readNode env path file) := by
  refine .bind (filePath_leaves file) fun built => .bind (system_leaves _) fun content => ?_
  cases content with
  | none => exact .pure rfl
  | some content =>
      exact .bind memAlloc_leaves fun _ => .bind (system_leaves _) fun _ => .pure rfl

theorem removeNode_leaves (file : Option Bytes) : Leaves (fun _ => 0) (removeNode env path file) :=
  .bind (filePath_leaves file) fun _ => system_leaves _

theorem arrayGet_leaves (array : Option (List Int)) (index : Nat) :
    Leaves (fun _ => 0) (arrayGet array index) := by
  cases array with
  | none => exact .stop _
  | some ids =>
      unfold arrayGet
      dsimp only
      split
      · exact .stop _
      · exact .pure rfl

theorem removeNodeFiles_leaves (array : Option (List Int)) (index remaining : Nat) :
    Leaves (fun _ => 0) (removeNodeFiles env path array index remaining) := by
  induction remaining generalizing index with
  | zero => exact .pure rfl
  | succ remaining ih =>
      refine .bind (arrayGet_leaves _ _) fun id => .bind memAlloc_leaves fun _ => ?_
      refine .bind (removeNode_leaves _) fun removed => .bind memFree_leaves fun _ => ?_
      cases removed with
      | true => exact (ih (index + 1)).congr fun _ => rfl
      | false => exact .pure rfl

/-! ## Requests -/

/-- The error message of a refused request. -/
def refusal (res : PersistResponse) : Int := if res.success then 0 else 1

theorem persistFailure_refusal (part1 : Bytes) : Leaves refusal (persistFailure part1) := by
  intro world res after ran
  cases ran
  simp [refusal]

section Calls

variable {nodeId : Nat} {data : Option Bytes}

/-- Around its branch `persist_dispatch` allocates the text of the id and frees it. -/
theorem persistDispatch_balance {type : PersistType} {res : PersistResponse} {world after : World}
    {blocks : Int}
    (action : ∀ middle, persistAction env ⟨type, some name, nodeId, data⟩ (queuePath name)
        (nodeIdText nodeId) (branchStart name nodeId world) = .returned res middle →
      middle.balance = (branchStart name nodeId world).balance + blocks)
    (ran : persistDispatch env ⟨type, some name, nodeId, data⟩ world = .returned res after) :
    after.balance = world.balance + blocks := by
  obtain ⟨middle, acted, rfl⟩ := persistDispatch_eq_returned ran
  have inner := action _ acted
  rw [World.balance_record]
  unfold branchStart at inner
  unfold branchEnd
  split at inner
  · rename_i shown
    rw [if_pos shown, World.balance_release, inner]
    simp only [World.balance_allocate, World.balance_build]
    omega
  · rename_i hidden
    rw [if_neg hidden, inner, World.balance_build]

theorem persistDispatch_leaves {type : PersistType} {blocks : PersistResponse → Int}
    (action : Leaves blocks
      (persistAction env ⟨type, some name, nodeId, data⟩ (queuePath name) (nodeIdText nodeId))) :
    Leaves blocks (persistDispatch env ⟨type, some name, nodeId, data⟩) :=
  fun _ _ _ ran => persistDispatch_balance (fun _ acted => action _ _ _ acted) ran

theorem addQueueCall_leaves :
    Leaves refusal (persistDispatch env ⟨.addQueue, some name, nodeId, data⟩) := by
  refine persistDispatch_leaves (.bind createQueueDir_leaves fun made => ?_)
  cases made with
  | true => exact .pure rfl
  | false => exact (persistFailure_refusal _).congr fun _ => (Int.sub_zero _).symm

theorem addNodeCall_leaves :
    Leaves refusal (persistDispatch env ⟨.addNode, some name, nodeId, data⟩) := by
  refine persistDispatch_leaves (.bind (createNodeFile_leaves _ _) fun made => ?_)
  cases made with
  | true => exact .pure rfl
  | false => exact (persistFailure_refusal _).congr fun _ => (Int.sub_zero _).symm

theorem removeNodeCall_leaves :
    Leaves refusal (persistDispatch env ⟨.removeNode, some name, nodeId, data⟩) := by
  refine persistDispatch_leaves (.bind (removeNode_leaves _) fun removed => ?_)
  cases removed with
  | true => exact .pure rfl
  | false => exact (persistFailure_refusal _).congr fun _ => (Int.sub_zero _).symm

theorem getNextIdCall_leaves :
    Leaves (fun _ => 1) (persistDispatch env ⟨.getNextId, some name, nodeId, data⟩) := by
  refine persistDispatch_leaves (.bind getNextNodeId_leaves fun nextId => ?_)
  cases nextId with
  | some nextId => exact .pure rfl
  | none => exact (persistFailure_leaves _).congr fun _ => rfl

theorem readQueueCall_leaves :
    Leaves (fun _ => 1) (persistDispatch env ⟨.readQueue, some name, nodeId, data⟩) := by
  refine persistDispatch_leaves (.bind getQueueLength_leaves fun _ => .bind readQueue_leaves
    fun queue => ?_)
  cases queue with
  | some queue => exact .pure rfl
  | none => exact (persistFailure_leaves _).congr fun _ => rfl

theorem readNodeCall_leaves :
    Leaves (fun _ => 1) (persistDispatch env ⟨.readNode, some name, nodeId, data⟩) := by
  refine persistDispatch_leaves (.bind (readNode_leaves _) fun content => ?_)
  cases content with
  | some content => exact .pure rfl
  | none => exact (persistFailure_leaves _).congr fun _ => rfl

end Calls

/-- The blocks of a list of names: the array, a copy of each name and the block for their number. -/
def namesBlocks (names : List Name) : Int := names.length + 2

/-- The blocks that an answer to `PERSIST_GET_QUEUE_LIST` refers to. -/
def listBlocks (res : PersistResponse) : Int :=
  match res.data with
  | .queueList names => namesBlocks names
  | _ => 1

theorem getQueueList_leaves :
    Leaves (fun names => names.elim 0 namesBlocks) (getQueueList env) := by
  refine .bind (system_leaves _) fun opened => ?_
  cases opened with
  | none => exact .pure rfl
  | some entries =>
      refine .bind (system_leaves _) fun _ => ?_
      refine .bind (.modify fun world => ?_) fun _ => .pure (Int.sub_self _)
      rw [World.balance_allocate]
      simp [namesBlocks]

theorem getQueueListCall_leaves :
    Leaves listBlocks (persistDispatch env ⟨.getQueueList, none, 0, none⟩) := by
  have branch : Leaves listBlocks
      (persistAction env ⟨.getQueueList, none, 0, none⟩ dataPath (nodeIdText 0)) := by
    refine .bind getQueueList_leaves fun names => ?_
    cases names with
    | none =>
        intro world res after ran
        cases ran
        simp [listBlocks]
    | some names => exact .pure (Int.sub_self _)
  refine .bind (.unchanged fun _ => rfl) fun _ => .bind branch fun res => ?_
  refine .bind (memFreeNullable_leaves _) fun _ => ?_
  refine .bind (show Leaves (fun value => listBlocks value - listBlocks res) (pure res) from
    .pure (Int.sub_self _)) fun _ => ?_
  exact .bind (.unchanged fun _ => rfl) fun _ => .pure (by simp [nodeIdText_zero])

/-! ## Removal -/

/-- No file that a removal finds in a directory refuses to be unlinked. -/
def Unlinkable (env : Environment) (path : Bytes) (tree : FileTree) (time : Nat) : Prop :=
  ∀ ids effects, RemovalIds env path tree time ids → ¬Unlinks env path tree (time + 3) ids effects false

/-- The unlinking of the files that have been listed and counted is left in the middle only
where a file refuses. -/
theorem removeNodeFiles_refused {world first second third fourth : World} {entries : List Name}
    {array : List Int} {length : Nat}
    (checked : checkDir env path world = .returned (some entries) first)
    (listed : readQueue env path first = .returned (some array) second)
    (counted : getQueueLength env path second = .returned length third)
    (looped : removeNodeFiles env path (some array) 1 length third = .returned false fourth) :
    ¬Unlinkable env path world.system.tree world.system.clock := by
  intro unlinkable
  rcases checkDir_run env path world with ⟨_, _, _, same, passed⟩ | ⟨_, _, same, _⟩
  all_goals
    rw [checked] at same
    cases same
  rcases readQueue_run env path first with ⟨target, _, canRead, same, read⟩ | ⟨_, _, same, _⟩
  all_goals
    rw [listed] at same
    cases same
  have sofar := passed.trans read
  rw [passed.tree, passed.system.clock] at canRead looped
  rcases getQueueLength_run env path second with ⟨again, _, canCount, same, count⟩ | ⟨_, _, same, _⟩
  all_goals
    rw [counted] at same
    cases same
  · have whole := sofar.trans count
    rw [sofar.tree, sofar.system.clock] at canCount looped
    have place : again = target := canCount.1.path_eq.trans canRead.1.path_eq.symm
    subst place
    rw [countNodes_entriesAt env _ _ (world.system.clock + 1), ← nodeIds_length] at looped
    obtain ⟨effects, success, _, _, unlinks, ran, _⟩ := removeNodeFiles_run env path
      (nodeList (entriesAt env world.system.tree (world.system.clock + 1) again)) _ 1 third rfl
    rw [whole.tree, whole.system.clock] at unlinks
    have refused := looped.symm.trans ran
    cases refused
    exact unlinkable _ _ (.listed canRead canCount) unlinks
  · cases looped

/-- A removal frees its array of ids unless it is left in the middle. -/
theorem persistRemoveQueue_balance {world after : World} {success : Bool}
    (unlinkable : Unlinkable env path world.system.tree world.system.clock)
    (ran : persistRemoveQueue env path world = .returned success after) :
    after.balance = world.balance := by
  obtain ⟨opened, first, checked, rest⟩ := bind_eq_returned.mp ran
  have free : first.balance = world.balance + 0 := system_leaves _ _ _ _ checked
  cases opened with
  | none =>
      cases rest
      omega
  | some entries =>
      obtain ⟨array, second, listed, rest⟩ := bind_eq_returned.mp rest
      obtain ⟨length, third, counted, rest⟩ := bind_eq_returned.mp rest
      obtain ⟨removed, fourth, looped, rest⟩ := bind_eq_returned.mp rest
      have allocated := readQueue_leaves _ _ _ listed
      have quiet : third.balance = second.balance + 0 := getQueueLength_leaves _ _ _ counted
      have loop : fourth.balance = third.balance + 0 := removeNodeFiles_leaves _ _ _ _ _ _ looped
      cases removed with
      | true =>
          obtain ⟨_, fifth, freed, last⟩ := bind_eq_returned.mp rest
          have released : fifth.balance = fourth.balance + -blockOf array :=
            memFreeNullable_leaves _ _ _ _ freed
          have final : after.balance = fifth.balance + 0 := system_leaves _ _ _ _ last
          omega
      | false =>
          cases array with
          | some array => exact absurd unlinkable (removeNodeFiles_refused checked listed counted looped)
          | none =>
              cases rest
              rw [blockOf_none] at allocated
              omega

theorem removeQueueCall_balance {world after : World} {res : PersistResponse}
    (unlinkable : Unlinkable env (queuePath name) world.system.tree world.system.clock)
    (ran : persistDispatch env ⟨.removeQueue, some name, 0, none⟩ world = .returned res after) :
    after.balance = world.balance + refusal res := by
  refine persistDispatch_balance (fun middle acted => ?_) ran
  obtain ⟨removed, first, removal, rest⟩ := bind_eq_returned.mp acted
  have free := persistRemoveQueue_balance (by rwa [branchStart_system]) removal
  cases removed with
  | true =>
      cases rest
      exact free.trans (Int.add_zero _).symm
  | false => rw [persistFailure_refusal _ _ _ _ rest, free]

end Bmb
