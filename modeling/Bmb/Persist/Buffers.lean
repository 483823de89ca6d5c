import Bmb.Base.Triple
import Bmb.Persist.Queues

namespace Bmb

open Bmb.Base Bmb.Base.Program Bmb.Posix

/-! The arrays of fifty bytes that `persist.c` builds paths in. -/

/-- Every path built so far fits its array with the terminating NUL. -/
def Fits (world : World) : Prop := ∀ path ∈ world.paths, path.length + 1 ≤ 50

/-- The path of a queue directory fits its array. -/
def NameFits (name : Bytes) : Prop := name.length ≤ 42

/-- The path of a node file fits its array. -/
def NodeFits (name : Bytes) (id : Int) : Prop := name.length + (intToString id).length ≤ 41

/-- The paths of a queue directory and of all node files in it fit their arrays. -/
def DirectoryFits (env : Environment) (tree : FileTree) (name : Bytes) : Prop :=
  NameFits name ∧ ∀ time target, CanOpen env (queuePath name) tree time target →
    ∀ id ∈ nodeIds (entriesAt env tree time target), NodeFits name id

variable {env : Environment} {world : World} {path name : Bytes}

theorem Fits.build (fits : Fits world) (short : path.length + 1 ≤ 50) : Fits (world.build path) := by
  intro other member
  rcases List.mem_append.mp member with old | new
  · exact fits other old
  · rwa [List.mem_singleton.mp new]

theorem dataPath_length : dataPath.length = 6 := by decide

theorem queuePath_short : (queuePath name).length + 1 ≤ 50 ↔ NameFits name := by
  simp only [queuePath, List.length_append, List.length_cons, dataPath_length, NameFits]
  omega

theorem nodePath_short {id : Int} :
    (nodePath (queuePath name) (intToString id)).length + 1 ≤ 50 ↔ NodeFits name id := by
  simp only [nodePath, queuePath, List.length_append, List.length_cons, dataPath_length, NodeFits]
  omega

/-! ## The helpers -/

theorem system_fits {α : Type} (call : System → α × System) : Keeps Fits (system call) :=
  fun _ fits => fits

theorem memAlloc_fits : Keeps Fits memAlloc := fun _ fits => fits

theorem memFree_fits : Keeps Fits memFree := fun _ fits => fits

theorem memFreeNullable_fits {α : Type} (pointer : Option α) : Keeps Fits (memFreeNullable pointer) := by
  cases pointer <;> exact fun _ fits => fits

theorem filePath_fits {file : Option Bytes}
    (short : ∀ name, file = some name → (nodePath path name).length + 1 ≤ 50) :
    Keeps Fits (filePath path file) := by
  cases file with
  | none => exact .stop _
  | some name =>
      exact .bind (.modify fun _ fits => fits.build (short name rfl)) fun _ => .pure _

theorem persistFailure_fits (part1 : Bytes) : Keeps Fits (persistFailure part1) := fun _ fits => fits

theorem getQueueLength_fits : Keeps Fits (getQueueLength env path) := by
  refine .bind (system_fits _) fun opened => ?_
  cases opened with
  | none => exact .pure _
  | some entries => exact .bind (system_fits _) fun _ => .pure _

theorem readQueue_fits : Keeps Fits (readQueue env path) := by
  refine .bind (system_fits _) fun opened => ?_
  cases opened with
  | none => exact .pure _
  | some entries =>
      exact .bind memAlloc_fits fun _ => .bind (system_fits _) fun _ => .pure _

theorem getNextNodeId_fits : Keeps Fits (getNextNodeId env path) := by
  refine .bind getQueueLength_fits fun _ => .bind readQueue_fits fun queue => ?_
  cases queue with
  | none => exact .pure _
  | some queue =>
      exact .bind memAlloc_fits fun _ => .bind memFree_fits fun _ => .pure _

theorem getQueueList_fits : Keeps Fits (getQueueList env) := by
  refine .bind (system_fits _) fun opened => ?_
  cases opened with
  | none => exact .pure _
  | some entries =>
      exact .bind (system_fits _) fun _ => .bind (.modify fun _ fits => fits) fun _ =>
        .pure _

theorem createQueueDir_fits : Keeps Fits (createQueueDir env path) := by
  refine .bind (system_fits _) fun opened => ?_
  cases opened with
  | some entries => exact .bind (system_fits _) fun _ => .pure _
  | none =>
      refine .bind .read fun seen => ?_
      split
      · exact system_fits _
      · exact .pure _

section Files

variable {file : Option Bytes}
  (short : ∀ name, file = some name → (nodePath path name).length + 1 ≤ 50)

include short

theorem createNodeFile_fits (content : Option Bytes) :
    Keeps Fits (createNodeFile env path file content) := by
  refine .bind (filePath_fits short) fun built => .bind (system_fits _) fun stream => ?_
  cases stream with
  | none => exact .pure _
  | some stream =>
      exact .bind (system_fits _) fun _ => .bind (system_fits _) fun _ => .pure _

theorem readNode_fits : Keeps Fits (readNode env path file) := by
  refine .bind (filePath_fits short) fun built => .bind (system_fits _) fun content => ?_
  cases content with
  | none => exact .pure _
  | some content =>
      exact .bind memAlloc_fits fun _ => .bind (system_fits _) fun _ => .pure _

theorem removeNode_fits : Keeps Fits (removeNode env path file) :=
  .bind (filePath_fits short) fun _ => system_fits _

end Files

/-! ## The removal of a queue -/

theorem arrayGet_fits (array : Option (List Int)) (index : Nat) :
    Triple Fits (arrayGet array index)
      (fun id world => Fits world ∧ ∃ ids, array = some ids ∧ ids[index]? = some id) Fits := by
  intro world fits
  cases array with
  | none => exact fits
  | some ids =>
      cases found : ids[index]? with
      | none =>
          simp only [arrayGet, found, run_stop]
          exact fits
      | some id =>
          simp only [arrayGet, found, run_pure]
          exact ⟨fits, ids, rfl, found⟩

theorem removeNodeFiles_fits {array : Option (List Int)} {index : Nat} (remaining : Nat)
    (short : ∀ ids, array = some ids → ∀ position, index ≤ position → ∀ id,
      ids[position]? = some id → NodeFits name id) :
    Keeps Fits (removeNodeFiles env (queuePath name) array index remaining) := by
  induction remaining generalizing index with
  | zero => exact .pure _
  | succ remaining ih =>
      have later : Keeps Fits (removeNodeFiles env (queuePath name) array (index + 1) remaining) :=
        ih fun ids same position after => short ids same position (by omega)
      refine Triple.bind (arrayGet_fits array index) fun id => ?_
      intro world holds
      obtain ⟨fits, ids, same, found⟩ := holds
      have file : ∀ name', some (intToString id) = some name' →
          (nodePath (queuePath name) name').length + 1 ≤ 50 := by
        rintro _ ⟨⟩
        exact nodePath_short.mpr (short ids same index (Nat.le_refl _) id found)
      have rest : Keeps Fits (do
          memAlloc
          let nodeRemoved ← removeNode env (queuePath name) (some (intToString id))
          memFree
          if nodeRemoved then removeNodeFiles env (queuePath name) array (index + 1) remaining
          else pure false) := by
        refine .bind memAlloc_fits fun _ => .bind (removeNode_fits file) fun removed =>
          .bind memFree_fits fun _ => ?_
        cases removed with
        | true => exact later
        | false => exact .pure _
      exact rest world fits

section Removal

variable {tree : FileTree}

theorem checkDir_tree : Triple (fun world => world.system.tree = tree) (checkDir env path)
    (fun _ world => world.system.tree = tree) (fun _ => True) := by
  rintro world rfl
  rcases checkDir_run env path world with ⟨_, _, _, ran, passed⟩ | ⟨_, _, ran, passed⟩ <;>
    rw [ran] <;> exact passed.tree

theorem readQueue_ids : Triple (fun world => world.system.tree = tree) (readQueue env path)
    (fun array _ => ∀ ids, array = some ids → ∃ time target, CanOpen env path tree time target ∧
      ids.tail = nodeIds (entriesAt env tree time target)) (fun _ => True) := by
  rintro world rfl
  rcases readQueue_run env path world with ⟨target, after, can, ran, _⟩ | ⟨_, after, ran, _⟩ <;>
    rw [ran]
  · rintro _ ⟨⟩
    exact ⟨_, target, can, rfl⟩
  · rintro _ ⟨⟩

theorem persistRemoveQueue_fits
    (short : ∀ time target, CanOpen env (queuePath name) tree time target →
      ∀ id ∈ nodeIds (entriesAt env tree time target), NodeFits name id) :
    Triple (fun world => Fits world ∧ world.system.tree = tree)
      (persistRemoveQueue env (queuePath name)) (fun _ => Fits) Fits := by
  refine .bind (Triple.and (system_fits _) checkDir_tree) fun opened => ?_
  cases opened with
  | none => exact .pure fun _ holds => holds.1
  | some entries =>
      refine .bind (Triple.and readQueue_fits readQueue_ids) fun array => ?_
      intro world holds
      obtain ⟨fits, listed⟩ := holds
      have removal (count : Nat) :
          Keeps Fits (removeNodeFiles env (queuePath name) array 1 count) := by
        refine removeNodeFiles_fits count fun ids same position after id found => ?_
        obtain ⟨time, target, can, rest⟩ := listed ids same
        refine short time target can id ?_
        rw [← rest]
        have shifted : ids.tail[position - 1]? = some id := by
          rw [List.getElem?_tail, Nat.sub_add_cancel after]
          exact found
        exact List.mem_of_getElem? shifted
      have rest : Keeps Fits (do
          let queueLength ← getQueueLength env (queuePath name)
          if ← removeNodeFiles env (queuePath name) array 1 queueLength then do
            memFreeNullable array
            system (rmdir env (queuePath name))
          else pure false) := by
        refine .bind getQueueLength_fits fun count => .bind (removal count) fun removed => ?_
        cases removed with
        | true => exact .bind (memFreeNullable_fits _) fun _ => system_fits _
        | false => exact .pure _
      exact rest world fits

end Removal

/-! ## Requests -/

/-- Around its branch `persist_dispatch` builds the path of the queue. -/
theorem persistDispatch_fits {type : PersistType} {nodeId : Nat} {data : Option Bytes}
    {tree : FileTree} (named : NameFits name)
    (action : Triple (fun world => Fits world ∧ world.system.tree = tree)
      (persistAction env ⟨type, some name, nodeId, data⟩ (queuePath name) (nodeIdText nodeId))
      (fun _ => Fits) Fits) :
    Triple (fun world => Fits world ∧ world.system.tree = tree)
      (persistDispatch env ⟨type, some name, nodeId, data⟩) (fun _ => Fits) Fits := by
  intro world holds
  have start : Fits (branchStart name nodeId world) ∧
      (branchStart name nodeId world).system.tree = tree := by
    refine ⟨?_, by rw [branchStart_system]; exact holds.2⟩
    have built : Fits (world.build (queuePath name)) := holds.1.build (queuePath_short.mpr named)
    unfold branchStart
    split <;> exact built
  have acted := action _ start
  cases ran : persistAction env ⟨type, some name, nodeId, data⟩ (queuePath name)
      (nodeIdText nodeId) (branchStart name nodeId world) with
  | trapped trap middle =>
      rw [ran] at acted
      rw [persistDispatch_trapped ran]
      exact acted
  | returned res middle =>
      rw [ran] at acted
      have left : Fits (branchEnd nodeId middle) := by
        unfold branchEnd
        split <;> exact acted
      rw [persistDispatch_run ran]
      exact left

theorem nodeIdText_short {nodeId : Nat} (node : nodeId ≠ 0 → NodeFits name (toInt32 nodeId)) :
    ∀ text, nodeIdText nodeId = some text → (nodePath (queuePath name) text).length + 1 ≤ 50 := by
  intro text shown
  by_cases zero : nodeId = 0
  · rw [zero, nodeIdText_zero] at shown
    cases shown
  · obtain rfl := Option.some.inj ((nodeIdText_pos zero).symm.trans shown)
    exact nodePath_short.mpr (node zero)

theorem persistAction_fits {type : PersistType} {nodeId : Nat} {data : Option Bytes}
    (kept : type ≠ .removeQueue) (node : nodeId ≠ 0 → NodeFits name (toInt32 nodeId)) :
    Keeps Fits
      (persistAction env ⟨type, some name, nodeId, data⟩ (queuePath name) (nodeIdText nodeId)) := by
  have short := nodeIdText_short node
  cases type with
  | removeQueue => exact absurd rfl kept
  | addQueue =>
      refine .bind createQueueDir_fits fun made => ?_
      cases made with
      | true => exact .pure _
      | false => exact persistFailure_fits _
  | readQueue =>
      refine .bind getQueueLength_fits fun _ => .bind readQueue_fits fun queue => ?_
      cases queue with
      | none => exact persistFailure_fits _
      | some queue => exact .pure _
  | getQueueList =>
      refine .bind getQueueList_fits fun names => ?_
      cases names with
      | none => exact persistFailure_fits _
      | some names => exact .pure _
  | addNode =>
      refine .bind (createNodeFile_fits short _) fun made => ?_
      cases made with
      | true => exact .pure _
      | false => exact persistFailure_fits _
  | removeNode =>
      refine .bind (removeNode_fits short) fun removed => ?_
      cases removed with
      | true => exact .pure _
      | false => exact persistFailure_fits _
  | readNode =>
      refine .bind (readNode_fits short) fun content => ?_
      cases content with
      | none => exact persistFailure_fits _
      | some content => exact .pure _
  | getNextId =>
      refine .bind getNextNodeId_fits fun nextId => ?_
      cases nextId with
      | none => exact persistFailure_fits _
      | some nextId => exact .pure _
  | other code => exact .bind (fun _ fits => fits) fun _ => .pure _

theorem queueCall_fits {type : PersistType} {nodeId : Nat} {data : Option Bytes}
    (kept : type ≠ .removeQueue) (named : NameFits name)
    (node : nodeId ≠ 0 → NodeFits name (toInt32 nodeId)) :
    Keeps Fits (persistDispatch env ⟨type, some name, nodeId, data⟩) := by
  intro world fits
  have action : Triple (fun other => Fits other ∧ other.system.tree = world.system.tree)
      (persistAction env ⟨type, some name, nodeId, data⟩ (queuePath name) (nodeIdText nodeId))
      (fun _ => Fits) Fits :=
    (persistAction_fits kept node).weaken (fun _ holds => holds.1) fun _ _ holds => holds
  exact persistDispatch_fits named action world ⟨fits, rfl⟩

theorem removeQueueCall_fits {tree : FileTree} (short : DirectoryFits env tree name) :
    Triple (fun world => Fits world ∧ world.system.tree = tree)
      (persistDispatch env ⟨.removeQueue, some name, 0, none⟩) (fun _ => Fits) Fits := by
  obtain ⟨named, files⟩ := short
  refine persistDispatch_fits named (Triple.bind (persistRemoveQueue_fits files) fun removed => ?_)
  cases removed with
  | true => exact Keeps.pure _
  | false => exact persistFailure_fits _

theorem getQueueListCall_fits : Keeps Fits (persistDispatch env ⟨.getQueueList, none, 0, none⟩) := by
  have branch : Keeps Fits
      (persistAction env ⟨.getQueueList, none, 0, none⟩ dataPath (nodeIdText 0)) := by
    refine .bind getQueueList_fits fun names => ?_
    cases names with
    | none => exact persistFailure_fits _
    | some names => exact .pure _
  refine .bind (.modify fun _ fits => fits.build (by decide)) fun _ => .bind branch fun res => ?_
  refine .bind (memFreeNullable_fits _) fun _ => .bind (.pure res) fun _ => ?_
  exact .bind (.modify fun _ fits => fits) fun _ => .pure _

/-! ## Loading -/

section Loading

variable {tree : FileTree}

/-- The paths built so far fit, and the files are those of a tree. -/
def FitsOn (tree : FileTree) (world : World) : Prop := Fits world ∧ world.system.tree = tree

theorem memAlloc_fitsOn : Triple (FitsOn tree) memAlloc (fun _ => FitsOn tree) Fits :=
  fun _ fits => fits

theorem memFree_fitsOn : Triple (FitsOn tree) memFree (fun _ => FitsOn tree) Fits :=
  fun _ fits => fits

/-- The id of a node as it is read is the id that is printed. -/
theorem nodeId_roundTrip {entries : List Name} {id : Int} (member : id ∈ nodeIds entries) :
    toInt32 (toUInt32 id) = id := by
  obtain ⟨name, _, rfl⟩ := List.mem_map.mp ((sortIntArrayAsc_perm _).mem_iff.mp member)
  unfold atoi toInt32 toUInt32
  omega

theorem call_fitsOn {req : PersistRequest} {post : PersistResponse → Prop}
    (keeps : Keeps Fits (persistDispatch env req))
    (ran : ∀ world, world.system.tree = tree → ∀ res after,
      persistDispatch env req world = .returned res after →
      after.system.tree = tree ∧ post res) :
    Triple (FitsOn tree) (persistDispatch env req) (fun res after => FitsOn tree after ∧ post res)
      Fits := by
  rintro world ⟨fits, same⟩
  have kept := keeps world fits
  cases shape : persistDispatch env req world with
  | trapped trap after =>
      rw [shape] at kept
      exact kept
  | returned res after =>
      rw [shape] at kept
      obtain ⟨unchanged, answer⟩ := ran world same res after shape
      exact ⟨⟨kept, unchanged⟩, answer⟩

theorem readNodeCall_fitsOn {id : Nat} (named : NameFits name) (node : NodeFits name (toInt32 id)) :
    Triple (FitsOn tree) (persistDispatch env ⟨.readNode, some name, id, none⟩)
      (fun _ after => FitsOn tree after ∧ True) Fits := by
  refine call_fitsOn (queueCall_fits (by decide) named fun _ => node) ?_
  rintro world rfl res after ran
  by_cases zero : id = 0
  · subst zero
    rw [persistDispatch_trapped (show persistAction env _ _ _ _ = _ from rfl)] at ran
    cases ran
  · rcases readNode_run env name world zero with ⟨_, _, _, same, asked⟩ | ⟨_, _, _, same, asked⟩
    all_goals
      rw [ran] at same
      cases same
      exact ⟨asked.system.tree, trivial⟩

theorem getNextIdCall_fitsOn (named : NameFits name) :
    Triple (FitsOn tree) (persistDispatch env ⟨.getNextId, some name, 0, none⟩)
      (fun _ after => FitsOn tree after ∧ True) Fits := by
  refine call_fitsOn (queueCall_fits (by decide) named fun positive => absurd rfl positive) ?_
  rintro world rfl res after ran
  rcases getNextId_run env name world with ⟨_, _, _, same, asked⟩ | ⟨_, _, _, same, asked⟩
  all_goals
    rw [ran] at same
    cases same
    exact ⟨asked.system.tree, trivial⟩

theorem readQueueCall_fitsOn (named : NameFits name) :
    Triple (FitsOn tree) (persistDispatch env ⟨.readQueue, some name, 0, none⟩)
      (fun res after => FitsOn tree after ∧ ∀ queueNodes, res.data = .queue queueNodes →
        ∃ time target, CanOpen env (queuePath name) tree time target ∧
          queueNodes.tail = nodeIds (entriesAt env tree time target)) Fits := by
  refine call_fitsOn (queueCall_fits (by decide) named fun positive => absurd rfl positive) ?_
  rintro world rfl res after ran
  rcases readQueueCall_run env name world with ⟨target, _, can, same, asked⟩ | ⟨_, _, _, same, asked⟩
  all_goals
    rw [ran] at same
    cases same
  · refine ⟨asked.system.tree, fun queueNodes given => ?_⟩
    simp only [persistSuccess, PersistData.queue.injEq] at given
    exact ⟨_, target, can, by rw [← given]; rfl⟩
  · exact ⟨asked.system.tree, fun queueNodes given => by cases given⟩

theorem getQueueListCall_fitsOn :
    Triple (fun world => FitsOn tree world ∧ world.system.clock = 0)
      (persistDispatch env ⟨.getQueueList, none, 0, none⟩)
      (fun res after => FitsOn tree after ∧ ∀ queueList, res.data = .queueList queueList →
        ∃ target, CanOpen env dataPath tree 0 target ∧
          queueList = queueNames (entriesAt env tree 0 target)) Fits := by
  rintro world ⟨⟨fits, rfl⟩, start⟩
  have kept := (show Keeps Fits (persistDispatch env _) from getQueueListCall_fits) world fits
  rcases getQueueListCall_run env world with ⟨target, after, can, ran, asked⟩ |
    ⟨_, _, after, ran, asked⟩
  all_goals
    rw [ran] at kept ⊢
    refine ⟨⟨kept, asked.system.tree⟩, fun queueList given => ?_⟩
  · rw [start] at can given
    simp only [persistSuccess, PersistData.queueList.injEq] at given
    exact ⟨target, can, given.symm⟩
  · cases given

end Loading

end Bmb
