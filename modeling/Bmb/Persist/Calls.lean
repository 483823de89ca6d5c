import Bmb.Persist
import Bmb.Posix.Calls

namespace Bmb

open Bmb.Base Bmb.Posix

/-! What each request of `persist_dispatch` answers and what it does to the files. -/

/-- The next id that a directory yields when it is listed at a time. -/
def nextIdAt (env : Environment) (tree : FileTree) (time : Nat) (path : Path) : Nat :=
  nextIdOf (nodeList (entriesAt env tree time path))

namespace World

/-- Time has passed and changes have been made to the files; the log and the JSON
counter are as before. -/
structure Passed (ticks : Nat) (effects : List Effect) (before after : World) : Prop where
  system : before.system.Passed ticks effects after.system
  calls : after.calls = before.calls
  jsonCalls : after.jsonCalls = before.jsonCalls

variable {first second third : World} {effects others : List Effect} {ticks more : Nat}

theorem Passed.trans (left : Passed ticks effects first second)
    (right : Passed more others second third) :
    Passed (ticks + more) (effects ++ others) first third :=
  ⟨left.system.trans right.system, right.calls.trans left.calls,
    right.jsonCalls.trans left.jsonCalls⟩

theorem Passed.allocate (passed : Passed ticks effects first second) (blocks : Nat) :
    Passed ticks effects first (second.allocate blocks) :=
  ⟨passed.system, passed.calls, passed.jsonCalls⟩

theorem Passed.release (passed : Passed ticks effects first second) (blocks : Nat) :
    Passed ticks effects first (second.release blocks) :=
  ⟨passed.system, passed.calls, passed.jsonCalls⟩

theorem Passed.tree (passed : Passed ticks [] first second) :
    second.system.tree = first.system.tree :=
  passed.system.tree

theorem build_passed (world : World) (path : Bytes) : Passed 0 [] world (world.build path) :=
  ⟨.refl _, rfl, rfl⟩

/-- A finished request to `persist_dispatch`. -/
structure Asked (ticks : Nat) (effects : List Effect) (call : PersistCall) (before after : World) :
    Prop where
  system : before.system.Passed ticks effects after.system
  calls : after.calls = before.calls ++ [call]
  jsonCalls : after.jsonCalls = before.jsonCalls

theorem Passed.record (passed : Passed ticks effects first second) (call : PersistCall) :
    Asked ticks effects call first (second.record call) :=
  ⟨passed.system, by rw [World.record, passed.calls], passed.jsonCalls⟩

end World

variable {env : Environment} {path name : Bytes} {world : World}

theorem checkDir_run (env : Environment) (path : Bytes) (world : World) :
    (∃ target after, CanOpen env path world.system.tree world.system.clock target ∧
      checkDir env path world =
        .returned (some (entriesAt env world.system.tree world.system.clock target)) after ∧
      world.Passed 1 [] after) ∨
    ((∀ target, ¬CanOpen env path world.system.tree world.system.clock target) ∧
      ∃ after, checkDir env path world = .returned none after ∧ world.Passed 1 [] after) := by
  rcases opendir_cases env path world.system with ⟨target, can, ran⟩ | ⟨cannot, errno, ran⟩
  · refine .inl ⟨target, { world with system := world.system.opened }, can, ?_,
      ⟨System.opened_passed world.system, rfl, rfl⟩⟩
    simp only [checkDir, run_system, ran]
  · refine .inr ⟨cannot, { world with system := world.system.failed errno }, ?_,
      ⟨System.failed_passed world.system errno, rfl, rfl⟩⟩
    simp only [checkDir, run_system, ran]

theorem closeStream_run (world : World) :
    ∃ after, closeStream world = .returned () after ∧ world.Passed 0 [] after :=
  ⟨_, rfl, ⟨System.closed_passed world.system, rfl, rfl⟩⟩

theorem getQueueLength_run (env : Environment) (path : Bytes) (world : World) :
    (∃ target after, CanOpen env path world.system.tree world.system.clock target ∧
      getQueueLength env path world = .returned
        (countNodes (entriesAt env world.system.tree world.system.clock target)) after ∧
      world.Passed 1 [] after) ∨
    ((∀ target, ¬CanOpen env path world.system.tree world.system.clock target) ∧
      ∃ after, getQueueLength env path world = .returned 0 after ∧ world.Passed 1 [] after) := by
  rcases checkDir_run env path world with ⟨target, opened, can, ran, passed⟩ | ⟨cannot, after, ran, passed⟩
  · obtain ⟨closed, closeRan, closePassed⟩ := closeStream_run opened
    refine .inl ⟨target, closed, can, ?_, passed.trans closePassed⟩
    simp only [getQueueLength, Program.run_bind, ran, closeRan, Program.run_pure]
  · refine .inr ⟨cannot, after, ?_, passed⟩
    simp only [getQueueLength, Program.run_bind, ran, Program.run_pure]

theorem getQueueLength_returns (env : Environment) (path : Bytes) (world : World) :
    ∃ queueLength after, getQueueLength env path world = .returned queueLength after ∧
      world.Passed 1 [] after := by
  rcases getQueueLength_run env path world with ⟨_, after, _, ran, passed⟩ | ⟨_, after, ran, passed⟩
  · exact ⟨_, after, ran, passed⟩
  · exact ⟨_, after, ran, passed⟩

theorem readQueue_run (env : Environment) (path : Bytes) (world : World) :
    (∃ target after, CanOpen env path world.system.tree world.system.clock target ∧
      readQueue env path world = .returned
        (some (nodeList (entriesAt env world.system.tree world.system.clock target))) after ∧
      world.Passed 1 [] after) ∨
    ((∀ target, ¬CanOpen env path world.system.tree world.system.clock target) ∧
      ∃ after, readQueue env path world = .returned none after ∧ world.Passed 1 [] after) := by
  rcases checkDir_run env path world with ⟨target, opened, can, ran, passed⟩ | ⟨cannot, after, ran, passed⟩
  · obtain ⟨closed, closeRan, closePassed⟩ := closeStream_run (opened.allocate 1)
    refine .inl ⟨target, closed, can, ?_, (passed.allocate 1).trans closePassed⟩
    simp only [readQueue, Program.run_bind, ran, run_memAlloc, closeRan, Program.run_pure]
  · refine .inr ⟨cannot, after, ?_, passed⟩
    simp only [readQueue, Program.run_bind, ran, Program.run_pure]

/-- The world in which the branch of `persist_dispatch` starts. -/
def branchStart (name : Bytes) (nodeId : Nat) (world : World) : World :=
  if (nodeIdText nodeId).isSome then (world.build (queuePath name)).allocate 1
  else world.build (queuePath name)

theorem branchStart_system (name : Bytes) (nodeId : Nat) (world : World) :
    (branchStart name nodeId world).system = world.system := by
  unfold branchStart
  split <;> rfl

theorem branchStart_passed (name : Bytes) (nodeId : Nat) (world : World) :
    world.Passed 0 [] (branchStart name nodeId world) := by
  unfold branchStart
  split <;> exact ⟨.refl _, rfl, rfl⟩

/-- The world that the branch of `persist_dispatch` leaves, without the text of the id. -/
def branchEnd (nodeId : Nat) (world : World) : World :=
  if (nodeIdText nodeId).isSome then world.release 1 else world

/-- Around its branch `persist_dispatch` handles memory and the logs, nothing else. -/
theorem persistDispatch_run {type : PersistType} {nodeId : Nat} {data : Option Bytes}
    {res : PersistResponse} {middle : World}
    (ran : persistAction env ⟨type, some name, nodeId, data⟩ (queuePath name) (nodeIdText nodeId)
      (branchStart name nodeId world) = .returned res middle) :
    persistDispatch env ⟨type, some name, nodeId, data⟩ world =
      .returned res ((branchEnd nodeId middle).record ⟨type, res.success⟩) := by
  cases shape : nodeIdText nodeId with
  | none =>
      simp only [branchStart, shape, Option.isSome_none, Bool.false_eq_true, if_false] at ran
      simp only [persistDispatch, shape, Option.isNone_some, Bool.and_false, Bool.false_eq_true,
        if_false, Option.isSome_none, Program.run_bind, memFreeNullable, Program.run_pure, ran,
        Program.run_modify, branchEnd]
  | some text =>
      simp only [branchStart, shape, Option.isSome_some, if_true] at ran
      simp only [persistDispatch, shape, Option.isNone_some, Bool.and_false, Bool.false_eq_true,
        if_false, Option.isSome_some, if_true, Program.run_bind, memFreeNullable,
        run_memAlloc, run_memFree, Program.run_pure, ran, Program.run_modify, branchEnd]

theorem persistDispatch_returned {type : PersistType} {nodeId : Nat} {data : Option Bytes}
    {res : PersistResponse} {middle : World} {ticks : Nat} {effects : List Effect}
    (ran : persistAction env ⟨type, some name, nodeId, data⟩ (queuePath name) (nodeIdText nodeId)
      (branchStart name nodeId world) = .returned res middle)
    (passed : (branchStart name nodeId world).Passed ticks effects middle) :
    ∃ after, persistDispatch env ⟨type, some name, nodeId, data⟩ world = .returned res after ∧
      world.Asked ticks effects ⟨type, res.success⟩ after := by
  have whole := (branchStart_passed name nodeId world).trans passed
  rw [Nat.zero_add, List.nil_append] at whole
  refine ⟨_, persistDispatch_run ran, World.Passed.record ?_ _⟩
  unfold branchEnd
  split
  · exact whole.release 1
  · exact whole

theorem persistDispatch_trapped {type : PersistType} {nodeId : Nat} {data : Option Bytes}
    {trap : Trap} {middle : World}
    (ran : persistAction env ⟨type, some name, nodeId, data⟩ (queuePath name) (nodeIdText nodeId)
      (branchStart name nodeId world) = .trapped trap middle) :
    persistDispatch env ⟨type, some name, nodeId, data⟩ world = .trapped trap middle := by
  cases shape : nodeIdText nodeId with
  | none =>
      simp only [branchStart, shape, Option.isSome_none, Bool.false_eq_true, if_false] at ran
      simp only [persistDispatch, shape, Option.isNone_some, Bool.and_false, Bool.false_eq_true,
        if_false, Option.isSome_none, Program.run_bind, Program.run_modify, ran]
  | some text =>
      simp only [branchStart, shape, Option.isSome_some, if_true] at ran
      simp only [persistDispatch, shape, Option.isNone_some, Bool.and_false, Bool.false_eq_true,
        if_false, Option.isSome_some, if_true, Program.run_bind, Program.run_modify, run_memAlloc,
        ran]

theorem persistDispatch_eq_returned {type : PersistType} {nodeId : Nat} {data : Option Bytes}
    {res : PersistResponse} {after : World}
    (ran : persistDispatch env ⟨type, some name, nodeId, data⟩ world = .returned res after) :
    ∃ middle, persistAction env ⟨type, some name, nodeId, data⟩ (queuePath name)
        (nodeIdText nodeId) (branchStart name nodeId world) = .returned res middle ∧
      after = (branchEnd nodeId middle).record ⟨type, res.success⟩ := by
  cases acted : persistAction env ⟨type, some name, nodeId, data⟩ (queuePath name)
      (nodeIdText nodeId) (branchStart name nodeId world) with
  | trapped trap middle =>
      rw [persistDispatch_trapped acted] at ran
      cases ran
  | returned answer middle =>
      rw [persistDispatch_run acted] at ran
      cases ran
      exact ⟨middle, rfl, rfl⟩

/-- A failure message allocates its text and leaves everything else alone. -/
theorem persistFailure_run (part1 : Bytes) (world : World) :
    ∃ message, persistFailure part1 world =
      .returned { errorMessage := some message, success := false, data := .null }
        (world.allocate 1) :=
  ⟨_, rfl⟩

theorem persistDispatch_failed {type : PersistType} {nodeId : Nat} {data : Option Bytes}
    {part1 : Bytes} {middle : World} {ticks : Nat} {effects : List Effect}
    (ran : persistAction env ⟨type, some name, nodeId, data⟩ (queuePath name) (nodeIdText nodeId)
      (branchStart name nodeId world) = persistFailure part1 middle)
    (passed : (branchStart name nodeId world).Passed ticks effects middle) :
    ∃ message after, persistDispatch env ⟨type, some name, nodeId, data⟩ world =
        .returned { errorMessage := some message, success := false, data := .null } after ∧
      world.Asked ticks effects ⟨type, false⟩ after := by
  obtain ⟨message, failed⟩ := persistFailure_run part1 middle
  obtain ⟨after, whole, asked⟩ := persistDispatch_returned (ran.trans failed) (passed.allocate 1)
  exact ⟨message, after, whole, asked⟩

theorem branchStart_zero (name : Bytes) (world : World) :
    branchStart name 0 world = world.build (queuePath name) := rfl

theorem getNextNodeId_run (env : Environment) (path : Bytes) (world : World) :
    (∃ target after, CanOpen env path world.system.tree (world.system.clock + 1) target ∧
      getNextNodeId env path world = .returned
        (some (nextIdAt env world.system.tree (world.system.clock + 1) target)) after ∧
      world.Passed 2 [] after) ∨
    ((∀ target, ¬CanOpen env path world.system.tree (world.system.clock + 1) target) ∧
      ∃ after, getNextNodeId env path world = .returned none after ∧ world.Passed 2 [] after) := by
  obtain ⟨queueLength, middle, countRan, counting⟩ := getQueueLength_returns env path world
  rcases readQueue_run env path middle with ⟨target, after, can, ran, passed⟩ |
    ⟨cannot, after, ran, passed⟩
  · rw [counting.tree, counting.system.clock] at can ran
    refine .inl ⟨target, (after.allocate 1).release 1, can, ?_,
      ((counting.trans passed).allocate 1).release 1⟩
    simp only [getNextNodeId, Program.run_bind, countRan, ran, run_memAlloc, run_memFree,
      Program.run_pure]
    rfl
  · rw [counting.tree, counting.system.clock] at cannot
    refine .inr ⟨cannot, after, ?_, counting.trans passed⟩
    simp only [getNextNodeId, Program.run_bind, countRan, ran, Program.run_pure]

theorem getNextId_run (env : Environment) (name : Bytes) (world : World) :
    (∃ target after,
      CanOpen env (queuePath name) world.system.tree (world.system.clock + 1) target ∧
      persistDispatch env ⟨.getNextId, some name, 0, none⟩ world = .returned (persistSuccess
        (.nextId (nextIdAt env world.system.tree (world.system.clock + 1) target))) after ∧
      world.Asked 2 [] ⟨.getNextId, true⟩ after) ∨
    ((∀ target, ¬CanOpen env (queuePath name) world.system.tree (world.system.clock + 1) target) ∧
      ∃ message after, persistDispatch env ⟨.getNextId, some name, 0, none⟩ world =
        .returned { errorMessage := some message, success := false, data := .null } after ∧
      world.Asked 2 [] ⟨.getNextId, false⟩ after) := by
  rcases getNextNodeId_run env (queuePath name) (world.build (queuePath name)) with
    ⟨target, middle, can, ran, passed⟩ | ⟨cannot, middle, ran, passed⟩
  · have branch : persistAction env ⟨.getNextId, some name, 0, none⟩ (queuePath name) (nodeIdText 0)
        (branchStart name 0 world) = .returned (persistSuccess (.nextId
          (nextIdAt env world.system.tree (world.system.clock + 1) target))) middle := by
      simp only [branchStart_zero, persistAction, Program.run_bind, ran, Program.run_pure,
        World.build_system]
    obtain ⟨after, whole, asked⟩ := persistDispatch_returned branch passed
    exact .inl ⟨target, after, can, whole, asked⟩
  · have branch : persistAction env ⟨.getNextId, some name, 0, none⟩ (queuePath name) (nodeIdText 0)
        (branchStart name 0 world) =
          persistFailure (text "Error getting next node id: ") middle := by
      simp only [branchStart_zero, persistAction, Program.run_bind, ran]
    exact .inr ⟨cannot, persistDispatch_failed branch passed⟩

/-- The path text of a node file whose id is not zero. -/
def nodeFile (name : Bytes) (nodeId : Nat) : Bytes :=
  nodePath (queuePath name) (intToString (toInt32 nodeId))

theorem nodeIdText_zero : nodeIdText 0 = none := rfl

theorem nodeIdText_pos {nodeId : Nat} (positive : nodeId ≠ 0) :
    nodeIdText nodeId = some (intToString (toInt32 nodeId)) :=
  if_pos (Nat.pos_of_ne_zero positive)

theorem filePath_run (path name : Bytes) (world : World) :
    filePath path (some name) world =
      .returned (nodePath path name) (world.build (nodePath path name)) := rfl

theorem removeNode_run (env : Environment) (path name : Bytes) (world : World) :
    (∃ target after,
      CanUnlink env (nodePath path name) world.system.tree world.system.clock target ∧
      removeNode env path (some name) world = .returned true after ∧
      world.Passed 1 [.unlink target] after) ∨
    ((∀ target, ¬CanUnlink env (nodePath path name) world.system.tree world.system.clock target) ∧
      ∃ after, removeNode env path (some name) world = .returned false after ∧
        world.Passed 1 [] after) := by
  rcases unlink_cases env (nodePath path name) world.system with ⟨target, can, ran⟩ |
    ⟨cannot, errno, ran⟩
  · refine .inl ⟨target, { world.build (nodePath path name) with
      system := world.system.performed (.unlink target) }, can, ?_,
      ⟨System.performed_passed world.system _, rfl, rfl⟩⟩
    simp only [removeNode, filePath_run, Program.run_bind, run_system, World.build_system, ran]
  · refine .inr ⟨cannot, { world.build (nodePath path name) with
      system := world.system.failed errno }, ?_,
      ⟨System.failed_passed world.system errno, rfl, rfl⟩⟩
    simp only [removeNode, filePath_run, Program.run_bind, run_system, World.build_system, ran]

/-- `PERSIST_REMOVE_NODE` without an id passes `NULL` to `strcat`. -/
theorem removeNode_zero (env : Environment) (name : Bytes) (world : World) :
    persistDispatch env ⟨.removeNode, some name, 0, none⟩ world =
      .trapped .nullPointer (world.build (queuePath name)) := by
  apply persistDispatch_trapped
  rfl

theorem removeNodeCall_run (env : Environment) (name : Bytes) (world : World) {nodeId : Nat}
    (positive : nodeId ≠ 0) :
    (∃ target after, CanUnlink env (nodeFile name nodeId) world.system.tree world.system.clock target ∧
      persistDispatch env ⟨.removeNode, some name, nodeId, none⟩ world =
        .returned (persistSuccess .null) after ∧
      world.Asked 1 [.unlink target] ⟨.removeNode, true⟩ after) ∨
    ((∀ target, ¬CanUnlink env (nodeFile name nodeId) world.system.tree world.system.clock target) ∧
      ∃ message after, persistDispatch env ⟨.removeNode, some name, nodeId, none⟩ world =
        .returned { errorMessage := some message, success := false, data := .null } after ∧
      world.Asked 1 [] ⟨.removeNode, false⟩ after) := by
  have removed := removeNode_run env (queuePath name) (intToString (toInt32 nodeId))
    (branchStart name nodeId world)
  rw [branchStart_system] at removed
  rcases removed with ⟨target, middle, can, ran, passed⟩ | ⟨cannot, middle, ran, passed⟩
  · have branch : persistAction env ⟨.removeNode, some name, nodeId, none⟩ (queuePath name)
        (nodeIdText nodeId) (branchStart name nodeId world) = .returned (persistSuccess .null) middle := by
      simp only [persistAction, nodeIdText_pos positive, Program.run_bind, ran, if_true,
        Program.run_pure]
    obtain ⟨after, whole, asked⟩ := persistDispatch_returned branch passed
    exact .inl ⟨target, after, can, whole, asked⟩
  · have branch : persistAction env ⟨.removeNode, some name, nodeId, none⟩ (queuePath name)
        (nodeIdText nodeId) (branchStart name nodeId world) =
          persistFailure (text "Error removing file: ") middle := by
      simp only [persistAction, nodeIdText_pos positive, Program.run_bind, ran, Bool.false_eq_true,
        if_false]
    exact .inr ⟨cannot, persistDispatch_failed branch passed⟩

/-- What the creation of a node file does, when its content is due at a time. -/
def storeEffects (env : Environment) (time : Nat) (target : Path) (content : Option Bytes) :
    List Effect :=
  [.create target] ++
    if env.fails .write time then [] else [.write target (content.getD (text "(null)"))]

/-- Only the file that is created changes; it stays empty when the write fails. -/
theorem get_storeEffects {env : Environment} {time : Nat} {target : Path} {content : Bytes}
    {tree : FileTree} (path : Path) :
    (replay (storeEffects env time target (some content)) tree).get path =
      if path = target then some (.file (if env.fails .write time then [] else content))
      else tree.get path := by
  unfold storeEffects
  by_cases same : path = target
  · rw [if_pos same, same]
    cases env.fails .write time
    · exact FileTree.get_set_self
    · exact FileTree.get_set_self
  · rw [if_neg same]
    apply get_replay_of_ne
    intro effect member
    cases fails : env.fails .write time with
    | true =>
        rw [fails, if_pos rfl, List.append_nil, List.mem_singleton] at member
        rw [member]
        exact same
    | false =>
        simp only [fails, Bool.false_eq_true, if_false, List.cons_append, List.nil_append,
          List.mem_cons, List.not_mem_nil, or_false] at member
        rcases member with rfl | rfl <;> exact same

theorem createNodeFile_run (env : Environment) (path name : Bytes) (content : Option Bytes)
    (world : World) :
    (∃ target after,
      CanCreate env (nodePath path name) world.system.tree world.system.clock target ∧
      createNodeFile env path (some name) content world = .returned true after ∧
      world.Passed 2 (storeEffects env (world.system.clock + 1) target content) after) ∨
    ((∀ target, ¬CanCreate env (nodePath path name) world.system.tree world.system.clock target) ∧
      ∃ after, createNodeFile env path (some name) content world = .returned false after ∧
        world.Passed 1 [] after) := by
  rcases fopenWrite_cases env (nodePath path name) world.system with
    ⟨target, created, can, ran, passed⟩ | ⟨cannot, errno, ran⟩
  · have written : created.Passed 1
        (if env.fails .write (world.system.clock + 1) then []
          else [.write target (content.getD (text "(null)"))])
        (writeContent env created target (content.getD (text "(null)"))) := by
      unfold writeContent
      rw [passed.clock]
      split
      · exact System.failed_passed _ _
      · exact System.performed_passed _ _
    obtain ⟨closed, closeRan, closePassed⟩ := closeStream_run
      { world.build (nodePath path name) with
        system := writeContent env created target (content.getD (text "(null)")) }
    have whole := (passed.trans written).trans closePassed.system
    rw [List.append_nil] at whole
    refine .inl ⟨target, closed, can, ?_, ⟨whole, closePassed.calls, closePassed.jsonCalls⟩⟩
    simp only [createNodeFile, filePath_run, Program.run_bind, Program.run_pure, run_system,
      World.build_system, ran, closeRan]
  · refine .inr ⟨cannot, { world.build (nodePath path name) with
      system := world.system.failed errno }, ?_,
      ⟨System.failed_passed world.system errno, rfl, rfl⟩⟩
    simp only [createNodeFile, filePath_run, Program.run_bind, Program.run_pure, run_system,
      World.build_system, ran]

/-- `PERSIST_ADD_NODE` without an id passes `NULL` to `strcat`. -/
theorem addNode_zero (env : Environment) (name : Bytes) (content : Option Bytes) (world : World) :
    persistDispatch env ⟨.addNode, some name, 0, content⟩ world =
      .trapped .nullPointer (world.build (queuePath name)) := by
  apply persistDispatch_trapped
  rfl

theorem addNode_run (env : Environment) (name : Bytes) (content : Option Bytes) (world : World)
    {nodeId : Nat} (positive : nodeId ≠ 0) :
    (∃ target after,
      CanCreate env (nodeFile name nodeId) world.system.tree world.system.clock target ∧
      persistDispatch env ⟨.addNode, some name, nodeId, content⟩ world =
        .returned (persistSuccess .null) after ∧
      world.Asked 2 (storeEffects env (world.system.clock + 1) target content) ⟨.addNode, true⟩
        after) ∨
    ((∀ target, ¬CanCreate env (nodeFile name nodeId) world.system.tree world.system.clock target) ∧
      ∃ message after, persistDispatch env ⟨.addNode, some name, nodeId, content⟩ world =
        .returned { errorMessage := some message, success := false, data := .null } after ∧
      world.Asked 1 [] ⟨.addNode, false⟩ after) := by
  have created := createNodeFile_run env (queuePath name) (intToString (toInt32 nodeId)) content
    (branchStart name nodeId world)
  rw [branchStart_system] at created
  rcases created with ⟨target, middle, can, ran, passed⟩ | ⟨cannot, middle, ran, passed⟩
  · have branch : persistAction env ⟨.addNode, some name, nodeId, content⟩ (queuePath name)
        (nodeIdText nodeId) (branchStart name nodeId world) = .returned (persistSuccess .null) middle := by
      simp only [persistAction, nodeIdText_pos positive, Program.run_bind, ran, if_true,
        Program.run_pure]
    obtain ⟨after, whole, asked⟩ := persistDispatch_returned branch passed
    exact .inl ⟨target, after, can, whole, asked⟩
  · have branch : persistAction env ⟨.addNode, some name, nodeId, content⟩ (queuePath name)
        (nodeIdText nodeId) (branchStart name nodeId world) =
          persistFailure (text "Error creating file: ") middle := by
      simp only [persistAction, nodeIdText_pos positive, Program.run_bind, ran, Bool.false_eq_true,
        if_false]
    exact .inr ⟨cannot, persistDispatch_failed branch passed⟩

theorem readNodeFile_run (env : Environment) (path name : Bytes) (world : World) :
    (∃ content after,
      CanRead env (nodePath path name) world.system.tree world.system.clock content ∧
      readNode env path (some name) world = .returned (some (readChars content)) after ∧
      world.Passed 1 [] after) ∨
    ((∀ content, ¬CanRead env (nodePath path name) world.system.tree world.system.clock content) ∧
      ∃ after, readNode env path (some name) world = .returned none after ∧
        world.Passed 1 [] after) := by
  rcases fopenRead_cases env (nodePath path name) world.system with
    ⟨content, can, ran⟩ | ⟨cannot, errno, ran⟩
  · obtain ⟨closed, closeRan, closePassed⟩ := closeStream_run
      (World.allocate { world.build (nodePath path name) with system := world.system.opened } 1)
    refine .inl ⟨content, closed, can, ?_, ⟨(System.opened_passed world.system).trans
      closePassed.system, closePassed.calls, closePassed.jsonCalls⟩⟩
    simp only [readNode, filePath_run, Program.run_bind, Program.run_pure, run_system,
      World.build_system, ran, run_memAlloc, closeRan]
  · refine .inr ⟨cannot, { world.build (nodePath path name) with
      system := world.system.failed errno }, ?_,
      ⟨System.failed_passed world.system errno, rfl, rfl⟩⟩
    simp only [readNode, filePath_run, Program.run_bind, Program.run_pure, run_system,
      World.build_system, ran]

theorem readNode_run (env : Environment) (name : Bytes) (world : World) {nodeId : Nat}
    (positive : nodeId ≠ 0) :
    (∃ content after, CanRead env (nodeFile name nodeId) world.system.tree world.system.clock content ∧
      persistDispatch env ⟨.readNode, some name, nodeId, none⟩ world =
        .returned (persistSuccess (.content (readChars content))) after ∧
      world.Asked 1 [] ⟨.readNode, true⟩ after) ∨
    ((∀ content,
        ¬CanRead env (nodeFile name nodeId) world.system.tree world.system.clock content) ∧
      ∃ message after, persistDispatch env ⟨.readNode, some name, nodeId, none⟩ world =
        .returned { errorMessage := some message, success := false, data := .null } after ∧
      world.Asked 1 [] ⟨.readNode, false⟩ after) := by
  have read := readNodeFile_run env (queuePath name) (intToString (toInt32 nodeId))
    (branchStart name nodeId world)
  rw [branchStart_system] at read
  rcases read with ⟨content, middle, can, ran, passed⟩ | ⟨cannot, middle, ran, passed⟩
  · have branch : persistAction env ⟨.readNode, some name, nodeId, none⟩ (queuePath name)
        (nodeIdText nodeId) (branchStart name nodeId world) =
          .returned (persistSuccess (.content (readChars content))) middle := by
      simp only [persistAction, nodeIdText_pos positive, Program.run_bind, ran, Program.run_pure]
    obtain ⟨after, whole, asked⟩ := persistDispatch_returned branch passed
    exact .inl ⟨content, after, can, whole, asked⟩
  · have branch : persistAction env ⟨.readNode, some name, nodeId, none⟩ (queuePath name)
        (nodeIdText nodeId) (branchStart name nodeId world) =
          persistFailure (text "Error reading node: ") middle := by
      simp only [persistAction, nodeIdText_pos positive, Program.run_bind, ran]
    exact .inr ⟨cannot, persistDispatch_failed branch passed⟩

theorem createQueueDir_run (env : Environment) (path : Bytes) (world : World) :
    (∃ ticks effects after, createQueueDir env path world = .returned true after ∧
      world.Passed ticks effects after ∧
      ((effects = [] ∧ ∃ target, CanOpen env path world.system.tree world.system.clock target) ∨
        ∃ target, effects = [.mkdir target] ∧
          CanMake env path world.system.tree (world.system.clock + 1) target)) ∨
    ∃ ticks after, createQueueDir env path world = .returned false after ∧
      world.Passed ticks [] after ∧
      ∀ target, Reaches env .opendir path world.system.tree world.system.clock target →
        ¬CanOpen env path world.system.tree world.system.clock target ∧
        (world.system.tree.get target = none →
          ¬CanMake env path world.system.tree (world.system.clock + 1) target) := by
  rcases opendir_cases env path world.system with ⟨target, can, ran⟩ | ⟨cannot, errno, ran⟩
  · obtain ⟨closed, closeRan, closePassed⟩ := closeStream_run
      { world with system := world.system.opened }
    refine .inl ⟨1, [], closed, ?_, ⟨(System.opened_passed world.system).trans closePassed.system,
      closePassed.calls, closePassed.jsonCalls⟩, .inl ⟨rfl, target, can⟩⟩
    simp only [createQueueDir, Program.run_bind, run_system, ran, closeRan, Program.run_pure]
  · by_cases absent : errno = .enoent
    · subst absent
      rcases mkdir_cases env path (world.system.failed .enoent) with ⟨target, can, made⟩ |
        ⟨cannotMake, errno, made⟩
      · refine .inl ⟨2, [.mkdir target], { world with
          system := (world.system.failed .enoent).performed (.mkdir target) }, ?_,
          ⟨(System.failed_passed world.system _).trans (System.performed_passed _ _), rfl, rfl⟩,
          .inr ⟨target, rfl, can⟩⟩
        simp only [createQueueDir, Program.run_bind, run_system, ran, Program.run_read]
        rw [System.failed_errno, if_pos rfl, run_system, made]
      · refine .inr ⟨2, { world with system := (world.system.failed .enoent).failed errno }, ?_,
          ⟨(System.failed_passed world.system _).trans (System.failed_passed _ _), rfl, rfl⟩,
          fun target _ => ⟨cannot target, fun _ => cannotMake target⟩⟩
        simp only [createQueueDir, Program.run_bind, run_system, ran, Program.run_read]
        rw [System.failed_errno, if_pos rfl, run_system, made]
    · refine .inr ⟨1, { world with system := world.system.failed errno }, ?_,
        ⟨System.failed_passed world.system errno, rfl, rfl⟩, fun target reaches =>
          ⟨cannot target, fun missing => ?_⟩⟩
      · simp only [createQueueDir, Program.run_bind, run_system, ran, Program.run_read]
        rw [System.failed_errno, if_neg absent, Program.run_pure]
      · rw [opendir_missing reaches missing, Prod.mk.injEq] at ran
        have same : errno = .enoent := by
          have errors := congrArg System.errno ran.2
          exact errors.symm
        exact absurd same absent

end Bmb
