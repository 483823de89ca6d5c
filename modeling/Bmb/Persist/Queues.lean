import Bmb.Persist.Calls
import Bmb.Persist.Paths

namespace Bmb

open Bmb.Base Bmb.Posix

/-! The requests to `persist_dispatch` that concern whole queue directories. -/

theorem addQueueCall_run (env : Environment) (name : Bytes) (world : World) :
    (∃ ticks effects after, persistDispatch env ⟨.addQueue, some name, 0, none⟩ world =
        .returned (persistSuccess .null) after ∧
      world.Asked ticks effects ⟨.addQueue, true⟩ after ∧
      ((effects = [] ∧ ∃ target,
          CanOpen env (queuePath name) world.system.tree world.system.clock target) ∨
        ∃ target, effects = [.mkdir target] ∧
          CanMake env (queuePath name) world.system.tree (world.system.clock + 1) target)) ∨
    ∃ ticks message after, persistDispatch env ⟨.addQueue, some name, 0, none⟩ world =
        .returned { errorMessage := some message, success := false, data := .null } after ∧
      world.Asked ticks [] ⟨.addQueue, false⟩ after ∧
      ∀ target, Reaches env .opendir (queuePath name) world.system.tree world.system.clock target →
        ¬CanOpen env (queuePath name) world.system.tree world.system.clock target ∧
        (world.system.tree.get target = none →
          ¬CanMake env (queuePath name) world.system.tree (world.system.clock + 1) target) := by
  rcases createQueueDir_run env (queuePath name) (world.build (queuePath name)) with
    ⟨ticks, effects, middle, ran, passed, why⟩ | ⟨ticks, middle, ran, passed, why⟩
  · have branch : persistAction env ⟨.addQueue, some name, 0, none⟩ (queuePath name) (nodeIdText 0)
        (branchStart name 0 world) = .returned (persistSuccess .null) middle := by
      simp only [branchStart_zero, persistAction, Program.run_bind, ran, if_true, Program.run_pure]
    obtain ⟨after, whole, asked⟩ := persistDispatch_returned branch passed
    exact .inl ⟨ticks, effects, after, whole, asked, why⟩
  · have branch : persistAction env ⟨.addQueue, some name, 0, none⟩ (queuePath name) (nodeIdText 0)
        (branchStart name 0 world) =
          persistFailure (text "Error creating directory: ") middle := by
      simp only [branchStart_zero, persistAction, Program.run_bind, ran, Bool.false_eq_true,
        if_false]
    obtain ⟨message, after, whole, asked⟩ := persistDispatch_failed branch passed
    exact .inr ⟨ticks, message, after, whole, asked, why⟩

theorem readQueueCall_run (env : Environment) (name : Bytes) (world : World) :
    (∃ target after,
      CanOpen env (queuePath name) world.system.tree (world.system.clock + 1) target ∧
      persistDispatch env ⟨.readQueue, some name, 0, none⟩ world = .returned (persistSuccess
        (.queue (nodeList (entriesAt env world.system.tree (world.system.clock + 1) target))))
        after ∧
      world.Asked 2 [] ⟨.readQueue, true⟩ after) ∨
    ((∀ target, ¬CanOpen env (queuePath name) world.system.tree (world.system.clock + 1) target) ∧
      ∃ message after, persistDispatch env ⟨.readQueue, some name, 0, none⟩ world =
        .returned { errorMessage := some message, success := false, data := .null } after ∧
      world.Asked 2 [] ⟨.readQueue, false⟩ after) := by
  obtain ⟨queueLength, counted, countRan, counting⟩ := getQueueLength_returns env (queuePath name)
    (world.build (queuePath name))
  rcases readQueue_run env (queuePath name) counted with ⟨target, middle, can, ran, passed⟩ |
    ⟨cannot, middle, ran, passed⟩
  · rw [counting.tree, counting.system.clock] at can ran
    have branch : persistAction env ⟨.readQueue, some name, 0, none⟩ (queuePath name) (nodeIdText 0)
        (branchStart name 0 world) = .returned (persistSuccess (.queue
          (nodeList (entriesAt env world.system.tree (world.system.clock + 1) target)))) middle := by
      simp only [branchStart_zero, persistAction, Program.run_bind, countRan, ran, Program.run_pure,
        World.build_system]
    obtain ⟨after, whole, asked⟩ := persistDispatch_returned branch (counting.trans passed)
    exact .inl ⟨target, after, can, whole, asked⟩
  · rw [counting.tree, counting.system.clock] at cannot
    have branch : persistAction env ⟨.readQueue, some name, 0, none⟩ (queuePath name) (nodeIdText 0)
        (branchStart name 0 world) =
          persistFailure (text "Error reading queue: ") middle := by
      simp only [branchStart_zero, persistAction, Program.run_bind, countRan, ran]
    exact .inr ⟨cannot, persistDispatch_failed branch (counting.trans passed)⟩

/-- The names `get_queue_list` collects from the entries of the data directory. -/
def queueNames (entries : List Name) : List Name :=
  entries.filter fun name => name != dot && name != dotdot

theorem getQueueList_unnamed : queueNameNeeded .getQueueList = false := by decide

theorem getQueueListCall_run (env : Environment) (world : World) :
    (∃ target after, CanOpen env dataPath world.system.tree world.system.clock target ∧
      persistDispatch env ⟨.getQueueList, none, 0, none⟩ world = .returned (persistSuccess
        (.queueList (queueNames (entriesAt env world.system.tree world.system.clock target)))) after ∧
      world.Asked 1 [] ⟨.getQueueList, true⟩ after) ∨
    ((∀ target, ¬CanOpen env dataPath world.system.tree world.system.clock target) ∧
      ∃ message after, persistDispatch env ⟨.getQueueList, none, 0, none⟩ world =
        .returned { errorMessage := some message, success := false, data := .null } after ∧
      world.Asked 1 [] ⟨.getQueueList, false⟩ after) := by
  have built := world.build_passed dataPath
  rcases checkDir_run env dataPath (world.build dataPath) with
    ⟨target, opened, can, ran, passed⟩ | ⟨cannot, middle, ran, passed⟩
  · obtain ⟨closed, closeRan, closePassed⟩ := closeStream_run opened
    have whole := (((built.trans passed).trans closePassed).allocate ((queueNames
      (entriesAt env world.system.tree world.system.clock target)).length + 2))
    have listed : getQueueList env (world.build dataPath) = .returned
        (some (queueNames (entriesAt env world.system.tree world.system.clock target)))
        (closed.allocate ((queueNames
          (entriesAt env world.system.tree world.system.clock target)).length + 2)) := by
      simp only [getQueueList, Program.run_bind, ran, closeRan, Program.run_modify, Program.run_pure]
      rfl
    refine .inl ⟨target, _, can, ?_, whole.record ⟨.getQueueList, true⟩⟩
    simp only [persistDispatch, nodeIdText_zero, getQueueList_unnamed, Bool.false_and,
      persistAction, Program.run_bind, listed, memFreeNullable, Program.run_pure, Program.run_modify,
      Option.isSome_none, Bool.false_eq_true, if_false]
    rfl
  · obtain ⟨message, failed⟩ := persistFailure_run (text "Error getting queue list: ") middle
    have whole := (built.trans passed).allocate 1
    refine .inr ⟨cannot, message, _, ?_, whole.record ⟨.getQueueList, false⟩⟩
    have listed : getQueueList env (world.build dataPath) = .returned none middle := by
      simp only [getQueueList, Program.run_bind, ran, Program.run_pure]
    simp only [persistDispatch, nodeIdText_zero, getQueueList_unnamed, Bool.false_and,
      persistAction, Program.run_bind, listed, memFreeNullable, failed, Program.run_pure,
      Program.run_modify, Option.isSome_none, Bool.false_eq_true, if_false]

theorem queueNames_nodup (env : Environment) (tree : FileTree) (time : Nat) (path : Path) :
    (queueNames (entriesAt env tree time path)).Nodup := by
  have listed : (queueNames (dot :: dotdot :: tree.names path)).Nodup := by
    have dropped : queueNames (dot :: dotdot :: tree.names path) = queueNames (tree.names path) := by
      simp [queueNames]
    rw [dropped]
    exact (tree.names_nodup path).filter _
  exact ((env.order_perm time _).filter _).nodup_iff.mpr listed

/-! ## Removal -/

/-- The ids among the entries of a queue directory, in ascending order. -/
def nodeIds (entries : List Name) : List Int :=
  sortIntArrayAsc ((entries.filter isNodeName).map atoi)

theorem nodeIds_length (entries : List Name) : (nodeIds entries).length = countNodes entries := by
  rw [nodeIds, (sortIntArrayAsc_perm _).length_eq, List.length_map, countNodes,
    List.countP_eq_length_filter]

theorem countNodes_entriesAt (env : Environment) (tree : FileTree) (time other : Nat) (path : Path) :
    countNodes (entriesAt env tree time path) = countNodes (entriesAt env tree other path) :=
  ((env.order_perm time _).trans (env.order_perm other _).symm).countP_eq _

/-- The unlinking of node files one after the other, up to the first refusal. -/
inductive Unlinks (env : Environment) (path : Bytes) :
    FileTree → Nat → List Int → List Effect → Bool → Prop where
  | done {tree : FileTree} {time : Nat} : Unlinks env path tree time [] [] true
  | step {tree : FileTree} {time : Nat} {id : Int} {ids : List Int} {target : Path}
      {effects : List Effect} {success : Bool}
      (can : CanUnlink env (nodePath path (intToString id)) tree time target)
      (rest : Unlinks env path (tree.erase target) (time + 1) ids effects success) :
      Unlinks env path tree time (id :: ids) (.unlink target :: effects) success
  | refused {tree : FileTree} {time : Nat} {id : Int} {ids : List Int}
      (cannot : ∀ target, ¬CanUnlink env (nodePath path (intToString id)) tree time target) :
      Unlinks env path tree time (id :: ids) [] false

namespace Unlinks

variable {env : Environment} {path : Bytes} {tree : FileTree} {time : Nat} {ids : List Int}
  {effects others : List Effect} {success other : Bool}

theorem unique (left : Unlinks env path tree time ids effects success)
    (right : Unlinks env path tree time ids others other) : effects = others ∧ success = other := by
  induction left generalizing others other with
  | done =>
      cases right
      exact ⟨rfl, rfl⟩
  | step can rest ih =>
      cases right with
      | step unlinked later =>
          obtain rfl := can.1.unique unlinked.1
          obtain ⟨rfl, rfl⟩ := ih later
          exact ⟨rfl, rfl⟩
      | refused cannot => exact absurd can (cannot _)
  | refused cannot =>
      cases right with
      | step can later => exact absurd can (cannot _)
      | refused _ => exact ⟨rfl, rfl⟩

theorem gone (unlinks : Unlinks env path tree time ids effects success) {place : Path}
    (absent : tree.get place = none) : (replay effects tree).get place = none := by
  induction unlinks with
  | done => exact absent
  | @step tree time id ids target effects success can rest ih =>
      apply ih
      by_cases same : place = target
      · rw [same]
        exact FileTree.get_erase_self
      · rw [FileTree.get_erase_of_ne same]
        exact absent
  | refused cannot => exact absent

/-- Unless the first file is refused, it is lost. -/
theorem nothing_or_lost {name : Bytes}
    (unlinks : Unlinks env (queuePath name) tree time ids effects success) :
    (effects = [] ∧ ∀ id ∈ ids.head?, ∀ target,
      ¬CanUnlink env (nodePath (queuePath name) (intToString id)) tree time target) ∨
    ∃ file : Name, tree.get (file :: env.target (queuePath name)) ≠ none ∧
      (replay effects tree).get (file :: env.target (queuePath name)) = none := by
  cases unlinks with
  | done => exact .inl ⟨rfl, by simp⟩
  | @step _ _ id ids target effects _ can rest =>
      have place := can.1.path_eq
      rw [target_nodePath] at place
      obtain ⟨content, found⟩ := can.2
      rw [place] at found rest ⊢
      exact .inr ⟨formatInt id, by rw [found]; simp, rest.gone FileTree.get_erase_self⟩
  | refused cannot =>
      refine .inl ⟨rfl, fun id head => ?_⟩
      cases head
      exact cannot

theorem nothing_of_refused (unlinks : Unlinks env path tree time ids effects success)
    (refused : ∀ id ∈ ids.head?, ∀ target,
      ¬CanUnlink env (nodePath path (intToString id)) tree time target) : effects = [] := by
  cases unlinks with
  | done => rfl
  | step can rest => exact absurd can (refused _ rfl _)
  | refused cannot => rfl

end Unlinks

theorem removeNodeFiles_run (env : Environment) (path : Bytes) (entries ids : List Int) (index : Nat)
    (world : World) (rest : entries.drop index = ids) :
    ∃ effects success ticks after,
      Unlinks env path world.system.tree world.system.clock ids effects success ∧
      removeNodeFiles env path (some entries) index ids.length world = .returned success after ∧
      world.Passed ticks effects after ∧ (success = true → ticks = ids.length) := by
  induction ids generalizing index world with
  | nil => exact ⟨[], true, 0, world, .done, rfl, ⟨.refl _, rfl, rfl⟩, fun _ => rfl⟩
  | cons id ids ih =>
      have here : entries[index]? = some id := by
        rw [← List.head?_drop, rest]
        rfl
      have later : entries.drop (index + 1) = ids := by
        rw [← List.tail_drop, rest]
        rfl
      rcases removeNode_run env path (intToString id) (world.allocate 1) with
        ⟨target, middle, can, ran, passed⟩ | ⟨cannot, middle, ran, passed⟩
      · obtain ⟨effects, success, ticks, after, unlinks, others, others_passed, all⟩ :=
          ih (index + 1) (middle.release 1) later
        have start : (middle.release 1).system = middle.system := rfl
        rw [start, passed.system.tree, passed.system.clock] at unlinks
        have whole := (passed.release 1).trans others_passed
        refine ⟨.unlink target :: effects, success, 1 + ticks, after, .step can unlinks, ?_,
          ⟨whole.system, whole.calls, whole.jsonCalls⟩, fun succeeded => ?_⟩
        · simp only [List.length_cons, removeNodeFiles, Program.run_bind, arrayGet, here,
            Program.run_pure, run_memAlloc, ran, run_memFree, if_true, others]
        · rw [all succeeded, List.length_cons, Nat.add_comm]
      · refine ⟨[], false, 1, middle.release 1, .refused cannot, ?_,
          ⟨passed.system, passed.calls, passed.jsonCalls⟩, fun succeeded => by contradiction⟩
        simp only [List.length_cons, removeNodeFiles, Program.run_bind, arrayGet, here,
          Program.run_pure, run_memAlloc, ran, run_memFree, Bool.false_eq_true, if_false]

/-- The ids whose files a removal that starts at a time goes through.  The listing and
the counting open the directory separately. -/
inductive RemovalIds (env : Environment) (path : Bytes) (tree : FileTree) (time : Nat) :
    List Int → Prop where
  | uncounted (closed : ∀ target, ¬CanOpen env path tree (time + 2) target) :
      RemovalIds env path tree time []
  | empty {target : Path} (counted : CanOpen env path tree (time + 2) target)
      (none : countNodes (entriesAt env tree (time + 2) target) = 0) :
      RemovalIds env path tree time []
  | listed {target : Path} (opened : CanOpen env path tree (time + 1) target)
      (counted : CanOpen env path tree (time + 2) target) :
      RemovalIds env path tree time (nodeIds (entriesAt env tree (time + 1) target))

/-- Every way in which `persist_remove_queue` can end; `none` is a `NULL` array used as
a list of files. -/
inductive Removal (env : Environment) (path : Bytes) (tree : FileTree) (time : Nat) :
    List Effect → Option Bool → Prop where
  | closed (closed : ∀ target, ¬CanOpen env path tree time target) :
      Removal env path tree time [] (some false)
  | unread {target : Path} (opened : CanOpen env path tree time target)
      (unread : ∀ target, ¬CanOpen env path tree (time + 1) target)
      (counted : CanOpen env path tree (time + 2) target)
      (some : countNodes (entriesAt env tree (time + 2) target) ≠ 0) :
      Removal env path tree time [] none
  | refused {target : Path} {ids : List Int} {effects : List Effect}
      (opened : CanOpen env path tree time target) (found : RemovalIds env path tree time ids)
      (unlinks : Unlinks env path tree (time + 3) ids effects false) :
      Removal env path tree time effects (some false)
  | kept {target : Path} {ids : List Int} {effects : List Effect}
      (opened : CanOpen env path tree time target) (found : RemovalIds env path tree time ids)
      (unlinks : Unlinks env path tree (time + 3) ids effects true)
      (cannot : ∀ target, ¬CanRemove env path (replay effects tree) (time + 3 + ids.length) target) :
      Removal env path tree time effects (some false)
  | removed {target last : Path} {ids : List Int} {effects : List Effect}
      (opened : CanOpen env path tree time target) (found : RemovalIds env path tree time ids)
      (unlinks : Unlinks env path tree (time + 3) ids effects true)
      (can : CanRemove env path (replay effects tree) (time + 3 + ids.length) last) :
      Removal env path tree time (effects ++ [.rmdir last]) (some true)

/-- The files of a directory are counted but cannot be listed. -/
def Uncertain (env : Environment) (path : Bytes) (tree : FileTree) (time : Nat) : Prop :=
  CanOpen env path tree time (env.target path) ∧
  (∀ target, ¬CanOpen env path tree (time + 1) target) ∧
  CanOpen env path tree (time + 2) (env.target path) ∧
  countNodes (entriesAt env tree (time + 2) (env.target path)) ≠ 0

theorem RemovalIds.certain {env : Environment} {path : Bytes} {tree : FileTree} {time : Nat}
    {ids : List Int} (found : RemovalIds env path tree time ids) : ¬Uncertain env path tree time := by
  intro uncertain
  obtain ⟨_, unread, counted, some⟩ := uncertain
  cases found with
  | uncounted closed => exact closed _ counted
  | empty opened none =>
      rw [opened.1.path_eq] at none
      exact some none
  | listed opened _ => exact unread _ opened

theorem RemovalIds.unique {env : Environment} {path : Bytes} {tree : FileTree} {time : Nat}
    {ids others : List Int} (left : RemovalIds env path tree time ids)
    (right : RemovalIds env path tree time others) : ids = others := by
  have emptied {first second : Path} (opened : CanOpen env path tree (time + 1) first)
      (counted : CanOpen env path tree (time + 2) second)
      (none : countNodes (entriesAt env tree (time + 2) second) = 0) :
      nodeIds (entriesAt env tree (time + 1) first) = [] := by
    rw [opened.1.path_eq, ← counted.1.path_eq]
    apply List.length_eq_zero_iff.mp
    rw [nodeIds_length, countNodes_entriesAt env tree _ (time + 2), none]
  cases left with
  | uncounted closed =>
      cases right with
      | uncounted _ => rfl
      | empty counted _ => exact absurd counted (closed _)
      | listed _ counted => exact absurd counted (closed _)
  | empty counted none =>
      cases right with
      | uncounted closed => exact absurd counted (closed _)
      | empty _ _ => rfl
      | listed opened _ => exact (emptied opened counted none).symm
  | listed opened counted =>
      cases right with
      | uncounted closed => exact absurd counted (closed _)
      | empty again none => exact emptied opened again none
      | listed other _ => rw [opened.1.path_eq, other.1.path_eq]

theorem Removal.none_iff {env : Environment} {path : Bytes} {tree : FileTree} {time : Nat}
    {effects : List Effect} {result : Option Bool}
    (removal : Removal env path tree time effects result) :
    result = none ↔ Uncertain env path tree time := by
  cases removal with
  | closed closed => exact iff_of_false (by simp) (fun uncertain => closed _ uncertain.1)
  | unread opened unread counted some =>
      rw [counted.1.path_eq] at some
      exact iff_of_true rfl ⟨opened.at_target, unread, counted.at_target, some⟩
  | refused opened found unlinks => exact iff_of_false (by simp) found.certain
  | kept opened found unlinks cannot => exact iff_of_false (by simp) found.certain
  | removed opened found unlinks can => exact iff_of_false (by simp) found.certain

theorem memFreeNullable_run {α : Type} (block : Option α) (world : World) :
    ∃ after, memFreeNullable block world = .returned () after ∧ world.Passed 0 [] after := by
  cases block with
  | none => exact ⟨world, rfl, ⟨.refl _, rfl, rfl⟩⟩
  | some block => exact ⟨world.release 1, rfl, ⟨.refl _, rfl, rfl⟩⟩

/-- The end of a removal: the files are unlinked, and then the directory is removed. -/
theorem removalEnd_run {env : Environment} {path : Bytes} {world middle : World} {target : Path}
    {ids : List Int} {length : Nat} {nodeFileArr : Option (List Int)}
    (opened : CanOpen env path world.system.tree world.system.clock target)
    (found : RemovalIds env path world.system.tree world.system.clock ids)
    (counted : world.Passed 3 [] middle)
    (loop : ∃ effects success ticks after,
      Unlinks env path middle.system.tree middle.system.clock ids effects success ∧
      removeNodeFiles env path nodeFileArr 1 length middle = .returned success after ∧
      middle.Passed ticks effects after ∧ (success = true → ticks = ids.length)) :
    ∃ effects success ticks after,
      Removal env path world.system.tree world.system.clock effects (some success) ∧
      (do
        if ← removeNodeFiles env path nodeFileArr 1 length then do
          memFreeNullable nodeFileArr
          system (rmdir env path)
        else pure false : Program World Bool) middle = .returned success after ∧
      world.Passed ticks effects after := by
  obtain ⟨effects, success, ticks, unlinked, unlinks, ran, passed, all⟩ := loop
  rw [counted.tree, counted.system.clock] at unlinks
  cases success with
  | false =>
      refine ⟨effects, false, 3 + ticks, unlinked, .refused opened found unlinks, ?_,
        counted.trans passed⟩
      simp only [Program.run_bind, ran, Bool.false_eq_true, if_false, Program.run_pure]
  | true =>
      obtain ⟨freed, freeRan, freePassed⟩ := memFreeNullable_run nodeFileArr unlinked
      have sofar := (counted.trans passed).trans freePassed
      have tree : freed.system.tree = replay effects world.system.tree := by
        simpa using sofar.system.tree
      have clock : freed.system.clock = world.system.clock + 3 + ids.length := by
        rw [sofar.system.clock, all rfl]
        omega
      rcases rmdir_cases env path freed.system with ⟨last, can, removed⟩ | ⟨cannot, errno, failed⟩
      · rw [tree, clock] at can
        refine ⟨effects ++ [.rmdir last], true, 3 + ticks + 0 + 1, { freed with
          system := freed.system.performed (.rmdir last) }, .removed opened found unlinks can, ?_,
          ?_⟩
        · simp only [Program.run_bind, ran, if_true, freeRan, run_system, removed]
        · have last : freed.Passed 1 [.rmdir last] { freed with
              system := freed.system.performed (.rmdir last) } :=
            ⟨System.performed_passed _ _, rfl, rfl⟩
          simpa using sofar.trans last
      · rw [tree, clock] at cannot
        refine ⟨effects, false, 3 + ticks + 0 + 1, { freed with system := freed.system.failed errno },
          .kept opened found unlinks cannot, ?_, ?_⟩
        · simp only [Program.run_bind, ran, if_true, freeRan, run_system, failed]
        · have last : freed.Passed 1 [] { freed with system := freed.system.failed errno } :=
            ⟨System.failed_passed _ _, rfl, rfl⟩
          simpa using sofar.trans last

theorem persistRemoveQueue_run (env : Environment) (path : Bytes) (world : World) :
    (∃ effects success ticks after,
      Removal env path world.system.tree world.system.clock effects (some success) ∧
      persistRemoveQueue env path world = .returned success after ∧
      world.Passed ticks effects after) ∨
    (Removal env path world.system.tree world.system.clock [] none ∧
      ∃ ticks after, persistRemoveQueue env path world = .trapped .nullPointer after ∧
        world.Passed ticks [] after) := by
  rcases checkDir_run env path world with ⟨target, opened, can, ran, passed⟩ |
    ⟨cannot, after, ran, passed⟩
  · have nothing (nodeFileArr : Option (List Int)) (middle : World) : ∃ effects success ticks after,
        Unlinks env path middle.system.tree middle.system.clock [] effects success ∧
        removeNodeFiles env path nodeFileArr 1 0 middle = .returned success after ∧
        middle.Passed ticks effects after ∧ (success = true → ticks = ([] : List Int).length) :=
      ⟨[], true, 0, middle, .done, rfl, ⟨.refl _, rfl, rfl⟩, fun _ => rfl⟩
    have finish {ids : List Int} {length : Nat} {nodeFileArr : Option (List Int)} {read middle : World}
        (readRan : readQueue env path opened = .returned nodeFileArr read)
        (countRan : getQueueLength env path read = .returned length middle)
        (counted : world.Passed 3 [] middle)
        (found : RemovalIds env path world.system.tree world.system.clock ids)
        (loop : ∃ effects success ticks after,
          Unlinks env path middle.system.tree middle.system.clock ids effects success ∧
          removeNodeFiles env path nodeFileArr 1 length middle = .returned success after ∧
          middle.Passed ticks effects after ∧ (success = true → ticks = ids.length)) :
        ∃ effects success ticks after,
          Removal env path world.system.tree world.system.clock effects (some success) ∧
          persistRemoveQueue env path world = .returned success after ∧
          world.Passed ticks effects after := by
      obtain ⟨effects, success, ticks, after, removal, finished, total⟩ :=
        removalEnd_run can found counted loop
      refine ⟨effects, success, ticks, after, removal, ?_, total⟩
      simp only [persistRemoveQueue, Program.run_bind, ran, readRan, countRan] at finished ⊢
      exact finished
    rcases readQueue_run env path opened with ⟨listed, read, canRead, readRan, readPassed⟩ |
      ⟨cannotRead, read, readRan, readPassed⟩
    all_goals
      have sofar := passed.trans readPassed
      have length := getQueueLength_run env path read
      rw [sofar.tree, sofar.system.clock] at length
    · rw [passed.tree, passed.system.clock] at canRead readRan
      rcases length with ⟨counted, middle, canCount, countRan, countPassed⟩ |
        ⟨cannotCount, middle, countRan, countPassed⟩
      · have same : counted = listed := canCount.1.path_eq.trans canRead.1.path_eq.symm
        subst same
        refine .inl (finish readRan countRan (sofar.trans countPassed) (.listed canRead canCount) ?_)
        rw [countNodes_entriesAt env _ _ (world.system.clock + 1), ← nodeIds_length]
        exact removeNodeFiles_run env path _ _ 1 middle rfl
      · exact .inl (finish readRan countRan (sofar.trans countPassed) (.uncounted cannotCount)
          (nothing _ middle))
    · rw [passed.tree, passed.system.clock] at cannotRead
      rcases length with ⟨counted, middle, canCount, countRan, countPassed⟩ |
        ⟨cannotCount, middle, countRan, countPassed⟩
      · cases number : countNodes (entriesAt env world.system.tree (world.system.clock + 2) counted) with
        | zero =>
            rw [number] at countRan
            exact .inl (finish readRan countRan (sofar.trans countPassed) (.empty canCount number)
              (nothing _ middle))
        | succ remaining =>
            have same : counted = target := canCount.1.path_eq.trans can.1.path_eq.symm
            subst same
            refine .inr ⟨.unread can cannotRead canCount (by rw [number]; omega), 3, middle, ?_,
              sofar.trans countPassed⟩
            rw [number] at countRan
            simp only [persistRemoveQueue, Program.run_bind, ran, readRan, countRan, removeNodeFiles,
              arrayGet, Program.run_stop]
      · exact .inl (finish readRan countRan (sofar.trans countPassed) (.uncounted cannotCount)
          (nothing _ middle))
  · refine .inl ⟨[], false, 1, after, .closed cannot, ?_, passed⟩
    simp only [persistRemoveQueue, Program.run_bind, ran, Program.run_pure]

theorem removeQueueCall_run (env : Environment) (name : Bytes) (world : World) :
    (∃ effects ticks after,
      Removal env (queuePath name) world.system.tree world.system.clock effects (some true) ∧
      persistDispatch env ⟨.removeQueue, some name, 0, none⟩ world =
        .returned (persistSuccess .null) after ∧
      world.Asked ticks effects ⟨.removeQueue, true⟩ after) ∨
    (∃ effects ticks message after,
      Removal env (queuePath name) world.system.tree world.system.clock effects (some false) ∧
      persistDispatch env ⟨.removeQueue, some name, 0, none⟩ world =
        .returned { errorMessage := some message, success := false, data := .null } after ∧
      world.Asked ticks effects ⟨.removeQueue, false⟩ after) ∨
    (Removal env (queuePath name) world.system.tree world.system.clock [] none ∧
      ∃ ticks after, persistDispatch env ⟨.removeQueue, some name, 0, none⟩ world =
        .trapped .nullPointer after ∧ world.Passed ticks [] after) := by
  rcases persistRemoveQueue_run env (queuePath name) (world.build (queuePath name)) with
    ⟨effects, success, ticks, middle, removal, ran, passed⟩ | ⟨removal, ticks, middle, ran, passed⟩
  · cases success with
    | true =>
        have branch : persistAction env ⟨.removeQueue, some name, 0, none⟩ (queuePath name)
            (nodeIdText 0) (branchStart name 0 world) = .returned (persistSuccess .null) middle := by
          simp only [branchStart_zero, persistAction, Program.run_bind, ran, if_true,
            Program.run_pure]
        obtain ⟨after, whole, asked⟩ := persistDispatch_returned branch passed
        exact .inl ⟨effects, ticks, after, removal, whole, asked⟩
    | false =>
        have branch : persistAction env ⟨.removeQueue, some name, 0, none⟩ (queuePath name)
            (nodeIdText 0) (branchStart name 0 world) =
              persistFailure (text "Error removing queue: ") middle := by
          simp only [branchStart_zero, persistAction, Program.run_bind, ran, Bool.false_eq_true,
            if_false]
        obtain ⟨message, after, whole, asked⟩ := persistDispatch_failed branch passed
        exact .inr (.inl ⟨effects, ticks, message, after, removal, whole, asked⟩)
  · have branch : persistAction env ⟨.removeQueue, some name, 0, none⟩ (queuePath name)
        (nodeIdText 0) (branchStart name 0 world) = .trapped .nullPointer middle := by
      simp only [branchStart_zero, persistAction, Program.run_bind, ran]
    have whole := (world.build_passed (queuePath name)).trans passed
    exact .inr (.inr ⟨removal, _, middle, persistDispatch_trapped branch, whole⟩)

end Bmb
