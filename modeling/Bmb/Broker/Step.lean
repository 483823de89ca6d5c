import Bmb.Broker.Answers
import Bmb.Broker.Command
import Bmb.Persist.Queues

namespace Bmb

open Bmb.Base Bmb.Posix

/-! Everything that handling a request can come to. -/

/-- How the handling of a request ends: a `NULL` pointer is used, the response has not
been assigned, or there is an answer and the queues are those of a shelf. -/
inductive Ending where
  | trapped
  | unassigned
  | answered (success : Bool) (shelf : Shelf Bytes Item)

section Step

variable (env : Environment) (shelf : Shelf Bytes Item) (tree : FileTree) (time : Nat)

/-- A command, the changes of the files and the persistence calls it makes, and its end. -/
inductive Step : Command → List Effect → List PersistCall → Ending → Prop where
  | untyped : Step .untyped [] [] .trapped
  | rejected (message : Bytes) : Step (.rejected message) [] [] (.answered false shelf)
  | unknown : Step .unknown [] [] .unassigned
  | read {command : Command} {success : Bool} (reads : command.Reads) :
      Step command [] [] (.answered success shelf)
  | empty (key : Bytes) : Step (.consume ⟨key, []⟩) [] [] (.answered false shelf)
  | unnumbered {key : Bytes} {item : Item} {rest : List Item} (zero : item.id = 0) :
      Step (.consume ⟨key, item :: rest⟩) [] [] .trapped
  | unremoved {key : Bytes} {item : Item} {rest : List Item} (positive : item.id ≠ 0)
      (cannot : ∀ target, ¬CanUnlink env (nodeFile key item.id) tree time target) :
      Step (.consume ⟨key, item :: rest⟩) [] [⟨.removeNode, false⟩] .trapped
  | consumed {key : Bytes} {item : Item} {rest : List Item} {target : Path}
      (positive : item.id ≠ 0) (can : CanUnlink env (nodeFile key item.id) tree time target) :
      Step (.consume ⟨key, item :: rest⟩) [.unlink target] [⟨.removeNode, true⟩]
        (.answered true (shelf.pop key))
  | noNodeId {mailbox : Mailbox} {data : Bytes}
      (cannot : ∀ target, ¬CanOpen env (queuePath mailbox.key) tree (time + 1) target) :
      Step (.produce mailbox data) [] [⟨.getNextId, false⟩] .trapped
  | noFileId {mailbox : Mailbox} {data : Bytes} {target : Path}
      (can : CanOpen env (queuePath mailbox.key) tree (time + 1) target)
      (cannot : ∀ target, ¬CanOpen env (queuePath mailbox.key) tree (time + 3) target) :
      Step (.produce mailbox data) [] [⟨.getNextId, true⟩, ⟨.getNextId, false⟩] .trapped
  | zeroFileId {mailbox : Mailbox} {data : Bytes} {target : Path}
      (first : CanOpen env (queuePath mailbox.key) tree (time + 1) target)
      (second : CanOpen env (queuePath mailbox.key) tree (time + 3) target)
      (zero : nextIdAt env tree (time + 3) target = 0) :
      Step (.produce mailbox data) [] [⟨.getNextId, true⟩, ⟨.getNextId, true⟩] .trapped
  | unsaved {mailbox : Mailbox} {data : Bytes} {target : Path}
      (first : CanOpen env (queuePath mailbox.key) tree (time + 1) target)
      (second : CanOpen env (queuePath mailbox.key) tree (time + 3) target)
      (positive : nextIdAt env tree (time + 3) target ≠ 0)
      (cannot : ∀ file, ¬CanCreate env
        (nodeFile mailbox.key (nextIdAt env tree (time + 3) target)) tree (time + 4) file) :
      Step (.produce mailbox data) []
        [⟨.getNextId, true⟩, ⟨.getNextId, true⟩, ⟨.addNode, false⟩] (.answered true shelf)
  | saved {mailbox : Mailbox} {data : Bytes} {target file : Path}
      (first : CanOpen env (queuePath mailbox.key) tree (time + 1) target)
      (second : CanOpen env (queuePath mailbox.key) tree (time + 3) target)
      (positive : nextIdAt env tree (time + 3) target ≠ 0)
      (can : CanCreate env (nodeFile mailbox.key (nextIdAt env tree (time + 3) target)) tree
        (time + 4) file) :
      Step (.produce mailbox data) (storeEffects env (time + 5) file (some data))
        [⟨.getNextId, true⟩, ⟨.getNextId, true⟩, ⟨.addNode, true⟩]
        (.answered true (shelf.push mailbox.key ⟨nextIdAt env tree (time + 1) target, data⟩))
  | known {name : Bytes} (member : name ∈ shelf.keys) :
      Step (.addQueue name) [] [] (.answered false shelf)
  | adopted {name : Bytes} {target : Path} (fresh : name ∉ shelf.keys)
      (can : CanOpen env (queuePath name) tree time target) :
      Step (.addQueue name) [] [⟨.addQueue, true⟩] (.answered true (shelf.create name))
  | made {name : Bytes} {target : Path} (fresh : name ∉ shelf.keys)
      (can : CanMake env (queuePath name) tree (time + 1) target) :
      Step (.addQueue name) [.mkdir target] [⟨.addQueue, true⟩]
        (.answered true (shelf.create name))
  | unmade {name : Bytes} (fresh : name ∉ shelf.keys)
      (why : ∀ target, Reaches env .opendir (queuePath name) tree time target →
        ¬CanOpen env (queuePath name) tree time target ∧
        (tree.get target = none → ¬CanMake env (queuePath name) tree (time + 1) target)) :
      Step (.addQueue name) [] [⟨.addQueue, false⟩] (.answered false shelf)
  | removed {mailbox : Mailbox} {effects : List Effect}
      (removal : Removal env (queuePath mailbox.key) tree time effects (some true)) :
      Step (.removeQueue mailbox) effects [⟨.removeQueue, true⟩]
        (.answered true (shelf.remove mailbox.key))
  | kept {mailbox : Mailbox} {effects : List Effect}
      (removal : Removal env (queuePath mailbox.key) tree time effects (some false)) :
      Step (.removeQueue mailbox) effects [⟨.removeQueue, false⟩] (.answered false shelf)
  | unread {mailbox : Mailbox}
      (removal : Removal env (queuePath mailbox.key) tree time [] none) :
      Step (.removeQueue mailbox) [] [] .trapped

end Step

/-- A run ends in a state of its own kind, with the files changed and the log extended. -/
inductive Ends {σ : Type} (env : BrokerEnvironment) (world : σ → World)
    (holds : Shelf Bytes Item → σ → Prop) (shelf : Shelf Bytes Item) (before : σ)
    (effects : List Effect) (calls : List PersistCall) :
    Ending → Outcome σ (Option BrokerResponse) → Prop where
  | trapped {after : σ} (kept : holds shelf after)
      (handled : (world before).Handled effects calls (world after)) :
      Ends env world holds shelf before effects calls .trapped (.trapped .nullPointer after)
  | unassigned {after : σ} (kept : holds shelf after)
      (handled : (world before).Handled effects calls (world after)) :
      Ends env world holds shelf before effects calls .unassigned (.returned none after)
  | answered {success : Bool} {newShelf : Shelf Bytes Item} {response : BrokerResponse} {after : σ}
      (shown : Answers env success response) (kept : holds newShelf after)
      (handled : (world before).Handled effects calls (world after)) :
      Ends env world holds shelf before effects calls (.answered success newShelf)
        (.returned (some response) after)

/-- However a run ends, the changes of the files are those of its step. -/
theorem Ends.handled {σ : Type} {env : BrokerEnvironment} {world : σ → World}
    {holds : Shelf Bytes Item → σ → Prop} {shelf : Shelf Bytes Item} {before : σ}
    {effects : List Effect} {calls : List PersistCall} {ending : Ending}
    {outcome : Outcome σ (Option BrokerResponse)}
    (ends : Ends env world holds shelf before effects calls ending outcome) :
    (world before).Handled effects calls (world outcome.state) := by
  cases ends with
  | trapped _ handled | unassigned _ handled | answered _ _ handled => exact handled

namespace Ledger

variable (env : BrokerEnvironment)

/-- Handling a command from a ledger ends in one of the ways a step allows. -/
def Steps (ledger : Ledger) (command : Command)
    (outcome : Outcome Ledger (Option BrokerResponse)) : Prop :=
  ∃ effects calls ending,
    Step env.toEnvironment ledger.shelf ledger.world.system.tree ledger.world.system.clock
      command effects calls ending ∧
    Ends env Ledger.world (fun shelf after => after.shelf = shelf) ledger.shelf ledger effects calls
      ending outcome

theorem answer (before middle : Ledger) {program : Program World BrokerResponse} {success : Bool}
    {effects : List Effect} {calls : List PersistCall} (quiet : Quiet (Answers env success) program)
    (handled : before.world.Handled effects calls middle.world) :
    Ends env Ledger.world (fun shelf after => after.shelf = shelf) before.shelf before effects calls
      (.answered success middle.shelf) ((some <$> onWorld program) middle) := by
  obtain ⟨res, after, ran, more, shown⟩ := quiet middle.world
  rw [Program.run_map, run_onWorld, ran]
  exact .answered shown rfl (handled.followed more)

theorem read_step {program : Program World BrokerResponse} {command : Command}
    (reads : command.Reads) (quiet : Quiet (AnswersAny env) program) (ledger : Ledger) :
    Steps env ledger command ((some <$> onWorld program) ledger) := by
  obtain ⟨res, after, ran, handled, success, shown⟩ := quiet ledger.world
  refine ⟨[], [], .answered success ledger.shelf, .read reads, ?_⟩
  rw [Program.run_map, run_onWorld, ran]
  exact .answered shown rfl handled

theorem consume_step (mailbox : Mailbox) (ledger : Ledger) :
    Steps env ledger (.consume mailbox) ((some <$> consume env mailbox) ledger) := by
  obtain ⟨key, items⟩ := mailbox
  cases items with
  | nil =>
      exact ⟨_, _, _, .empty key,
        answer env ledger ledger (createResponse_quiet env _ _ _ _ _) (.refl _)⟩
  | cons item rest =>
      by_cases zero : item.id = 0
      · have ran : consume env ⟨key, item :: rest⟩ ledger =
            .trapped .nullPointer (ledger.setWorld (ledger.world.build (queuePath key))) := by
          simp only [consume, Program.run_bind, run_onWorld, zero, removeNode_zero]
        rw [Program.run_map, ran]
        exact ⟨_, _, _, .unnumbered zero, .trapped rfl (World.build_passed _ _).handled⟩
      · rcases removeNodeCall_run env.toEnvironment key ledger.world zero with
          ⟨target, world, can, ran, asked⟩ | ⟨cannot, message, world, ran, asked⟩
        · have step : consume env ⟨key, item :: rest⟩ ledger = onWorld (deliver env item)
              ((ledger.setWorld world).setShelf (ledger.shelf.pop key)) := by
            simp only [consume, Program.run_bind, run_onWorld, ran, persistSuccess, if_true, onShelf,
              Program.run_modify]
            rfl
          rw [Program.run_map, step]
          exact ⟨_, _, _, .consumed zero can,
            answer env ledger ((ledger.setWorld world).setShelf (ledger.shelf.pop key))
              (deliver_quiet env item) asked.handled⟩
        · have step : consume env ⟨key, item :: rest⟩ ledger =
              .trapped .nullPointer (ledger.setWorld world) := by
            simp only [consume, Program.run_bind, run_onWorld, ran, Bool.false_eq_true, if_false,
              Program.run_stop]
          rw [Program.run_map, step]
          exact ⟨_, _, _, .unremoved zero cannot, .trapped rfl asked.handled⟩

theorem addQueue_fresh {name : Bytes} {ledger : Ledger} (fresh : name ∉ ledger.shelf.keys) :
    addQueue env name ledger =
      addFresh env name ledger.shelf (ledger.setWorld ((ledger.world.allocate 1).allocate 1)) := by
  simp only [addQueue, addFresh, Program.run_bind, Program.run_read, if_neg fresh, run_onWorld,
    run_memAlloc]
  rfl

theorem addQueue_step (name : Bytes) (ledger : Ledger) :
    Steps env ledger (.addQueue name) ((some <$> addQueue env name) ledger) := by
  by_cases member : name ∈ ledger.shelf.keys
  · have step : addQueue env name ledger = respond env false 200
        (some (text "Failed: Queue with given name already exists.")) none none ledger := by
      simp only [addQueue, Program.run_bind, Program.run_read, if_pos member]
    rw [Program.run_map, step]
    exact ⟨_, _, _, .known member,
      answer env ledger ledger (createResponse_quiet env _ _ _ _ _) (.refl _)⟩
  · have allocated := (ledger.world.allocate_handled 1).followed (World.allocate_handled _ 1)
    have start := addQueue_fresh env member
    rcases addQueueCall_run env.toEnvironment name ((ledger.world.allocate 1).allocate 1) with
      ⟨ticks, effects, world, ran, asked, why⟩ | ⟨ticks, message, world, ran, asked, why⟩
    · obtain ⟨stored, step, handled⟩ : ∃ stored, addQueue env name ledger =
          respond env true 200 (some (text "Queue created.")) none none
            ((ledger.setWorld stored).setShelf (ledger.shelf.create name)) ∧
          ledger.world.Handled effects [⟨.addQueue, true⟩] stored := by
        by_cases first : ledger.shelf = []
        · refine ⟨world.allocate 1, ?_, (World.Handled.preceded allocated asked.handled).followed
            (world.allocate_handled 1)⟩
          rw [start]
          simp only [addFresh, Program.run_bind, run_onWorld, setWorld, ran, persistSuccess, if_true, if_pos first,
            onShelf, Program.run_modify, run_memAlloc, setShelf]
        · refine ⟨world, ?_, World.Handled.preceded allocated asked.handled⟩
          rw [start]
          simp only [addFresh, Program.run_bind, run_onWorld, setWorld, ran, persistSuccess, if_true,
            if_neg first, onShelf, Program.run_modify, setShelf]
      have answered := answer env ledger
        ((ledger.setWorld stored).setShelf (ledger.shelf.create name))
        (createResponse_quiet env true 200 (some (text "Queue created.")) none none) handled
      rw [Program.run_map, step]
      rcases why with ⟨rfl, target, can⟩ | ⟨target, rfl, can⟩
      · exact ⟨_, _, _, .adopted member can, answered⟩
      · exact ⟨_, _, _, .made member can, answered⟩
    · have step : addQueue env name ledger = respond env false 200
          (some (text "Failed to create queue.")) none none (ledger.setWorld world) := by
        rw [start]
        simp only [addFresh, Program.run_bind, run_onWorld, setWorld, ran, Bool.false_eq_true, if_false]
      rw [Program.run_map, step]
      exact ⟨_, _, _, .unmade member why, answer env ledger (ledger.setWorld world)
        (createResponse_quiet env _ _ _ _ _) (World.Handled.preceded allocated asked.handled)⟩

theorem producedId_cases (name : Bytes) (world : World) :
    (∃ target after,
      CanOpen env.toEnvironment (queuePath name) world.system.tree (world.system.clock + 1) target ∧
      producedId env name world = .returned
        (nextIdAt env.toEnvironment world.system.tree (world.system.clock + 1) target) after ∧
      world.Handled [] [⟨.getNextId, true⟩] after ∧
      after.system.clock = world.system.clock + 2) ∨
    ((∀ target,
        ¬CanOpen env.toEnvironment (queuePath name) world.system.tree (world.system.clock + 1) target) ∧
      ∃ after, producedId env name world = .trapped .nullPointer after ∧
        world.Handled [] [⟨.getNextId, false⟩] after) := by
  rcases getNextId_run env.toEnvironment name world with ⟨target, after, can, ran, asked⟩ |
    ⟨cannot, message, after, ran, asked⟩
  · refine .inl ⟨target, ((after.allocate 1).release 1).allocate 1, can, ?_,
      ((asked.handled.followed (World.allocate_handled _ 1)).followed
        (World.release_handled _ 1)).followed (World.allocate_handled _ 1), asked.system.clock⟩
    simp only [producedId, Program.run_bind, ran, persistSuccess, nextIdFrom, Program.run_pure,
      run_memAlloc, run_memFree]
  · refine .inr ⟨cannot, after, ?_, asked.handled⟩
    simp only [producedId, Program.run_bind, ran, nextIdFrom, Program.run_stop]

theorem storeCalls_numbered (data : Bytes) {name : Bytes} {world numbered : World} {nextId : Nat}
    (ran : persistDispatch env.toEnvironment ⟨.getNextId, some name, 0, none⟩ world =
      .returned (persistSuccess (.nextId nextId)) numbered) :
    storeCalls env.toEnvironment name (some data) world =
      (PersistResponse.success <$> persistDispatch env.toEnvironment
        ⟨.addNode, some name, nextId, some data⟩) (numbered.release 1) := by
  simp only [storeCalls, Program.run_bind, ran, persistSuccess, nextIdFrom, Program.run_pure,
    run_memFree, Program.run_map]

/-- Storing a node asks for the next id again and then for the file. -/
theorem storeCalls_cases (name data : Bytes) (world : World) :
    ((∀ target,
        ¬CanOpen env.toEnvironment (queuePath name) world.system.tree (world.system.clock + 1) target) ∧
      ∃ after, storeCalls env.toEnvironment name (some data) world = .trapped .nullPointer after ∧
        world.Handled [] [⟨.getNextId, false⟩] after) ∨
    ∃ target,
      CanOpen env.toEnvironment (queuePath name) world.system.tree (world.system.clock + 1) target ∧
      ((nextIdAt env.toEnvironment world.system.tree (world.system.clock + 1) target = 0 ∧
          ∃ after, storeCalls env.toEnvironment name (some data) world = .trapped .nullPointer after ∧
            world.Handled [] [⟨.getNextId, true⟩] after) ∨
        (nextIdAt env.toEnvironment world.system.tree (world.system.clock + 1) target ≠ 0 ∧
          ((∃ file after, CanCreate env.toEnvironment (nodeFile name
              (nextIdAt env.toEnvironment world.system.tree (world.system.clock + 1) target))
                world.system.tree (world.system.clock + 2) file ∧
              storeCalls env.toEnvironment name (some data) world = .returned true after ∧
              world.Handled (storeEffects env.toEnvironment (world.system.clock + 3) file (some data))
                [⟨.getNextId, true⟩, ⟨.addNode, true⟩] after) ∨
            ((∀ file, ¬CanCreate env.toEnvironment (nodeFile name
              (nextIdAt env.toEnvironment world.system.tree (world.system.clock + 1) target))
                world.system.tree (world.system.clock + 2) file) ∧
              ∃ after, storeCalls env.toEnvironment name (some data) world = .returned false after ∧
                world.Handled [] [⟨.getNextId, true⟩, ⟨.addNode, false⟩] after)))) := by
  rcases getNextId_run env.toEnvironment name world with ⟨target, numbered, can, ran, asked⟩ |
    ⟨cannot, message, after, ran, asked⟩
  · refine .inr ⟨target, can, ?_⟩
    have start := storeCalls_numbered env data ran
    have readied := asked.handled.followed (World.release_handled numbered 1)
    have clock : (numbered.release 1).system.clock = world.system.clock + 2 := asked.system.clock
    by_cases zero :
        nextIdAt env.toEnvironment world.system.tree (world.system.clock + 1) target = 0
    · refine .inl ⟨zero, (numbered.release 1).build (queuePath name), ?_,
        readied.followed (World.build_passed _ _).handled⟩
      rw [start, zero, Program.run_map, addNode_zero]
    · refine .inr ⟨zero, ?_⟩
      rcases addNode_run env.toEnvironment name (some data) (numbered.release 1) zero with
        ⟨file, after, can, stored, asked⟩ | ⟨cannot, message, after, failed, asked⟩
      · rw [clock, readied.tree, replay_nil] at can
        rw [clock, Nat.add_assoc] at asked
        refine .inl ⟨file, after, can, ?_, readied.trans asked.handled⟩
        rw [start, Program.run_map, stored]
        rfl
      · rw [clock, readied.tree, replay_nil] at cannot
        refine .inr ⟨cannot, after, ?_, readied.trans asked.handled⟩
        rw [start, Program.run_map, failed]
  · refine .inl ⟨cannot, after, ?_, asked.handled⟩
    simp only [storeCalls, Program.run_bind, ran, nextIdFrom, Program.run_stop]

theorem produce_step (mailbox : Mailbox) (data : Bytes) (ledger : Ledger) :
    Steps env ledger (.produce mailbox data) ((some <$> produce env mailbox data) ledger) := by
  rcases producedId_cases env mailbox.key ledger.world with
    ⟨target, world, first, ran, readied, clock⟩ | ⟨cannot, world, ran, handled⟩
  · have cases := storeCalls_cases env mailbox.key data world
    simp only [readied.tree, clock, replay_nil, Nat.add_assoc, Nat.reduceAdd] at cases
    have finish (stored : Bool) (after : World)
        (calls : storeCalls env.toEnvironment mailbox.key (some data) world = .returned stored after) :
        produce env mailbox data ledger =
          respond env true 200 (some (text "Message produced.")) none none
            ((ledger.setWorld after).setShelf (if stored then
              ledger.shelf.push mailbox.key ⟨nextIdAt env.toEnvironment ledger.world.system.tree
                (ledger.world.system.clock + 1) target, data⟩ else ledger.shelf)) := by
      cases stored <;>
        simp only [produce, Program.run_bind, run_onWorld, ran, setWorld, calls, if_true, onShelf,
          Program.run_modify, setShelf, Bool.false_eq_true, if_false]
    have stop (after : World) (calls : storeCalls env.toEnvironment mailbox.key (some data) world =
        .trapped .nullPointer after) :
        produce env mailbox data ledger = .trapped .nullPointer (ledger.setWorld after) := by
      simp only [produce, Program.run_bind, run_onWorld, ran, setWorld, calls]
    rw [Program.run_map]
    rcases cases with ⟨cannot, after, stored, handled⟩ | ⟨other, second, ⟨zero, after, stored, handled⟩ |
      ⟨positive, ⟨file, after, can, stored, handled⟩ | ⟨cannot, after, stored, handled⟩⟩⟩
    · rw [stop after stored]
      exact ⟨_, _, _, .noFileId first cannot, .trapped rfl (readied.trans handled)⟩
    all_goals
      have same : other = target := second.1.path_eq.trans first.1.path_eq.symm
      subst same
    · rw [stop after stored]
      exact ⟨_, _, _, .zeroFileId first second zero, .trapped rfl (readied.trans handled)⟩
    · rw [finish true after stored]
      exact ⟨_, _, _, .saved first second positive can, answer env ledger
        ((ledger.setWorld after).setShelf _) (createResponse_quiet env _ _ _ _ _)
        (readied.trans handled)⟩
    · rw [finish false after stored]
      exact ⟨_, _, _, .unsaved first second positive cannot, answer env ledger
        ((ledger.setWorld after).setShelf _) (createResponse_quiet env _ _ _ _ _)
        (readied.trans handled)⟩
  · have step : produce env mailbox data ledger = .trapped .nullPointer (ledger.setWorld world) := by
      simp only [produce, Program.run_bind, run_onWorld, ran]
    rw [Program.run_map, step]
    exact ⟨_, _, _, .noNodeId cannot, .trapped rfl handled⟩

theorem removeQueue_done {mailbox : Mailbox} {ledger : Ledger} {world : World}
    (ran : persistDispatch env.toEnvironment ⟨.removeQueue, some mailbox.key, 0, none⟩ ledger.world =
      .returned (persistSuccess .null) world) :
    removeQueue env mailbox ledger =
      respond env true 200 (some (text "Queue removed.")) none none
        ((ledger.setShelf (ledger.shelf.remove mailbox.key)).setWorld (world.release
          (2 * mailbox.items.length + 2 +
            if ledger.shelf.remove mailbox.key = [] then 1 else 0))) := by
  simp only [removeQueue, Program.run_bind, run_onWorld, ran, persistSuccess, if_true, onShelf,
    Program.run_modify, Program.run_read, setShelf, setWorld]

theorem removeQueue_refused {mailbox : Mailbox} {ledger : Ledger} {message : Bytes} {world : World}
    (ran : persistDispatch env.toEnvironment ⟨.removeQueue, some mailbox.key, 0, none⟩ ledger.world =
      .returned { errorMessage := some message, success := false, data := .null } world) :
    removeQueue env mailbox ledger =
      respond env false 200 (some (text "Failed to remove queue.")) none none
        (ledger.setWorld (world.release 1)) := by
  simp only [removeQueue, Program.run_bind, run_onWorld, ran, Bool.false_eq_true, if_false,
    memFreeNullable, run_memFree, setWorld]

theorem removeQueue_step (mailbox : Mailbox) (ledger : Ledger) :
    Steps env ledger (.removeQueue mailbox) ((some <$> removeQueue env mailbox) ledger) := by
  rcases removeQueueCall_run env.toEnvironment mailbox.key ledger.world with
    ⟨effects, ticks, world, removal, ran, asked⟩ |
    ⟨effects, ticks, message, world, removal, ran, asked⟩ | ⟨removal, ticks, world, ran, passed⟩
  · rw [Program.run_map, removeQueue_done env ran]
    exact ⟨_, _, _, .removed removal, answer env ledger
      ((ledger.setShelf (ledger.shelf.remove mailbox.key)).setWorld _)
      (createResponse_quiet env _ _ _ _ _) (asked.handled.followed (World.release_handled _ _))⟩
  · rw [Program.run_map, removeQueue_refused env ran]
    exact ⟨_, _, _, .kept removal, answer env ledger (ledger.setWorld _)
      (createResponse_quiet env _ _ _ _ _) (asked.handled.followed (World.release_handled _ _))⟩
  · have step : removeQueue env mailbox ledger = .trapped .nullPointer (ledger.setWorld world) := by
      simp only [removeQueue, Program.run_bind, run_onWorld, ran]
    rw [Program.run_map, step]
    exact ⟨_, _, _, .unread removal, .trapped rfl passed.handled⟩

/-- Whatever a command is, handling it is one of the steps. -/
theorem execute_step (command : Command) (ledger : Ledger) :
    Steps env ledger command (execute env command ledger) := by
  cases command with
  | untyped => exact ⟨_, _, _, .untyped, .trapped rfl (.refl _)⟩
  | rejected message =>
      exact ⟨_, _, _, .rejected message,
        answer env ledger ledger (createResponse_quiet env _ _ _ _ _) (.refl _)⟩
  | unknown => exact ⟨_, _, _, .unknown, .unassigned rfl (.refl _)⟩
  | consume mailbox => exact consume_step env mailbox ledger
  | produce mailbox data => exact produce_step env mailbox data ledger
  | addQueue name => exact addQueue_step env name ledger
  | removeQueue mailbox => exact removeQueue_step env mailbox ledger
  | getAll mailbox =>
      exact read_step env (.getAll mailbox) (itemsResponse_answering env mailbox.items.reverse).quiet ledger
  | getAllQueueNames =>
      exact read_step env .getAllQueueNames (listNames_answering env ledger.shelf.keys).quiet ledger
  | length mailbox =>
      exact read_step env (.length mailbox) ((lengthResponse_answering env _).quiet.weaken
        (fun _ shown => ⟨true, shown⟩)) ledger
  | get mailbox index =>
      rw [show execute env (.get mailbox index) = some <$> get env mailbox index from rfl]
      cases found : mailbox.items.reverse[index]? with
      | some item =>
          have step : get env mailbox index = onWorld (respondCopied env item.message) := by
            simp only [get, found]
          rw [step]
          exact read_step env (.get mailbox index) ((respondCopied_answering env item.message).quiet.weaken
            (fun _ shown => ⟨true, shown⟩)) ledger
      | none =>
          have step : get env mailbox index =
              respond env false 200 (some (text "Node index out of range.")) none none := by
            simp only [get, found]
          rw [step]
          exact read_step env (.get mailbox index) ((createResponse_quiet env _ _ _ _ _).weaken
            (fun _ shown => ⟨false, shown⟩)) ledger

end Ledger

/-- Handling a request is one of the steps of the command it amounts to. -/
theorem brokerDispatch_step (env : BrokerEnvironment) (req : BrokerRequest) {machine : Machine}
    {shelf : Shelf Bytes Item} (keeps : machine.Keeps shelf) :
    ∃ effects calls ending,
      Step env.toEnvironment shelf machine.world.system.tree machine.world.system.clock
        (command req shelf) effects calls ending ∧
      Ends env Machine.world (fun shelf after => after.Keeps shelf) shelf machine effects calls ending
        (brokerDispatch env req machine) := by
  have matching := brokerDispatch_matches env req
    (show Tracks machine ⟨shelf, machine.world⟩ from ⟨keeps, rfl⟩)
  obtain ⟨effects, calls, ending, step, ends⟩ :=
    Ledger.execute_step env (command req shelf) ⟨shelf, machine.world⟩
  refine ⟨effects, calls, ending, step, ?_⟩
  have dispatched : Ledger.dispatch env req ⟨shelf, machine.world⟩ =
      Ledger.execute env (command req shelf) ⟨shelf, machine.world⟩ := rfl
  rw [dispatched] at matching
  generalize Ledger.execute env (command req shelf) ⟨shelf, machine.world⟩ = outcome at matching ends
  cases ends with
  | trapped kept handled =>
      obtain ⟨after, ran, tracks⟩ := matching.to_trapped
      rw [ran]
      have same : _ = shelf := kept
      exact .trapped (same ▸ tracks.keeps) (tracks.world ▸ handled)
  | unassigned kept handled =>
      obtain ⟨after, ran, tracks⟩ := matching.to_returned
      rw [ran]
      have same : _ = shelf := kept
      exact .unassigned (same ▸ tracks.keeps) (tracks.world ▸ handled)
  | answered shown kept handled =>
      obtain ⟨after, ran, tracks⟩ := matching.to_returned
      rw [ran]
      exact .answered shown (kept ▸ tracks.keeps) (tracks.world ▸ handled)

end Bmb
