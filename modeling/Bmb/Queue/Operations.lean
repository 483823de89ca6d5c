import Bmb.Queue.Holds

namespace Bmb

open Bmb.Base Bmb.Posix

/-! The operations of `queue.c` that go through persistence.  What they do to the
world is separated from what they do to the chain. -/

variable {env : Environment} {machine after : Machine} {address : Address} {cells : List Address}
  {persist : Bool} {mailbox : Mailbox}

theorem QueueHolds.setWorld (holds : QueueHolds machine address cells persist mailbox)
    (world : World) : QueueHolds (machine.setWorld world) address cells persist mailbox :=
  ⟨holds.header, holds.chain⟩

/-- `made` is the machine with one more queue object, empty and not in the pool. -/
structure NewQueue (machine made : Machine) (name : Bytes) : Prop where
  holds : QueueHolds made machine.queues.frontier [] true ⟨name, []⟩
  nodes : made.nodes = machine.nodes
  queues : ∀ other ≠ machine.queues.frontier, made.queues.get other = machine.queues.get other
  pool : made.pool = machine.pool

theorem stored_append {items : List Item} (item : Item) :
    (items ++ [item]).reverse.map Item.stored = item.stored :: items.reverse.map Item.stored := by
  simp

namespace Queue

theorem new_run (machine : Machine) (name : Bytes) :
    ∃ made, Queue.new name machine = .returned (some machine.queues.frontier) made ∧
      NewQueue machine made name ∧ made.world = (machine.world.allocate 1).allocate 1 := by
  have created : (machine.queues.alloc { name, root := none, tail := none, persist := true }).get
      machine.queues.frontier = some { name, root := none, tail := none, persist := true } :=
    Store.get_alloc_self
  have ended := Store.get_modify_self (setEnds none none) created
  have ran := run_updateQueue (((machine.setWorld (machine.world.allocate 1)).setQueues
    (machine.queues.alloc { name, root := none, tail := none, persist := true })).setWorld
      ((machine.world.allocate 1).allocate 1)) (setEnds none none) created
  refine ⟨(((machine.setWorld (machine.world.allocate 1)).setQueues
      (machine.queues.alloc { name, root := none, tail := none, persist := true })).setWorld
        ((machine.world.allocate 1).allocate 1)).setQueues
          ((machine.queues.alloc { name, root := none, tail := none, persist := true }).modify
            machine.queues.frontier (setEnds none none)), ?_, ⟨⟨ended, .nil⟩, rfl, ?_, rfl⟩, rfl⟩
  · simp only [Queue.new, Program.run_bind, run_onWorld, run_memAlloc, Program.run_read,
      Program.run_modify, Machine.setWorld_queues, reset, Program.run_pure,
      Machine.setQueues_world, Machine.setWorld_world, ran]
    rfl
  · intro other different
    exact (Store.get_modify_of_ne _ different).trans (Store.get_alloc_of_ne different)

/-- `Queue_add` of a fresh node: first the persistence calls, and if they store the
message, the node is linked. -/
theorem add_run (env : Environment) {rt : Address} {item : Item} {next : Pointer}
    (holds : QueueHolds machine address cells true mailbox) (outside : rt ∉ cells)
    (found : machine.nodes.get rt = some { id := item.id, message := some item.message, next }) :
    match storeCalls env mailbox.key (some item.message) machine.world with
    | .trapped trap world =>
        add env (some address) (some rt) machine = .trapped trap (machine.setWorld world)
    | .returned false world =>
        add env (some address) (some rt) machine = .returned false (machine.setWorld world)
    | .returned true world =>
        ∃ after, add env (some address) (some rt) machine = .returned true after ∧
          QueueHolds after address (rt :: cells) true ⟨mailbox.key, mailbox.items ++ [item]⟩ ∧
          OutsideSame [rt] address machine after ∧ after.world = world := by
  have added := add_linked env holds.linked outside found
  revert added
  cases storeCalls env mailbox.key (some item.message) machine.world with
  | trapped trap world => exact id
  | returned success world =>
      cases success with
      | false => exact id
      | true =>
          rintro ⟨after, ran, pushed, rest⟩
          exact ⟨after, ran, .of_linked pushed (stored_append item).symm, rest⟩

theorem add_unpersisted_run (env : Environment) {rt : Address} {item : Item} {next : Pointer}
    (holds : QueueHolds machine address cells false mailbox) (outside : rt ∉ cells)
    (found : machine.nodes.get rt = some { id := item.id, message := some item.message, next }) :
    ∃ after, add env (some address) (some rt) machine = .returned true after ∧
      QueueHolds after address (rt :: cells) false ⟨mailbox.key, mailbox.items ++ [item]⟩ ∧
      OutsideSame [rt] address machine after ∧ after.world = machine.world := by
  obtain ⟨after, ran, pushed, rest⟩ := add_unpersisted_linked env holds.linked outside found
  exact ⟨after, ran, .of_linked pushed (stored_append item).symm, rest⟩

theorem poll_empty {key : Bytes} (holds : QueueHolds machine address cells persist ⟨key, []⟩) :
    poll env (some address) machine = .returned none machine := by
  cases List.eq_nil_of_length_eq_zero holds.length_eq
  exact poll_empty_linked holds.linked

/-- `Queue_poll` on a queue with items: the tail is detached if the persistence call
succeeds; otherwise nothing in memory changes. -/
theorem poll_run (env : Environment) {key : Bytes} {item : Item} {rest : List Item}
    (holds : QueueHolds machine address cells true ⟨key, item :: rest⟩) :
    match persistDispatch env ⟨.removeNode, some key, item.id, none⟩ machine.world with
    | .trapped trap world => poll env (some address) machine = .trapped trap (machine.setWorld world)
    | .returned pres world =>
        if pres.success then
          ∃ kept last detached, cells = kept ++ [last] ∧
            poll env (some address) machine = .returned (some last) detached ∧
            machine.nodes.get last =
              some { id := item.id, message := some item.message, next := none } ∧
            QueueHolds detached address kept true ⟨key, rest⟩ ∧
            OutsideSame kept address machine detached ∧ detached.world = world
        else poll env (some address) machine = .returned none (machine.setWorld world) := by
  obtain ⟨kept, last, rfl, found⟩ := holds.last_node
  have polled := poll_linked env holds.linked found
  revert polled
  dsimp only
  cases persistDispatch env ⟨.removeNode, some key, item.id, none⟩ machine.world with
  | trapped trap world => exact id
  | returned pres world =>
      dsimp only
      split
      · rintro ⟨detached, ran, keeps, rest⟩
        exact ⟨kept, last, detached, rfl, ran, found, .of_linked keeps (by simp), rest⟩
      · exact id

theorem new_node_run (machine : Machine) (id : Nat) :
    Node.new id machine =
      .returned (some machine.nodes.frontier) ((machine.setWorld (machine.world.allocate 1)).setNodes
        (machine.nodes.alloc { id, message := none, next := none })) := by
  simp only [Node.new, Program.run_bind, run_onWorld, run_memAlloc, Program.run_read,
    Program.run_modify, Machine.setWorld_nodes, Program.run_pure]

theorem setMessage_run (machine : Machine) {cell : Address} {id : Nat} {next : Pointer}
    (message : Bytes)
    (found : machine.nodes.get cell = some { id, message := none, next }) :
    Node.setMessage (some cell) message machine =
      .returned () ((machine.setWorld (machine.world.allocate 1)).setNodes
        (machine.nodes.modify cell (Node.setMessageField message))) := by
  have updated := run_updateNode (Node.setMessageField message)
    (show (machine.setWorld (machine.world.allocate 1)).nodes.get cell = _ from found)
  simp only [Node.setMessage, Node.clearMessage, Program.run_bind, run_nodeAt found,
    memFreeNullable, Program.run_pure, run_onWorld, run_memAlloc]
  exact updated

theorem destruct_node_run {cell : Address} {item : Item} {next : Pointer}
    (found : machine.nodes.get cell = some { id := item.id, message := some item.message, next }) :
    Node.destruct (some cell) machine =
      .returned () ((machine.setWorld (machine.world.release 2)).setNodes
        (machine.nodes.free cell)) :=
  destruct_node_live found

/-- `Queue_clear` touches the nodes of the queue only. -/
theorem clear_run (holds : QueueHolds machine address cells persist mailbox) :
    ∃ after, clear (some address) machine = .returned () after ∧
      (∀ cell ∉ cells, after.nodes.get cell = machine.nodes.get cell) ∧
      after.queues = machine.queues ∧ after.pool = machine.pool ∧
      after.world = machine.world.release (2 * mailbox.items.length) := by
  obtain ⟨after, ran, _, destroyed, world⟩ := clear_linked holds.linked
  refine ⟨after, ran, destroyed.others, destroyed.queues, destroyed.pool, ?_⟩
  have blocks (items : List Item) :
      ((items.map Item.stored).map fun shown => nodeBlocks shown.2).sum = 2 * items.length := by
    induction items with
    | nil => rfl
    | cons item rest ih =>
        have first : nodeBlocks item.stored.2 = 2 := rfl
        rw [List.map_cons, List.map_cons, List.sum_cons, ih, first, List.length_cons]
        omega
  rw [world, blocks, List.length_reverse]

theorem destruct_run {queue : Queue} (found : machine.queues.get address = some queue) :
    destruct (some address) machine =
      .returned () ((machine.setWorld (machine.world.release 2)).setQueues
        (machine.queues.free address)) := by
  simp only [destruct, Program.run_bind, run_queueAt found, run_onWorld, run_memFree,
    Program.run_modify, Option.getD_some, Machine.setWorld_queues, Machine.setWorld_world,
    Machine.setWorld_setWorld, World.release_release]

end Queue

end Bmb
