import Bmb.Queue

namespace Bmb

open Bmb.Base Bmb.Posix

/-! A queue object and the nodes linked to it, and what the operations of `queue.c`
do to such a structure. -/

def Node.shows (node : Node) : Nat × Option Bytes := (node.id, node.message)

/-- The queue object at an address consists of exactly the given cells, root first;
`contents` lists their ids and messages. -/
structure Linked (machine : Machine) (address : Address) (cells : List Address) (name : Bytes)
    (persist : Bool) (contents : List (Nat × Option Bytes)) : Prop where
  header : machine.queues.get address =
    some { name, root := cells.head?, tail := cells.getLast?, persist }
  chain : Chain Node.next Node.shows machine.nodes cells.head? cells contents

/-- Nodes outside a list of cells and queue objects other than one are unchanged. -/
structure OutsideSame (cells : List Address) (address : Address) (before after : Machine) : Prop where
  nodes : ∀ cell ∉ cells, after.nodes.get cell = before.nodes.get cell
  queues : ∀ other ≠ address, after.queues.get other = before.queues.get other
  pool : after.pool = before.pool

/-- The persistence calls of `Queue_add`; whether the message has been stored. -/
def storeCalls (env : Environment) (name : Bytes) (message : Option Bytes) : Program World Bool := do
  let pidres ← persistDispatch env ⟨.getNextId, some name, 0, none⟩
  let nextId ← nextIdFrom pidres.data
  memFree
  let pres ← persistDispatch env ⟨.addNode, some name, nextId, message⟩
  pure pres.success

/-- Some nodes have been destroyed, and nothing else in memory has changed. -/
structure Destroyed (cells : List Address) (before after : Machine) : Prop where
  gone : ∀ cell ∈ cells, after.nodes.get cell = none
  others : ∀ cell ∉ cells, after.nodes.get cell = before.nodes.get cell
  queues : after.queues = before.queues
  pool : after.pool = before.pool

/-- The block of a node, and that of its message if it has one. -/
def nodeBlocks (message : Option Bytes) : Nat := if message.isSome then 2 else 1

variable {env : Environment} {machine after : Machine} {address rt : Address} {cells : List Address}
  {name : Bytes} {persist : Bool} {contents : List (Nat × Option Bytes)} {node : Node}

theorem OutsideSame.trans {first second third : Machine}
    (left : OutsideSame cells address first second)
    (right : OutsideSame cells address second third) : OutsideSame cells address first third :=
  ⟨fun cell outside => (right.nodes cell outside).trans (left.nodes cell outside),
    fun other different => (right.queues other different).trans (left.queues other different),
    right.pool.trans left.pool⟩

namespace Linked

theorem length_eq (linked : Linked machine address cells name persist contents) :
    cells.length = contents.length :=
  linked.chain.length_eq

theorem frame (linked : Linked machine address cells name persist contents)
    (nodes : ∀ cell ∈ cells, after.nodes.get cell = machine.nodes.get cell)
    (queue : after.queues.get address = machine.queues.get address) :
    Linked after address cells name persist contents :=
  ⟨queue.trans linked.header, linked.chain.frame nodes⟩

theorem setWorld (linked : Linked machine address cells name persist contents) (world : World) :
    Linked (machine.setWorld world) address cells name persist contents :=
  ⟨linked.header, linked.chain⟩

end Linked

namespace Queue

/-! ## Walks along the chain -/

theorem countFrom_run {start : Address} (fuel counter : Nat)
    (chain : Chain Node.next Node.shows machine.nodes (some start) cells contents)
    (enough : cells.length ≤ fuel) :
    countFrom fuel (some start) (counter + 1) machine =
      .returned (counter + cells.length) machine := by
  induction fuel generalizing start cells contents counter with
  | zero => cases chain; simp at enough
  | succ fuel ih =>
      cases chain with
      | cons found rest =>
          rename_i node others otherContents
          simp only [countFrom, Node.getNext, Program.run_bind, run_nodeAt found, Program.run_pure,
            Program.run_ite]
          cases next : node.next with
          | none =>
              rw [next] at rest
              cases rest
              simp
          | some following =>
              rw [next] at rest
              simp only [List.length_cons, Nat.add_le_add_iff_right] at enough
              rw [if_pos (by simp), ih _ rest enough, List.length_cons]
              congr 1
              omega

theorem size_linked (linked : Linked machine address cells name persist contents) :
    size (some address) machine = .returned cells.length machine := by
  cases cells with
  | nil =>
      simp only [size, Program.run_bind, run_queueAt linked.header, List.head?_nil, if_true,
        Program.run_pure, List.length_nil]
  | cons root rest =>
      have bound := linked.chain.length_le_frontier
      have counted := countFrom_run (machine.nodes.frontier + 1) 0 linked.chain (by omega)
      simp only [size, Program.run_bind, run_queueAt linked.header, List.head?_cons, reduceCtorEq,
        if_false, Program.run_read]
      rw [counted, Nat.zero_add]

theorem get_linked {index : Nat} (linked : Linked machine address cells name persist contents)
    (inside : index < cells.length) :
    get (some address) index machine = .returned cells[index]? machine := by
  induction index with
  | zero =>
      simp only [get, Program.run_bind, run_queueAt linked.header, Program.run_pure,
        List.head?_eq_getElem?]
  | succ index ih =>
      have earlier : index < cells.length := by omega
      obtain ⟨cell, found, _, next⟩ := linked.chain.cell_at (List.getElem?_eq_getElem earlier)
      simp only [get, Program.run_bind, ih earlier, List.getElem?_eq_getElem earlier, Node.getNext,
        run_nodeAt found, Program.run_pure, next]

theorem getNextTail_linked (linked : Linked machine address cells name persist contents) :
    getNextTail (some address) machine = .returned cells.dropLast.getLast? machine := by
  simp only [getNextTail, Program.run_bind, size_linked linked, Program.run_ite, Program.run_pure]
  split
  · rename_i few
    have empty : cells.dropLast = [] := List.eq_nil_of_length_eq_zero (by
      rw [List.length_dropLast]
      omega)
    rw [empty, List.getLast?_nil]
  · rename_i several
    rw [get_linked linked (by omega), List.getLast?_eq_getElem?, List.length_dropLast,
      List.getElem?_dropLast, if_pos (by omega)]
    rfl

theorem isEmpty_linked (linked : Linked machine address cells name persist contents) :
    isEmpty (some address) machine = .returned cells.isEmpty machine := by
  simp only [isEmpty, Program.run_bind, size_linked linked, Program.run_pure]
  cases cells <;> simp

theorem peek_linked (linked : Linked machine address cells name persist contents) :
    peek (some address) machine = .returned cells.getLast? machine := by
  simp only [peek, Program.run_bind, run_queueAt linked.header, Program.run_pure]

/-! ## Changes of the chain -/

theorem link_run {queue : Queue} (header : machine.queues.get address = some queue)
    (found : machine.nodes.get rt = some node) :
    ∃ queues, link (some address) (some rt) machine =
        .returned true ((machine.setNodes
          (machine.nodes.modify rt (Node.setNextField queue.root))).setQueues queues) ∧
      queues.get address = some { queue with
        root := some rt, tail := if queue.root = none then some rt else queue.tail } ∧
      ∀ other ≠ address, queues.get other = machine.queues.get other := by
  cases occupied : queue.root with
  | none =>
      have tailSet := Store.get_modify_self (setTail (some rt)) header
      have rootSet := Store.get_modify_self (setRoot (some rt)) tailSet
      refine ⟨(machine.queues.modify address (setTail (some rt))).modify address (setRoot (some rt)),
        ?_, rootSet, ?_⟩
      · have tailRun := run_updateQueue
          (machine.setNodes (machine.nodes.modify rt (Node.setNextField none)))
          (setTail (some rt)) header
        have rootRun := run_updateQueue
          ((machine.setNodes (machine.nodes.modify rt (Node.setNextField none))).setQueues
            (machine.queues.modify address (setTail (some rt)))) (setRoot (some rt)) tailSet
        simp only [Machine.setNodes_queues, Machine.setQueues_queues] at tailRun rootRun
        simp only [link, Program.run_bind, run_queueAt header, occupied, ne_eq, not_true_eq_false,
          if_false, Node.setNext, run_updateNode _ found, tailRun, rootRun]
        rfl
      · intro other different
        exact (Store.get_modify_of_ne _ different).trans (Store.get_modify_of_ne _ different)
  | some root =>
      have rootSet := Store.get_modify_self (setRoot (some rt)) header
      refine ⟨machine.queues.modify address (setRoot (some rt)), ?_, rootSet,
        fun other different => Store.get_modify_of_ne _ different⟩
      have rootRun := run_updateQueue
        (machine.setNodes (machine.nodes.modify rt (Node.setNextField (some root))))
        (setRoot (some rt)) header
      simp only [link, Program.run_bind, run_queueAt header, occupied, ne_eq, reduceCtorEq,
        not_false_eq_true, if_true, Node.setNext, run_updateNode _ found, rootRun]
      rfl

theorem link_linked (linked : Linked machine address cells name persist contents)
    (outside : rt ∉ cells) (found : machine.nodes.get rt = some node) :
    ∃ after, link (some address) (some rt) machine = .returned true after ∧
      Linked after address (rt :: cells) name persist (node.shows :: contents) ∧
      OutsideSame [rt] address machine after ∧ after.world = machine.world := by
  have relinked := Store.get_modify_self (Node.setNextField cells.head?) found
  have elsewhere : ∀ cell ∈ cells, (machine.nodes.modify rt (Node.setNextField cells.head?)).get
      cell = machine.nodes.get cell :=
    fun cell member => Store.get_modify_of_ne _ (fun same => outside (same ▸ member))
  have old := linked.chain.frame elsewhere
  have pushed : Chain Node.next Node.shows (machine.nodes.modify rt (Node.setNextField cells.head?))
      (some rt) (rt :: cells) (node.shows :: contents) := by
    simpa [Node.shows, Node.setNextField] using old.push relinked rfl
  have nodesSame : ∀ cell ∉ [rt],
      (machine.nodes.modify rt (Node.setNextField cells.head?)).get cell = machine.nodes.get cell :=
    fun cell different => Store.get_modify_of_ne _ (by simpa using different)
  obtain ⟨queues, ran, ends, others⟩ := link_run linked.header found
  refine ⟨_, ran, ⟨?_, pushed⟩, ⟨nodesSame, others, rfl⟩, rfl⟩
  cases cells with
  | nil => exact ends
  | cons root rest => exact ends

theorem detach_linked {kept : List Address} {last : Address}
    (linked : Linked machine address (kept ++ [last]) name persist contents) :
    ∃ after, detach (some address) (some last) kept.getLast? machine = .returned (some last) after ∧
      Linked after address kept name persist contents.dropLast ∧
      OutsideSame kept address machine after ∧ after.world = machine.world := by
  have length := linked.length_eq
  rcases List.eq_nil_or_concat kept with rfl | ⟨front, newLast, rfl⟩
  · have noRest : contents.dropLast = [] := List.eq_nil_of_length_eq_zero (by
      rw [List.length_dropLast, ← length]
      rfl)
    have endsSet := Store.get_modify_self (setEnds none none) linked.header
    refine ⟨machine.setQueues (machine.queues.modify address (setEnds none none)), ?_,
      ⟨endsSet, noRest ▸ .nil⟩, ⟨fun _ _ => rfl,
        fun other different => Store.get_modify_of_ne _ different, rfl⟩, rfl⟩
    have endsRun := run_updateQueue machine (setEnds none none) linked.header
    rw [List.getLast?_nil, detach, if_neg (by simp), Program.run_bind, reset, endsRun]
    rfl
  · rw [List.concat_eq_append] at linked length ⊢
    have tailSet := Store.get_modify_self (setTail (some newLast)) linked.header
    have position : (front ++ [newLast] ++ [last])[front.length]? = some newLast := by simp
    obtain ⟨_, found, _⟩ := linked.chain.cell_at position
    have headSame : (front ++ [newLast] ++ [last]).head? = (front ++ [newLast]).head? := by
      cases front <;> rfl
    have cut : Chain Node.next Node.shows (machine.nodes.modify newLast (Node.setNextField none))
        (front ++ [newLast]).head? (front ++ [newLast]) contents.dropLast := by
      have whole := linked.chain
      rw [headSame, List.append_assoc] at whole
      have shortened := whole.cut (f := Node.setNextField none) (fun _ => rfl) (fun _ => rfl)
      have lengths : front.length + 1 = contents.length - 1 := by
        simp only [List.length_append, List.length_cons, List.length_nil] at length
        omega
      rwa [lengths, ← List.dropLast_eq_take] at shortened
    refine ⟨(machine.setNodes (machine.nodes.modify newLast (Node.setNextField none))).setQueues
      (machine.queues.modify address (setTail (some newLast))), ?_, ⟨?_, cut⟩, ⟨?_,
        fun other different => Store.get_modify_of_ne _ different, rfl⟩, rfl⟩
    · have tailRun := run_updateQueue
        (machine.setNodes (machine.nodes.modify newLast (Node.setNextField none)))
        (setTail (some newLast)) linked.header
      simp only [detach, List.getLast?_append, List.getLast?_singleton, Option.some_or, ne_eq,
        reduceCtorEq, not_false_eq_true, if_true, Program.run_bind, Node.setNext,
        run_updateNode _ found, tailRun]
      rfl
    · refine tailSet.trans ?_
      rw [headSame]
      simp [setTail]
    · intro cell different
      exact Store.get_modify_of_ne _ (fun same => different (by simp [same]))

theorem getMessage_run {cell : Address} (found : machine.nodes.get cell = some node) :
    Node.getMessage (some cell) machine = .returned node.message machine := by
  simp only [Node.getMessage, Program.run_bind, run_nodeAt found, Program.run_pure]

theorem addPersisted_run (env : Environment) (name : Bytes)
    (found : machine.nodes.get rt = some node) :
    addPersisted env name (some rt) machine = onWorld (storeCalls env name node.message) machine := by
  simp only [addPersisted, storeCalls, Program.run_bind, run_onWorld]
  cases persistDispatch env ⟨.getNextId, some name, 0, none⟩ machine.world with
  | trapped trap world => rfl
  | returned pidres world =>
      dsimp only
      cases pidres.data with
      | nextId id =>
          have read := run_nodeAt (show (machine.setWorld (world.release 1)).nodes.get rt = some node
            from found)
          simp only [nextIdFrom, Program.run_pure, run_memFree, Node.getMessage,
            Program.run_bind, Machine.setWorld_world, Machine.setWorld_setWorld, read]
          cases persistDispatch env ⟨.addNode, some name, id, node.message⟩ (world.release 1) <;> rfl
      | null | queue | queueList | content => rfl

/-- `Queue_add` links a node that is stored, if it has to be. -/
theorem add_eq_link (env : Environment) {queue : Queue}
    (header : machine.queues.get address = some queue) (found : machine.nodes.get rt = some node)
    (stores : queue.persist = true →
      (storeCalls env queue.name node.message machine.world).result = .ok true) :
    ∃ world, add env (some address) (some rt) machine =
      link (some address) (some rt) (machine.setWorld world) := by
  cases persistent : queue.persist with
  | false =>
      refine ⟨machine.world, ?_⟩
      simp only [add, Program.run_bind, run_queueAt header, persistent, Bool.false_eq_true, if_false]
      rfl
  | true =>
      obtain ⟨world, stored⟩ := Outcome.result_eq_ok.mp (stores persistent)
      have called := addPersisted_run env queue.name found
      rw [run_onWorld, stored] at called
      refine ⟨world, ?_⟩
      simp only [add, Program.run_bind, run_queueAt header, persistent, if_true, called]

/-- `Queue_add` of a node that is not on the chain: first the persistence calls, and if
they store the message, the node is linked. -/
theorem add_linked (env : Environment) (linked : Linked machine address cells name true contents)
    (outside : rt ∉ cells) (found : machine.nodes.get rt = some node) :
    match storeCalls env name node.message machine.world with
    | .trapped trap world =>
        add env (some address) (some rt) machine = .trapped trap (machine.setWorld world)
    | .returned false world =>
        add env (some address) (some rt) machine = .returned false (machine.setWorld world)
    | .returned true world =>
        ∃ after, add env (some address) (some rt) machine = .returned true after ∧
          Linked after address (rt :: cells) name true (node.shows :: contents) ∧
          OutsideSame [rt] address machine after ∧ after.world = world := by
  have stored := addPersisted_run env name found
  rw [run_onWorld] at stored
  cases calls : storeCalls env name node.message machine.world with
  | trapped trap world =>
      rw [calls] at stored
      simp only [add, Program.run_bind, run_queueAt linked.header, if_true, stored]
  | returned success world =>
      rw [calls] at stored
      cases success with
      | false =>
          simp only [add, Program.run_bind, run_queueAt linked.header, if_true, stored,
            Bool.false_eq_true, if_false, Program.run_pure]
      | true =>
          obtain ⟨after, ran, pushed, same, worldSame⟩ :=
            link_linked (linked.setWorld world) outside found
          refine ⟨after, ?_, pushed, ⟨same.nodes, same.queues, same.pool⟩, worldSame⟩
          simp only [add, Program.run_bind, run_queueAt linked.header, if_true, stored, ran]

theorem add_unpersisted_linked (env : Environment)
    (linked : Linked machine address cells name false contents)
    (outside : rt ∉ cells) (found : machine.nodes.get rt = some node) :
    ∃ after, add env (some address) (some rt) machine = .returned true after ∧
      Linked after address (rt :: cells) name false (node.shows :: contents) ∧
      OutsideSame [rt] address machine after ∧ after.world = machine.world := by
  obtain ⟨after, ran, rest⟩ := link_linked linked outside found
  refine ⟨after, ?_, rest⟩
  simp only [add, Program.run_bind, run_queueAt linked.header, Bool.false_eq_true, if_false, ran]

theorem poll_empty_linked (linked : Linked machine address [] name persist contents) :
    poll env (some address) machine = .returned none machine := by
  simp only [poll, Program.run_bind, isEmpty_linked linked, List.isEmpty_nil, if_true,
    Program.run_pure]

/-- What `Queue_poll` finds out about a chain with cells before it changes anything. -/
theorem before_poll {kept : List Address} {last : Address}
    (linked : Linked machine address (kept ++ [last]) name persist contents) :
    machine.queues.get address =
        some { name, root := (kept ++ [last]).head?, tail := some last, persist } ∧
      isEmpty (some address) machine = .returned false machine ∧
      getNextTail (some address) machine = .returned kept.getLast? machine := by
  refine ⟨by simpa using linked.header, ?_, ?_⟩
  · rw [isEmpty_linked linked]
    simp
  · rw [getNextTail_linked linked, List.dropLast_concat]

/-- `Queue_poll` detaches a tail whose file is removed, if it has to be. -/
theorem poll_eq_detach (env : Environment) {queue : Queue} {last : Address} {nextTail : Pointer}
    (header : machine.queues.get address = some queue) (ends : queue.tail = some last)
    (found : machine.nodes.get last = some node)
    (occupied : isEmpty (some address) machine = .returned false machine)
    (following : getNextTail (some address) machine = .returned nextTail machine)
    (removes : queue.persist = true →
      (((·.success) <$> persistDispatch env ⟨.removeNode, some queue.name, node.id, none⟩)
        machine.world).result = .ok true) :
    ∃ world, poll env (some address) machine =
      detach (some address) (some last) nextTail (machine.setWorld world) := by
  cases persistent : queue.persist with
  | false =>
      refine ⟨machine.world, ?_⟩
      simp only [poll, Program.run_bind, occupied, Bool.false_eq_true, if_false, run_queueAt header,
        following, persistent, ends]
      rfl
  | true =>
      obtain ⟨world, removed⟩ := Outcome.result_eq_ok.mp (removes persistent)
      obtain ⟨pres, called, success⟩ := Program.map_eq_returned removed
      refine ⟨world, ?_⟩
      simp only [poll, Program.run_bind, occupied, Bool.false_eq_true, if_false, run_queueAt header,
        following, persistent, if_true, ends, run_nodeAt found, run_onWorld, called, ← success]

/-- `Queue_poll` on a chain with cells: the tail is detached if the persistence call
succeeds; otherwise nothing in memory changes. -/
theorem poll_linked (env : Environment) {kept : List Address} {last : Address}
    (linked : Linked machine address (kept ++ [last]) name true contents)
    (found : machine.nodes.get last = some node) :
    match persistDispatch env ⟨.removeNode, some name, node.id, none⟩ machine.world with
    | .trapped trap world => poll env (some address) machine = .trapped trap (machine.setWorld world)
    | .returned pres world =>
        if pres.success then
          ∃ after, poll env (some address) machine = .returned (some last) after ∧
            Linked after address kept name true contents.dropLast ∧
            OutsideSame kept address machine after ∧ after.world = world
        else poll env (some address) machine = .returned none (machine.setWorld world) := by
  obtain ⟨header, emptiness, nextTail⟩ := before_poll linked
  cases call : persistDispatch env ⟨.removeNode, some name, node.id, none⟩ machine.world with
  | trapped trap world =>
      simp only [poll, Program.run_bind, emptiness, Bool.false_eq_true, if_false,
        run_queueAt header, nextTail, if_true, run_nodeAt found, run_onWorld, call]
  | returned pres world =>
      dsimp only
      split
      · rename_i success
        obtain ⟨after, ran, keeps, same, worldSame⟩ := detach_linked (linked.setWorld world)
        refine ⟨after, ?_, keeps, ⟨same.nodes, same.queues, same.pool⟩, worldSame⟩
        simp only [poll, Program.run_bind, emptiness, Bool.false_eq_true, if_false,
          run_queueAt header, nextTail, if_true, run_nodeAt found, run_onWorld, call, success, ran]
      · rename_i refused
        simp only [poll, Program.run_bind, emptiness, Bool.false_eq_true, if_false,
          run_queueAt header, nextTail, if_true, run_nodeAt found, run_onWorld, call, refused,
          Program.run_pure]

/-! ## Clearing -/

theorem asArray_run {start : Address} (fuel : Nat)
    (chain : Chain Node.next Node.shows machine.nodes (some start) cells contents)
    (enough : cells.length ≤ fuel) :
    asArray fuel (some start) machine = .returned (cells.map some) machine := by
  induction fuel generalizing start cells contents with
  | zero => cases chain; simp at enough
  | succ fuel ih =>
      cases chain with
      | cons found rest =>
          rename_i node others otherContents
          simp only [asArray, Node.getNext, Program.run_bind, run_nodeAt found, Program.run_pure,
            Program.run_ite]
          cases next : node.next with
          | none =>
              rw [next] at rest
              cases rest
              simp
          | some following =>
              rw [next] at rest
              rw [if_pos (by simp), ih rest (by simpa using enough)]
              rfl

theorem destruct_node_live {cell : Address} (found : machine.nodes.get cell = some node) :
    Node.destruct (some cell) machine =
      .returned () ((machine.setWorld (machine.world.release (nodeBlocks node.message))).setNodes
        (machine.nodes.free cell)) := by
  cases written : node.message with
  | none =>
      simp only [Node.destruct, Node.clearMessage, Program.run_bind, run_nodeAt found, written,
        memFreeNullable, Program.run_pure, run_onWorld, run_memFree, Program.run_modify,
        Option.getD_some, Machine.setWorld_nodes]
      rfl
  | some message =>
      simp only [Node.destruct, Node.clearMessage, Program.run_bind, run_nodeAt found, written,
        memFreeNullable, run_onWorld, run_memFree, Program.run_modify, Option.getD_some,
        Machine.setWorld_nodes, Machine.setWorld_world, Machine.setWorld_setWorld,
        World.release_release]
      rfl

/-- The nodes of a chain are destroyed one after the other, each of them once. -/
theorem destructNodes_chain {start : Pointer}
    (chain : Chain Node.next Node.shows machine.nodes start cells contents) :
    ∃ after, destructNodes (cells.map some) machine = .returned () after ∧
      Destroyed cells machine after ∧
      after.world = machine.world.release (contents.map fun shown => nodeBlocks shown.2).sum := by
  induction cells generalizing machine start contents with
  | nil =>
      cases chain
      exact ⟨machine, rfl, ⟨by simp, fun _ _ => rfl, rfl, rfl⟩, rfl⟩
  | cons cell rest ih =>
      obtain ⟨absent, _⟩ := List.nodup_cons.mp chain.nodup
      cases chain with
      | cons found tail =>
          rename_i node others
          have freed := destruct_node_live found
          have framed : Chain Node.next Node.shows ((machine.setWorld (machine.world.release
              (nodeBlocks node.message))).setNodes (machine.nodes.free cell)).nodes node.next rest
              others :=
            tail.frame fun other member => Store.get_free_of_ne fun same => absent (same ▸ member)
          obtain ⟨after, ran, destroyed, world⟩ := ih framed
          refine ⟨after, ?_, ⟨?_, ?_, destroyed.queues, destroyed.pool⟩, ?_⟩
          · simp only [List.map_cons, destructNodes, Program.run_bind, freed, ran]
          · intro other member
            rcases List.mem_cons.mp member with rfl | later
            · rw [destroyed.others _ absent]
              exact Store.get_free_self
            · exact destroyed.gone other later
          · intro other outside
            simp only [List.mem_cons, not_or] at outside
            exact (destroyed.others other outside.2).trans (Store.get_free_of_ne outside.1)
          · rw [world, Machine.setNodes_world, Machine.setWorld_world, World.release_release,
              List.map_cons, List.sum_cons]
            rfl

/-- `Queue_clear` destroys the nodes of the chain, and the queue object stays as it is. -/
theorem clear_linked (linked : Linked machine address cells name persist contents) :
    ∃ after, clear (some address) machine = .returned () after ∧
      destructNodes (cells.map some) machine = .returned () after ∧
      Destroyed cells machine after ∧
      after.world = machine.world.release (contents.map fun shown => nodeBlocks shown.2).sum := by
  obtain ⟨after, ran, rest⟩ := destructNodes_chain linked.chain
  refine ⟨after, ?_, ran, rest⟩
  cases cells with
  | nil =>
      simp only [clear, Program.run_bind, isEmpty_linked linked, List.isEmpty_nil, if_true]
      exact ran
  | cons root others =>
      have array := asArray_run (machine.nodes.frontier + 1) linked.chain
        (Nat.le_succ_of_le linked.chain.length_le_frontier)
      have whole : ((root :: others).map some).take (root :: others).length =
          (root :: others).map some := List.take_of_length_le (by rw [List.length_map])
      simp only [clear, Program.run_bind, isEmpty_linked linked, List.isEmpty_cons,
        Bool.false_eq_true, if_false, size_linked linked, run_queueAt linked.header,
        Program.run_read, List.head?_cons, array, whole, ran]

end Queue

end Bmb
