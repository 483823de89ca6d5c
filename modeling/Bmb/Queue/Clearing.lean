import Bmb.Base.Refinement
import Bmb.Queue.Refinement

namespace Bmb

open Bmb.Base Bmb.Posix

/-! What can be done with a queue object after `Queue_clear`. -/

/-- A later use of a queue object, or a node that is made for one. -/
inductive LaterCall where
  | node (id : Nat) (message : Bytes)
  | add (rt : Address)
  | poll
  | size
  | get (index : Nat)

inductive LaterResult where
  | node (this : Pointer)
  | added (success : Bool)
  | counted (size : Nat)

/-- A node with a message, as the broker makes it. -/
def Node.filled (id : Nat) (message : Bytes) : Program Machine Pointer := do
  let this ← Node.new id
  Node.setMessage this message
  pure this

def LaterCall.run (env : Environment) (this : Pointer) : LaterCall → Program Machine LaterResult
  | .node id message => .node <$> Node.filled id message
  | .add rt => .added <$> Queue.add env this (some rt)
  | .poll => .node <$> Queue.poll env this
  | .size => .counted <$> Queue.size this
  | .get index => .node <$> Queue.get this index

def laterResults (env : Environment) (this : Pointer) :
    List LaterCall → Program Machine (List LaterResult)
  | [] => pure []
  | call :: rest => do
      let result ← call.run env this
      let results ← laterResults env this rest
      pure (result :: results)

/-- Nodes that are added exist, and persistence, if it is switched on, does not refuse. -/
def LaterCall.Accepted (env : Environment) (address : Address) (machine : Machine) :
    LaterCall → Prop
  | .add rt => Stores env machine address rt
  | .poll => Removes env machine address
  | .node _ _ | .size | .get _ => True

def AllAccepted (env : Environment) (address : Address) : List LaterCall → Machine → Prop
  | [], _ => True
  | call :: rest, machine => call.Accepted env address machine ∧
      ∀ result after, call.run env (some address) machine = .returned result after →
        AllAccepted env address rest after

/-- A newly constructed queue whose persistence is switched off. -/
def Queue.fresh (name : Bytes) : Program Machine Pointer := do
  let this ← Queue.new name
  updateQueue this (Queue.setPersist false)
  pure this

/-- A queue object is used with the same results as one that has just been constructed. -/
def LikeFresh (env : Environment) (machine : Machine) (address : Address) : Prop :=
  ∀ queue, machine.queues.get address = some queue →
    ∀ other after, Queue.fresh queue.name machine = .returned (some other) after →
      ∀ calls, AllAccepted env address calls machine →
        (laterResults env (some address) calls machine).result =
          (laterResults env (some other) calls after).result

/-- `Queue_clear` comes to its end, and it is nothing but the destruction of these nodes,
each of them once. -/
structure DestroysOnce (machine : Machine) (address : Address) (nodes : List Address)
    (after : Machine) : Prop where
  ran : Queue.clear (some address) machine = .returned () after
  destructs : Queue.destructNodes (nodes.map some) machine = .returned () after
  distinct : nodes.Nodup
  gone : ∀ cell ∈ nodes, after.nodes.get cell = none

/-- A well-formed empty queue that refers to no destroyed node. -/
structure GoodAsNew (env : Environment) (machine : Machine) (address : Address) : Prop where
  ends : ∀ queue, machine.queues.get address = some queue →
    ∀ cell, queue.root = some cell ∨ queue.tail = some cell → machine.nodes.get cell ≠ none
  empty : ListOf machine address []
  likeFresh : LikeFresh env machine address

/-- Clearing a queue destroys its nodes and makes it as good as new. -/
def ClearRestores (env : Environment) (machine : Machine) (address : Address)
    (nodes : List Address) : Prop :=
  ∃ after, DestroysOnce machine address nodes after ∧ GoodAsNew env after address

/-! ## Two queue objects over the same nodes -/

/-- Two queue objects with the same ends over the same nodes; persistence is switched off for
the second one. -/
structure Twins (address other : Address) (machine image : Machine) : Prop where
  nodes : machine.nodes = image.nodes
  headers : ∃ queue, machine.queues.get address = some queue ∧
    image.queues.get other = some { queue with persist := false } ∧
    (queue.root ≠ none → ∃ last node, queue.tail = some last ∧ machine.nodes.get last = some node)

variable {env : Environment} {machine image : Machine} {address other rt : Address} {node : Node}

namespace Twins

theorem setWorlds (twins : Twins address other machine image) (world otherWorld : World) :
    Twins address other (machine.setWorld world) (image.setWorld otherWorld) :=
  ⟨twins.nodes, twins.headers⟩

theorem found (twins : Twins address other machine image)
    (live : machine.nodes.get rt = some node) : image.nodes.get rt = some node :=
  twins.nodes ▸ live

/-- The nodes may change in the same way, as long as the tail stays where it is. -/
theorem setNodes (twins : Twins address other machine image) (nodes : Store Node)
    (live : ∀ cell node, machine.nodes.get cell = some node →
      ∃ changed, nodes.get cell = some changed) :
    Twins address other (machine.setNodes nodes) (image.setNodes nodes) := by
  obtain ⟨queue, header, mirrored, tail⟩ := twins.headers
  refine ⟨rfl, queue, header, mirrored, fun occupied => ?_⟩
  obtain ⟨last, node, ends, found⟩ := tail occupied
  obtain ⟨changed, still⟩ := live last node found
  exact ⟨last, changed, ends, still⟩

theorem modifyNode (twins : Twins address other machine image) (f : Node → Node) :
    Twins address other (machine.setNodes (machine.nodes.modify rt f))
      (image.setNodes (image.nodes.modify rt f)) := by
  rw [← twins.nodes]
  exact twins.setNodes _ fun cell node found => Store.live_modify f found

/-- An object that has been changed, and its twin in the same way. -/
theorem setQueues {queue : Queue} {queues otherQueues : Store Queue}
    (nodes : machine.nodes = image.nodes) (header : queues.get address = some queue)
    (mirrored : otherQueues.get other = some { queue with persist := false })
    (tail : queue.root ≠ none →
      ∃ last node, queue.tail = some last ∧ machine.nodes.get last = some node) :
    Twins address other (machine.setQueues queues) (image.setQueues otherQueues) :=
  ⟨nodes, queue, header, mirrored, tail⟩

end Twins

section Alike

-- The functions that only read keep every invariant, so they leave both machines as they are.
variable {invariant : Machine → Prop}

theorem nodeAt_alike (this : Pointer) :
    Program.Alike (Twins address other) (nodeAt this) (nodeAt this) := by
  intro machine image twins
  cases this with
  | none => exact .trapped twins
  | some cell =>
      simp only [nodeAt, ← twins.nodes]
      cases machine.nodes.get cell with
      | none => exact .trapped twins
      | some node => exact .returned twins

theorem nodeAt_keeps (this : Pointer) : Program.Keeps invariant (nodeAt this) := by
  intro machine holds
  cases this with
  | none => exact holds
  | some cell =>
      simp only [nodeAt]
      cases machine.nodes.get cell with
      | none => exact holds
      | some node => exact holds

theorem queueAt_keeps (this : Pointer) : Program.Keeps invariant (queueAt this) := by
  intro machine holds
  cases this with
  | none => exact holds
  | some cell =>
      simp only [queueAt]
      cases machine.queues.get cell with
      | none => exact holds
      | some queue => exact holds

theorem updateNode_alike (this : Pointer) (f : Node → Node) :
    Program.Alike (Twins address other) (updateNode this f) (updateNode this f) :=
  (nodeAt_alike this).bind fun _ _ _ twins => .returned (twins.modifyNode f)

/-- Reading the object, where the flag of persistence does not matter. -/
theorem queueAt_alike {α : Type} {next mirrored : Queue → Program Machine α}
    (alike : ∀ queue, Program.Alike (Twins address other) (next queue)
      (mirrored { queue with persist := false })) :
    Program.Alike (Twins address other) (queueAt (some address) >>= next)
      (queueAt (some other) >>= mirrored) := by
  intro machine image twins
  obtain ⟨queue, header, otherHeader, _⟩ := twins.headers
  rw [Program.run_bind, Program.run_bind, run_queueAt header, run_queueAt otherHeader]
  exact alike queue twins

namespace Node

theorem getNext_alike (this : Pointer) :
    Program.Alike (Twins address other) (getNext this) (getNext this) :=
  (nodeAt_alike this).bind fun _ => .pure _

theorem getNext_keeps (this : Pointer) : Program.Keeps invariant (getNext this) :=
  (nodeAt_keeps this).bind fun _ => .pure _

theorem filled_alike (id : Nat) (message : Bytes) :
    Program.Alike (Twins address other) (filled id message) (filled id message) := by
  intro machine image twins
  have made := (twins.setWorlds (machine.world.allocate 1) (image.world.allocate 1)).setNodes
    (machine.nodes.alloc { id, message := none, next := none }) fun cell node found =>
      ⟨node, (Store.get_alloc_of_ne (Nat.ne_of_lt (Store.get_bounded found))).trans found⟩
  have told : Program.Alike (Twins address other) (setMessage (some machine.nodes.frontier) message)
      (setMessage (some machine.nodes.frontier) message) := by
    refine .bind ?_ fun _ => .bind (fun _ _ twins => .returned (twins.setWorlds _ _)) fun _ =>
      updateNode_alike _ _
    refine (nodeAt_alike _).bind fun node _ _ twins => ?_
    cases node.message with
    | none => exact .returned (twins.setWorlds _ _)
    | some old => exact .returned (twins.setWorlds _ _)
  unfold filled
  rw [Program.run_bind, Program.run_bind, Queue.new_node_run, Queue.new_node_run, ← twins.nodes]
  exact told.bind (fun _ => .pure _) made

end Node

namespace Queue

theorem countFrom_alike (fuel : Nat) (element : Pointer) (counter : Nat) :
    Program.Alike (Twins address other) (countFrom fuel element counter)
      (countFrom fuel element counter) := by
  induction fuel generalizing element counter with
  | zero => exact .stop _
  | succ fuel ih => exact (Node.getNext_alike element).bind fun next => .ite (ih _ _) (.pure _)

theorem countFrom_keeps (fuel : Nat) (element : Pointer) (counter : Nat) :
    Program.Keeps invariant (countFrom fuel element counter) := by
  induction fuel generalizing element counter with
  | zero => exact .stop _
  | succ fuel ih =>
      refine (Node.getNext_keeps element).bind fun next => ?_
      split
      · exact ih _ _
      · exact .pure _

theorem size_alike :
    Program.Alike (Twins address other) (size (some address)) (size (some other)) := by
  refine queueAt_alike fun queue => .ite (.pure _) fun machine image twins => ?_
  rw [Program.run_bind, Program.run_bind, Program.run_read, Program.run_read]
  dsimp only
  rw [← twins.nodes]
  exact countFrom_alike _ _ _ twins

theorem size_keeps (this : Pointer) : Program.Keeps invariant (size this) := by
  refine (queueAt_keeps this).bind fun queue => ?_
  split
  · exact .pure _
  · exact Program.Keeps.read.bind fun _ => countFrom_keeps _ _ _

theorem get_alike (index : Nat) :
    Program.Alike (Twins address other) (get (some address) index) (get (some other) index) := by
  induction index with
  | zero => exact queueAt_alike fun _ => .pure _
  | succ index ih => exact ih.bind Node.getNext_alike

theorem get_keeps (this : Pointer) (index : Nat) : Program.Keeps invariant (get this index) := by
  induction index with
  | zero => exact (queueAt_keeps this).bind fun _ => .pure _
  | succ index ih => exact ih.bind Node.getNext_keeps

theorem isEmpty_alike :
    Program.Alike (Twins address other) (isEmpty (some address)) (isEmpty (some other)) :=
  size_alike.bind fun _ => .pure _

theorem isEmpty_keeps (this : Pointer) : Program.Keeps invariant (isEmpty this) :=
  (size_keeps this).bind fun _ => .pure _

theorem getNextTail_alike :
    Program.Alike (Twins address other) (getNextTail (some address)) (getNextTail (some other)) :=
  size_alike.bind fun _ => .ite (.pure _) (get_alike _)

theorem getNextTail_keeps (this : Pointer) : Program.Keeps invariant (getNextTail this) := by
  refine (size_keeps this).bind fun queueSize => ?_
  split
  · exact .pure _
  · exact get_keeps _ _

theorem link_matches (twins : Twins address other machine image)
    (found : machine.nodes.get rt = some node) :
    Outcome.Matches (Twins address other) (link (some address) (some rt) machine)
      (link (some other) (some rt) image) := by
  obtain ⟨queue, header, mirrored, tail⟩ := twins.headers
  obtain ⟨queues, ran, changed, _⟩ := link_run header found
  obtain ⟨otherQueues, ranImage, changedImage, _⟩ := link_run mirrored (twins.found found)
  rw [ran, ranImage]
  have relinked : Twins address other
      (machine.setNodes (machine.nodes.modify rt (Node.setNextField queue.root)))
      (image.setNodes (image.nodes.modify rt (Node.setNextField queue.root))) := twins.modifyNode _
  refine .returned (.setQueues relinked.nodes changed changedImage fun _ => ?_)
  cases occupied : queue.root with
  | none =>
      obtain ⟨now, live⟩ := Store.live_modify (Node.setNextField none) found
      exact ⟨rt, now, by simp, live⟩
  | some root =>
      obtain ⟨last, old, ends, here⟩ := tail (by simp [occupied])
      obtain ⟨now, live⟩ := Store.live_modify (Node.setNextField (some root)) here
      exact ⟨last, now, by simpa using ends, live⟩

theorem add_matches (twins : Twins address other machine image)
    (stores : Stores env machine address rt) :
    Outcome.Matches (Twins address other) (add env (some address) (some rt) machine)
      (add env (some other) (some rt) image) := by
  obtain ⟨node, found, stores⟩ := stores
  obtain ⟨queue, header, mirrored, _⟩ := twins.headers
  obtain ⟨world, ran⟩ := add_eq_link env header found (stores _ header)
  obtain ⟨otherWorld, ranImage⟩ := add_eq_link env mirrored (twins.found found) (by simp)
  rw [ran, ranImage]
  exact link_matches (twins.setWorlds world otherWorld) found

theorem detach_alike (tail nextTail : Pointer) :
    Program.Alike (Twins address other) (detach (some address) tail nextTail)
      (detach (some other) tail nextTail) := by
  intro machine image twins
  obtain ⟨queue, header, mirrored, _⟩ := twins.headers
  cases nextTail with
  | none =>
      have ended := run_updateQueue machine (setEnds none none) header
      have endedImage := run_updateQueue image (setEnds none none) mirrored
      simp only [detach, ne_eq, not_true_eq_false, if_false, reset, Program.run_bind, ended,
        endedImage, Program.run_pure]
      exact .returned (.setQueues twins.nodes (Store.get_modify_self _ header)
        (Store.get_modify_self _ mirrored) fun occupied => absurd rfl occupied)
  | some next =>
      cases found : machine.nodes.get next with
      | none =>
          have missing : image.nodes.get next = none := twins.nodes ▸ found
          simp only [detach, ne_eq, reduceCtorEq, not_false_eq_true, if_true, Node.setNext,
            updateNode, nodeAt, Program.run_bind, found, missing]
          exact .trapped twins
      | some node =>
          have ended := run_updateQueue
            (machine.setNodes (machine.nodes.modify next (Node.setNextField none)))
            (setTail (some next)) header
          have endedImage := run_updateQueue
            (image.setNodes (image.nodes.modify next (Node.setNextField none)))
            (setTail (some next)) mirrored
          obtain ⟨now, live⟩ := Store.live_modify (Node.setNextField none) found
          simp only [detach, ne_eq, reduceCtorEq, not_false_eq_true, if_true, Node.setNext,
            Program.run_bind, run_updateNode _ found, run_updateNode _ (twins.found found), ended,
            endedImage, Program.run_pure]
          exact .returned (.setQueues (twins.modifyNode _).nodes (Store.get_modify_self _ header)
            (Store.get_modify_self _ mirrored) fun _ => ⟨next, now, rfl, live⟩)

theorem isEmpty_of_no_root {queue : Queue} (header : machine.queues.get address = some queue)
    (empty : queue.root = none) : isEmpty (some address) machine = .returned true machine := by
  simp only [isEmpty, size, Program.run_bind, run_queueAt header, empty, if_true, Program.run_pure]
  rfl

theorem poll_matches (twins : Twins address other machine image)
    (removes : Removes env machine address) :
    Outcome.Matches (Twins address other) (poll env (some address) machine)
      (poll env (some other) image) := by
  rcases isEmpty_alike.of_reading twins (isEmpty_keeps _) (isEmpty_keeps _) with
    ⟨value, asked, askedImage⟩ | ⟨trap, asked, askedImage⟩
  · cases value with
    | true =>
        simp only [poll, Program.run_bind, asked, askedImage, if_true]
        exact .returned twins
    | false =>
        rcases getNextTail_alike.of_reading twins (getNextTail_keeps _) (getNextTail_keeps _) with
          ⟨nextTail, following, followingImage⟩ | ⟨trap, following, followingImage⟩
        · obtain ⟨queue, header, mirrored, tail⟩ := twins.headers
          have occupied : queue.root ≠ none := by
            intro empty
            rw [isEmpty_of_no_root header empty] at asked
            cases asked
          obtain ⟨last, node, ends, found⟩ := tail occupied
          obtain ⟨world, ran⟩ := poll_eq_detach env header ends found asked following
            fun persistent => removes _ header persistent last node ends found
          obtain ⟨otherWorld, ranImage⟩ := poll_eq_detach env mirrored ends (twins.found found)
            askedImage followingImage (by simp)
          rw [ran, ranImage]
          exact detach_alike _ _ (twins.setWorlds world otherWorld)
        · obtain ⟨queue, header, mirrored, _⟩ := twins.headers
          simp only [poll, Program.run_bind, asked, askedImage, Bool.false_eq_true, if_false,
            run_queueAt header, run_queueAt mirrored, following, followingImage]
          exact .trapped twins
  · simp only [poll, Program.run_bind, asked, askedImage]
    exact .trapped twins

end Queue

end Alike

theorem LaterCall.run_matches (twins : Twins address other machine image) {call : LaterCall}
    (accepted : call.Accepted env address machine) :
    Outcome.Matches (Twins address other) (call.run env (some address) machine)
      (call.run env (some other) image) := by
  cases call with
  | node id message => exact Program.matches_map _ (Node.filled_alike id message twins)
  | add rt => exact Program.matches_map _ (Queue.add_matches twins accepted)
  | poll => exact Program.matches_map _ (Queue.poll_matches twins accepted)
  | size => exact Program.matches_map _ (Queue.size_alike twins)
  | get index => exact Program.matches_map _ (Queue.get_alike index twins)

theorem laterResults_matches {calls : List LaterCall} (twins : Twins address other machine image)
    (accepted : AllAccepted env address calls machine) :
    Outcome.Matches (Twins address other) (laterResults env (some address) calls machine)
      (laterResults env (some other) calls image) := by
  induction calls generalizing machine image with
  | nil => exact .returned twins
  | cons call rest ih =>
      obtain ⟨first, later⟩ := accepted
      have same := LaterCall.run_matches twins first
      simp only [laterResults, Program.run_bind]
      cases ran : call.run env (some address) machine with
      | returned result after =>
          rw [ran] at same
          obtain ⟨afterImage, ranImage, still⟩ := same.of_returned
          have others := ih still (later result after ran)
          rw [ranImage]
          exact Program.matches_map (result :: ·) others
      | trapped trap after =>
          rw [ran] at same
          obtain ⟨afterImage, ranImage, still⟩ := same.of_trapped
          rw [ranImage]
          exact .trapped still

/-! ## What `Queue_clear` leaves -/

theorem Queue.fresh_run (machine : Machine) (name : Bytes) :
    ∃ after, Queue.fresh name machine = .returned (some machine.queues.frontier) after ∧
      after.nodes = machine.nodes ∧ after.queues.get machine.queues.frontier =
        some { name, root := none, tail := none, persist := false } := by
  obtain ⟨made, ran, created, _⟩ := Queue.new_run machine name
  have switched := run_updateQueue made (Queue.setPersist false) created.holds.header
  refine ⟨made.setQueues (made.queues.modify machine.queues.frontier (Queue.setPersist false)), ?_,
    created.nodes, Store.get_modify_self _ created.holds.header⟩
  simp only [Queue.fresh, Program.run_bind, ran, switched, Program.run_pure]

theorem ListOf.likeFresh (lists : ListOf machine address []) : LikeFresh env machine address := by
  intro queue header other after made calls accepted
  obtain ⟨name, persist, _, linked⟩ := lists
  obtain ⟨fresh, ran, nodes, mirrored⟩ := Queue.fresh_run machine queue.name
  rw [ran] at made
  cases made
  have empty : queue = { name, root := none, tail := none, persist } := by
    rw [linked.header] at header
    exact (Option.some.inj header).symm
  have twins : Twins address machine.queues.frontier machine after :=
    ⟨nodes.symm, queue, header, by rw [mirrored, empty],
      fun occupied => absurd (by rw [empty]) occupied⟩
  exact (laterResults_matches twins accepted).result_eq

theorem ListOf.goodAsNew (lists : ListOf machine address []) : GoodAsNew env machine address where
  ends := by
    obtain ⟨name, persist, _, linked⟩ := lists
    intro queue header cell refers
    rw [linked.header] at header
    cases header
    rcases refers with root | tail
    · cases root
    · cases tail
  empty := lists
  likeFresh := lists.likeFresh

/-- Every node of the chain is destroyed once, and the queue object stays as it is. -/
theorem ListOf.destroysOnce {nodes : List Address} (lists : ListOf machine address nodes) :
    ∃ after, DestroysOnce machine address nodes after ∧ after.queues = machine.queues := by
  obtain ⟨_, _, _, linked⟩ := lists
  obtain ⟨after, ran, destructs, destroyed, _⟩ := Queue.clear_linked linked
  exact ⟨after, ⟨ran, destructs, linked.chain.nodup, destroyed.gone⟩, destroyed.queues⟩

theorem ClearRestores.nodes_eq_nil {nodes : List Address} (lists : ListOf machine address nodes)
    (restores : ClearRestores env machine address nodes) : nodes = [] := by
  obtain ⟨after, destroys, good⟩ := restores
  obtain ⟨cleared, again, queues⟩ := lists.destroysOnce
  cases destroys.ran.symm.trans again.ran
  obtain ⟨_, _, _, linked⟩ := lists
  obtain ⟨_, _, _, empty⟩ := good.empty
  have same := empty.header
  rw [queues, linked.header] at same
  exact List.head?_eq_none_iff.mp (congrArg Queue.root (Option.some.inj same))

theorem ListOf.clearRestores (lists : ListOf machine address []) :
    ClearRestores env machine address [] := by
  obtain ⟨after, destroys, _⟩ := lists.destroysOnce
  have unchanged : machine = after := by
    cases destroys.destructs
    rfl
  exact ⟨after, destroys, unchanged ▸ lists.goodAsNew⟩

/-- After a queue with nodes has been cleared, already counting them reads a destroyed one. -/
theorem ListOf.size_after_clear {nodes : List Address} (lists : ListOf machine address nodes)
    (occupied : nodes ≠ []) :
    ∃ after, Queue.clear (some address) machine = .returned () after ∧
      Queue.size (some address) after = .trapped .danglingPointer after := by
  obtain ⟨after, destroys, queues⟩ := lists.destroysOnce
  obtain ⟨_, _, _, linked⟩ := lists
  refine ⟨after, destroys.ran, ?_⟩
  cases nodes with
  | nil => exact absurd rfl occupied
  | cons root rest =>
      have header := queues ▸ linked.header
      have gone := destroys.gone root (by simp)
      simp only [Queue.size, Program.run_bind, run_queueAt header, List.head?_cons, reduceCtorEq,
        if_false, Program.run_read, Queue.countFrom, Node.getNext, nodeAt, gone]

/-- Clearing makes a queue as good as new if and only if there has been nothing to clear. -/
theorem clear_restores_iff {calls : List QueueCall} (run : QueueRun env address calls machine) :
    ClearRestores env machine address (nodesAfter calls) ↔ nodesAfter calls = [] := by
  have lists := run.listOf
  refine ⟨fun restores => restores.nodes_eq_nil lists, fun empty => ?_⟩
  rw [empty] at lists ⊢
  exact lists.clearRestores

/-- A queue whose persistence is switched off, with one node. -/
def oneQueued : Machine :=
  (Queue.add obliging (some 0) (some 0)
    (updateQueue (some 0) (Queue.setPersist false) oneNode).state).state

theorem oneQueued_run : QueueRun obliging 0 [.add 0] oneQueued := by
  refine .add (.persist oneNode_run false) (by simp [nodesAfter]) ⟨⟨1, none, none⟩, rfl, ?_⟩
  intro queue found persistent
  cases Option.some.inj
    (show some (Queue.mk (text "a") none none false) = some queue from found)
  contradiction

theorem clear_restores_iff_computed :
    ClearRestores obliging (Queue.poll obliging (some 0) oneQueued).state 0 [] := by
  have removes : Removes obliging oneQueued 0 := by
    intro queue found persistent
    cases Option.some.inj
      (show some (Queue.mk (text "a") (some 0) (some 0) false) = some queue from found)
    contradiction
  exact (clear_restores_iff (.poll oneQueued_run removes)).mpr rfl

/-- The root of a cleared queue is a destroyed node, and counting the nodes reads it. -/
theorem clear_keeps_destroyed_root :
    QueueRun obliging 0 [.add 0] oneQueued ∧
    (Queue.clear (some 0) oneQueued).state.queues.get 0 =
      some { name := text "a", root := some 0, tail := some 0, persist := false } ∧
    (Queue.clear (some 0) oneQueued).state.nodes.get 0 = none ∧
    ((Queue.clear (some 0) >>= fun _ => Queue.size (some 0)) oneQueued).result =
      .error .danglingPointer ∧
    ¬ClearRestores obliging oneQueued 0 [0] := by
  refine ⟨oneQueued_run, rfl, rfl, rfl, fun restores => ?_⟩
  have empty := restores.nodes_eq_nil oneQueued_run.listOf
  cases empty

end Bmb
