import Bmb.Persist.Descriptors
import Bmb.Queue.Operations

namespace Bmb

open Bmb.Base Bmb.Posix

/-! A queue object, used through `Queue_add` and `Queue_poll`, is a list of nodes. -/

inductive QueueCall where
  | add (rt : Address)
  | poll

/-- The list of nodes after some calls, the latest call first. -/
def nodesAfter : List QueueCall → List Address
  | [] => []
  | .add rt :: earlier => rt :: nodesAfter earlier
  | .poll :: earlier => (nodesAfter earlier).dropLast

/-- A node exists, and a queue with persistence switched on stores its message. -/
def Stores (env : Environment) (machine : Machine) (address rt : Address) : Prop :=
  ∃ node, machine.nodes.get rt = some node ∧
    ∀ queue, machine.queues.get address = some queue → queue.persist = true →
      (storeCalls env queue.name node.message machine.world).result = .ok true

/-- A queue with persistence switched on removes the file of its tail. -/
def Removes (env : Environment) (machine : Machine) (address : Address) : Prop :=
  ∀ queue, machine.queues.get address = some queue → queue.persist = true →
    ∀ tail node, queue.tail = some tail → machine.nodes.get tail = some node →
      (((·.success) <$> persistDispatch env ⟨.removeNode, some queue.name, node.id, none⟩)
        machine.world).result = .ok true

/-- What happens to a queue made by `Queue_new`: calls that persistence does not refuse,
switching persistence on and off, and changes that leave the object and its nodes alone. -/
inductive QueueRun (env : Environment) (address : Address) : List QueueCall → Machine → Prop where
  | new {before after : Machine} {name : Bytes}
      (made : Queue.new name before = .returned (some address) after) : QueueRun env address [] after
  | elsewhere {calls : List QueueCall} {before after : Machine} (run : QueueRun env address calls before)
      (nodes : ∀ cell ∈ nodesAfter calls, after.nodes.get cell = before.nodes.get cell)
      (queue : after.queues.get address = before.queues.get address) : QueueRun env address calls after
  | persist {calls : List QueueCall} {machine : Machine} (run : QueueRun env address calls machine)
      (persist : Bool) :
      QueueRun env address calls (updateQueue (some address) (Queue.setPersist persist) machine).state
  | add {calls : List QueueCall} {machine : Machine} {rt : Address}
      (run : QueueRun env address calls machine) (outside : rt ∉ nodesAfter calls)
      (stores : Stores env machine address rt) :
      QueueRun env address (.add rt :: calls) (Queue.add env (some address) (some rt) machine).state
  | poll {calls : List QueueCall} {machine : Machine} (run : QueueRun env address calls machine)
      (removes : Removes env machine address) :
      QueueRun env address (.poll :: calls) (Queue.poll env (some address) machine).state

/-- The chain from the root of a queue object visits exactly these nodes, ends, and ends
in the tail. -/
def ListOf (machine : Machine) (address : Address) (nodes : List Address) : Prop :=
  ∃ name persist contents, Linked machine address nodes name persist contents

/-- A queue object does what a list of nodes does, root first. -/
structure ActsAs (env : Environment) (machine : Machine) (address : Address) (nodes : List Address) :
    Prop where
  lists : ListOf machine address nodes
  acyclic : nodes.Nodup
  ends : ∃ queue, machine.queues.get address = some queue ∧ queue.tail = nodes.getLast? ∧
    (queue.root = none ↔ queue.tail = none)
  add : ∀ rt ∉ nodes, Stores env machine address rt → ∃ after,
    Queue.add env (some address) (some rt) machine = .returned true after ∧
      ListOf after address (rt :: nodes)
  poll : Removes env machine address → ∃ after,
    Queue.poll env (some address) machine = .returned nodes.getLast? after ∧
      ListOf after address nodes.dropLast
  size : Queue.size (some address) machine = .returned nodes.length machine
  isEmpty : Queue.isEmpty (some address) machine = .returned nodes.isEmpty machine
  peek : Queue.peek (some address) machine = .returned nodes.getLast? machine
  get : ∀ index < nodes.length, Queue.get (some address) index machine = .returned nodes[index]? machine
  getNextTail : Queue.getNextTail (some address) machine = .returned nodes.dropLast.getLast? machine

variable {env : Environment} {machine : Machine} {address : Address} {nodes : List Address}

namespace ListOf

theorem add {rt : Address} (lists : ListOf machine address nodes) (outside : rt ∉ nodes)
    (stores : Stores env machine address rt) :
    ∃ after, Queue.add env (some address) (some rt) machine = .returned true after ∧
      ListOf after address (rt :: nodes) := by
  obtain ⟨name, persist, contents, linked⟩ := lists
  obtain ⟨node, found, stores⟩ := stores
  obtain ⟨world, ran⟩ := Queue.add_eq_link env linked.header found (stores _ linked.header)
  obtain ⟨after, linking, pushed, _⟩ := Queue.link_linked (linked.setWorld world) outside found
  exact ⟨after, ran.trans linking, _, _, _, pushed⟩

theorem poll (lists : ListOf machine address nodes) (removes : Removes env machine address) :
    ∃ after, Queue.poll env (some address) machine = .returned nodes.getLast? after ∧
      ListOf after address nodes.dropLast := by
  obtain ⟨name, persist, contents, linked⟩ := lists
  rcases List.eq_nil_or_concat nodes with rfl | ⟨kept, last, rfl⟩
  · exact ⟨machine, Queue.poll_empty_linked linked, _, _, _, linked⟩
  · rw [List.concat_eq_append] at linked ⊢
    rw [List.getLast?_concat, List.dropLast_concat]
    obtain ⟨node, found⟩ := linked.chain.live (by simp : last ∈ kept ++ [last])
    obtain ⟨header, occupied, following⟩ := Queue.before_poll linked
    obtain ⟨world, ran⟩ := Queue.poll_eq_detach env header rfl found occupied following
      fun persistent => removes _ header persistent last node rfl found
    obtain ⟨after, detaching, shortened, _⟩ := Queue.detach_linked (linked.setWorld world)
    exact ⟨after, ran.trans detaching, _, _, _, shortened⟩

theorem setPersist (lists : ListOf machine address nodes) (persist : Bool) :
    ListOf (updateQueue (some address) (Queue.setPersist persist) machine).state address nodes := by
  obtain ⟨name, _, contents, linked⟩ := lists
  rw [run_updateQueue machine _ linked.header]
  exact ⟨name, persist, contents, Store.get_modify_self _ linked.header, linked.chain⟩

theorem actsAs (lists : ListOf machine address nodes) : ActsAs env machine address nodes where
  lists := lists
  acyclic := by
    obtain ⟨_, _, _, linked⟩ := lists
    exact linked.chain.nodup
  ends := by
    obtain ⟨_, _, _, linked⟩ := lists
    refine ⟨_, linked.header, rfl, ?_⟩
    rw [List.head?_eq_none_iff, List.getLast?_eq_none_iff]
  add := fun _ outside stores => lists.add outside stores
  poll := lists.poll
  size := by
    obtain ⟨_, _, _, linked⟩ := lists
    exact Queue.size_linked linked
  isEmpty := by
    obtain ⟨_, _, _, linked⟩ := lists
    exact Queue.isEmpty_linked linked
  peek := by
    obtain ⟨_, _, _, linked⟩ := lists
    exact Queue.peek_linked linked
  get := by
    obtain ⟨_, _, _, linked⟩ := lists
    exact fun _ inside => Queue.get_linked linked inside
  getNextTail := by
    obtain ⟨_, _, _, linked⟩ := lists
    exact Queue.getNextTail_linked linked

end ListOf

/-- Whatever calls a run has made, the queue is the list they build. -/
theorem QueueRun.listOf {calls : List QueueCall} (run : QueueRun env address calls machine) :
    ListOf machine address (nodesAfter calls) := by
  induction run with
  | @new before after name made =>
      obtain ⟨created, ran, fresh, _⟩ := Queue.new_run before name
      rw [ran] at made
      cases made
      exact ⟨_, _, _, fresh.holds.linked⟩
  | elsewhere run nodes queue ih =>
      obtain ⟨_, _, _, linked⟩ := ih
      exact ⟨_, _, _, linked.frame nodes queue⟩
  | persist run persist ih => exact ih.setPersist persist
  | add run outside stores ih =>
      obtain ⟨after, ran, lists⟩ := ih.add outside stores
      rw [ran]
      exact lists
  | poll run removes ih =>
      obtain ⟨after, ran, lists⟩ := ih.poll removes
      rw [ran]
      exact lists

/-- The queue refines a list. -/
theorem queue_refines_list {calls : List QueueCall} (run : QueueRun env address calls machine) :
    ActsAs env machine address (nodesAfter calls) :=
  run.listOf.actsAs

/-- A queue object and one node, before the node has been added. -/
def oneNode : Machine :=
  (Node.new 1 (Queue.new (text "a") ⟨.empty, .empty, ⟨0, .null⟩, oneQueue⟩).state).state

theorem oneNode_run : QueueRun obliging 0 [] oneNode :=
  .elsewhere (.new (show Queue.new (text "a") ⟨.empty, .empty, ⟨0, .null⟩, oneQueue⟩ =
    .returned (some 0) _ from rfl)) (by simp [nodesAfter]) rfl

theorem queue_refines_list_computed :
    ActsAs obliging (Queue.poll obliging (some 0)
      (Queue.add obliging (some 0) (some 0) oneNode).state).state 0 [] := by
  have stores : Stores obliging oneNode 0 0 := by
    refine ⟨⟨1, none, none⟩, rfl, fun queue found _ => ?_⟩
    cases Option.some.inj (show some (Queue.mk (text "a") none none true) = some queue from found)
    decide +kernel
  have removes : Removes obliging (Queue.add obliging (some 0) (some 0) oneNode).state 0 := by
    intro queue found _ tail node last here
    cases Option.some.inj (show some (Queue.mk (text "a") (some 0) (some 0) true) = some queue from found)
    cases Option.some.inj last
    cases Option.some.inj (show some (Node.mk 1 none none) = some node from here)
    decide +kernel
  exact queue_refines_list (.poll (.add oneNode_run (by simp [nodesAfter]) stores) removes)

end Bmb
