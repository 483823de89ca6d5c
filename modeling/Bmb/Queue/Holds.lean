import Bmb.Base.Fifo
import Bmb.Queue.Linked

namespace Bmb

open Bmb.Base Bmb.Posix

/-! What a queue object holds, as a list of items, and what the operations of
`queue.c` do to it. -/

structure Item where
  id : Nat
  message : Bytes
deriving DecidableEq

/-- A queue as clients know it: its name and its items, oldest first. -/
abbrev Mailbox := Fifo Bytes Item

def Item.stored (item : Item) : Nat × Option Bytes := (item.id, some item.message)

/-- The queue object at an address consists of exactly the given cells, root first,
and they carry the items of the mailbox, newest first. -/
structure QueueHolds (machine : Machine) (address : Address) (cells : List Address)
    (persist : Bool) (mailbox : Mailbox) : Prop where
  header : machine.queues.get address =
    some { name := mailbox.key, root := cells.head?, tail := cells.getLast?, persist }
  chain : Chain Node.next Node.shows machine.nodes cells.head? cells
    (mailbox.items.reverse.map Item.stored)

variable {machine after : Machine} {address : Address} {cells : List Address} {persist : Bool}
  {mailbox : Mailbox}

namespace QueueHolds

theorem linked (holds : QueueHolds machine address cells persist mailbox) :
    Linked machine address cells mailbox.key persist (mailbox.items.reverse.map Item.stored) :=
  ⟨holds.header, holds.chain⟩

theorem of_linked {key : Bytes} {items : List Item} {contents : List (Nat × Option Bytes)}
    (linked : Linked machine address cells key persist contents)
    (shown : contents = items.reverse.map Item.stored) :
    QueueHolds machine address cells persist ⟨key, items⟩ :=
  ⟨linked.header, shown ▸ linked.chain⟩

theorem length_eq (holds : QueueHolds machine address cells persist mailbox) :
    cells.length = mailbox.items.length := by
  simpa using holds.chain.length_eq

theorem isEmpty_eq (holds : QueueHolds machine address cells persist mailbox) :
    cells.isEmpty = mailbox.items.isEmpty := by
  have length := holds.length_eq
  cases cells <;> cases items : mailbox.items <;> simp [items] at length ⊢

theorem frame (holds : QueueHolds machine address cells persist mailbox)
    (nodes : ∀ cell ∈ cells, after.nodes.get cell = machine.nodes.get cell)
    (queue : after.queues.get address = machine.queues.get address) :
    QueueHolds after address cells persist mailbox :=
  ⟨queue.trans holds.header, holds.chain.frame nodes⟩

theorem node_at {index : Nat} {cell : Address}
    (holds : QueueHolds machine address cells persist mailbox)
    (position : cells[index]? = some cell) :
    ∃ item, mailbox.items.reverse[index]? = some item ∧
      machine.nodes.get cell =
        some { id := item.id, message := some item.message, next := cells[index + 1]? } := by
  obtain ⟨node, found, shown, linked⟩ := holds.chain.cell_at position
  rw [List.getElem?_map, Option.map_eq_some_iff] at shown
  obtain ⟨item, here, same⟩ := shown
  refine ⟨item, here, ?_⟩
  rw [found, ← linked]
  simp only [Item.stored, Node.shows, Prod.mk.injEq] at same
  rw [same.1, same.2]

/-- The last cell carries the oldest item and ends the chain. -/
theorem last_node {key : Bytes} {item : Item} {rest : List Item}
    (holds : QueueHolds machine address cells persist ⟨key, item :: rest⟩) :
    ∃ kept last, cells = kept ++ [last] ∧
      machine.nodes.get last = some { id := item.id, message := some item.message, next := none } := by
  have length := holds.length_eq
  rcases List.eq_nil_or_concat cells with rfl | ⟨kept, last, rfl⟩
  · simp at length
  · rw [List.concat_eq_append] at holds length ⊢
    refine ⟨kept, last, rfl, ?_⟩
    have position : (kept ++ [last])[kept.length]? = some last := by simp
    obtain ⟨found, here, node⟩ := holds.node_at position
    have kepts : kept.length = rest.length := by simpa using length
    have same : item = found := by
      simpa [kepts, List.getElem?_append_right] using here
    rw [node, same]
    simp

end QueueHolds

namespace Queue

theorem size_run (holds : QueueHolds machine address cells persist mailbox) :
    size (some address) machine = .returned mailbox.items.length machine := by
  rw [size_linked holds.linked, holds.length_eq]

theorem get_run {index : Nat} (holds : QueueHolds machine address cells persist mailbox)
    (inside : index < cells.length) :
    get (some address) index machine = .returned cells[index]? machine :=
  get_linked holds.linked inside

theorem isEmpty_run (holds : QueueHolds machine address cells persist mailbox) :
    isEmpty (some address) machine = .returned mailbox.items.isEmpty machine := by
  rw [isEmpty_linked holds.linked, holds.isEmpty_eq]

end Queue

end Bmb
