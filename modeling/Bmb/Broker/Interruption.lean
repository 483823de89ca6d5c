import Bmb.Broker.Restart

namespace Bmb

open Bmb.Base Bmb.Posix

/-! What a new process finds after an old one has been stopped in the middle of a request. -/

/-- What can be found between two changes of the files: the queues before or after the
request, a new node without its message, or a queue without some of its oldest items. -/
inductive Between (command : Command) (old new : Shelf Bytes Item) : Shelf Bytes Item → Prop where
  | before : Between command old new old
  | after : Between command old new new
  | unwritten {mailbox : Mailbox} {data message : Bytes} {id : Nat}
      (produces : command = .produce mailbox data)
      (written : new.Perm (old.push mailbox.key ⟨id, message⟩)) :
      Between command old new (old.push mailbox.key ⟨id, []⟩)
  | shortened {mailbox : Mailbox} {count : Nat} (removes : command = .removeQueue mailbox) :
      Between command old new (old.update mailbox.key (List.drop count))

section Prefixes

variable {env : Environment} {tree : FileTree} {disk later : Shelf Bytes Item}
  {command : Command} {effects : List Effect}

theorem DiskHolds.unlink_some {key : Bytes} {items : List Item} (holds : DiskHolds tree env disk)
    (member : ⟨key, items⟩ ∈ disk) (count : Nat) :
    DiskHolds (replay (Bmb.unlinkAll env key (items.take count)) tree) env
      (disk.update key (List.drop (items.take count).length)) := by
  rw [← List.take_append_drop count items] at member
  exact holds.unlinkAll (items.take count) member

/-- The disk between two changes. -/
theorem DiskStep.between (step : DiskStep env disk command effects later)
    (holds : DiskHolds tree env disk) (bounded : Bounded disk) (count : Nat) :
    ∃ stopped, DiskHolds (replay (effects.take count) tree) env stopped ∧
      Between command disk later stopped := by
  by_cases all : effects.length ≤ count
  · rw [List.take_of_length_le all]
    exact ⟨later, step.holds holds bounded, .after⟩
  cases count with
  | zero => exact ⟨disk, holds, .before⟩
  | succ count =>
      cases step with
      | nothing | consumed | created | made => exact absurd (by simp) all
      | @stored mailbox data items member =>
          have first : count = 0 := by
            simp only [List.length_cons, List.length_nil] at all
            omega
          subst first
          exact ⟨_, holds.apply_create member (bounded.following member),
            @Between.unwritten _ _ _ mailbox data _ _ rfl (.refl _)⟩
      | @unlinked mailbox front rest member =>
          have short : count + 1 ≤ front.length := by
            simp only [unlinkAll, List.length_map] at all
            omega
          have some := holds.unlink_some member (count + 1)
          rw [List.take_append_of_le_length short] at some
          have shown : (unlinkAll env mailbox.key front).take (count + 1) =
              unlinkAll env mailbox.key (front.take (count + 1)) := List.map_take.symm
          rw [shown]
          exact ⟨_, some, .shortened rfl⟩
      | @removed mailbox items member =>
          have some := holds.unlink_some member (count + 1)
          have short : count + 1 ≤ (unlinkAll env mailbox.key items).length := by
            simp only [List.length_append, List.length_singleton] at all
            omega
          have shown : (unlinkAll env mailbox.key items).take (count + 1) =
              unlinkAll env mailbox.key (items.take (count + 1)) := List.map_take.symm
          rw [List.take_append_of_le_length short, shown]
          exact ⟨_, some, .shortened rfl⟩

end Prefixes

/-! ## What can be read back -/

section ReadBack

variable {disk later stopped old new : Shelf Bytes Item} {command : Command} {key : Bytes}

theorem update_readBack {f g : List Item → List Item}
    (commutes : ∀ items, (f items).map readBack = g (items.map readBack)) :
    (disk.update key f).map Fifo.readBack = Shelf.update key g (disk.map Fifo.readBack) := by
  rw [Shelf.update, Shelf.update, List.map_map, List.map_map]
  apply List.map_congr_left
  intro mailbox _
  by_cases named : mailbox.key = key
  · simp [Fifo.readBack, named, commutes]
  · simp [Fifo.readBack, named]

theorem push_readBack (item : Item) : (disk.push key item).map Fifo.readBack =
    Shelf.push key (readBack item) (disk.map Fifo.readBack) :=
  update_readBack fun items => by simp

theorem Between.readBack (between : Between command disk later stopped)
    (first : old.Perm (disk.map Fifo.readBack)) (last : new.Perm (later.map Fifo.readBack)) :
    ∃ found, Between command old new found ∧ found.Perm (stopped.map Fifo.readBack) := by
  cases between with
  | before => exact ⟨old, .before, first⟩
  | after => exact ⟨new, .after, last⟩
  | @unwritten mailbox data message id produces written =>
      have grown := written.map Fifo.readBack
      rw [push_readBack] at grown
      refine ⟨_, .unwritten produces ((last.trans grown).trans (first.map _).symm), ?_⟩
      rw [push_readBack]
      exact first.map _
  | @shortened mailbox count removes =>
      refine ⟨old.update mailbox.key (List.drop count), .shortened removes, ?_⟩
      rw [update_readBack fun items => List.map_drop]
      exact first.map _

end ReadBack

/-! ## Stopping a request -/

end Bmb
