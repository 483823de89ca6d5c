import Mathlib.Data.List.AList

namespace Bmb.Base

/-! A store of cells with allocation, update and deallocation.

Addresses are handed out in increasing order and never reused, so a freed cell
stays dangling.
-/

abbrev Address := Nat

/-- A C pointer; `none` is `NULL`. -/
abbrev Pointer := Option Address

/-- Live cells together with the first address not handed out yet. -/
structure Store (β : Type) where
  cells : AList (fun _ : Address => β)
  frontier : Address
  bounded : ∀ address ∈ cells, address < frontier

namespace Store

variable {β : Type} {store : Store β} {address other : Address} {cell : β}

def empty : Store β := ⟨∅, 0, fun _ member => absurd member (AList.notMem_empty _)⟩

instance : Inhabited (Store β) := ⟨empty⟩

def get (store : Store β) (address : Address) : Option β := store.cells.lookup address

theorem get_bounded (found : store.get address = some cell) : address < store.frontier := by
  apply store.bounded
  exact AList.lookup_isSome.mp (by rw [show store.cells.lookup address = some cell from found]; rfl)

/-- Place a cell at a fresh address. -/
def alloc (store : Store β) (cell : β) : Store β where
  cells := store.cells.insert store.frontier cell
  frontier := store.frontier + 1
  bounded := by
    intro address member
    rcases (AList.mem_insert _).mp member with rfl | old
    · exact Nat.lt_succ_self _
    · exact Nat.lt_succ_of_lt (store.bounded address old)

/-- Change a live cell; a dangling address is left alone. -/
def modify (store : Store β) (address : Address) (f : β → β) : Store β :=
  match found : store.get address with
  | none => store
  | some cell =>
      { cells := store.cells.insert address (f cell)
        frontier := store.frontier
        bounded := by
          intro candidate member
          rcases (AList.mem_insert _).mp member with rfl | old
          · exact get_bounded found
          · exact store.bounded candidate old }

def free (store : Store β) (address : Address) : Store β where
  cells := store.cells.erase address
  frontier := store.frontier
  bounded := fun candidate member => store.bounded candidate (AList.mem_erase.mp member).2

@[simp] theorem get_empty : (empty : Store β).get address = none := rfl

@[simp] theorem alloc_frontier : (store.alloc cell).frontier = store.frontier + 1 := rfl

@[simp] theorem free_frontier : (store.free address).frontier = store.frontier := rfl

@[simp] theorem modify_frontier (f : β → β) :
    (store.modify address f).frontier = store.frontier := by
  unfold modify
  split <;> rfl

@[simp] theorem get_alloc_self : (store.alloc cell).get store.frontier = some cell :=
  AList.lookup_insert _

theorem get_alloc_of_ne (different : address ≠ store.frontier) :
    (store.alloc cell).get address = store.get address :=
  AList.lookup_insert_ne different

theorem get_modify_self (f : β → β) (found : store.get address = some cell) :
    (store.modify address f).get address = some (f cell) := by
  unfold modify
  split
  · rename_i absent
    rw [found] at absent
    contradiction
  · rename_i live present
    rw [found] at present
    cases present
    exact AList.lookup_insert _

theorem get_modify_of_ne (f : β → β) (different : other ≠ address) :
    (store.modify address f).get other = store.get other := by
  unfold modify
  split
  · rfl
  · exact AList.lookup_insert_ne different

theorem live_modify (f : β → β) (found : store.get other = some cell) :
    ∃ changed, (store.modify address f).get other = some changed := by
  by_cases same : other = address
  · rw [← same]
    exact ⟨_, get_modify_self f found⟩
  · exact ⟨cell, (get_modify_of_ne f same).trans found⟩

@[simp] theorem get_free_self : (store.free address).get address = none :=
  AList.lookup_erase _ _

theorem get_free_of_ne (different : other ≠ address) :
    (store.free address).get other = store.get other :=
  AList.lookup_erase_ne different

end Store

end Bmb.Base
