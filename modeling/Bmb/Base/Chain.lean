import Mathlib.Data.List.Nodup
import Mathlib.Data.List.Range
import Mathlib.Data.List.Perm.Subperm
import Bmb.Base.Store

namespace Bmb.Base

variable {β γ : Type} {link : β → Pointer} {view : β → γ}

/-- Following `link` from a pointer visits exactly the given addresses and ends
in `NULL`; `contents` lists what `view` shows of the visited cells. -/
inductive Chain (link : β → Pointer) (view : β → γ) (store : Store β) :
    Pointer → List Address → List γ → Prop where
  | nil : Chain link view store none [] []
  | cons {address : Address} {cell : β} {addresses : List Address} {contents : List γ}
      (found : store.get address = some cell)
      (rest : Chain link view store (link cell) addresses contents) :
      Chain link view store (some address) (address :: addresses) (view cell :: contents)

/-- The cells met on following `link` from a pointer, at most as many as there is fuel. -/
def cellsFrom (link : β → Pointer) (store : Store β) : Nat → Pointer → List β
  | fuel + 1, some address =>
      match store.get address with
      | none => []
      | some cell => cell :: cellsFrom link store fuel (link cell)
  | _, _ => []

namespace Chain

variable {store after : Store β} {start : Pointer} {addresses : List Address} {contents : List γ}

theorem head_eq (chain : Chain link view store start addresses contents) :
    start = addresses.head? := by
  cases chain <;> rfl

theorem length_eq (chain : Chain link view store start addresses contents) :
    addresses.length = contents.length := by
  induction chain with
  | nil => rfl
  | cons found rest ih => simp [ih]

theorem unique {others : List Address} {otherContents : List γ}
    (left : Chain link view store start addresses contents)
    (right : Chain link view store start others otherContents) :
    addresses = others ∧ contents = otherContents := by
  induction left generalizing others otherContents with
  | nil => cases right; exact ⟨rfl, rfl⟩
  | cons found rest ih =>
      cases right with
      | cons otherFound otherRest =>
          rw [found] at otherFound
          cases otherFound
          obtain ⟨rfl, rfl⟩ := ih otherRest
          exact ⟨rfl, rfl⟩

theorem live {address : Address} (chain : Chain link view store start addresses contents)
    (member : address ∈ addresses) : ∃ cell, store.get address = some cell := by
  induction chain with
  | nil => simp at member
  | cons found rest ih =>
      rcases List.mem_cons.mp member with rfl | later
      · exact ⟨_, found⟩
      · exact ih later

theorem bounded {address : Address} (chain : Chain link view store start addresses contents)
    (member : address ∈ addresses) : address < store.frontier :=
  have ⟨_, found⟩ := chain.live member
  Store.get_bounded found

/-- Every address on a chain starts a chain of its own, no longer than the whole. -/
theorem suffix {address : Address} (chain : Chain link view store start addresses contents)
    (member : address ∈ addresses) :
    ∃ later laterContents, Chain link view store (some address) later laterContents ∧
      later.length ≤ addresses.length := by
  induction chain with
  | nil => simp at member
  | cons found rest ih =>
      rcases List.mem_cons.mp member with rfl | inside
      · exact ⟨_, _, .cons found rest, Nat.le_refl _⟩
      · obtain ⟨later, laterContents, suffixChain, shorter⟩ := ih inside
        exact ⟨later, laterContents, suffixChain, Nat.le_succ_of_le shorter⟩

/-- A chain that ends cannot visit a cell twice. -/
theorem nodup (chain : Chain link view store start addresses contents) : addresses.Nodup := by
  induction chain with
  | nil => exact List.nodup_nil
  | cons found rest ih =>
      refine List.nodup_cons.mpr ⟨fun again => ?_, ih⟩
      obtain ⟨later, laterContents, suffixChain, shorter⟩ := rest.suffix again
      have same := ((Chain.cons found rest).unique suffixChain).1
      rw [← same, List.length_cons] at shorter
      omega

theorem last_not_mem {kept : List Address} {last : Address}
    (chain : Chain link view store start (kept ++ [last]) contents) : last ∉ kept := by
  have distinct := chain.nodup
  simp only [List.nodup_append, List.mem_singleton] at distinct
  exact fun member => distinct.2.2 last member last rfl rfl

theorem length_le_frontier (chain : Chain link view store start addresses contents) :
    addresses.length ≤ store.frontier := by
  have inside : addresses ⊆ List.range store.frontier := by
    intro address member
    exact List.mem_range.mpr (chain.bounded member)
  simpa using (chain.nodup.subperm inside).length_le

theorem cellsFrom_eq {fuel : Nat} (chain : Chain link view store start addresses contents)
    (enough : addresses.length ≤ fuel) : (cellsFrom link store fuel start).map view = contents := by
  induction chain generalizing fuel with
  | nil => cases fuel <;> rfl
  | cons found rest ih =>
      cases fuel with
      | zero => simp at enough
      | succ fuel =>
          simp only [cellsFrom, found, List.map_cons]
          rw [ih (by simpa using enough)]

theorem frame (chain : Chain link view store start addresses contents)
    (same : ∀ address ∈ addresses, after.get address = store.get address) :
    Chain link view after start addresses contents := by
  induction chain with
  | nil => exact .nil
  | cons found rest ih =>
      refine .cons ((same _ (by simp)).trans found) (ih ?_)
      exact fun address member => same address (by simp [member])

theorem cell_at {index : Nat} {address : Address}
    (chain : Chain link view store start addresses contents)
    (position : addresses[index]? = some address) :
    ∃ cell, store.get address = some cell ∧ contents[index]? = some (view cell) ∧
      link cell = addresses[index + 1]? := by
  induction chain generalizing index with
  | nil => simp at position
  | cons found rest ih =>
      cases index with
      | zero =>
          simp only [List.getElem?_cons_zero, Option.some.injEq] at position
          subst position
          exact ⟨_, found, rfl, by simpa [List.head?_eq_getElem?] using rest.head_eq⟩
      | succ index => simpa using ih position

/-- Ending a chain at one of its cells keeps exactly what comes up to it. -/
theorem cut {kept dropped : List Address} {last : Address} {f : β → β}
    (chain : Chain link view store start (kept ++ last :: dropped) contents)
    (ends : ∀ cell, link (f cell) = none) (shows : ∀ cell, view (f cell) = view cell) :
    Chain link view (store.modify last f) start (kept ++ [last])
      (contents.take (kept.length + 1)) := by
  induction kept generalizing start contents with
  | nil =>
      cases chain with
      | cons found rest =>
          rename_i cell contents
          have changed := Store.get_modify_self f found
          have ended : Chain link view (store.modify last f) (link (f cell)) [] [] := by
            rw [ends cell]
            exact .nil
          simpa [shows] using Chain.cons changed ended
  | cons first kept ih =>
      cases chain with
      | cons found rest =>
          have distinct : first ≠ last := by
            have separate := (Chain.cons found rest).nodup
            intro same
            subst same
            simp at separate
          exact .cons ((Store.get_modify_of_ne f distinct).trans found) (ih rest)

/-- A fresh cell pointing at the old first cell becomes the new first cell. -/
theorem push {address : Address} {cell : β}
    (chain : Chain link view store start addresses contents)
    (found : store.get address = some cell) (linked : link cell = start) :
    Chain link view store (some address) (address :: addresses) (view cell :: contents) :=
  .cons found (linked ▸ chain)

end Chain

end Bmb.Base
