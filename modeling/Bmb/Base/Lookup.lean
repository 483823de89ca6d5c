import Mathlib.Data.List.Nodup
import Mathlib.Logic.Function.Basic
import Mathlib.Order.Lattice

namespace Bmb.Base

/-! Rows with keys, and the partial map that they are. -/

variable {α κ β : Type} {key : α → κ} {value : α → β} {rows : List α} {row other : α}

section Lookup

variable [DecidableEq κ] {place : κ} {found : β}

/-- The partial map from keys to values that rows stand for. -/
def lookup (key : α → κ) (value : α → β) (rows : List α) (place : κ) : Option β :=
  (rows.find? fun row => key row = place).map value

theorem lookup_eq_none : lookup key value rows place = none ↔ place ∉ rows.map key := by
  simp [lookup]

theorem lookup_eq_some (distinct : (rows.map key).Nodup) :
    lookup key value rows place = some found ↔ ∃ row ∈ rows, key row = place ∧ value row = found := by
  constructor
  · intro shown
    obtain ⟨row, search, rfl⟩ := Option.map_eq_some_iff.mp shown
    exact ⟨row, List.mem_of_find?_eq_some search, by simpa using List.find?_some search, rfl⟩
  · intro there
    obtain ⟨row, member, rfl, rfl⟩ := there
    cases search : rows.find? (fun other => key other = key row) with
    | none => exact absurd (List.find?_eq_none.mp search row member) (by simp)
    | some other =>
        have same : key other = key row := by simpa using List.find?_some search
        have equal := List.inj_on_of_nodup_map distinct (List.mem_of_find?_eq_some search) member same
        rw [lookup, search, equal, Option.map_some]

theorem lookup_filter (gone : κ) :
    lookup key value (rows.filter fun row => key row ≠ gone) =
      Function.update (lookup key value rows) gone none := by
  funext place
  by_cases same : place = gone
  · rw [same, Function.update_self, lookup_eq_none]
    simp
  · rw [Function.update_of_ne same]
    have passed (row : α) : key row = place → key row ≠ gone := fun here => here ▸ same
    simp only [lookup, List.find?_filter]
    congr 2
    funext row
    have := passed row
    simp
    tauto

theorem lookup_append_singleton (fresh : key row ∉ rows.map key) :
    lookup key value (rows ++ [row]) =
      Function.update (lookup key value rows) (key row) (some (value row)) := by
  funext place
  by_cases same : place = key row
  · have absent : rows.find? (fun other => key other = key row) = none := by
      simpa using fresh
    rw [same, Function.update_self, lookup, List.find?_append, absent]
    simp
  · rw [Function.update_of_ne same]
    simp [lookup, List.find?_append, Ne.symm same]

/-- Changes to the rows of other keys. -/
theorem lookup_map {change : α → α} (keeps : ∀ row, key (change row) = key row)
    (same : ∀ row, key row = place → change row = row) :
    lookup key value (rows.map change) place = lookup key value rows place := by
  simp only [lookup, List.find?_map, Function.comp_def, keeps]
  cases search : rows.find? (fun row => key row = place) with
  | none => rfl
  | some row =>
      have here : key row = place := by simpa using List.find?_some search
      rw [Option.map_some, same row here]

end Lookup

/-! ## Rows in the order of their keys -/

section Sorted

variable [LinearOrder κ]

/-- A row at its place among others, instead of one with its key. -/
def placed (key : α → κ) (row : α) (rows : List α) : List α :=
  rows.filter (fun other => key other < key row) ++ row ::
    rows.filter (fun other => key row < key other)

theorem mem_placed : other ∈ placed key row rows ↔
    other = row ∨ other ∈ rows ∧ key other ≠ key row := by
  simp only [placed, List.mem_append, List.mem_cons, List.mem_filter, decide_eq_true_eq]
  constructor
  · intro inside
    rcases inside with ⟨member, less⟩ | rfl | ⟨member, more⟩
    · exact .inr ⟨member, less.ne⟩
    · exact .inl rfl
    · exact .inr ⟨member, more.ne'⟩
  · intro inside
    rcases inside with rfl | ⟨member, different⟩
    · exact .inr (.inl rfl)
    · rcases lt_or_gt_of_ne different with less | more
      · exact .inl ⟨member, less⟩
      · exact .inr (.inr ⟨member, more⟩)

theorem placed_sorted (sorted : rows.Pairwise fun left right => key left < key right) :
    (placed key row rows).Pairwise fun left right => key left < key right := by
  refine List.pairwise_append.mpr ⟨sorted.filter _, List.pairwise_cons.mpr ⟨?_, sorted.filter _⟩, ?_⟩
  · intro later member
    simpa using (List.mem_filter.mp member).2
  · intro left before right behind
    have less : key left < key row := by simpa using (List.mem_filter.mp before).2
    rcases List.mem_cons.mp behind with rfl | later
    · exact less
    · exact less.trans (by simpa using (List.mem_filter.mp later).2)

/-- What lies on both sides of a key. -/
theorem sides_of_sorted (sorted : rows.Pairwise fun left right => key left < key right) (place : κ) :
    rows.filter (fun row => key row < place) ++ rows.filter (fun row => place < key row) =
      rows.filter fun row => key row ≠ place := by
  induction sorted with
  | nil => rfl
  | @cons row rows later sorted ih =>
      rcases lt_trichotomy (key row) place with less | same | more
      · simpa [less, less.ne, not_lt_of_gt less] using ih
      · subst same
        simpa using ih
      · have none : rows.filter (fun row => key row < place) = [] := by
          simpa using fun other member => (more.trans (later other member)).le
        simpa [more, more.ne', not_lt_of_gt more, none] using ih

theorem find?_placed (sorted : rows.Pairwise fun left right => key left < key right) {p : α → Bool}
    (unlike : p row = false) (away : ∀ other, p other = true → key other ≠ key row) :
    (placed key row rows).find? p = rows.find? p := by
  rw [placed, List.find?_append, List.find?_cons_of_neg (by simp [unlike]), ← List.find?_append,
    sides_of_sorted sorted, List.find?_filter]
  congr 1
  funext other
  cases holds : p other with
  | false => simp
  | true => simpa using away other holds

theorem lookup_placed (sorted : rows.Pairwise fun left right => key left < key right) :
    lookup key value (placed key row rows) =
      Function.update (lookup key value rows) (key row) (some (value row)) := by
  funext place
  by_cases same : place = key row
  · have distinct : ((placed key row rows).map key).Nodup := by
      rw [List.Nodup, List.pairwise_map]
      exact (placed_sorted sorted).imp fun less => less.ne
    rw [same, Function.update_self]
    exact (lookup_eq_some distinct).mpr ⟨row, mem_placed.mpr (.inl rfl), rfl, rfl⟩
  · rw [Function.update_of_ne same, lookup, find?_placed sorted (by simpa using Ne.symm same), lookup]
    intro other here
    rw [decide_eq_true_eq] at here
    exact here ▸ same

end Sorted

end Bmb.Base
