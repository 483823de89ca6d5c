import Mathlib.Data.List.Basic
import Mathlib.Data.List.Infix

namespace Bmb.Base

/-! Where a word occurs in a list for the first time, and matches of a language that begin
as far to the left and are as long as possible. -/

variable {α : Type} {word text : List α} {place : Nat}

/-- A word at a place of a text. -/
def OccursAt (word text : List α) (place : Nat) : Prop :=
  ∃ before after, text = before ++ word ++ after ∧ before.length = place

/-- A word at a place of a text and at none before. -/
structure FirstAt (word text : List α) (place : Nat) : Prop where
  occurs : OccursAt word text place
  first : ∀ other, OccursAt word text other → place ≤ other

theorem occursAt_zero : OccursAt word text 0 ↔ word <+: text := by
  constructor
  · intro occurs
    obtain ⟨before, after, rfl, none⟩ := occurs
    obtain rfl := List.length_eq_zero_iff.mp none
    exact ⟨after, rfl⟩
  · intro begins
    obtain ⟨after, rfl⟩ := begins
    exact ⟨[], after, rfl, rfl⟩

theorem occursAt_cons {first : α} :
    OccursAt word (first :: text) (place + 1) ↔ OccursAt word text place := by
  constructor
  · intro occurs
    obtain ⟨before, after, same, length⟩ := occurs
    cases before with
    | nil => simp at length
    | cons head before =>
        simp only [List.cons_append, List.cons.injEq] at same
        exact ⟨before, after, same.2, by simpa using length⟩
  · intro occurs
    obtain ⟨before, after, rfl, rfl⟩ := occurs
    exact ⟨first :: before, after, rfl, rfl⟩

theorem OccursAt.append (occurs : OccursAt word text place) (more : List α) :
    OccursAt word (text ++ more) place := by
  obtain ⟨before, after, rfl, length⟩ := occurs
  exact ⟨before, after ++ more, by simp, length⟩

theorem OccursAt.bound (occurs : OccursAt word text place) :
    place + word.length ≤ text.length := by
  obtain ⟨before, after, rfl, rfl⟩ := occurs
  simp

theorem OccursAt.of_append {more : List α} (occurs : OccursAt word (text ++ more) place)
    (within : place + word.length ≤ text.length) : OccursAt word text place := by
  obtain ⟨before, after, same, rfl⟩ := occurs
  have front : before ++ word <+: text :=
    List.prefix_of_prefix_length_le ⟨after, same.symm⟩ (List.prefix_append text more)
      (by simpa using within)
  obtain ⟨rest, rfl⟩ := front
  exact ⟨before, rest, rfl, rfl⟩

/-- A word without the separator lies on one side of it. -/
theorem OccursAt.split {left right : List α} {separator : α} (apart : separator ∉ word)
    (occurs : OccursAt word (left ++ separator :: right) place) :
    OccursAt word left place ∨
      ∃ other, OccursAt word right other ∧ place = left.length + 1 + other := by
  by_cases early : place + word.length ≤ left.length
  · exact .inl (occurs.of_append early)
  obtain ⟨before, after, same, rfl⟩ := occurs
  by_cases late : left.length < before.length
  · have front : left ++ [separator] <+: before := by
      have whole : left ++ [separator] <+: before ++ word ++ after :=
        same ▸ ⟨right, List.append_cons left separator right ▸ rfl⟩
      refine List.prefix_of_prefix_length_le whole ⟨word ++ after, by rw [List.append_assoc]⟩ ?_
      simpa using Nat.succ_le_of_lt late
    obtain ⟨more, rfl⟩ := front
    refine .inr ⟨more.length, ⟨more, after, ?_, rfl⟩, ?_⟩
    · simpa using same
    · rw [List.length_append, List.length_append, List.length_singleton]
  · -- The word covers the place of the separator.
    have here : (before ++ word ++ after)[left.length]? = some separator := by
      rw [← same]
      simp
    rw [List.append_assoc, List.getElem?_append_right (by omega),
      List.getElem?_append_left (by omega)] at here
    exact absurd (List.mem_of_getElem? here) apart

theorem OccursAt.behind {left right : List α} {separator : α} (occurs : OccursAt word right place) :
    OccursAt word (left ++ separator :: right) (left.length + 1 + place) := by
  obtain ⟨before, after, rfl, rfl⟩ := occurs
  exact ⟨left ++ separator :: before, after, by simp, by simp; omega⟩

/-- Without an occurrence in front of the separator the first one behind it is the first. -/
theorem FirstAt.behind {left right : List α} {separator : α} (apart : separator ∉ word)
    (none : ∀ other, ¬OccursAt word left other) (found : FirstAt word right place) :
    FirstAt word (left ++ separator :: right) (left.length + 1 + place) where
  occurs := found.occurs.behind
  first := by
    intro other occurs
    rcases occurs.split apart with within | ⟨later, inside, rfl⟩
    · exact absurd within (none other)
    · have := found.first later inside
      omega

theorem FirstAt.unique {other : Nat} (left : FirstAt word text place)
    (right : FirstAt word text other) : place = other :=
  Nat.le_antisymm (left.first _ right.occurs) (right.first _ left.occurs)

/-- The first occurrence stays the first when the text is continued. -/
theorem FirstAt.append (found : FirstAt word text place) (more : List α) :
    FirstAt word (text ++ more) place where
  occurs := found.occurs.append more
  first := by
    intro other occurs
    by_contra earlier
    have bound := found.occurs.bound
    exact absurd (found.first other (occurs.of_append (by omega))) (by omega)

section Search

variable [DecidableEq α]

/-- The place of the first occurrence. -/
def firstAt (word : List α) : List α → Option Nat
  | [] => if word = [] then some 0 else none
  | head :: rest =>
      if word <+: head :: rest then some 0 else (firstAt word rest).map (· + 1)

theorem firstAt_eq_some (text : List α) (place : Nat) :
    firstAt word text = some place ↔ FirstAt word text place := by
  induction text generalizing place with
  | nil =>
      have only (other : Nat) : OccursAt word [] other ↔ other = 0 ∧ word = [] := by
        constructor
        · intro occurs
          obtain ⟨before, after, same, rfl⟩ := occurs
          simp only [List.nil_eq, List.append_eq_nil_iff] at same
          simp [same.1.1, same.1.2]
        · intro both
          obtain ⟨rfl, rfl⟩ := both
          exact ⟨[], [], rfl, rfl⟩
      unfold firstAt
      constructor
      · intro found
        split at found
        · rename_i empty
          cases found
          exact ⟨(only 0).mpr ⟨rfl, empty⟩, fun other _ => Nat.zero_le other⟩
        · contradiction
      · intro found
        obtain ⟨rfl, empty⟩ := (only place).mp found.occurs
        rw [if_pos empty]
  | cons head rest ih =>
      unfold firstAt
      by_cases begins : word <+: head :: rest
      · rw [if_pos begins]
        have here : FirstAt word (head :: rest) 0 :=
          ⟨occursAt_zero.mpr begins, fun other _ => Nat.zero_le other⟩
        constructor
        · intro same
          cases same
          exact here
        · intro found
          rw [found.unique here]
      · rw [if_neg begins]
        cases place with
        | zero =>
            constructor
            · intro found
              simp at found
            · intro found
              exact absurd (occursAt_zero.mp found.occurs) begins
        | succ place =>
            have shifted : FirstAt word (head :: rest) (place + 1) ↔ FirstAt word rest place := by
              constructor
              · intro found
                exact ⟨occursAt_cons.mp found.occurs, fun other occurs =>
                  Nat.succ_le_succ_iff.mp (found.first _ (occursAt_cons.mpr occurs))⟩
              · intro found
                refine ⟨occursAt_cons.mpr found.occurs, fun other occurs => ?_⟩
                cases other with
                | zero => exact absurd (occursAt_zero.mp occurs) begins
                | succ other => exact Nat.succ_le_succ (found.first _ (occursAt_cons.mp occurs))
            rw [shifted, ← ih place]
            simp

theorem OccursAt.exists_first (occurs : OccursAt word text place) :
    ∃ first, FirstAt word text first := by
  induction text generalizing place with
  | nil =>
      refine ⟨place, occurs, fun other _ => ?_⟩
      have := occurs.bound
      simp only [List.length_nil] at this
      omega
  | cons head rest ih =>
      by_cases begins : word <+: head :: rest
      · exact ⟨0, occursAt_zero.mpr begins, fun other _ => Nat.zero_le other⟩
      · cases place with
        | zero => exact absurd (occursAt_zero.mp occurs) begins
        | succ place =>
            obtain ⟨first, found⟩ := ih (occursAt_cons.mp occurs)
            refine ⟨first + 1, occursAt_cons.mpr found.occurs, fun other later => ?_⟩
            cases other with
            | zero => exact absurd (occursAt_zero.mp later) begins
            | succ other => exact Nat.succ_le_succ (found.first _ (occursAt_cons.mp later))

theorem firstAt_eq_none (text : List α) :
    firstAt word text = none ↔ ∀ place, ¬OccursAt word text place := by
  constructor
  · intro vain place occurs
    obtain ⟨first, found⟩ := occurs.exists_first
    rw [(firstAt_eq_some text first).mpr found] at vain
    contradiction
  · intro vain
    cases found : firstAt word text with
    | none => rfl
    | some place => exact absurd ((firstAt_eq_some text place).mp found).occurs (vain place)

end Search

/-! ## Leftmost-longest matches -/

/-- A match of a language in a text that begins at the first possible place and is the
longest one there. -/
structure LeftmostLongest (language : List α → Prop) (text : List α) (start stop : Nat) : Prop where
  ordered : start ≤ stop
  within : stop ≤ text.length
  accepted : language ((text.drop start).take (stop - start))
  leftmost : ∀ first last, first ≤ last → last ≤ text.length →
    language ((text.drop first).take (last - first)) → start ≤ first
  longest : ∀ last, start ≤ last → last ≤ text.length →
    language ((text.drop start).take (last - start)) → last ≤ stop

end Bmb.Base
