import Bmb.Http.Request

namespace Bmb.Http

open Bmb.Base

/-! What the search for a parameter finds in a text. -/

/-- The first `key=` of a text is followed by a value and then by a delimiter or the end. -/
structure FirstValue (key text value : Bytes) : Prop where
  place : ∃ before after, text = before ++ keyWord key ++ value ++ after ∧
    (∀ byte ∈ after.head?, isDelimiter byte = true) ∧
    FirstAt (keyWord key) text before.length
  plain : ∀ byte ∈ value, isDelimiter byte = false

variable {key text value other : Bytes}

theorem takeWhile_value {after : Bytes} (plain : ∀ byte ∈ value, isDelimiter byte = false)
    (ended : ∀ byte ∈ after.head?, isDelimiter byte = true) :
    (value ++ after).takeWhile (fun byte => !isDelimiter byte) = value := by
  rw [List.takeWhile_append_of_pos (by simpa using plain)]
  cases after with
  | nil => simp
  | cons byte rest =>
      have delimiter := ended byte rfl
      simp [delimiter]

/-- The pattern's second group after a first occurrence. -/
theorem regexec_of_firstValue (found : FirstValue key text value) :
    ∃ start, regexec key text = some (start, start + value.length) ∧
      start + value.length ≤ text.length ∧ (text.drop start).take value.length = value := by
  obtain ⟨before, after, shown, ended, first⟩ := found.place
  refine ⟨before.length + (keyWord key).length, ?_, ?_, ?_⟩
  · have behind : text.drop (before.length + (keyWord key).length) = value ++ after := by
      rw [shown, List.append_assoc, ← List.length_append, List.drop_left]
    rw [regexec, (firstAt_eq_some text before.length).mpr first, Option.map_some]
    simp only [behind, takeWhile_value found.plain ended]
  · rw [shown]
    simp only [List.length_append]
    omega
  · rw [shown, List.append_assoc, ← List.length_append, List.drop_left, List.take_left]

theorem exists_firstValue {place : Nat} (first : FirstAt (keyWord key) text place) :
    ∃ value, FirstValue key text value := by
  obtain ⟨before, behind, shown, rfl⟩ := first.occurs
  refine ⟨behind.takeWhile fun byte => !isDelimiter byte,
    ⟨before, behind.dropWhile fun byte => !isDelimiter byte, ?_, ?_, first⟩, ?_⟩
  · rw [List.append_assoc, List.takeWhile_append_dropWhile]
    exact shown
  · intro byte head
    have stopped := List.head?_dropWhile_not (fun byte => !isDelimiter byte) behind
    rw [Option.mem_def.mp head] at stopped
    simpa using stopped
  · intro byte member
    simpa using List.mem_takeWhile_imp member

theorem extractedValue_of_firstValue (small : text.length < 65536)
    (found : FirstValue key text value) :
    extractedValue text key = if value = [] then none else some value := by
  obtain ⟨start, ran, within, copied⟩ := regexec_of_firstValue found
  have begins : toUInt16 (start : Int) = start := by unfold toUInt16; omega
  have ends : toUInt16 ((start + value.length : Nat) : Int) = start + value.length := by
    unfold toUInt16
    omega
  have length : toUInt16 (((start + value.length : Nat) : Int) - (start : Int)) = value.length := by
    unfold toUInt16
    omega
  simp only [extractedValue, ran, begins, ends, length, copied, Nat.le_zero, List.length_eq_zero_iff]

theorem extractedValue_of_absent (vain : ∀ place, ¬OccursAt (keyWord key) text place) :
    extractedValue text key = none := by
  rw [extractedValue, regexec, (firstAt_eq_none text).mpr vain]
  rfl

theorem absent_or_firstValue (key text : Bytes) :
    (∀ place, ¬OccursAt (keyWord key) text place) ∨ ∃ value, FirstValue key text value := by
  by_cases occurs : ∃ place, OccursAt (keyWord key) text place
  · obtain ⟨place, occurs⟩ := occurs
    obtain ⟨first, found⟩ := occurs.exists_first
    exact .inr (exists_firstValue found)
  · exact .inl fun place here => occurs ⟨place, here⟩

theorem extractedValue_eq_some (small : text.length < 65536) :
    extractedValue text key = some value ↔ value ≠ [] ∧ FirstValue key text value := by
  constructor
  · intro extracted
    rcases absent_or_firstValue key text with vain | ⟨found, first⟩
    · rw [extractedValue_of_absent vain] at extracted
      contradiction
    · rw [extractedValue_of_firstValue small first] at extracted
      split at extracted
      · contradiction
      · rename_i nonempty
        cases extracted
        exact ⟨nonempty, first⟩
  · intro both
    rw [extractedValue_of_firstValue small both.2, if_neg both.1]

theorem extractedValue_eq_none (small : text.length < 65536) :
    extractedValue text key = none ↔
      (∀ place, ¬OccursAt (keyWord key) text place) ∨ FirstValue key text [] := by
  constructor
  · intro extracted
    rcases absent_or_firstValue key text with vain | ⟨found, first⟩
    · exact .inl vain
    · rw [extractedValue_of_firstValue small first] at extracted
      split at extracted
      · rename_i empty
        exact .inr (empty ▸ first)
      · contradiction
  · intro either
    rcases either with vain | empty
    · exact extractedValue_of_absent vain
    · rw [extractedValue_of_firstValue small empty, if_pos rfl]

/-- What a client has given for a key is what the first `key=` of its text shows. -/
def Shows (key text : Bytes) : Option Bytes → Prop
  | none => (∀ place, ¬OccursAt (keyWord key) text place) ∨ FirstValue key text []
  | some value => FirstValue key text value

theorem extractedValue_eq {given : Option Bytes} (small : text.length < 65536)
    (nonempty : given ≠ some []) : extractedValue text key = given ↔ Shows key text given := by
  cases given with
  | none => exact extractedValue_eq_none small
  | some value =>
      have filled : value ≠ [] := fun empty => nonempty (by rw [empty])
      exact (extractedValue_eq_some small).trans (and_iff_right filled)

/-! ## The match of the pattern -/

/-- The language of the pattern `(key=)([^&[:space:]]*)`. -/
def Pattern (key matched : Bytes) : Prop :=
  ∃ value, matched = keyWord key ++ value ∧ ∀ byte ∈ value, isDelimiter byte = false

theorem Pattern.occursAt {start stop : Nat} (accepted : Pattern key ((text.drop start).take (stop - start)))
    (within : start ≤ text.length) : OccursAt (keyWord key) text start := by
  obtain ⟨value, shown, _⟩ := accepted
  refine ⟨text.take start, value ++ text.drop (start + (stop - start)), ?_, by simp [within]⟩
  calc text = text.take start ++ ((text.drop start).take (stop - start) ++
        (text.drop start).drop (stop - start)) := by
        rw [List.take_append_drop, List.take_append_drop]
    _ = _ := by rw [shown, List.drop_drop]; simp

/-- The search gives the leftmost-longest match that POSIX asks for. -/
theorem regexec_leftmostLongest {start stop : Nat} (ran : regexec key text = some (start, stop)) :
    ∃ first, start = first + (keyWord key).length ∧
      LeftmostLongest (Pattern key) text first stop := by
  rw [regexec, Option.map_eq_some_iff] at ran
  obtain ⟨first, found, shown⟩ := ran
  simp only [Prod.mk.injEq] at shown
  obtain ⟨rfl, rfl⟩ := shown
  have here := (firstAt_eq_some text first).mp found
  obtain ⟨before, behind, split, rfl⟩ := here.occurs
  have rest : text.drop (before.length + (keyWord key).length) = behind := by
    rw [split, ← List.length_append, List.drop_left]
  rw [rest]
  refine ⟨before.length, rfl, by omega, ?_, ?_, ?_, ?_⟩
  · have := (List.takeWhile_prefix (fun byte => !isDelimiter byte) (l := behind)).length_le
    rw [split]
    simp only [List.length_append]
    omega
  · refine ⟨behind.takeWhile fun byte => !isDelimiter byte, ?_, fun byte member => ?_⟩
    · obtain ⟨after, continued⟩ := List.takeWhile_prefix (fun byte => !isDelimiter byte) (l := behind)
      generalize (behind.takeWhile fun byte => !isDelimiter byte) = value at continued
      have length : before.length + (keyWord key).length + value.length - before.length =
          (keyWord key ++ value).length := by
        rw [List.length_append]
        omega
      rw [length, split, List.append_assoc, List.drop_left, ← continued, ← List.append_assoc,
        List.take_left]
    · simpa using List.mem_takeWhile_imp member
  · intro other last ordered within accepted
    exact here.first other (accepted.occursAt (ordered.trans within))
  · intro last ordered within accepted
    obtain ⟨value, shown, plain⟩ := accepted
    have lengths := congrArg List.length shown
    rw [split, List.append_assoc, List.drop_left] at shown
    have inside : value <+: behind := by
      have whole : keyWord key ++ value <+: keyWord key ++ behind := by
        rw [← shown]
        exact List.take_prefix _ _
      exact (List.prefix_append_right_inj _).mp whole
    obtain ⟨after, rfl⟩ := inside
    have longer : value.length ≤
        ((value ++ after).takeWhile fun byte => !isDelimiter byte).length := by
      rw [List.takeWhile_append_of_pos (by simpa using plain), List.length_append]
      omega
    rw [List.length_take, List.length_drop, List.length_append] at lengths
    omega

end Bmb.Http
