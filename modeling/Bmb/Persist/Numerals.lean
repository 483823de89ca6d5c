import Mathlib.Analysis.SpecialFunctions.Log.Base
import Bmb.Persist

namespace Bmb

open Bmb.Base Bmb.Posix

/-! The blocks that `int_to_string` allocates, and the ids that its texts denote. -/

variable {value : Int} {nodeId : Nat}

/-- The block of a positive int is sized by the logarithm that the source rounds up. -/
theorem intToStringSize_eq_ceil {value : Nat} (positive : 0 < value) :
    (intToStringSize value : Int) = ⌈Real.logb 10 value⌉ + 2 := by
  have rounded : ⌈Real.logb (10 : Nat) (value : Real)⌉ = Int.clog 10 (value : Real) :=
    Real.ceil_logb_natCast (Nat.cast_nonneg value)
  rw [show ((10 : Nat) : Real) = 10 from rfl, Int.clog_natCast] at rounded
  rw [rounded, intToStringSize, if_pos (by omega), Int.toNat_natCast]
  push_cast
  omega

theorem decimal_length {value : Nat} (positive : 0 < value) :
    (decimal value).length = Nat.log 10 value + 1 := by
  rw [decimal, if_neg (by omega), List.length_map, List.length_reverse,
    Nat.length_digits 10 value (by decide) (by omega)]

/-- The text of an int, its NUL included, fits the block that is allocated for it. -/
def TextFits (value : Int) : Prop := (intToString value).length + 1 ≤ intToStringSize value

/-- The block is sized for a positive int, and for at most one digit behind a sign. -/
theorem textFits_iff (value : Int) : TextFits value ↔ -9 ≤ value := by
  unfold TextFits intToString formatInt intToStringSize
  rcases lt_trichotomy value 0 with negative | rfl | positive
  · have digits := decimal_length (Int.natAbs_pos.mpr (Int.ne_of_lt negative))
    rw [if_pos negative, if_neg (by omega), List.length_cons, digits]
    have short : Nat.log 10 value.natAbs = 0 ↔ value.natAbs < 10 := by
      simp [Nat.log_eq_zero_iff]
    dsimp only
    omega
  · decide
  · have digits := decimal_length (Int.natAbs_pos.mpr (Int.ne_of_gt positive))
    have same : value.toNat = value.natAbs := by omega
    have rounded := Nat.log_le_clog 10 value.natAbs
    rw [if_neg (by omega), if_pos positive, digits, same]
    dsimp only
    omega

/-- The text of an int fits its block and denotes the int. -/
def Printed (value : Int) : Prop := TextFits value ∧ atoi (intToString value) = value

theorem printed_iff (lower : -2147483648 ≤ value) (upper : value < 2147483648) :
    Printed value ↔ -9 ≤ value := by
  rw [Printed, textFits_iff, and_iff_left]
  exact atoi_formatInt lower upper

theorem toInt32_range (value : Int) : -2147483648 ≤ toInt32 value ∧ toInt32 value < 2147483648 := by
  unfold toInt32
  omega

theorem nodeList_range {entries : List Name} {id : Int} (listed : id ∈ (nodeList entries).tail) :
    -2147483648 ≤ id ∧ id < 2147483648 := by
  have inside : id ∈ (entries.filter isNodeName).map atoi :=
    (sortIntArrayAsc_perm _).mem_iff.mp listed
  obtain ⟨name, _, rfl⟩ := List.mem_map.mp inside
  exact toInt32_range _

/-- The name of the file of a node fits its block and denotes the id of the node. -/
def Named (nodeId : Nat) (name : Bytes) : Prop :=
  name.length + 1 ≤ intToStringSize (toInt32 nodeId) ∧ toUInt32 (atoi name) = nodeId

theorem toUInt32_toInt32 (small : nodeId < 4294967296) : toUInt32 (toInt32 nodeId) = nodeId := by
  unfold toUInt32 toInt32
  omega

theorem named_iff (small : nodeId < 4294967296) :
    Named nodeId (intToString (toInt32 nodeId)) ↔ nodeId < 2147483648 ∨ 4294967287 ≤ nodeId := by
  obtain ⟨lower, upper⟩ := toInt32_range nodeId
  have denoted : toUInt32 (atoi (intToString (toInt32 nodeId))) = nodeId := by
    rw [intToString, atoi_formatInt lower upper, toUInt32_toInt32 small]
  rw [Named, and_iff_left denoted]
  refine (textFits_iff (toInt32 nodeId)).trans ?_
  unfold toInt32
  omega

/-- Texts of ints are sound down to -9, and so are the names of files: those that
`persist_dispatch` makes from an `unsigned int` and those that a removal makes from what it has
read. -/
theorem intToString_sound_iff (value : Int) (lower : -2147483648 ≤ value) (upper : value < 2147483648) :
    (Printed value ↔ -9 ≤ value) ∧
    (∀ nodeId name, nodeId < 4294967296 → nodeIdText nodeId = some name →
      (Named nodeId name ↔ nodeId < 2147483648 ∨ 4294967287 ≤ nodeId)) ∧
    ∀ entries, ∀ id ∈ (nodeList entries).tail, (Printed id ↔ -9 ≤ id) := by
  refine ⟨printed_iff lower upper, fun nodeId name small named => ?_, fun entries id listed => ?_⟩
  · unfold nodeIdText at named
    split at named
    · rw [← Option.some.inj named]
      exact named_iff small
    · contradiction
  · obtain ⟨above, below⟩ := nodeList_range listed
    exact printed_iff above below

theorem intToString_sound_iff_computed : Printed 1000 ↔ -9 ≤ (1000 : Int) :=
  (intToString_sound_iff 1000 (by decide) (by decide)).1

/-- The block of a negative int of two digits has no room for the NUL. -/
theorem intToString_overruns :
    ¬∀ value : Int, -2147483648 ≤ value → value < 2147483648 → Printed value := by
  intro sound
  have fits := (sound (-10) (by decide) (by decide)).1
  exact absurd ((textFits_iff (-10)).mp fits) (by decide)

end Bmb
