import Mathlib.Data.Nat.Digits.Defs
import Mathlib.Data.Nat.Digits.Lemmas
import Mathlib.Data.List.TakeWhile

namespace Bmb.Base

/-! Byte strings, 32-bit conversions and the decimal conversions of the C library. -/

abbrev Bytes := List UInt8

/-- The bytes of an ASCII literal. -/
def text (literal : String) : Bytes := literal.toList.map fun char => UInt8.ofNat char.toNat

/-- What the string functions see of a buffer: the bytes before its first NUL. -/
def cString (buffer : Bytes) : Bytes := buffer.takeWhile (· ≠ 0)

theorem cString_of_no_nul {bytes : Bytes} (clean : 0 ∉ bytes) : cString bytes = bytes := by
  apply List.takeWhile_eq_self_iff.mpr
  intro byte member
  simp only [ne_eq, decide_not, Bool.not_eq_eq_eq_not, Bool.not_true, decide_eq_false_iff_not]
  rintro rfl
  exact clean member

theorem cString_append {bytes : Bytes} (clean : 0 ∉ bytes) (behind : Bytes) :
    cString (bytes ++ behind) = bytes ++ cString behind := by
  rw [cString, List.takeWhile_append_of_pos]
  · rfl
  · intro byte member
    simp only [ne_eq, decide_not, Bool.not_eq_eq_eq_not, Bool.not_true, decide_eq_false_iff_not]
    rintro rfl
    exact clean member

theorem cString_append_nul {bytes : Bytes} (clean : 0 ∉ bytes) (behind : Bytes) :
    cString (bytes ++ 0 :: behind) = bytes := by
  rw [cString_append clean, cString, List.takeWhile_cons_of_neg (by simp), List.append_nil]

theorem cString_append_of_mem {bytes : Bytes} (ended : 0 ∈ bytes) (behind : Bytes) :
    cString (bytes ++ behind) = cString bytes := by
  obtain ⟨front, rest, rfl, clean⟩ := List.eq_append_cons_of_mem ended
  rw [List.append_assoc, List.cons_append, cString_append_nul clean, cString_append_nul clean]

theorem cString_length_lt {bytes : Bytes} (ended : 0 ∈ bytes) :
    (cString bytes).length < bytes.length := by
  obtain ⟨front, rest, rfl, clean⟩ := List.eq_append_cons_of_mem ended
  rw [cString_append_nul clean]
  simp

/-- Conversion to `int`. -/
def toInt32 (value : Int) : Int := (value + 2147483648) % 4294967296 - 2147483648

/-- Conversion to `unsigned int`. -/
def toUInt32 (value : Int) : Nat := (value % 4294967296).toNat

/-- Conversion to `unsigned short int`. -/
def toUInt16 (value : Int) : Nat := (value % 65536).toNat

theorem toInt32_of_range {value : Int} (lower : -2147483648 ≤ value) (upper : value < 2147483648) :
    toInt32 value = value := by
  unfold toInt32
  omega

theorem toUInt32_of_nat {value : Nat} (upper : value < 4294967296) : toUInt32 value = value := by
  unfold toUInt32
  omega

def digit (value : Nat) : UInt8 := UInt8.ofNat (48 + value)

/-- Decimal text of a natural number. -/
def decimal (value : Nat) : Bytes :=
  if value = 0 then [digit 0] else (Nat.digits 10 value).reverse.map digit

/-- `sprintf` with the format `%d`. -/
def formatInt (value : Int) : Bytes :=
  if value < 0 then 45 :: decimal value.natAbs else decimal value.natAbs

def isSpace (byte : UInt8) : Bool := byte == 32 || (9 ≤ byte && byte ≤ 13)

def isDigit (byte : UInt8) : Bool := 48 ≤ byte && byte ≤ 57

/-- Value of the leading digits, after `accumulated`. -/
def leadingDigits (accumulated : Nat) : Bytes → Nat
  | [] => accumulated
  | byte :: rest =>
      if isDigit byte then leadingDigits (10 * accumulated + (byte.toNat - 48)) rest
      else accumulated

def signedDigits : Bytes → Int
  | 45 :: rest => -(leadingDigits 0 rest : Int)
  | 43 :: rest => leadingDigits 0 rest
  | rest => leadingDigits 0 rest

/-- `strtol` in base ten on a 64-bit `long`: leading spaces, a sign, digits,
saturation at the ends of the range. -/
def strtol (bytes : Bytes) : Int :=
  max (-9223372036854775808) (min 9223372036854775807 (signedDigits (bytes.dropWhile isSpace)))

def atoi (bytes : Bytes) : Int := toInt32 (strtol bytes)

theorem digit_toNat {value : Nat} (small : value < 10) : (digit value).toNat = 48 + value := by
  simp only [digit, UInt8.toNat_ofNat']
  omega

theorem isDigit_iff {byte : UInt8} : isDigit byte = true ↔ 48 ≤ byte.toNat ∧ byte.toNat ≤ 57 := by
  simp [isDigit, UInt8.le_iff_toNat_le]

theorem isDigit_digit {value : Nat} (small : value < 10) : isDigit (digit value) = true := by
  rw [isDigit_iff, digit_toNat small]
  omega

theorem decimal_digits {value : Nat} {byte : UInt8} (member : byte ∈ decimal value) :
    isDigit byte = true := by
  unfold decimal at member
  split at member
  · rw [List.mem_singleton.mp member]
    exact isDigit_digit (by decide)
  · obtain ⟨entry, inside, rfl⟩ := List.mem_map.mp member
    exact isDigit_digit (Nat.digits_lt_base (by decide) (List.mem_reverse.mp inside))

theorem decimal_ne_nil (value : Nat) : decimal value ≠ [] := by
  unfold decimal
  split
  · simp
  · rename_i positive
    simpa [Nat.digits_ne_nil_iff_ne_zero] using positive

theorem leadingDigits_map (accumulated : Nat) (entries : List Nat)
    (small : ∀ entry ∈ entries, entry < 10) :
    leadingDigits accumulated (entries.map digit) =
      entries.foldl (fun total entry => 10 * total + entry) accumulated := by
  induction entries generalizing accumulated with
  | nil => rfl
  | cons entry rest ih =>
      have entrySmall := small entry (by simp)
      simp only [List.map_cons, leadingDigits, isDigit_digit entrySmall, if_true,
        digit_toNat entrySmall, List.foldl_cons]
      rw [ih _ (fun other member => small other (by simp [member]))]
      congr 1
      omega

theorem leadingDigits_decimal (value : Nat) : leadingDigits 0 (decimal value) = value := by
  unfold decimal
  split
  · rename_i zero
    subst zero
    decide
  · rw [leadingDigits_map 0 _ (fun entry member =>
      Nat.digits_lt_base (by decide) (List.mem_reverse.mp member))]
    rw [List.foldl_reverse]
    conv_rhs => rw [← Nat.ofDigits_digits 10 value, Nat.ofDigits_eq_foldr]
    congr 1
    funext entry total
    simp [Nat.add_comm]

theorem decimal_injective {left right : Nat} (same : decimal left = decimal right) :
    left = right := by
  rw [← leadingDigits_decimal left, same, leadingDigits_decimal]

theorem decimal_head (value : Nat) :
    ∃ first rest, decimal value = first :: rest ∧ isDigit first = true := by
  cases shape : decimal value with
  | nil => exact absurd shape (decimal_ne_nil value)
  | cons first rest => exact ⟨first, rest, rfl, decimal_digits (by rw [shape]; simp)⟩

theorem isSpace_of_isDigit {byte : UInt8} (digit : isDigit byte = true) : isSpace byte = false := by
  rw [isDigit_iff] at digit
  simp only [isSpace, Bool.or_eq_false_iff, beq_eq_false_iff_ne, ne_eq, Bool.and_eq_false_iff,
    decide_eq_false_iff_not, UInt8.le_iff_toNat_le]
  refine ⟨?_, Or.inr ?_⟩
  · rintro rfl
    simp at digit
  · simp
    omega

theorem signedDigits_of_isDigit {first : UInt8} {rest : Bytes} (digit : isDigit first = true) :
    signedDigits (first :: rest) = leadingDigits 0 (first :: rest) := by
  unfold signedDigits
  split
  · rename_i same
    cases same
    simp [isDigit] at digit
  · rename_i same
    cases same
    simp [isDigit] at digit
  · rfl

theorem signedDigits_formatInt (value : Int) :
    signedDigits ((formatInt value).dropWhile isSpace) = value := by
  obtain ⟨first, rest, shape, digit⟩ := decimal_head value.natAbs
  have read := leadingDigits_decimal value.natAbs
  unfold formatInt
  split
  · rename_i negative
    have skipped : (45 :: decimal value.natAbs).dropWhile isSpace = 45 :: decimal value.natAbs := by
      simp [List.dropWhile, isSpace]
    rw [skipped]
    simp only [signedDigits, read]
    omega
  · rename_i nonnegative
    rw [shape, List.dropWhile_cons_of_neg (by simp [isSpace_of_isDigit digit]),
      signedDigits_of_isDigit digit, ← shape, read]
    omega

/-- `atoi` inverts `%d` on every `int`. -/
theorem atoi_formatInt {value : Int} (lower : -2147483648 ≤ value) (upper : value < 2147483648) :
    atoi (formatInt value) = value := by
  unfold atoi strtol
  rw [signedDigits_formatInt, toInt32_of_range] <;> omega

theorem formatInt_nat (value : Nat) : formatInt value = decimal value := by
  simp [formatInt]

theorem atoi_decimal {value : Nat} (upper : value < 2147483648) : atoi (decimal value) = value := by
  rw [← formatInt_nat]
  exact atoi_formatInt (by omega) (by omega)

theorem formatInt_ne_nil (value : Int) : formatInt value ≠ [] := by
  unfold formatInt
  split
  · simp
  · exact decimal_ne_nil _

theorem formatInt_bytes {value : Int} {byte : UInt8} (member : byte ∈ formatInt value) :
    byte = 45 ∨ isDigit byte = true := by
  unfold formatInt at member
  split at member
  · rcases List.mem_cons.mp member with rfl | inside
    · exact Or.inl rfl
    · exact Or.inr (decimal_digits inside)
  · exact Or.inr (decimal_digits member)

end Bmb.Base
