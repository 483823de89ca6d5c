import Bmb.Util

namespace Bmb

open Bmb.Base

/-! Texts with percent escapes, and what `url_decode` makes of them. -/

/-- A text whose escapes are complete, and the bytes it stands for. -/
inductive PercentCoded : Bytes → Bytes → Prop where
  | done : PercentCoded [] []
  | plus {rest decoded : Bytes} (tail : PercentCoded rest decoded) :
      PercentCoded (43 :: rest) (32 :: decoded)
  | escape {high low : UInt8} {rest decoded : Bytes} (first : isHexadecimal high = true)
      (second : isHexadecimal low = true) (tail : PercentCoded rest decoded) :
      PercentCoded (37 :: high :: low :: rest)
        (UInt8.ofNat (16 * hexValue high + hexValue low) :: decoded)
  | plain {byte : UInt8} {rest decoded : Bytes} (noPlus : byte ≠ 43) (noPercent : byte ≠ 37)
      (tail : PercentCoded rest decoded) : PercentCoded (byte :: rest) (byte :: decoded)

variable {message decoded other rest : Bytes} {byte high low : UInt8}

/-! ## The branches of the loop -/

theorem urlDecode_plus (rest : Bytes) :
    urlDecode (43 :: rest) = (32 :: (urlDecode rest).1, (urlDecode rest).2) := by
  rw [urlDecode.eq_def]
  rfl

theorem urlDecode_plain (noPlus : byte ≠ 43) (noPercent : byte ≠ 37) :
    urlDecode (byte :: rest) = (byte :: (urlDecode rest).1, (urlDecode rest).2) := by
  rw [urlDecode.eq_def]
  dsimp only
  rw [if_neg noPlus, if_neg noPercent]

theorem urlDecode_escape (hexadecimal : (isHexadecimal high && isHexadecimal low) = true) :
    urlDecode (37 :: high :: low :: rest) =
      (UInt8.ofNat (16 * hexValue high + hexValue low) :: (urlDecode rest).1,
        (urlDecode rest).2) := by
  rw [urlDecode.eq_def]
  dsimp only
  rw [if_neg (by decide), if_pos rfl, if_pos hexadecimal]

theorem urlDecode_broken (broken : ¬(isHexadecimal high && isHexadecimal low) = true) :
    urlDecode (37 :: high :: low :: rest) = ([], false) := by
  rw [urlDecode.eq_def]
  dsimp only
  rw [if_neg (by decide), if_pos rfl, if_neg broken]

theorem urlDecode_cut (short : ∀ high low others, rest = high :: low :: others → False) :
    urlDecode (37 :: rest) = ([], false) := by
  rw [urlDecode.eq_def]
  dsimp only
  rw [if_neg (by decide), if_pos rfl]
  split
  · exact (short _ _ _ rfl).elim
  · rfl

/-! ## Complete texts -/

theorem PercentCoded.urlDecode_eq (coded : PercentCoded message decoded) :
    urlDecode message = (decoded ++ [0], true) := by
  induction coded with
  | done => rfl
  | plus tail ih => rw [urlDecode_plus, ih, List.cons_append]
  | escape first second tail ih =>
      rw [urlDecode_escape (by rw [first, second]; rfl), ih, List.cons_append]
  | plain noPlus noPercent tail ih => rw [urlDecode_plain noPlus noPercent, ih, List.cons_append]

theorem PercentCoded.unique (left : PercentCoded message decoded)
    (right : PercentCoded message other) : decoded = other := by
  have same := left.urlDecode_eq.symm.trans right.urlDecode_eq
  exact List.append_cancel_right (congrArg Prod.fst same)

/-- A text that is decoded up to its end is complete. -/
theorem percentCoded_of_complete (complete : (urlDecode message).2 = true) :
    ∃ decoded, PercentCoded message decoded := by
  induction message using urlDecode.induct with
  | case1 => exact ⟨[], .done⟩
  | case2 rest ih =>
      rw [urlDecode_plus] at complete
      obtain ⟨decoded, tail⟩ := ih complete
      exact ⟨_, .plus tail⟩
  | case3 high low rest hexadecimal _ ih =>
      rw [urlDecode_escape hexadecimal] at complete
      obtain ⟨decoded, tail⟩ := ih complete
      rw [Bool.and_eq_true] at hexadecimal
      exact ⟨_, .escape hexadecimal.1 hexadecimal.2 tail⟩
  | case4 high low rest broken _ =>
      rw [urlDecode_broken broken] at complete
      contradiction
  | case5 rest short _ =>
      rw [urlDecode_cut short] at complete
      contradiction
  | case6 byte rest noPlus noPercent ih =>
      rw [urlDecode_plain noPlus noPercent] at complete
      obtain ⟨decoded, tail⟩ := ih complete
      exact ⟨_, .plain noPlus noPercent tail⟩

/-- Decoding that stops early has written less than the text. -/
theorem urlDecode_stopped (stopped : (urlDecode message).2 = false) :
    (urlDecode message).1.length < message.length := by
  induction message using urlDecode.induct with
  | case1 => simp [urlDecode] at stopped
  | case2 rest ih =>
      rw [urlDecode_plus] at stopped ⊢
      have := ih stopped
      simpa using this
  | case3 high low rest hexadecimal _ ih =>
      rw [urlDecode_escape hexadecimal] at stopped ⊢
      have := ih stopped
      simp only [List.length_cons]
      omega
  | case4 high low rest broken _ =>
      rw [urlDecode_broken broken]
      simp
  | case5 rest short _ =>
      rw [urlDecode_cut short]
      simp
  | case6 byte rest noPlus noPercent ih =>
      rw [urlDecode_plain noPlus noPercent] at stopped ⊢
      have := ih stopped
      simpa using this

/-! ## Texts that stand for themselves -/

/-- No byte of the text means anything else than itself. -/
def Literal (message : Bytes) : Prop := ∀ byte ∈ message, byte ≠ 37 ∧ byte ≠ 43 ∧ byte ≠ 0

theorem Literal.coded (literal : Literal message) : PercentCoded message message := by
  induction message with
  | nil => exact .done
  | cons byte rest ih =>
      have here := literal byte (by simp)
      exact .plain here.2.1 here.1 (ih fun other member => literal other (by simp [member]))

theorem PercentCoded.length_le (coded : PercentCoded message decoded) :
    decoded.length ≤ message.length := by
  induction coded with
  | done => exact Nat.le_refl _
  | plus tail ih => simpa using ih
  | escape first second tail ih =>
      simp only [List.length_cons]
      omega
  | plain noPlus noPercent tail ih => simpa using ih

theorem PercentCoded.no_escapes (coded : PercentCoded message decoded) (same : decoded = message) :
    ∀ byte ∈ message, byte ≠ 37 ∧ byte ≠ 43 := by
  induction coded with
  | done => simp
  | plus tail ih => exact absurd (List.cons.inj same).1 (by decide)
  | @escape high low rest decoded first second tail ih =>
      have lengths := congrArg List.length (List.cons.inj same).2
      have short := tail.length_le
      simp only [List.length_cons] at lengths
      omega
  | plain noPlus noPercent tail ih =>
      intro byte member
      rcases List.mem_cons.mp member with rfl | inside
      · exact ⟨noPercent, noPlus⟩
      · exact ih (List.cons.inj same).2 byte inside

end Bmb
