import Bmb.PercentCoding

namespace Bmb

open Bmb.Base

/-! `url_decode` of `util.c` as a loop over memory: what it reads and what it writes. -/

/-- `*str`. -/
def charAt (memory : Bytes) (str : Nat) : Except Trap UInt8 :=
  match memory[str]? with
  | none => .error .outOfBounds
  | some char => .ok char

/-- One round of the loop: the byte it writes and where it goes on, or nothing if it leaves
the function with -1.  The second digit is looked at only behind a first one. -/
def urlDecodeRound (memory : Bytes) (str : Nat) : Except Trap (Option (UInt8 × Nat)) := do
  let char ← charAt memory str
  if char = 43 then pure (some (32, str + 1))
  else if char = 37 then do
    let high ← charAt memory (str + 1)
    if !isHexadecimal high then pure none
    else do
      let low ← charAt memory (str + 2)
      if !isHexadecimal low then pure none
      else pure (some (UInt8.ofNat (16 * hexValue high + hexValue low), str + 3))
  else pure (some (char, str + 1))

/-- The loop from `str` on, after some bytes have been written: all bytes that are written, and
the value that is returned.  Every round moves on, so the fuel bounds the number of rounds. -/
def urlDecodeLoop (memory : Bytes) (finish : Nat) : Nat → Nat → Bytes → Except Trap (Bytes × Int)
  | 0, _, _ => .error .divergence
  | fuel + 1, str, written =>
      if str ≤ finish then do
        match ← urlDecodeRound memory str with
        | none => pure (written, -1)
        | some (char, next) => urlDecodeLoop memory finish fuel next (written ++ [char])
      else pure (written, written.length)

/-- `url_decode` of the string at the beginning of a memory, with an output to write to. -/
def urlDecodeMemory (memory : Bytes) : Except Trap (Bytes × Int) :=
  if 0 ∉ memory then .error .outOfBounds
  else
    let finish := (cString memory).length
    urlDecodeLoop memory finish (finish + 2) 0 []

/-- What is returned when so much has been written. -/
def decodedStatus (written : Bytes) (complete : Bool) : Int := if complete then written.length else -1

theorem isHexadecimal_nul : isHexadecimal 0 = false := by decide

section Rounds

variable {front rest written : Bytes} {byte high low char : UInt8}

theorem charAt_front (front rest : Bytes) (byte : UInt8) :
    charAt (front ++ byte :: rest) front.length = .ok byte := by
  simp [charAt]

theorem charAt_next (front rest : Bytes) (byte following : UInt8) :
    charAt (front ++ byte :: following :: rest) (front.length + 1) = .ok following := by
  have shifted := charAt_front (front ++ [byte]) rest following
  simpa using shifted

theorem charAt_second (front rest : Bytes) (byte following last : UInt8) :
    charAt (front ++ byte :: following :: last :: rest) (front.length + 2) = .ok last := by
  have shifted := charAt_front (front ++ [byte, following]) rest last
  simpa using shifted

theorem urlDecodeRound_plus :
    urlDecodeRound (front ++ 43 :: rest) front.length = .ok (some (32, front.length + 1)) := by
  unfold urlDecodeRound
  rw [charAt_front]
  rfl

theorem urlDecodeRound_plain (noPlus : byte ≠ 43) (noPercent : byte ≠ 37) :
    urlDecodeRound (front ++ byte :: rest) front.length = .ok (some (byte, front.length + 1)) := by
  simp only [urlDecodeRound, charAt_front, bind, Except.bind, if_neg noPlus, if_neg noPercent]
  rfl

theorem urlDecodeRound_percent (front rest : Bytes) (high : UInt8) :
    urlDecodeRound (front ++ 37 :: high :: rest) front.length =
      if !isHexadecimal high then .ok none
      else (do
        let low ← charAt (front ++ 37 :: high :: rest) (front.length + 2)
        if !isHexadecimal low then pure none
        else pure (some (UInt8.ofNat (16 * hexValue high + hexValue low), front.length + 3))) := by
  unfold urlDecodeRound
  rw [charAt_front, charAt_next]
  rfl

theorem urlDecodeRound_escape (first : isHexadecimal high = true) (second : isHexadecimal low = true) :
    urlDecodeRound (front ++ 37 :: high :: low :: rest) front.length =
      .ok (some (UInt8.ofNat (16 * hexValue high + hexValue low), front.length + 3)) := by
  rw [urlDecodeRound_percent, first, charAt_second]
  simp only [Bool.not_true, Bool.false_eq_true, if_false, bind, Except.bind, second]
  rfl

theorem urlDecodeRound_first (broken : isHexadecimal high = false) :
    urlDecodeRound (front ++ 37 :: high :: rest) front.length = .ok none := by
  rw [urlDecodeRound_percent, broken]
  rfl

theorem urlDecodeRound_second (first : isHexadecimal high = true) (broken : isHexadecimal low = false) :
    urlDecodeRound (front ++ 37 :: high :: low :: rest) front.length = .ok none := by
  rw [urlDecodeRound_percent, first, charAt_second]
  simp only [Bool.not_true, Bool.false_eq_true, if_false, bind, Except.bind, broken]
  rfl

variable {memory : Bytes} {finish fuel str next : Nat}

theorem urlDecodeLoop_round (inside : str ≤ finish)
    (round : urlDecodeRound memory str = .ok (some (char, next))) :
    urlDecodeLoop memory finish (fuel + 1) str written =
      urlDecodeLoop memory finish fuel next (written ++ [char]) := by
  simp only [urlDecodeLoop, if_pos inside, round, bind, Except.bind]

theorem urlDecodeLoop_left (inside : str ≤ finish) (round : urlDecodeRound memory str = .ok none) :
    urlDecodeLoop memory finish (fuel + 1) str written = .ok (written, -1) := by
  simp only [urlDecodeLoop, if_pos inside, round, bind, Except.bind]
  rfl

theorem urlDecodeLoop_finished (outside : finish < str) :
    urlDecodeLoop memory finish (fuel + 1) str written = .ok (written, written.length) := by
  simp only [urlDecodeLoop, if_neg (Nat.not_le.mpr outside)]
  rfl

theorem urlDecodeLoop_step (piece rest : Bytes) {behind : Bytes} {result : Except Trap (Bytes × Int)}
    (moves : piece ≠ [])
    (round : urlDecodeRound (front ++ (piece ++ rest ++ 0 :: behind)) front.length =
      .ok (some (char, front.length + piece.length)))
    (later : ∀ fuel, rest.length + 2 ≤ fuel →
      urlDecodeLoop (front ++ piece ++ (rest ++ 0 :: behind)) ((front ++ piece).length + rest.length)
        fuel (front ++ piece).length (written ++ [char]) = result)
    (enough : (piece ++ rest).length + 2 ≤ fuel) :
    urlDecodeLoop (front ++ (piece ++ rest ++ 0 :: behind)) (front.length + (piece ++ rest).length) fuel
      front.length written = result := by
  have positive := List.length_pos_iff.mpr moves
  rw [List.length_append] at enough
  obtain ⟨fuel, rfl⟩ : ∃ less, fuel = less + 1 := ⟨fuel - 1, by omega⟩
  rw [urlDecodeLoop_round (by omega) round, ← later fuel (by omega)]
  simp only [List.append_assoc, List.length_append, Nat.add_assoc]

end Rounds

/-- From every place in a string the loop does what decoding the rest of the string does, and
looks at nothing behind the terminator. -/
theorem urlDecodeLoop_eq (rest front behind written : Bytes) (fuel : Nat)
    (enough : rest.length + 2 ≤ fuel) :
    urlDecodeLoop (front ++ (rest ++ 0 :: behind)) (front.length + rest.length) fuel front.length
        written =
      .ok (written ++ (urlDecode rest).1,
        decodedStatus (written ++ (urlDecode rest).1) (urlDecode rest).2) := by
  induction rest using urlDecode.induct generalizing front written fuel with
  | case1 =>
      rw [List.length_nil] at enough
      obtain ⟨fuel, rfl⟩ : ∃ less, fuel = less + 2 := ⟨fuel - 2, by omega⟩
      have ended : urlDecodeRound (front ++ 0 :: behind) front.length =
          .ok (some (0, front.length + 1)) := urlDecodeRound_plain (by decide) (by decide)
      rw [List.nil_append, urlDecodeLoop_round (Nat.le_add_right _ _) ended]
      exact urlDecodeLoop_finished (Nat.lt_succ_self _)
  | case2 rest ih =>
      rw [urlDecode_plus]
      refine urlDecodeLoop_step [43] rest (List.cons_ne_nil _ _) urlDecodeRound_plus
        (fun fuel enough => ?_) enough
      rw [ih (front ++ [43]) (written ++ [32]) fuel enough, List.append_assoc]
      rfl
  | case3 high low rest hexadecimal _ ih =>
      rw [urlDecode_escape hexadecimal]
      rw [Bool.and_eq_true] at hexadecimal
      refine urlDecodeLoop_step [37, high, low] rest (List.cons_ne_nil _ _)
        (urlDecodeRound_escape hexadecimal.1 hexadecimal.2) (fun fuel enough => ?_) enough
      rw [ih (front ++ [37, high, low]) (written ++ [_]) fuel enough, List.append_assoc]
      rfl
  | case4 high low rest broken _ =>
      obtain ⟨fuel, rfl⟩ : ∃ less, fuel = less + 1 := ⟨fuel - 1, by omega⟩
      rw [urlDecode_broken broken, List.append_nil]
      refine urlDecodeLoop_left (Nat.le_add_right _ _) ?_
      cases first : isHexadecimal high with
      | false => exact urlDecodeRound_first first
      | true =>
          cases second : isHexadecimal low with
          | false => exact urlDecodeRound_second first second
          | true => rw [first, second] at broken; contradiction
  | case5 rest short _ =>
      obtain ⟨fuel, rfl⟩ : ∃ less, fuel = less + 1 := ⟨fuel - 1, by omega⟩
      rw [urlDecode_cut short, List.append_nil]
      refine urlDecodeLoop_left (Nat.le_add_right _ _) ?_
      cases rest with
      | nil => exact urlDecodeRound_first isHexadecimal_nul
      | cons high others =>
          cases others with
          | nil =>
              cases first : isHexadecimal high with
              | false => exact urlDecodeRound_first first
              | true => exact urlDecodeRound_second first isHexadecimal_nul
          | cons low others => exact (short high low others rfl).elim
  | case6 byte rest noPlus noPercent ih =>
      rw [urlDecode_plain noPlus noPercent]
      refine urlDecodeLoop_step [byte] rest (List.cons_ne_nil _ _)
        (urlDecodeRound_plain noPlus noPercent) (fun fuel enough => ?_) enough
      rw [ih (front ++ [byte]) (written ++ [byte]) fuel enough, List.append_assoc]
      rfl

/-- The loop reads a string up to its terminator and does what `urlDecode` says. -/
theorem urlDecodeMemory_eq {string : Bytes} (plain : 0 ∉ string) (behind : Bytes) :
    urlDecodeMemory (string ++ 0 :: behind) =
      .ok ((urlDecode string).1, decodedStatus (urlDecode string).1 (urlDecode string).2) := by
  have ran := urlDecodeLoop_eq string [] behind [] (string.length + 2) (Nat.le_refl _)
  rw [urlDecodeMemory, if_neg (by simp), cString_append_nul plain]
  simpa using ran

/-! ## Acceptance -/

/-- A text begins with two hexadecimal digits. -/
def Escape (rest : Bytes) : Prop :=
  ∃ high low others, rest = high :: low :: others ∧ isHexadecimal high = true ∧
    isHexadecimal low = true

/-- Every percent character is followed by two hexadecimal digits. -/
def WellEscaped (string : Bytes) : Prop := ∀ front rest, string = front ++ 37 :: rest → Escape rest

section Acceptance

variable {string rest decoded message : Bytes} {byte high low : UInt8}

theorem WellEscaped.tail (escaped : WellEscaped (byte :: rest)) : WellEscaped rest := by
  intro front others split
  exact escaped (byte :: front) others (by rw [split, List.cons_append])

theorem isHexadecimal_ne_percent (hexadecimal : isHexadecimal byte = true) : byte ≠ 37 := by
  rintro rfl
  exact absurd hexadecimal (by decide)

theorem WellEscaped.cons_of_ne (escaped : WellEscaped rest) (noPercent : byte ≠ 37) :
    WellEscaped (byte :: rest) := by
  intro front others split
  cases front with
  | nil => exact absurd (List.cons.inj split).1 noPercent
  | cons first front => exact escaped front others (List.cons.inj split).2

theorem PercentCoded.wellEscaped (coded : PercentCoded string decoded) : WellEscaped string := by
  induction coded with
  | done =>
      intro front rest split
      simp at split
  | plus tail ih => exact ih.cons_of_ne (by decide)
  | @escape high low rest decoded first second tail ih =>
      have digits : WellEscaped (high :: low :: rest) :=
        (ih.cons_of_ne (isHexadecimal_ne_percent second)).cons_of_ne (isHexadecimal_ne_percent first)
      intro front others split
      cases front with
      | nil => exact ⟨high, low, rest, (List.cons.inj split).2.symm, first, second⟩
      | cons byte front => exact digits front others (List.cons.inj split).2
  | plain noPlus noPercent tail ih => exact ih.cons_of_ne noPercent

theorem WellEscaped.complete (escaped : WellEscaped string) : (urlDecode string).2 = true := by
  induction string using urlDecode.induct with
  | case1 => rfl
  | case2 rest ih =>
      rw [urlDecode_plus]
      exact ih escaped.tail
  | case3 high low rest hexadecimal _ ih =>
      rw [urlDecode_escape hexadecimal]
      exact ih escaped.tail.tail.tail
  | case4 high low rest broken _ =>
      obtain ⟨_, _, _, shown, first, second⟩ := escaped [] (high :: low :: rest) rfl
      cases shown
      rw [first, second] at broken
      contradiction
  | case5 rest short _ =>
      obtain ⟨high, low, others, shown, _⟩ := escaped [] rest rfl
      exact (short high low others shown).elim
  | case6 byte rest noPlus noPercent ih =>
      rw [urlDecode_plain noPlus noPercent]
      exact ih escaped.tail

theorem urlDecode_complete_iff (string : Bytes) :
    (urlDecode string).2 = true ↔ WellEscaped string := by
  refine ⟨fun complete => ?_, WellEscaped.complete⟩
  obtain ⟨decoded, coded⟩ := percentCoded_of_complete complete
  exact coded.wellEscaped

theorem decodedStatus_eq_neg (written : Bytes) (complete : Bool) :
    decodedStatus written complete = -1 ↔ complete = false := by
  cases complete with
  | false => exact iff_of_true rfl rfl
  | true =>
      refine iff_of_false ?_ (by decide)
      simp only [decodedStatus, if_true]
      omega

theorem urlDecode_length_le (string : Bytes) : (urlDecode string).1.length ≤ string.length + 1 := by
  cases complete : (urlDecode string).2 with
  | false =>
      have shorter := urlDecode_stopped complete
      omega
  | true =>
      obtain ⟨decoded, coded⟩ := percentCoded_of_complete complete
      have bound := coded.length_le
      rw [coded.urlDecode_eq, List.length_append, List.length_singleton]
      omega

/-! ## Encodings -/

/-- The ways to write a byte: as itself, as a plus sign, or as an escape. -/
inductive EncodesByte : UInt8 → Bytes → Prop where
  | plain {byte : UInt8} (noPercent : byte ≠ 37) (noPlus : byte ≠ 43) : EncodesByte byte [byte]
  | space : EncodesByte 32 [43]
  | escape {high low : UInt8} (first : isHexadecimal high = true) (second : isHexadecimal low = true) :
      EncodesByte (UInt8.ofNat (16 * hexValue high + hexValue low)) [37, high, low]

/-- A text is written byte by byte. -/
def Encodes (message encoded : Bytes) : Prop :=
  ∃ parts, List.Forall₂ EncodesByte message parts ∧ encoded = parts.flatten

theorem Encodes.coded {encoded : Bytes} (encodes : Encodes message encoded) :
    PercentCoded encoded message := by
  obtain ⟨parts, written, rfl⟩ := encodes
  induction written with
  | nil => exact .done
  | cons first rest ih =>
      rw [List.flatten_cons]
      cases first with
      | plain noPercent noPlus => exact .plain noPlus noPercent ih
      | space => exact .plus ih
      | escape one two => exact .escape one two ih

end Acceptance

/-- `url_decode` reads a string up to its terminator, whatever follows, writes no more than the
string is long, and decodes it exactly: it fails on an incomplete escape only, and every encoding
of a text is decoded to the text. -/
theorem urlDecode_exact {string : Bytes} (plain : 0 ∉ string) :
    ∃ written status,
      (∀ behind, urlDecodeMemory (string ++ 0 :: behind) = .ok (written, status)) ∧
      written.length ≤ string.length + 1 ∧
      (status = -1 ↔ ¬WellEscaped string) ∧
      (WellEscaped string → ∃ decoded, PercentCoded string decoded ∧ written = decoded ++ [0]) ∧
      ∀ message, 0 ∉ message → Encodes message string → written = message ++ [0] ∧ status ≠ -1 := by
  have status : decodedStatus (urlDecode string).1 (urlDecode string).2 = -1 ↔ ¬WellEscaped string := by
    rw [decodedStatus_eq_neg, ← urlDecode_complete_iff, Bool.not_eq_true]
  refine ⟨_, _, urlDecodeMemory_eq plain, urlDecode_length_le string, status, fun escaped => ?_,
    fun message _ encodes => ?_⟩
  · obtain ⟨decoded, coded⟩ := percentCoded_of_complete escaped.complete
    exact ⟨decoded, coded, by rw [coded.urlDecode_eq]⟩
  · refine ⟨by rw [encodes.coded.urlDecode_eq], fun failed => ?_⟩
    exact status.mp failed encodes.coded.wellEscaped

theorem urlDecode_exact_computed : ∃ written status,
    (∀ behind, urlDecodeMemory (text "a%2bb+c" ++ 0 :: behind) = .ok (written, status)) ∧
    written.length ≤ (text "a%2bb+c").length + 1 ∧
    (status = -1 ↔ ¬WellEscaped (text "a%2bb+c")) ∧
    (WellEscaped (text "a%2bb+c") →
      ∃ decoded, PercentCoded (text "a%2bb+c") decoded ∧ written = decoded ++ [0]) ∧
    ∀ message, 0 ∉ message → Encodes message (text "a%2bb+c") →
      written = message ++ [0] ∧ status ≠ -1 :=
  urlDecode_exact (by decide)

end Bmb
