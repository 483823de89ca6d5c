import Bmb.Http.Parsing

namespace Bmb.Http

open Bmb.Base

/-! When looking for the method stays within the string. -/

variable {string method rest behind memory other : Bytes}

theorem requestParse_congr (found : extractedMethod memory = extractedMethod other)
    (same : cString memory = cString other) : requestParse memory = requestParse other := by
  simp only [requestParse, requestExtractMethod, found, same]

/-- A string whose length is a multiple of 65536 counts as empty. -/
theorem extractedMethod_of_uncounted (plain : 0 ∉ string) (uncounted : string.length % 65536 = 0) :
    extractedMethod (string ++ 0 :: behind) = .ok none := by
  have length : toUInt16 (cString (string ++ 0 :: behind)).length = 0 := by
    rw [cString_append_nul plain, toUInt16]
    omega
  rw [extractedMethod, if_neg (by simp), if_pos length]

theorem counted_append_nul (plain : 0 ∉ string) (counted : string.length % 65536 ≠ 0)
    (behind : Bytes) : toUInt16 (cString (string ++ 0 :: behind)).length ≠ 0 := by
  rw [cString_append_nul plain, toUInt16]
  omega

theorem extractedMethod_of_token (plain : 0 ∉ method ++ 32 :: rest) (token : 32 ∉ method)
    (nonempty : method ≠ []) (near : method.length < 65536)
    (counted : (method ++ 32 :: rest).length % 65536 ≠ 0) :
    extractedMethod (method ++ 32 :: rest ++ 0 :: behind) = .ok (some method) := by
  have length := counted_append_nul plain counted behind
  have clean : cString method = method := cString_of_no_nul fun member => plain (by simp [member])
  rw [List.append_assoc, List.cons_append] at length ⊢
  rw [extractedMethod_of_counted (by simp) length nonempty token near, clean]

theorem extractedMethod_of_leading_blank (plain : 0 ∉ 32 :: rest)
    (counted : (32 :: rest).length % 65536 ≠ 0) :
    extractedMethod (32 :: rest ++ 0 :: behind) = .error .nullPointer :=
  extractedMethod_of_unnamed (by simp) (counted_append_nul plain counted behind)

/-- Without a blank within its reach the index leaves the memory or never stops. -/
theorem extractedMethod_of_far_blank (plain : 0 ∉ string) (counted : string.length % 65536 ≠ 0)
    (far : 32 ∉ string.take 65536) : ∃ trap, extractedMethod (string ++ [0]) = .error trap := by
  have beyond : 32 ∉ (string ++ [0]).take 65536 := by
    intro member
    rw [List.take_append, List.mem_append] at member
    rcases member with inside | ended
    · exact far inside
    · exact absurd (List.mem_of_mem_take ended) (by decide)
  rw [extractedMethod_of_far (by simp) (counted_append_nul plain counted []) beyond]
  split
  · exact ⟨_, rfl⟩
  · exact ⟨_, rfl⟩

/-! ## Safe parsing -/

/-- Parsing ends with the same result whatever stands behind the string, even if nothing does;
a method is what stands in front of the first blank, and without one there is no request. -/
def ParsesSafely (string : Bytes) : Prop :=
  ∀ world, ∃ parsed after,
    (∀ behind, requestParse (string ++ 0 :: behind) world = .returned parsed after) ∧
    (∀ request, parsed = some request →
      ∃ rest, string = request.method ++ 32 :: rest ∧ 32 ∉ request.method) ∧
    (string = [] ∨ string.head? = some 32 ∨ 32 ∉ string → parsed = none)

/-- There is a blank, neither at the beginning nor too far for a 16-bit index. -/
def BlankInReach (string : Bytes) : Prop :=
  ∃ method rest, string = method ++ 32 :: rest ∧ 32 ∉ method ∧ method ≠ [] ∧ method.length < 65536

theorem parsesSafely_of_uncounted (plain : 0 ∉ string) (uncounted : string.length % 65536 = 0) :
    ParsesSafely string := by
  intro world
  refine ⟨none, (((world.allocate 1).allocate 1).release 1).release 1, fun behind => ?_,
    fun _ some_ => by contradiction, fun _ => rfl⟩
  simp only [requestParse, requestExtractMethod, extractedMethod_of_uncounted plain uncounted]
  rfl

theorem parsesSafely_of_blank (plain : 0 ∉ string) (counted : string.length % 65536 ≠ 0)
    (reached : BlankInReach string) : ParsesSafely string := by
  obtain ⟨method, rest, rfl, token, nonempty, near⟩ := reached
  intro world
  have extracted (behind : Bytes) :
      extractedMethod (method ++ 32 :: rest ++ 0 :: behind) = .ok (some method) :=
    extractedMethod_of_token plain token nonempty near counted
  have parsed := requestParse_result (method ++ 32 :: rest ++ [0]) world
  rw [extracted []] at parsed
  cases ran : requestParse (method ++ 32 :: rest ++ [0]) world with
  | trapped trap after =>
      rw [ran] at parsed
      cases parsed
  | returned value after =>
      rw [ran] at parsed
      have shown := Except.ok.inj parsed
      refine ⟨value, after, fun behind => ?_, fun request some_ => ?_, fun unnamed => ?_⟩
      · rw [← ran, requestParse_congr ((extracted behind).trans (extracted []).symm)
          ((cString_append_nul plain behind).trans (cString_append_nul plain []).symm)]
      · rw [shown] at some_
        cases some_
        exact ⟨rest, rfl, token⟩
      · rcases unnamed with empty | blank | absent
        · simp at empty
        · cases method with
          | nil => exact absurd rfl nonempty
          | cons first others =>
              cases blank
              exact absurd (List.mem_cons_self ..) token
        · exact absurd (List.mem_append_right _ (List.mem_cons_self ..)) absent

/-- Parsing is safe exactly on the strings that count as empty and on those with a blank that
is neither at their beginning nor out of reach. -/
theorem parsesSafely_iff (plain : 0 ∉ string) :
    ParsesSafely string ↔ string.length % 65536 = 0 ∨ BlankInReach string := by
  by_cases uncounted : string.length % 65536 = 0
  · exact iff_of_true (parsesSafely_of_uncounted plain uncounted) (.inl uncounted)
  rw [or_iff_right uncounted]
  refine ⟨fun safe => ?_, parsesSafely_of_blank plain uncounted⟩
  obtain ⟨parsed, after, ran, _, _⟩ := safe { system := { tree := ⟨∅⟩ } }
  have stopped : ¬∃ trap, extractedMethod (string ++ [0]) = .error trap := by
    rintro ⟨trap, extracted⟩
    have outcome := requestParse_result (string ++ [0]) { system := { tree := ⟨∅⟩ } }
    rw [ran [], extracted] at outcome
    cases outcome
  have near : 32 ∈ string.take 65536 :=
    Classical.not_not.mp fun far => stopped (extractedMethod_of_far_blank plain uncounted far)
  obtain ⟨method, rest, shown, token⟩ := List.eq_append_cons_of_mem near
  have whole : string = method ++ 32 :: (rest ++ string.drop 65536) := by
    rw [← List.cons_append, ← List.append_assoc, ← shown, List.take_append_drop]
  refine ⟨method, _, whole, token, ?_, ?_⟩
  · rintro rfl
    rw [whole] at plain uncounted stopped
    exact stopped ⟨_, extractedMethod_of_leading_blank plain uncounted⟩
  · have length := congrArg List.length shown
    rw [List.length_take, List.length_append, List.length_cons] at length
    omega

theorem parsesSafely_iff_computed : ParsesSafely (text "GET /") ↔
    (text "GET /").length % 65536 = 0 ∨ BlankInReach (text "GET /") :=
  parsesSafely_iff (by decide)

/-- A request without a blank is read past its end. -/
theorem method_read_past_end : ¬∀ string : Bytes, 0 ∉ string → ParsesSafely string := by
  intro safe
  obtain ⟨parsed, after, ran, _, _⟩ := safe (text "GET") (by decide) { system := { tree := ⟨∅⟩ } }
  have outcome := ran []
  cases outcome

end Bmb.Http
