import Bmb.Http.Extraction

namespace Bmb.Http

open Bmb.Base

/-! What parsing gives for the parameters of a request. -/

/-- The parameters that are looked for with a method. -/
def bodyOf (method request : Bytes) : RequestBody :=
  .build (extractedValue request (text "type")) (extractedValue request (text "queue"))
    (if method = text "POST" then extractedValue request (text "data") else none)
    (if method = text "GET" then extractedValue request (text "index") else none)

theorem requestExtractData_run (request key : Bytes) (world : World) :
    ∃ after, requestExtractData request key world =
      .returned ((extractedValue request key).map (RequestPair.mk key)) after := by
  unfold requestExtractData
  cases extractedValue request key with
  | none => exact ⟨_, rfl⟩
  | some data => exact ⟨_, rfl⟩

theorem addExtractedPair_run (body : RequestBody) (key : Bytes) (value : Option Bytes)
    (world : World) :
    ∃ after, addExtractedPair body (value.map (RequestPair.mk key)) world =
      .returned (body.addExtracted key value) after := by
  cases value with
  | none => exact ⟨world, rfl⟩
  | some value =>
      by_cases empty : body.pairs = []
      · refine ⟨world.allocate 1, ?_⟩
        simp only [Option.map_some, addExtractedPair, requestBodyAdd, if_pos empty]
        rfl
      · refine ⟨world, ?_⟩
        simp only [Option.map_some, addExtractedPair, requestBodyAdd, if_neg empty]
        rfl

theorem extractAndAdd_run {α : Type} (body : RequestBody) (request key : Bytes) (world : World)
    (next : RequestBody → Program World α) :
    ∃ after, (do
        let pair ← requestExtractData request key
        let extended ← addExtractedPair body pair
        next extended) world = next (body.addExtracted key (extractedValue request key)) after := by
  obtain ⟨middle, extracted⟩ := requestExtractData_run request key world
  obtain ⟨after, added⟩ := addExtractedPair_run body key (extractedValue request key) middle
  exact ⟨after, by simp only [Program.run_bind, extracted, added]⟩

theorem parameterByMethod_result (method request : Bytes) (body : RequestBody) (world : World) :
    (parameterByMethod method request body world).result =
      .ok (some ⟨method, (body.addExtracted (text "data")
        (if method = text "POST" then extractedValue request (text "data") else none)).addExtracted
          (text "index") (if method = text "GET" then extractedValue request (text "index") else none)⟩) := by
  unfold parameterByMethod
  by_cases posted : method = text "POST"
  · obtain ⟨after, ran⟩ := extractAndAdd_run body request (text "data") world
      (fun extended => pure (some (⟨method, extended⟩ : Request)))
    have other : method ≠ text "GET" := by
      rw [posted]
      decide
    rw [if_pos posted, if_pos posted, if_neg other]
    exact congrArg Outcome.result ran
  · rw [if_neg posted, if_neg posted]
    by_cases got : method = text "GET"
    · obtain ⟨after, ran⟩ := extractAndAdd_run body request (text "index") world
        (fun extended => pure (some (⟨method, extended⟩ : Request)))
      rw [if_pos got, if_pos got]
      exact congrArg Outcome.result ran
    · rw [if_neg got, if_neg got]
      rfl

/-- The outcome of parsing does not depend on the counters of memory. -/
theorem requestParse_result (memory : Bytes) (world : World) :
    (requestParse memory world).result =
      (extractedMethod memory).map (Option.map fun method => ⟨method, bodyOf method (cString memory)⟩) := by
  unfold requestParse requestExtractMethod
  cases extractedMethod memory with
  | error trap => rfl
  | ok found =>
      cases found with
      | none => rfl
      | some method =>
          obtain ⟨second, one⟩ := extractAndAdd_run .new (cString memory) (text "type")
            (((world.allocate 1).allocate 1).allocate 1) (fun body => do
              let pair ← requestExtractData (cString memory) (text "queue")
              let extended ← addExtractedPair body pair
              parameterByMethod method (cString memory) extended)
          obtain ⟨third, two⟩ := extractAndAdd_run _ (cString memory) (text "queue") second
            (parameterByMethod method (cString memory))
          refine (congrArg Outcome.result (one.trans two)).trans ?_
          exact parameterByMethod_result method (cString memory) _ third

/-! ## Looking for the method -/

section

variable {memory name rest : Bytes}

theorem counted_of_visible (ended : 0 ∈ memory) (visible : ∀ byte ∈ memory.head?, byte ≠ 0)
    (short : (cString memory).length < 65536) : toUInt16 (cString memory).length ≠ 0 := by
  have seen : (cString memory).length ≠ 0 := by
    cases memory with
    | nil => simp at ended
    | cons first others =>
        have head := visible first rfl
        rw [cString, List.takeWhile_cons_of_pos (by simpa using head)]
        exact Nat.succ_ne_zero _
  unfold toUInt16
  omega

theorem findIdx_blank (token : 32 ∉ name) (early : name.length < 65536) :
    ((name ++ 32 :: rest).take 65536).findIdx? (· == 32) = some name.length := by
  rw [List.findIdx?_eq_some_iff_getElem]
  refine ⟨by simp; omega, by simp, ?_⟩
  intro place before
  simp only [List.getElem_take, beq_iff_eq]
  rw [List.getElem_append_left before]
  intro blank
  exact token (blank ▸ List.getElem_mem before)

/-- The bytes before the first blank are the method, up to a NUL. -/
theorem extractedMethod_of_counted (ended : 0 ∈ name ++ 32 :: rest)
    (counted : toUInt16 (cString (name ++ 32 :: rest)).length ≠ 0) (nonempty : name ≠ [])
    (token : 32 ∉ name) (early : name.length < 65536) :
    extractedMethod (name ++ 32 :: rest) = .ok (some (cString name)) := by
  have found : ((name ++ 32 :: rest).take 65536).findIdx? (· == 32) = some name.length :=
    findIdx_blank token early
  have front : (name ++ 32 :: rest).take name.length = name := List.take_left
  obtain ⟨place, positive⟩ := Nat.exists_eq_succ_of_ne_zero (mt List.length_eq_zero_iff.mp nonempty)
  rw [positive] at found front
  unfold extractedMethod
  rw [if_neg (not_not.mpr ended), if_neg counted, found]
  exact congrArg (fun found => Except.ok (some (cString found))) front

theorem extractedMethod_of_blank (ended : 0 ∈ name ++ 32 :: rest)
    (visible : ∀ byte ∈ name.head?, byte ≠ 0) (nonempty : name ≠ []) (token : 32 ∉ name)
    (early : name.length < 65536) (short : (cString (name ++ 32 :: rest)).length < 65536) :
    extractedMethod (name ++ 32 :: rest) = .ok (some (cString name)) := by
  refine extractedMethod_of_counted ended (counted_of_visible ended ?_ short) nonempty token early
  cases name with
  | nil => exact absurd rfl nonempty
  | cons first others => exact visible

theorem extractedMethod_of_nul (rest : Bytes) : extractedMethod (0 :: rest) = .ok none := by
  simp [extractedMethod, cString, toUInt16]

/-- A text that begins with a blank has no method to write an end to. -/
theorem extractedMethod_of_unnamed (ended : 0 ∈ rest)
    (counted : toUInt16 (cString (32 :: rest)).length ≠ 0) :
    extractedMethod (32 :: rest) = .error .nullPointer := by
  unfold extractedMethod
  rw [if_neg (by simp [ended]), if_neg counted, List.take_succ_cons, List.findIdx?_cons]
  rfl

theorem extractedMethod_of_nameless (ended : 0 ∈ rest)
    (short : (cString (32 :: rest)).length < 65536) :
    extractedMethod (32 :: rest) = .error .nullPointer :=
  extractedMethod_of_unnamed ended
    (counted_of_visible (List.mem_cons_of_mem _ ended) (by simp) short)

/-- Without a blank within its reach the loop leaves the memory or never ends. -/
theorem extractedMethod_of_far (ended : 0 ∈ memory)
    (counted : toUInt16 (cString memory).length ≠ 0) (far : 32 ∉ memory.take 65536) :
    extractedMethod memory =
      if memory.length < 65536 then .error .outOfBounds else .error .divergence := by
  have vain : (memory.take 65536).findIdx? (· == 32) = none := by
    rw [List.findIdx?_eq_none_iff]
    intro byte member
    rw [beq_eq_false_iff_ne]
    rintro rfl
    exact far member
  unfold extractedMethod
  rw [if_neg (not_not.mpr ended), if_neg counted, vain]

theorem extractedMethod_of_no_blank (ended : 0 ∈ memory)
    (visible : ∀ byte ∈ memory.head?, byte ≠ 0) (none_ : 32 ∉ memory)
    (short : memory.length < 65536) : extractedMethod memory = .error .outOfBounds := by
  have bound := cString_length_lt ended
  have counted := counted_of_visible ended visible (by omega)
  rw [extractedMethod_of_far ended counted (mt List.mem_of_mem_take none_), if_pos short]

end

/-! ## Looking up the parameters -/

namespace RequestBody

theorem get_new (key : Bytes) : new.get key = none := rfl

theorem get_addExtracted (body : RequestBody) (added key : Bytes) (value : Option Bytes) :
    (body.addExtracted added value).get key =
      ((body.get key).or (if added = key then value else none)) := by
  cases value with
  | none => simp [addExtracted]
  | some value =>
      simp only [addExtracted, add, get, List.find?_append, Option.map_or]
      by_cases same : added = key <;> simp [same]

end RequestBody

theorem bodyOf_get (method request : Bytes) :
    (bodyOf method request).get (text "type") = extractedValue request (text "type") ∧
    (bodyOf method request).get (text "queue") = extractedValue request (text "queue") ∧
    (bodyOf method request).get (text "data") =
      (if method = text "POST" then extractedValue request (text "data") else none) ∧
    (bodyOf method request).get (text "index") =
      (if method = text "GET" then extractedValue request (text "index") else none) := by
  have different : text "type" ≠ text "queue" ∧ text "type" ≠ text "data" ∧
      text "type" ≠ text "index" ∧ text "queue" ≠ text "data" ∧ text "queue" ≠ text "index" ∧
      text "data" ≠ text "index" := by decide
  obtain ⟨one, two, three, four, five, six⟩ := different
  simp only [bodyOf, RequestBody.build, RequestBody.get_addExtracted, RequestBody.get_new, one, two,
    three, four, five, six, one.symm, two.symm, three.symm, four.symm, five.symm, six.symm, if_true,
    if_false, Option.or_none, Option.none_or, and_self]

end Bmb.Http
