import Bmb.Server.Thread
import Bmb.Http.Client

namespace Bmb.Server

open Bmb.Base Bmb.Http

/-! How far the request of a thread depends on the bytes it has received. -/

/-- The parameters that are looked for with a method. -/
def lookedFor (method : Bytes) : List Bytes :=
  [text "type", text "queue"] ++
    (if method = text "POST" then [text "data"] else []) ++
    (if method = text "GET" then [text "index"] else [])

/-- The first `key=` of the bytes has a value that ends within them. -/
def Settled (key bytes : Bytes) : Prop :=
  ∃ before value delimiter after,
    bytes = before ++ keyWord key ++ value ++ delimiter :: after ∧
    isDelimiter delimiter = true ∧ (∀ byte ∈ value, isDelimiter byte = false) ∧
    FirstAt (keyWord key) bytes before.length

/-- Parsing looks at nothing behind the bytes. -/
inductive SelfContained (arrived : Bytes) : Prop where
  | empty (nul : arrived.head? = some 0)
  | nameless (blank : arrived.head? = some 32)
  | ended {name rest : Bytes} (split : arrived = name ++ 32 :: rest) (token : 32 ∉ name)
      (nul : 0 ∈ arrived)
  | settled {name rest : Bytes} (split : arrived = name ++ 32 :: rest) (token : 32 ∉ name)
      (all : ∀ key ∈ lookedFor (cString name), Settled key arrived)

variable {key bytes arrived name rest more other : Bytes}

theorem lookedFor_plain {method : Bytes} (member : key ∈ lookedFor method) :
    (keyWord key).length ≤ 6 ∧ ∀ byte ∈ keyWord key, isDelimiter byte = false ∧ byte ≠ 0 := by
  have five : key ∈ [text "type", text "queue", text "data", text "index"] := by
    unfold lookedFor at member
    split at member <;> split at member <;>
      simp only [List.cons_append, List.nil_append, List.append_nil, List.mem_cons,
        List.not_mem_nil, or_false] at member ⊢ <;> tauto
  have all : ∀ key ∈ [text "type", text "queue", text "data", text "index"],
      (keyWord key).length ≤ 6 ∧ ∀ byte ∈ keyWord key, isDelimiter byte = false ∧ byte ≠ 0 := by
    decide +kernel
  exact all key five

/-! ## The bodies -/

theorem bodyOf_eq_iff (method left right : Bytes) : bodyOf method left = bodyOf method right ↔
    ∀ key ∈ lookedFor method, extractedValue left key = extractedValue right key := by
  obtain ⟨type, queue, data, index⟩ := bodyOf_get method left
  obtain ⟨otherType, otherQueue, otherData, otherIndex⟩ := bodyOf_get method right
  constructor
  · intro same key member
    rw [same] at type queue data index
    simp only [lookedFor, List.mem_append, List.mem_cons, List.not_mem_nil, or_false] at member
    rcases member with (member | member) | member
    · rcases member with rfl | rfl
      · exact type.symm.trans otherType
      · exact queue.symm.trans otherQueue
    · split at member
      · rename_i posted
        obtain rfl := List.mem_singleton.mp member
        rw [if_pos posted] at data otherData
        exact data.symm.trans otherData
      · simp at member
    · split at member
      · rename_i got
        obtain rfl := List.mem_singleton.mp member
        rw [if_pos got] at index otherIndex
        exact index.symm.trans otherIndex
      · simp at member
  · intro same
    unfold bodyOf
    rw [same (text "type") (by simp [lookedFor]), same (text "queue") (by simp [lookedFor])]
    congr 1
    · split
      · rename_i posted
        exact same (text "data") (by simp [lookedFor, posted])
      · rfl
    · split
      · rename_i got
        exact same (text "index") (by simp [lookedFor, got])
      · rfl

/-! ## Values that end within the bytes -/

theorem Settled.value (settled : Settled key bytes) :
    ∃ value, ∀ more, FirstValue key (bytes ++ more) value := by
  obtain ⟨before, value, delimiter, after, shown, ended, plain, first⟩ := settled
  refine ⟨value, fun more => ⟨⟨before, delimiter :: after ++ more, ?_, ?_, first.append more⟩, plain⟩⟩
  · rw [shown]
    simp
  · intro byte head
    cases head
    exact ended

theorem not_settled_of_absent (absent : firstAt (keyWord key) bytes = none) : ¬Settled key bytes := by
  intro settled
  obtain ⟨before, _, _, _, _, _, _, first⟩ := settled
  rw [(firstAt_eq_some _ _).mpr first] at absent
  contradiction

theorem exists_different {method : Bytes} (member : key ∈ lookedFor method)
    (unsettled : ¬Settled key bytes) (short : bytes.length ≤ 2000) :
    extractedValue bytes key ≠ extractedValue (bytes ++ [120]) key ∨
      extractedValue bytes key ≠ extractedValue (bytes ++ (keyWord key ++ [120])) key := by
  obtain ⟨few, plain⟩ := lookedFor_plain member
  rcases absent_or_firstValue key bytes with vain | ⟨value, found⟩
  · right
    have occurs : OccursAt (keyWord key) (bytes ++ (keyWord key ++ [120])) bytes.length :=
      ⟨bytes, [120], by simp, rfl⟩
    obtain ⟨place, first⟩ := occurs.exists_first
    obtain ⟨value, found⟩ := exists_firstValue first
    have filled : value ≠ [] := by
      rintro rfl
      obtain ⟨before, after, shown, ended, here⟩ := found.place
      have crosses : bytes.length < before.length + (keyWord key).length := by
        by_contra within
        exact vain _ (here.occurs.of_append (by omega))
      cases after with
      | nil =>
          have lengths := congrArg List.length shown
          have early := here.first _ occurs
          simp only [List.append_nil, List.length_append, List.length_singleton] at lengths
          omega
      | cons delimiter after =>
          have stands : (before ++ keyWord key ++ [] ++ delimiter :: after)[
              before.length + (keyWord key).length]? = some delimiter := by
            rw [List.append_nil, ← List.length_append]
            simp
          rw [← shown, List.getElem?_append_right crosses.le] at stands
          rcases List.mem_append.mp (List.mem_of_getElem? stands) with inside | last
          · exact absurd (ended delimiter rfl) (by simp [(plain delimiter inside).1])
          · obtain rfl := List.mem_singleton.mp last
            exact absurd (ended 120 rfl) (by decide)
    rw [extractedValue_of_absent vain,
      extractedValue_of_firstValue (by simp; omega) found, if_neg filled]
    simp
  · left
    obtain ⟨before, after, shown, ended, first⟩ := found.place
    cases after with
    | cons delimiter after =>
        exact absurd ⟨before, value, delimiter, after, shown, ended delimiter rfl, found.plain, first⟩
          unsettled
    | nil =>
        have longer : FirstValue key (bytes ++ [120]) (value ++ [120]) := by
          refine ⟨⟨before, [], ?_, by simp, first.append [120]⟩, ?_⟩
          · rw [shown]
            simp
          · intro byte member
            rcases List.mem_append.mp member with inside | last
            · exact found.plain byte inside
            · obtain rfl := List.mem_singleton.mp last
              decide
        rw [extractedValue_of_firstValue (by omega) found,
          extractedValue_of_firstValue (by simp; omega) longer]
        split
        · simp
        · simp

/-! ## What follows the bytes in memory -/

theorem cString_near (near : 0 ∈ bytes.take 65535) : (cString bytes).length < 65536 := by
  have shown : cString bytes = cString (bytes.take 65535) := by
    calc cString bytes = cString (bytes.take 65535 ++ bytes.drop 65535) := by
          rw [List.take_append_drop]
      _ = _ := cString_append_of_mem near _
  have length := cString_length_lt near
  rw [List.length_take] at length
  rw [shown]
  omega

theorem received_near (short : arrived.length ≤ 2000) (stack : Stack) :
    0 ∈ (received arrived stack).take 65535 := by
  have length : (arrived ++ stack.msg.drop arrived.length).length ≤ 2000 := by
    have size : stack.msg.length = 2000 := stack.size
    simp only [List.length_append, List.length_drop, size]
    omega
  rw [received, List.take_append]
  refine List.mem_append_right _ ?_
  exact List.take_subset_take_left stack.behind (by omega) stack.ended

theorem parsed_of_blank (visible : ∀ byte ∈ name.head?, byte ≠ 0) (nonempty : name ≠ [])
    (token : 32 ∉ name) (short : (name ++ 32 :: rest).length ≤ 2000)
    (near : 0 ∈ (name ++ 32 :: rest ++ more).take 65535) (world : World) :
    (requestParse (name ++ 32 :: rest ++ more) world).result =
      .ok (some ⟨cString name, bodyOf (cString name) (cString (name ++ 32 :: rest ++ more))⟩) := by
  have early : name.length < 65536 := by
    simp only [List.length_append, List.length_cons] at short
    omega
  have string := cString_near near
  have ended := List.mem_of_mem_take near
  rw [List.append_assoc, List.cons_append] at string ended
  rw [requestParse_result, List.append_assoc, List.cons_append,
    extractedMethod_of_blank ended visible nonempty token early string]
  rfl

/-- Whatever follows self-contained bytes, parsing gives the same. -/
theorem SelfContained.result_eq (self : SelfContained arrived) (short : arrived.length ≤ 2000)
    (near : 0 ∈ (arrived ++ more).take 65535) (nearOther : 0 ∈ (arrived ++ other).take 65535)
    (world world' : World) : (requestParse (arrived ++ more) world).result =
      (requestParse (arrived ++ other) world').result := by
  have nul (first : arrived.head? = some 0) : (requestParse (arrived ++ more) world).result =
      (requestParse (arrived ++ other) world').result := by
    cases arrived with
    | nil => cases first
    | cons byte others =>
        cases first
        rw [requestParse_result, requestParse_result, List.cons_append, List.cons_append,
          extractedMethod_of_nul, extractedMethod_of_nul]
        rfl
  have blank (first : arrived.head? = some 32) : (requestParse (arrived ++ more) world).result =
      (requestParse (arrived ++ other) world').result := by
    cases arrived with
    | nil => cases first
    | cons byte others =>
        cases first
        have string := cString_near near
        have stringOther := cString_near nearOther
        have ended := List.mem_of_mem_take near
        have endedOther := List.mem_of_mem_take nearOther
        rw [List.cons_append] at string stringOther ended endedOther
        rw [requestParse_result, requestParse_result, List.cons_append, List.cons_append,
          extractedMethod_of_nameless (by simpa using ended) string,
          extractedMethod_of_nameless (by simpa using endedOther) stringOther]
        rfl
  have method {name rest : Bytes} (split : arrived = name ++ 32 :: rest) (token : 32 ∉ name)
      (alike : bodyOf (cString name) (cString (arrived ++ more)) =
        bodyOf (cString name) (cString (arrived ++ other))) :
      (requestParse (arrived ++ more) world).result =
        (requestParse (arrived ++ other) world').result := by
    cases name with
    | nil => exact blank (by rw [split]; rfl)
    | cons byte others =>
        by_cases first : byte = 0
        · exact nul (by rw [split, first]; rfl)
        · have visible : ∀ head ∈ (byte :: others).head?, head ≠ 0 := by
            intro head same
            cases same
            exact first
          subst split
          rw [parsed_of_blank visible (List.cons_ne_nil _ _) token short near,
            parsed_of_blank visible (List.cons_ne_nil _ _) token short nearOther, alike]
  cases self with
  | empty first => exact nul first
  | nameless first => exact blank first
  | ended split token ended =>
      refine method split token ?_
      rw [cString_append_of_mem ended, cString_append_of_mem ended]
  | settled split token all =>
      refine method split token ((bodyOf_eq_iff _ _ _).mpr ?_)
      intro key member
      by_cases ended : 0 ∈ arrived
      · rw [cString_append_of_mem ended, cString_append_of_mem ended]
      · obtain ⟨value, found⟩ := (all key member).value
        have string := cString_near near
        have stringOther := cString_near nearOther
        rw [cString_append ended] at string stringOther ⊢
        rw [cString_append ended, extractedValue_of_firstValue string (found _),
          extractedValue_of_firstValue stringOther (found _)]

/-- One NUL more than fit the buffer. -/
def zeros : Bytes := List.replicate (clientMessageSize + 1) 0

theorem zeros_cons : zeros = 0 :: List.replicate clientMessageSize 0 := List.replicate_succ

theorem zeros_length : zeros.length = 2001 := List.length_replicate

theorem mem_zeros (byte : UInt8) : byte ∈ zeros ↔ byte = 0 := by
  simp [zeros, List.mem_replicate]

/-- Bytes and then zeros, as far as the buffer reaches and further. -/
def padded (arrived more : Bytes) : Bytes := arrived ++ (more ++ zeros)

theorem exists_stack (short : arrived.length ≤ 2000) (few : more.length ≤ 10) :
    ∃ stack, received arrived stack = padded arrived more := by
  let rest := more ++ zeros
  have size : rest.length = more.length + 2001 := by rw [List.length_append, zeros_length]
  have ended : 0 ∈ rest.drop (2000 - arrived.length) := by
    rw [List.drop_append, zeros, List.drop_replicate]
    exact List.mem_append_right _ (List.mem_replicate.mpr ⟨by
      rw [clientMessageSize]
      omega, rfl⟩)
  refine ⟨⟨List.replicate arrived.length 0 ++ rest.take (2000 - arrived.length),
    rest.drop (2000 - arrived.length), ?_, ?_⟩, ?_⟩
  · simp only [List.length_append, List.length_replicate, List.length_take, size, clientMessageSize]
    omega
  · rwa [List.take_of_length_le (by rw [List.length_drop, size]; omega)]
  · simp only [received, padded]
    rw [List.drop_left' (by simp), List.append_assoc, List.take_append_drop]

theorem padded_near (short : arrived.length ≤ 2000) (few : more.length ≤ 10) :
    0 ∈ (padded arrived more).take 65535 := by
  obtain ⟨stack, same⟩ := exists_stack short few
  rw [← same]
  exact received_near short stack

theorem cString_padded (clean : 0 ∉ arrived) (plain : 0 ∉ more) :
    cString (padded arrived more) = arrived ++ more := by
  rw [padded, cString_append clean, zeros_cons, cString_append_nul plain]

theorem padded_without_blank (visible : ∀ byte ∈ arrived.head?, byte ≠ 0) (nonempty : arrived ≠ [])
    (token : 32 ∉ arrived) (short : arrived.length ≤ 2000) :
    extractedMethod (padded arrived []) = .error .outOfBounds := by
  refine extractedMethod_of_no_blank ?_ ?_ ?_ ?_
  · exact List.mem_append_right _ (List.mem_append_right _ ((mem_zeros 0).mpr rfl))
  · obtain ⟨byte, others, rfl⟩ := List.exists_cons_of_ne_nil nonempty
    exact visible
  · simp [padded, token, mem_zeros]
  · simp only [padded, List.length_append, zeros_length, List.length_nil]
    omega

/-- A blank that arrives, or does not, makes a difference to bytes without one. -/
theorem padded_blank_differs (visible : ∀ byte ∈ arrived.head?, byte ≠ 0) (nonempty : arrived ≠ [])
    (token : 32 ∉ arrived) (short : arrived.length ≤ 2000) (world : World) :
    (requestParse (padded arrived [32]) world).result ≠
      (requestParse (padded arrived []) world).result := by
  have near : 0 ∈ (padded arrived [32]).take 65535 := padded_near short (by decide)
  have string := cString_near near
  have ended := List.mem_of_mem_take near
  have shown : padded arrived [32] = arrived ++ 32 :: zeros := rfl
  rw [shown] at string ended
  rw [requestParse_result, requestParse_result,
    padded_without_blank visible nonempty token short, shown,
    extractedMethod_of_blank ended visible nonempty token (by omega) string]
  intro same
  cases same

theorem value_of_alike {world : World} (visible : ∀ byte ∈ name.head?, byte ≠ 0)
    (nonempty : name ≠ []) (token : 32 ∉ name) (short : (name ++ 32 :: rest).length ≤ 2000)
    (clean : 0 ∉ name ++ 32 :: rest) (small : more.length ≤ 10) (plain : 0 ∉ more)
    (member : key ∈ lookedFor (cString name))
    (alike : (requestParse (padded (name ++ 32 :: rest) more) world).result =
      (requestParse (padded (name ++ 32 :: rest) []) world).result) :
    extractedValue (name ++ 32 :: rest) key = extractedValue (name ++ 32 :: rest ++ more) key := by
  have near : 0 ∈ (padded (name ++ 32 :: rest) more).take 65535 := padded_near short small
  have nearNone : 0 ∈ (padded (name ++ 32 :: rest) []).take 65535 := padded_near short (by simp)
  have string : cString (padded (name ++ 32 :: rest) more) = _ := cString_padded clean plain
  have stringNone : cString (padded (name ++ 32 :: rest) []) = _ := cString_padded clean (by simp)
  rw [padded] at alike near string
  rw [padded] at alike nearNone stringNone
  rw [parsed_of_blank visible nonempty token short near,
    parsed_of_blank visible nonempty token short nearNone, string, stringNone,
    List.append_nil] at alike
  have bodies := congrArg Request.body (Option.some.inj (Except.ok.inj alike))
  exact ((bodyOf_eq_iff _ _ _).mp bodies key member).symm

/-- Bytes that are parsed alike whatever follows them are self-contained. -/
theorem selfContained_of_alike (short : arrived.length ≤ 2000) (world : World)
    (alike : ∀ more, more.length ≤ 10 → (requestParse (padded arrived more) world).result =
      (requestParse (padded arrived []) world).result) : SelfContained arrived := by
  cases arrived with
  | nil =>
      have near : 0 ∈ (padded [] [32]).take 65535 := padded_near short (by decide)
      have string := cString_near near
      have differ := alike [32] (by decide)
      rw [padded, List.nil_append, List.cons_append, List.nil_append] at string
      rw [requestParse_result, requestParse_result, padded, padded, List.nil_append, List.nil_append,
        List.cons_append, List.nil_append,
        extractedMethod_of_nameless ((mem_zeros 0).mpr rfl) string, zeros_cons,
        extractedMethod_of_nul] at differ
      cases differ
  | cons byte others =>
      by_cases nul : byte = 0
      · exact .empty (by rw [nul]; rfl)
      have visible : ∀ head ∈ (byte :: others).head?, head ≠ 0 := by
        intro head same
        cases same
        exact nul
      by_cases blank : byte = 32
      · exact .nameless (by rw [blank]; rfl)
      by_cases blanks : 32 ∈ byte :: others
      · obtain ⟨name, rest, split, token⟩ := List.eq_append_cons_of_mem blanks
        by_cases ended : 0 ∈ byte :: others
        · exact .ended split token ended
        refine .settled split token (fun key member => ?_)
        by_contra unsettled
        obtain ⟨few, plain⟩ := lookedFor_plain member
        have nonempty : name ≠ [] := by
          rintro rfl
          exact blank (List.cons.inj split).1
        have first : ∀ head ∈ name.head?, head ≠ 0 := by
          intro head same
          refine visible head ?_
          rw [split, List.head?_append, Option.mem_def.mp same]
          rfl
        have same (more : Bytes) (small : more.length ≤ 10) (clean : 0 ∉ more) :
            extractedValue (byte :: others) key = extractedValue (byte :: others ++ more) key := by
          have equal := alike more small
          rw [split] at short ended equal ⊢
          exact value_of_alike first nonempty token short ended small clean member equal
        rcases exists_different member unsettled short with different | different
        · exact different (same [120] (by decide) (by decide))
        · refine different (same _ (by simp; omega) ?_)
          intro inside
          rcases List.mem_append.mp inside with inside | last
          · exact (plain 0 inside).2 rfl
          · exact absurd last (by decide)
      · exact absurd (alike [32] (by decide))
          (padded_blank_differs visible (List.cons_ne_nil _ _) blanks short world)

/-! ## Threads -/

/-- Whatever the stack has held before, the same request is parsed. -/
def Isolated (arrival : Arrival) : Prop :=
  ∀ (left right : Stack) (world : World),
    (threadRequest arrival left world).result = (threadRequest arrival right world).result

theorem SelfContained.isolated {arrival : Arrival} (self : SelfContained arrival.bytes) :
    Isolated arrival := by
  intro left right world
  have near := received_near arrival.fits left
  have nearOther := received_near arrival.fits right
  rw [received, List.append_assoc] at near nearOther
  rw [threadRequest, threadRequest, received, received, List.append_assoc, List.append_assoc]
  exact self.result_eq arrival.fits near nearOther world world

theorem Isolated.selfContained {arrival : Arrival} (isolated : Isolated arrival) :
    SelfContained arrival.bytes := by
  refine selfContained_of_alike arrival.fits { system := { tree := ⟨∅⟩ } } (fun more few => ?_)
  obtain ⟨left, shownLeft⟩ := exists_stack arrival.fits few
  obtain ⟨right, shownRight⟩ := @exists_stack _ [] arrival.fits (by simp)
  rw [← shownLeft, ← shownRight]
  exact isolated left right _

/-- A request depends on the bytes of its client alone exactly when parsing looks at nothing
behind them. -/
theorem request_isolated_iff (arrival : Arrival) :
    (∀ (left right : Stack) (world : World),
      (threadRequest arrival left world).result = (threadRequest arrival right world).result) ↔
      SelfContained arrival.bytes :=
  ⟨Isolated.selfContained, SelfContained.isolated⟩

/-- A request to consume that does not name a queue. -/
def queueless : Arrival where
  bytes := text "GET /?type=consume HTTP/1.1" ++ crlf ++ crlf
  fits := by decide +kernel

/-- What an earlier request has left behind can name the queue. -/
theorem stale_bytes_are_parsed :
    ¬∀ (left right : Stack) (world : World),
      (threadRequest queueless left world).result = (threadRequest queueless right world).result := by
  intro isolated
  have self := Isolated.selfContained isolated
  have unnamed := not_settled_of_absent
    (show firstAt (keyWord (text "queue")) queueless.bytes = none by decide +kernel)
  cases self with
  | empty first => exact absurd first (by decide +kernel)
  | nameless first => exact absurd first (by decide +kernel)
  | ended _ _ nul => exact absurd nul (by decide +kernel)
  | settled _ _ all => exact unnamed (all _ (by simp [lookedFor]))

end Bmb.Server
