import Bmb.Server.Received

namespace Bmb.Server

open Bmb.Base Bmb.Http

/-! Requests that arrive in several pieces. -/

/-- A complete request in the segments in which it is transported, some of which the first
`recv` returns. -/
structure Delivery where
  message : HttpRequest
  complete : message.Complete
  segments : List Bytes
  whole : segments.flatten = message.bytes
  filled : ∀ segment ∈ segments, segment ≠ []
  count : Nat
  some_ : 0 < count
  within : count ≤ segments.length

namespace Delivery

variable (delivery : Delivery)

theorem flatten_fits (count : Nat) :
    (delivery.segments.take count).flatten.length ≤ clientMessageSize := by
  have length := congrArg List.length delivery.whole
  have short := delivery.complete.short
  rw [← List.take_append_drop count delivery.segments, List.flatten_append,
    List.length_append] at length
  unfold clientMessageSize
  omega

/-- What the first `recv` returns. -/
def arrival : Arrival := ⟨(delivery.segments.take delivery.count).flatten, delivery.flatten_fits _⟩

/-- What `recv` returns when the request arrives in one piece. -/
def atOnce : Arrival := ⟨delivery.message.bytes, delivery.complete.short.le⟩

/-- The request is the same as if it had arrived in one piece. -/
def Unharmed : Prop :=
  ∀ (stack : Stack) (world : World),
    (threadRequest delivery.arrival stack world).result =
      (threadRequest delivery.atOnce stack world).result

/-- What is still to come. -/
def rest : Bytes := (delivery.segments.drop delivery.count).flatten

theorem bytes_eq : delivery.message.bytes = delivery.arrival.bytes ++ delivery.rest := by
  rw [← delivery.whole, arrival, rest, ← List.flatten_append, List.take_append_drop]

theorem arrival_plain : 0 ∉ delivery.arrival.bytes := by
  intro member
  refine delivery.complete.plain ?_
  rw [delivery.bytes_eq]
  exact List.mem_append_left _ member

theorem arrival_nonempty : delivery.arrival.bytes ≠ [] := by
  obtain ⟨message, complete, segments, whole, filled, count, some_, within⟩ := delivery
  cases segments with
  | nil =>
      simp only [List.length_nil] at within
      omega
  | cons segment others =>
      obtain ⟨less, rfl⟩ := Nat.exists_eq_succ_of_ne_zero some_.ne'
      have first := filled segment (by simp)
      simp [arrival, first]

theorem rest_nonempty (more : delivery.count ≠ delivery.segments.length) : delivery.rest ≠ [] := by
  have within := delivery.within
  have left : delivery.count < delivery.segments.length := by omega
  have member := List.getElem_mem left
  intro empty
  rw [rest, List.drop_eq_getElem_cons left, List.flatten_cons, List.append_eq_nil_iff] at empty
  exact delivery.filled _ member empty.1

/-- With a NUL behind what has arrived, the old contents of the stack play no role. -/
theorem atOnce_constant (unharmed : delivery.Unharmed) (nonempty : delivery.rest ≠ [])
    {name behind : Bytes} (split : delivery.arrival.bytes = name ++ 32 :: behind) (token : 32 ∉ name)
    (named : name ≠ []) (stack : Stack) (world : World) :
    (threadRequest delivery.atOnce stack world).result =
      .ok (some ⟨cString name, bodyOf (cString name) delivery.arrival.bytes⟩) := by
  have length : delivery.arrival.bytes.length < delivery.message.bytes.length := by
    have some_ : delivery.rest.length ≠ 0 := mt List.length_eq_zero_iff.mp nonempty
    rw [delivery.bytes_eq, List.length_append]
    omega
  have inside : delivery.arrival.bytes.length < stack.msg.length := by
    rw [stack.size]
    exact length.trans delivery.complete.short
  let cut : Stack := { stack with
    msg := stack.msg.set delivery.arrival.bytes.length 0
    size := by rw [List.length_set, stack.size] }
  have same : received delivery.atOnce.bytes cut = received delivery.atOnce.bytes stack := by
    simp only [received, cut, atOnce]
    rw [List.drop_set_of_lt length]
  have shown : received delivery.arrival.bytes cut = delivery.arrival.bytes ++
      0 :: (stack.msg.drop (delivery.arrival.bytes.length + 1) ++ stack.behind) := by
    simp only [received, cut]
    rw [List.drop_eq_getElem_cons (by rwa [List.length_set]), List.drop_set_of_lt (by omega)]
    simp
  have near := received_near delivery.arrival.fits cut
  have plain := delivery.arrival_plain
  have visible : ∀ head ∈ name.head?, head ≠ 0 := by
    rintro head first rfl
    exact plain (split ▸ List.mem_append_left _ (List.mem_of_head? first))
  have fits := delivery.arrival.fits
  calc (threadRequest delivery.atOnce stack world).result
      = (threadRequest delivery.atOnce cut world).result := by rw [threadRequest, threadRequest, same]
    _ = (threadRequest delivery.arrival cut world).result := (unharmed cut world).symm
    _ = _ := by
      rw [threadRequest, shown]
      rw [shown] at near
      rw [split] at near plain fits ⊢
      rw [parsed_of_blank visible named token fits near, cString_append_nul plain]

theorem selfContained_of_unharmed (unharmed : delivery.Unharmed)
    (more : delivery.count ≠ delivery.segments.length) : SelfContained delivery.arrival.bytes := by
  have fits := delivery.arrival.fits
  have visible : ∀ head ∈ delivery.arrival.bytes.head?, head ≠ 0 := by
    rintro head first rfl
    exact delivery.arrival_plain (List.mem_of_head? first)
  let world : World := { system := { tree := ⟨∅⟩ } }
  by_cases blanks : 32 ∈ delivery.arrival.bytes
  · obtain ⟨name, behind, split, token⟩ := List.eq_append_cons_of_mem blanks
    by_cases named : name = []
    · exact .nameless (by rw [split, named]; rfl)
    have constant (added : Bytes) (few : added.length ≤ 10) :
        (requestParse (padded delivery.arrival.bytes added) world).result =
          .ok (some ⟨cString name, bodyOf (cString name) delivery.arrival.bytes⟩) := by
      obtain ⟨stack, shown⟩ := exists_stack fits few
      rw [← shown]
      exact (unharmed stack world).trans
        (delivery.atOnce_constant unharmed (delivery.rest_nonempty more) split token named stack world)
    exact selfContained_of_alike fits world fun added few =>
      (constant added few).trans (constant [] (by simp)).symm
  · obtain ⟨stack, shown⟩ := @exists_stack _ [] fits (by simp)
    have parsed := unharmed stack world
    have failed : (threadRequest delivery.arrival stack world).result = .error .outOfBounds := by
      rw [threadRequest, requestParse_result, shown,
        padded_without_blank visible delivery.arrival_nonempty blanks fits]
      rfl
    have complete := delivery.complete
    have first : ∀ head ∈ delivery.message.method.head?, head ≠ 0 := by
      rintro head first rfl
      exact complete.method_plain (List.mem_of_head? first)
    have near := received_near delivery.atOnce.fits stack
    rw [received, List.append_assoc] at near
    rw [failed, threadRequest, received, List.append_assoc] at parsed
    have answered := parsed.trans
      (parsed_of_blank first complete.named complete.token complete.short.le near world)
    cases answered

theorem unharmed_of_selfContained (self : SelfContained delivery.arrival.bytes) :
    delivery.Unharmed := by
  intro stack world
  have near := received_near delivery.arrival.fits stack
  have nearOther := received_near delivery.atOnce.fits stack
  rw [received, List.append_assoc] at near
  have shown : received delivery.atOnce.bytes stack = delivery.arrival.bytes ++
      (delivery.rest ++ (stack.msg.drop delivery.message.bytes.length ++ stack.behind)) := by
    rw [received, atOnce, List.append_assoc]
    exact (congrArg (· ++ _) delivery.bytes_eq).trans (List.append_assoc _ _ _)
  rw [shown] at nearOther
  rw [threadRequest, threadRequest, shown, received, List.append_assoc]
  exact self.result_eq delivery.arrival.fits near nearOther world world

/-- A request that arrives in pieces is the same exactly when the first `recv` returns all of
it, or all that parsing looks at. -/
theorem segmentation_harmless_iff : delivery.Unharmed ↔
    delivery.count = delivery.segments.length ∨ SelfContained delivery.arrival.bytes := by
  constructor
  · intro unharmed
    by_cases all : delivery.count = delivery.segments.length
    · exact .inl all
    · exact .inr (delivery.selfContained_of_unharmed unharmed all)
  · intro either
    rcases either with all | self
    · intro stack world
      have same : delivery.arrival = delivery.atOnce := by
        simp only [arrival, atOnce, all, List.take_length, delivery.whole]
      rw [same]
    · exact delivery.unharmed_of_selfContained self

/-- A message whose head and body are sent one after the other. -/
def halved : Delivery where
  message :=
    { method := text "POST", target := text "/", version := text "HTTP/1.1", headers := [],
      body := text "type=produce&queue=a&data=b" }
  complete := ⟨by decide +kernel, by decide +kernel, by decide +kernel, by decide +kernel⟩
  segments := [text "POST / HTTP/1.1" ++ crlf ++ crlf, text "type=produce&queue=a&data=b"]
  whole := by decide +kernel
  filled := by decide +kernel
  count := 1
  some_ := by decide
  within := by decide

/-- What arrives later is not parsed. -/
theorem later_segments_are_lost : ¬halved.Unharmed := by
  intro unharmed
  have self := halved.selfContained_of_unharmed unharmed (by decide)
  have untyped := not_settled_of_absent
    (show firstAt (keyWord (text "type")) halved.arrival.bytes = none by decide +kernel)
  cases self with
  | empty first => exact absurd first (by decide +kernel)
  | nameless first => exact absurd first (by decide +kernel)
  | ended _ _ nul => exact absurd nul (by decide +kernel)
  | settled _ _ all => exact untyped (all _ (by simp [lookedFor]))

end Delivery

end Bmb.Server
