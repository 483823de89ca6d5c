import Bmb.Broker.Delivery

namespace Bmb

open Bmb.Base Bmb.Posix Http

/-! Peeking at an index compared with the list of all messages. -/

variable {env : BrokerEnvironment} {machine : Machine} {mailbox : Mailbox} {index : Nat}

/-- Peeking at the index of a node hands out the message that is listed under it, whatever way
cJSON prints; peeking at any other index fails and hands out nothing. -/
structure GetAgrees (env : BrokerEnvironment) (machine : Machine) (mailbox : Mailbox) (index : Nat) :
    Prop where
  listed : index < mailbox.items.length → ∀ print : Json → Bytes,
    ∃ (message : Bytes) (nodes : List Json),
      (∃ after, responseGetResponse (env.printing print) (getBody mailbox.key (decimal index)) machine =
        .returned (some (dataResponse message)) after) ∧
      (∃ after, responseGetResponse (env.printing print) (getAllBody mailbox.key) machine =
        .returned (some (dataResponse (print (.object [(text "nodes", .array nodes)])))) after) ∧
      nodes[index]? = some (.object [(text "index", .number index), (text "message", .string message)]) ∧
      mailbox.items.reverse[index]?.map Item.message = some message
  beyond : mailbox.items.length ≤ index → ∃ message after,
    responseGetResponse env (getBody mailbox.key (decimal index)) machine =
      .returned (some (messageResponse false message)) after

/-- The 16 bits that are left of an index are not taken for a missing one and lead to the same
message; those of an index beyond the queue are taken for a missing one or lead beyond it too. -/
def IndexFits (mailbox : Mailbox) (index : Nat) : Prop :=
  if index < mailbox.items.length then
    index % 65536 ≠ 0 ∧ mailbox.items.reverse[index % 65536]?.map Item.message =
      mailbox.items.reverse[index]?.map Item.message
  else index % 65536 = 0 ∨ mailbox.items.length ≤ index % 65536

/-- Peeking agrees with listing at an index exactly when the index survives its 16 bits. -/
theorem get_agrees_iff (reachable : Reachable env machine) (json : env.JsonReliable)
    (member : mailbox ∈ machine.shelf) (named : mailbox.key ≠ []) (small : index < 2147483648) :
    GetAgrees env machine mailbox index ↔ IndexFits mailbox index := by
  have narrowed := indexOf_decimal_eq_mod small
  have got (print : Json → Bytes) := @get_run (env.printing print) machine mailbox (decimal index)
    reachable.keeps json member named
  have listed (print : Json → Bytes) := @getAll_run (env.printing print) machine mailbox
    reachable.keeps json member named
  simp only [narrowed] at got
  unfold IndexFits
  split
  · rename_i inside
    have here := List.getElem?_eq_getElem (l := mailbox.items.reverse)
      (show index < mailbox.items.reverse.length by simpa using inside)
    constructor
    · intro agrees
      obtain ⟨message, _, ⟨_, answered⟩, _, _, stands⟩ := agrees.listed inside fun _ => []
      obtain ⟨response, _, ran, shown, _⟩ := got fun _ => []
      rw [answered] at ran
      simp only [Outcome.returned.injEq, Option.some.injEq] at ran
      obtain ⟨positive, item, found, same⟩ := (shown message).mp ran.1.symm
      exact ⟨positive, by rw [stands, found, Option.map_some, same]⟩
    · rintro ⟨positive, alike⟩
      refine ⟨fun _ print => ?_, fun outside => absurd inside (Nat.not_lt.mpr outside)⟩
      rw [here] at alike
      obtain ⟨item, found, same⟩ := Option.map_eq_some_iff.mp alike
      obtain ⟨_, _, ran, shown, _⟩ := got print
      obtain ⟨_, printed⟩ := listed print
      rw [(shown item.message).mpr ⟨positive, item, found, rfl⟩] at ran
      refine ⟨item.message, _, ⟨_, ran⟩, ⟨_, printed⟩, ?_, by rw [here, Option.map_some, same]⟩
      rw [entryList_getElem?, List.getElem?_map, here, same, Nat.zero_add]
      rfl
  · rename_i outside
    obtain ⟨response, after, ran, _, fails⟩ := got env.jsonPrint
    rw [← fails]
    constructor
    · intro agrees
      obtain ⟨message, _, answered⟩ := agrees.beyond (Nat.not_lt.mp outside)
      rw [show responseGetResponse env _ _ = _ from ran] at answered
      simp only [Outcome.returned.injEq, Option.some.injEq] at answered
      exact ⟨message, answered.1⟩
    · rintro ⟨message, rfl⟩
      exact ⟨fun inside => absurd inside outside, fun _ => ⟨message, after, ran⟩⟩

theorem get_agrees_iff_computed :
    GetAgrees faithful (twoItems "x") ⟨text "a", [⟨1, text "x"⟩, ⟨2, text "y"⟩]⟩ 1 :=
  (@get_agrees_iff faithful (twoItems "x") ⟨text "a", [⟨1, text "x"⟩, ⟨2, text "y"⟩]⟩ 1
    ((((Reachable.loaded (by decide +kernel)).asked _ (by decide +kernel)).asked _
      (by decide +kernel)).asked _ (by decide +kernel)) (fun _ => rfl) (by decide +kernel) (by decide)
    (by decide)).mpr (by unfold IndexFits; decide +kernel)

/-- The newest message is listed under the index 0, which counts as missing. -/
theorem get_refuses_zero :
    Reachable faithful (oneItem faithful) ∧
      ⟨text "a", [⟨1, text "x"⟩]⟩ ∈ (oneItem faithful).shelf ∧
      ¬GetAgrees faithful (oneItem faithful) ⟨text "a", [⟨1, text "x"⟩]⟩ 0 := by
  have member : (⟨text "a", [⟨1, text "x"⟩]⟩ : Mailbox) ∈ (oneItem faithful).shelf := by decide +kernel
  refine ⟨oneItem_reachable, member, fun agrees => ?_⟩
  obtain ⟨message, _, ⟨_, answered⟩, _⟩ := agrees.listed (by decide) fun _ => []
  obtain ⟨_, _, ran, shown, _⟩ := @get_run (faithful.printing fun _ => []) _ _ (decimal 0)
    oneItem_reachable.keeps (fun _ => rfl) member (by decide)
  rw [ran] at answered
  simp only [Outcome.returned.injEq, Option.some.injEq] at answered
  exact absurd ((shown message).mp answered.1).1 (by decide)

end Bmb
