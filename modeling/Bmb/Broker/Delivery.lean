import Bmb.Broker.Failures
import Bmb.Broker.Responses
import Bmb.PercentCoding

namespace Bmb

open Bmb.Base Bmb.Posix

/-! What consuming and peeking hand out of a message. -/

section Decoding

variable {message decoded residue : Bytes}

theorem cString_terminated (bytes : Bytes) : cString (bytes ++ [0]) = cString bytes := by
  by_cases ended : 0 ∈ bytes
  · exact cString_append_of_mem ended [0]
  · rw [cString_append_nul ended, cString_of_no_nul ended]

theorem PercentCoded.decodedMessage_eq (coded : PercentCoded message decoded) :
    Broker.decodedMessage message residue = cString decoded := by
  simp only [Broker.decodedMessage, coded.urlDecode_eq, if_true, cString_terminated]

theorem cString_eq_self {bytes : Bytes} : cString bytes = bytes ↔ 0 ∉ bytes := by
  constructor
  · intro same ended
    have shorter := cString_length_lt ended
    rw [same] at shorter
    exact absurd shorter (lt_irrefl _)
  · exact cString_of_no_nul

theorem cString_length_le (bytes : Bytes) : (cString bytes).length ≤ bytes.length :=
  (List.takeWhile_prefix _).length_le

/-- On a clean stack, only a text that stands for itself is handed out as it is. -/
theorem decodedMessage_eq_self : Broker.decodedMessage message [] = message ↔ Literal message := by
  constructor
  · intro same
    cases complete : (urlDecode message).2 with
    | false =>
        have shorter := urlDecode_stopped complete
        have string := cString_length_le (urlDecode message).1
        simp only [Broker.decodedMessage, complete, Bool.false_eq_true, if_false,
          List.append_nil] at same
        rw [same] at string
        omega
    | true =>
        obtain ⟨decoded, coded⟩ := percentCoded_of_complete complete
        rw [coded.decodedMessage_eq] at same
        have whole : cString decoded = decoded := by
          refine (List.takeWhile_prefix _).eq_of_length_le ?_
          have short := coded.length_le
          rwa [← same] at short
        rw [whole] at same
        subst same
        have escapes := coded.no_escapes rfl
        intro byte member
        refine ⟨(escapes byte member).1, (escapes byte member).2, ?_⟩
        rintro rfl
        exact cString_eq_self.mp whole member
  · intro literal
    rw [literal.coded.decodedMessage_eq]
    exact cString_of_no_nul fun member => (literal 0 member).2.2 rfl

end Decoding

/-! ## Consuming -/

variable {env : BrokerEnvironment} {machine : Machine} {req : BrokerRequest} {key : Bytes}
  {item : Item} {rest : List Item}

theorem consume_run (keeps : machine.Keeps machine.shelf) (json : env.JsonReliable)
    (typed : req.type = some brokerConsume) (names : Names req machine.shelf ⟨key, item :: rest⟩)
    (can : CanTake env machine key item) :
    ∃ time after, brokerDispatch env req machine =
        .returned (some (dataResponse (Broker.decodedMessage item.message (env.residue time)))) after ∧
      after.shelf = machine.shelf.pop key := by
  obtain ⟨effects, calls, ending, step, ends⟩ := brokerDispatch_step env req keeps
  have replies (response : BrokerResponse) (after : Machine)
      (ran : brokerDispatch env req machine = .returned (some response) after) :=
    answered_replies json keeps ran
  rw [command_consume keeps.nodup typed names] at step replies
  obtain ⟨positive, target, can⟩ := can
  generalize brokerDispatch env req machine = outcome at ends replies
  cases step with
  | read reads => cases reads
  | unnumbered zero => exact absurd zero positive
  | unremoved _ cannot => exact absurd can (cannot target)
  | consumed _ unlinked =>
      cases ends with
      | answered shown kept handled =>
          have reply := replies _ _ rfl
          cases reply with
          | consumed _ _ _ time => exact ⟨time, _, rfl, kept.shelf_eq⟩

/-- The stack of the process is filled in another way. -/
def BrokerEnvironment.over (env : BrokerEnvironment) (residue : Bytes) : BrokerEnvironment :=
  { env with residue := fun _ => residue }

/-- A complete text is delivered as what it stands for.  Any other is answered in the same way
whatever the stack holds, and it is delivered as it is unless it is kept. -/
structure Delivers (env : BrokerEnvironment) (machine : Machine) (req : BrokerRequest)
    (mailbox : Mailbox) (message : Bytes) : Prop where
  whole : ∀ decoded, PercentCoded message decoded → ∀ residue, ∃ after,
    brokerDispatch (env.over residue) req machine = .returned (some (dataResponse decoded)) after
  broken : (∀ decoded, ¬PercentCoded message decoded) → ∃ response, ∀ residue, ∃ after,
    brokerDispatch (env.over residue) req machine = .returned (some response) after ∧
    (response = dataResponse message ∨
      (mailbox ∈ after.shelf ∧ after.world.system.tree = machine.world.system.tree))

theorem dataResponse_injective {left right : Bytes} (same : dataResponse left = dataResponse right) :
    left = right := by
  unfold dataResponse at same
  simpa using same

theorem not_mem_pop {shelf : Shelf Bytes Item} (distinct : shelf.keys.Nodup)
    (member : ⟨key, item :: rest⟩ ∈ shelf) : ⟨key, item :: rest⟩ ∉ shelf.pop key := by
  intro kept
  have shrunk : ⟨key, rest⟩ ∈ shelf.pop key := Shelf.mem_update_self member
  have keys : (shelf.pop key).keys = shelf.keys := Shelf.keys_update
  have same := Shelf.eq_of_key_eq (keys ▸ distinct) kept shrunk rfl
  have lengths := congrArg (fun queue : Mailbox => queue.items.length) same
  simp at lengths

/-- A consumed message has been delivered exactly when it is complete and its bytes do not
include a NUL. -/
theorem consume_delivers_iff (reachable : Reachable env machine) (json : env.JsonReliable)
    (typed : req.type = some brokerConsume) (names : Names req machine.shelf ⟨key, item :: rest⟩)
    (can : CanTake env machine key item) :
    Delivers env machine req ⟨key, item :: rest⟩ item.message ↔
      ∃ decoded, PercentCoded item.message decoded ∧ 0 ∉ decoded := by
  have ran (residue : Bytes) : ∃ after, brokerDispatch (env.over residue) req machine =
      .returned (some (dataResponse (Broker.decodedMessage item.message residue))) after ∧
      after.shelf = machine.shelf.pop key := by
    obtain ⟨_, after, ran, popped⟩ :=
      @consume_run (env.over residue) _ _ _ _ _ reachable.keeps json typed names can
    exact ⟨after, ran, popped⟩
  constructor
  · intro delivers
    obtain ⟨after, answered, popped⟩ := ran []
    by_cases complete : ∃ decoded, PercentCoded item.message decoded
    · obtain ⟨decoded, coded⟩ := complete
      obtain ⟨last, delivered⟩ := delivers.whole decoded coded []
      rw [answered] at delivered
      refine ⟨decoded, coded, ?_⟩
      have same : Broker.decodedMessage item.message [] = decoded := by
        simp only [Outcome.returned.injEq, Option.some.injEq] at delivered
        exact dataResponse_injective delivered.1
      rw [coded.decodedMessage_eq] at same
      exact cString_eq_self.mp same
    · exfalso
      obtain ⟨response, same⟩ := delivers.broken fun decoded coded => complete ⟨decoded, coded⟩
      obtain ⟨last, delivered, asIs | ⟨kept, _⟩⟩ := same []
      · rw [answered] at delivered
        simp only [Outcome.returned.injEq, Option.some.injEq] at delivered
        have literal := decodedMessage_eq_self.mp (dataResponse_injective (delivered.1.trans asIs))
        exact complete ⟨_, literal.coded⟩
      · rw [answered] at delivered
        simp only [Outcome.returned.injEq] at delivered
        rw [← delivered.2, popped] at kept
        exact not_mem_pop reachable.keeps.nodup names.member kept
  · intro clean
    obtain ⟨decoded, coded, clean⟩ := clean
    constructor
    · intro other again residue
      obtain ⟨after, answered, _⟩ := ran residue
      rw [coded.decodedMessage_eq, cString_of_no_nul clean, coded.unique again] at answered
      exact ⟨after, answered⟩
    · intro broken
      exact absurd coded (broken decoded)

theorem oneItem_takes : CanTake faithful (oneItem faithful) (text "a") ⟨1, text "x"⟩ :=
  ⟨by decide, [text "1", text "a", text "data"],
    ⟨⟨rfl, by decide +kernel⟩, text "x", by decide +kernel⟩⟩

theorem consume_delivers_iff_computed :
    Delivers faithful (oneItem faithful) (request "consume" (some "a") none)
      ⟨text "a", [⟨1, text "x"⟩]⟩ (text "x") :=
  (@consume_delivers_iff _ _ _ (text "a") ⟨1, text "x"⟩ [] oneItem_reachable (fun _ => rfl)
    (by decide +kernel) ⟨by decide +kernel, by decide +kernel, by decide⟩
    oneItem_takes).mpr
    ⟨text "x", .plain (by decide) (by decide) .done, by decide⟩

/-- A queue whose message ends in a percent sign. -/
def discount : Machine :=
  ((loaded faithful emptyTree).asked faithful (request "addQueue" none (some "a"))).asked faithful
    (request "produce" (some "a") (some "50%"))

/-- What follows a broken escape comes from the stack. -/
theorem consume_hands_out_stack :
    Reachable faithful discount ∧ discount.shelf = [⟨text "a", [⟨1, text "50%"⟩]⟩] ∧
      ¬Delivers faithful discount (request "consume" (some "a") none)
        ⟨text "a", [⟨1, text "50%"⟩]⟩ (text "50%") := by
  have reachable : Reachable faithful discount :=
    ((Reachable.loaded (by decide +kernel)).asked _ (by decide +kernel)).asked _ (by decide +kernel)
  refine ⟨reachable, by decide +kernel, fun delivers => ?_⟩
  have broken (decoded : Bytes) : ¬PercentCoded (text "50%") decoded := by
    intro coded
    have complete : (urlDecode (text "50%")).2 = true := congrArg Prod.snd coded.urlDecode_eq
    exact absurd complete (by decide +kernel)
  have names : Names (request "consume" (some "a") none) discount.shelf
      ⟨text "a", [⟨1, text "50%"⟩]⟩ := ⟨by decide +kernel, by decide +kernel, by decide⟩
  have can : CanTake faithful discount (text "a") ⟨1, text "50%"⟩ :=
    ⟨by decide, [text "1", text "a", text "data"],
      ⟨⟨rfl, by decide +kernel⟩, text "50%", by decide +kernel⟩⟩
  have answer (residue : Bytes) := @consume_run (faithful.over residue) _
    (request "consume" (some "a") none) _ _ _ reachable.keeps (fun _ => rfl) (by decide +kernel) names can
  obtain ⟨response, same⟩ := delivers.broken broken
  obtain ⟨_, clean, _⟩ := same []
  obtain ⟨_, dirty, _⟩ := same (text "!")
  obtain ⟨_, _, ranClean, _⟩ := answer []
  obtain ⟨_, _, ranDirty, _⟩ := answer (text "!")
  rw [ranClean] at clean
  rw [ranDirty] at dirty
  simp only [Outcome.returned.injEq, Option.some.injEq] at clean dirty
  have alike : Broker.decodedMessage (text "50%") [] = Broker.decodedMessage (text "50%") (text "!") :=
    dataResponse_injective (clean.1.trans dirty.1.symm)
  exact absurd alike (by decide +kernel)

/-! ## Peeking -/

open Http (RequestBody brokerRequest responseGetResponse)

def consumeBody (name : Bytes) : RequestBody :=
  ⟨[⟨text "type", brokerConsume⟩, ⟨text "queue", name⟩]⟩

def getBody (name index : Bytes) : RequestBody :=
  ⟨[⟨text "type", brokerGet⟩, ⟨text "queue", name⟩, ⟨text "index", index⟩]⟩

def getAllBody (name : Bytes) : RequestBody :=
  ⟨[⟨text "type", brokerGetAll⟩, ⟨text "queue", name⟩]⟩

/-- cJSON prints in another way. -/
def BrokerEnvironment.printing (env : BrokerEnvironment) (print : Json → Bytes) :
    BrokerEnvironment :=
  { env with jsonPrint := print }

/-- With any stack and any way of printing, the message at the last index is the same for
peeking, listing and consuming. -/
def PeeksAsConsumed (env : BrokerEnvironment) (machine : Machine) (name : Bytes) (last : Nat) : Prop :=
  ∀ (residue : Bytes) (print : Json → Bytes), ∃ (message : Bytes) (nodes : List Json),
    (∃ after, responseGetResponse ((env.over residue).printing print)
        (getBody name (decimal last)) machine = .returned (some (dataResponse message)) after) ∧
    (∃ after, responseGetResponse ((env.over residue).printing print) (getAllBody name) machine =
        .returned (some (dataResponse (print (.object [(text "nodes", .array nodes)])))) after) ∧
    nodes[last]? = some (.object [(text "index", .number last), (text "message", .string message)]) ∧
    ∃ after, responseGetResponse ((env.over residue).printing print) (consumeBody name) machine =
        .returned (some (dataResponse message)) after

theorem answered_run {decoded : Command} (keeps : machine.Keeps machine.shelf)
    (json : env.JsonReliable) (amounts : command req machine.shelf = decoded)
    (answerable : Answerable env machine decoded) :
    ∃ response after, brokerDispatch env req machine = .returned (some response) after ∧
      Replies env machine.shelf decoded response := by
  subst amounts
  obtain ⟨response, after, ran⟩ := (brokerDispatch_answers_iff keeps).mpr answerable
  exact ⟨response, after, ran, answered_replies json keeps ran⟩

theorem messageResponse_ne (success : Bool) (message data : Bytes) :
    messageResponse success message ≠ dataResponse data := by
  intro same
  simp only [messageResponse, dataResponse, BrokerResponse.mk.injEq, Option.some.injEq,
    Json.object.injEq, List.cons.injEq, Prod.mk.injEq] at same
  exact absurd same.2.2.2.1.1 (by decide)

/-- The index that a text is taken for. -/
def indexOf (index : Bytes) : Nat := toUInt16 (atoi index)

theorem indexOf_decimal_eq_mod {index : Nat} (small : index < 2147483648) :
    indexOf (decimal index) = index % 65536 := by
  rw [indexOf, atoi_decimal small, toUInt16]
  omega

section Peeking

variable {mailbox : Mailbox}

theorem brokerRequest_getBody (name index : Bytes) :
    brokerRequest (getBody name index) = ⟨some brokerGet, none, some name, indexOf index, none⟩ := rfl

theorem get_run {index : Bytes} (keeps : machine.Keeps machine.shelf) (json : env.JsonReliable)
    (member : mailbox ∈ machine.shelf) (nonempty : mailbox.key ≠ []) :
    ∃ response after, responseGetResponse env (getBody mailbox.key index) machine =
        .returned (some response) after ∧
      (∀ message, response = dataResponse message ↔ indexOf index ≠ 0 ∧
        ∃ item, mailbox.items.reverse[indexOf index]? = some item ∧ item.message = message) ∧
      ((∃ message, response = messageResponse false message) ↔
        indexOf index = 0 ∨ mailbox.items.length ≤ indexOf index) := by
  have amounts := command_get keeps.nodup
    (show (brokerRequest (getBody mailbox.key index)).type = some brokerGet from rfl)
    ⟨member, rfl, nonempty⟩
  rw [brokerRequest_getBody] at amounts
  by_cases zero : indexOf index = 0
  · rw [if_pos zero] at amounts
    obtain ⟨response, after, ran, replies⟩ := answered_run keeps json amounts trivial
    refine ⟨response, after, ran, fun message => ?_, ?_⟩
    · cases replies
      exact iff_of_false (messageResponse_ne _ _ _) fun both => both.1 zero
    · cases replies
      exact iff_of_true ⟨_, rfl⟩ (.inl zero)
  · rw [if_neg zero] at amounts
    obtain ⟨response, after, ran, replies⟩ := answered_run keeps json amounts
      (Command.Reads.get mailbox _).answerable
    refine ⟨response, after, ran, ?_⟩
    dsimp only at replies
    cases replies with
    | @got _ _ item found =>
        refine ⟨fun message => ?_, ?_⟩
        · constructor
          · intro same
            exact ⟨zero, item, found, dataResponse_injective same⟩
          · intro both
            obtain ⟨_, other, again, same⟩ := both
            rw [found] at again
            cases again
            rw [same]
        · have inside := (List.getElem?_eq_some_iff.mp found).1
          rw [List.length_reverse] at inside
          refine iff_of_false ?_ (by omega)
          rintro ⟨message, same⟩
          exact messageResponse_ne _ _ _ same.symm
    | beyond absent =>
        have outside := List.getElem?_eq_none_iff.mp absent
        rw [List.length_reverse] at outside
        refine ⟨fun message => iff_of_false (messageResponse_ne _ _ _) fun both => ?_,
          iff_of_true ⟨_, rfl⟩ (.inr outside)⟩
        obtain ⟨_, other, again, _⟩ := both
        rw [absent] at again
        contradiction

theorem getAll_run (keeps : machine.Keeps machine.shelf) (json : env.JsonReliable)
    (member : mailbox ∈ machine.shelf) (nonempty : mailbox.key ≠ []) :
    ∃ after, responseGetResponse env (getAllBody mailbox.key) machine =
      .returned (some (listResponse env (text "nodes") (text "message")
        (mailbox.items.reverse.map Item.message))) after := by
  have amounts := command_getAll keeps.nodup
    (show (brokerRequest (getAllBody mailbox.key)).type = some brokerGetAll from rfl)
    ⟨member, rfl, nonempty⟩
  obtain ⟨response, after, ran, replies⟩ := answered_run keeps json amounts
    (Command.Reads.getAll mailbox).answerable
  cases replies
  exact ⟨after, ran⟩

/-- The message of the entry at an index, as a way of printing. -/
def reveal (index : Nat) : Json → Bytes
  | .object [(_, .array nodes)] =>
      match nodes[index]? with
      | some (.object [_, (_, .string message)]) => message
      | _ => []
  | _ => []

theorem reveal_entry {nodes : List Json} {index number : Nat} {listKey message : Bytes}
    (stands : nodes[index]? =
      some (.object [(text "index", .number number), (text "message", .string message)])) :
    reveal index (.object [(listKey, .array nodes)]) = message := by
  simp only [reveal, stands]

/-- Peeking at the last index, listing and consuming agree exactly when the oldest message stands
for itself and its index is not changed by reading it as a 16-bit number. -/
theorem peek_agrees_iff (reachable : Reachable env machine) (json : env.JsonReliable)
    (member : ⟨key, item :: rest⟩ ∈ machine.shelf) (named : key ≠ [])
    (can : CanTake env machine key item) :
    PeeksAsConsumed env machine key rest.length ↔
      Literal item.message ∧ indexOf (decimal rest.length) ≠ 0 ∧
        ∃ other, (item :: rest).reverse[indexOf (decimal rest.length)]? = some other ∧
          other.message = item.message := by
  have last : (item :: rest).reverse[rest.length]? = some item := by simp
  have consumed (residue : Bytes) (print : Json → Bytes) :=
    @consume_run ((env.over residue).printing print) machine (brokerRequest (consumeBody key)) key
      item rest reachable.keeps json rfl ⟨member, rfl, named⟩ can
  constructor
  · intro peeks
    let probe := (env.over []).printing (reveal rest.length)
    obtain ⟨message, nodes, ⟨_, got⟩, ⟨_, listed⟩, stands, ⟨_, taken⟩⟩ := peeks [] (reveal rest.length)
    obtain ⟨_, _, delivered, _⟩ := consumed [] (reveal rest.length)
    obtain ⟨_, _, answered, shown, _⟩ := @get_run probe machine ⟨key, item :: rest⟩
      (decimal rest.length) reachable.keeps json member named
    obtain ⟨_, printed⟩ := @getAll_run probe machine ⟨key, item :: rest⟩ reachable.keeps json
      member named
    have entry : (entryList (text "message") 0 ((item :: rest).reverse.map Item.message))[rest.length]? =
        some (.object [(text "index", .number (0 + rest.length)),
          (text "message", .string item.message)]) := by
      rw [entryList_getElem?, List.getElem?_map, last]
      rfl
    have same : item.message = message := by
      rw [printed] at listed
      simp only [Outcome.returned.injEq, Option.some.injEq] at listed
      have texts : reveal rest.length (.object [(text "nodes", .array
          (entryList (text "message") 0 ((item :: rest).reverse.map Item.message)))]) =
          reveal rest.length (.object [(text "nodes", .array nodes)]) :=
        dataResponse_injective listed.1
      rwa [reveal_entry entry, reveal_entry stands] at texts
    subst same
    rw [answered] at got
    simp only [Outcome.returned.injEq, Option.some.injEq] at got
    rw [responseGetResponse, delivered] at taken
    simp only [Outcome.returned.injEq, Option.some.injEq] at taken
    exact ⟨decodedMessage_eq_self.mp (dataResponse_injective taken.1), (shown item.message).mp got.1⟩
  · intro literal residue print
    obtain ⟨time, _, taken, _⟩ := consumed residue print
    obtain ⟨_, _, got, shown, _⟩ := @get_run ((env.over residue).printing print) machine
      ⟨key, item :: rest⟩ (decimal rest.length) reachable.keeps json member named
    obtain ⟨_, listed⟩ := @getAll_run ((env.over residue).printing print) machine
      ⟨key, item :: rest⟩ reachable.keeps json member named
    have clean : 0 ∉ item.message := fun inside => (literal.1 0 inside).2.2 rfl
    rw [literal.1.coded.decodedMessage_eq, cString_of_no_nul clean] at taken
    rw [(shown item.message).mpr literal.2] at got
    refine ⟨item.message, _, ⟨_, got⟩, ⟨_, listed⟩, ?_, ⟨_, taken⟩⟩
    rw [entryList_getElem?, List.getElem?_map, last, Nat.zero_add]
    rfl

end Peeking

/-- A queue with two messages. -/
def twoItems (first : String) : Machine :=
  (((loaded faithful emptyTree).asked faithful (request "addQueue" none (some "a"))).asked faithful
    (request "produce" (some "a") (some first))).asked faithful
      (request "produce" (some "a") (some "y"))

theorem peek_agrees_iff_computed : PeeksAsConsumed faithful (twoItems "x") (text "a") 1 :=
  (@peek_agrees_iff faithful (twoItems "x") (text "a") ⟨1, text "x"⟩ [⟨2, text "y"⟩]
    ((((Reachable.loaded (by decide +kernel)).asked _ (by decide +kernel)).asked _
      (by decide +kernel)).asked _ (by decide +kernel)) (fun _ => rfl) (by decide +kernel) (by decide)
    ⟨by decide, [text "1", text "a", text "data"],
      ⟨⟨rfl, by decide +kernel⟩, text "x", by decide +kernel⟩⟩).mpr
    ⟨by unfold Literal; decide +kernel, by decide +kernel, ⟨1, text "x"⟩, by decide +kernel, rfl⟩

/-- A plus sign is peeked at as it is, and consumed as a blank. -/
theorem consume_differs_from_peek :
    Reachable faithful (twoItems "1+1") ∧
      (twoItems "1+1").shelf = [⟨text "a", [⟨1, text "1+1"⟩, ⟨2, text "y"⟩]⟩] ∧
      ¬PeeksAsConsumed faithful (twoItems "1+1") (text "a") 1 := by
  have reachable : Reachable faithful (twoItems "1+1") :=
    (((Reachable.loaded (by decide +kernel)).asked _ (by decide +kernel)).asked _
      (by decide +kernel)).asked _ (by decide +kernel)
  have member : (⟨text "a", [⟨1, text "1+1"⟩, ⟨2, text "y"⟩]⟩ : Mailbox) ∈ (twoItems "1+1").shelf := by
    decide +kernel
  have can : CanTake faithful (twoItems "1+1") (text "a") ⟨1, text "1+1"⟩ :=
    ⟨by decide, [text "1", text "a", text "data"],
      ⟨⟨rfl, by decide +kernel⟩, text "1+1", by decide +kernel⟩⟩
  refine ⟨reachable, by decide +kernel, fun peeks => ?_⟩
  let env := (faithful.over []).printing fun _ => []
  obtain ⟨message, _, ⟨_, got⟩, _, _, ⟨_, taken⟩⟩ := peeks [] fun _ => []
  obtain ⟨_, _, delivered, _⟩ := @consume_run env _ (brokerRequest (consumeBody (text "a"))) _ _ _
    reachable.keeps (fun _ => rfl) rfl ⟨member, rfl, by decide⟩ can
  obtain ⟨_, _, answered, shown, _⟩ := @get_run env _ _ (decimal 1) reachable.keeps (fun _ => rfl)
    member (by decide)
  rw [answered] at got
  rw [responseGetResponse, delivered] at taken
  simp only [Outcome.returned.injEq, Option.some.injEq] at got taken
  obtain ⟨_, other, found, rfl⟩ := (shown message).mp got.1
  have here : ([⟨1, text "1+1"⟩, ⟨2, text "y"⟩] : List Item).reverse[indexOf (decimal 1)]? =
      some ⟨1, text "1+1"⟩ := by decide +kernel
  rw [here] at found
  cases found
  have same : Broker.decodedMessage (text "1+1") [] = text "1+1" := dataResponse_injective taken.1
  exact absurd same (by decide +kernel)

end Bmb
