import Bmb.Broker.Delivery
import Bmb.Http.Client

namespace Bmb

open Bmb.Base Bmb.Posix Bmb.Http

/-! The requests of the documentation. -/

inductive Documented where
  | addQueue (name : Bytes)
  | consume (mailbox : Mailbox)
  | length (mailbox : Mailbox)
  | get (mailbox : Mailbox) (index : Nat)
  | getAll (mailbox : Mailbox)
  | getAllQueueNames
  | produce (mailbox : Mailbox) (data : Bytes)
  | removeQueue (mailbox : Mailbox)

namespace Documented

def method : Documented → Method
  | addQueue _ | produce _ _ => .post
  | consume _ | length _ | get _ _ | getAll _ | getAllQueueNames | removeQueue _ => .get

def parameters : Documented → List RequestPair
  | addQueue name => [⟨text "type", brokerAddQueue⟩, ⟨text "data", name⟩]
  | consume mailbox => [⟨text "type", brokerConsume⟩, ⟨text "queue", mailbox.key⟩]
  | length mailbox => [⟨text "type", brokerLength⟩, ⟨text "queue", mailbox.key⟩]
  | get mailbox index =>
      [⟨text "type", brokerGet⟩, ⟨text "index", decimal index⟩, ⟨text "queue", mailbox.key⟩]
  | getAll mailbox => [⟨text "type", brokerGetAll⟩, ⟨text "queue", mailbox.key⟩]
  | getAllQueueNames => [⟨text "type", brokerGetAllQueueNames⟩]
  | produce mailbox data =>
      [⟨text "type", brokerProduce⟩, ⟨text "queue", mailbox.key⟩, ⟨text "data", data⟩]
  | removeQueue mailbox => [⟨text "type", brokerRemoveQueue⟩, ⟨text "queue", mailbox.key⟩]

/-- The action that the documentation describes. -/
def action : Documented → Command
  | addQueue name => .addQueue name
  | consume mailbox => .consume mailbox
  | length mailbox => .length mailbox
  | get mailbox index => .get mailbox index
  | getAll mailbox => .getAll mailbox
  | getAllQueueNames => .getAllQueueNames
  | produce mailbox data => .produce mailbox data
  | removeQueue mailbox => .removeQueue mailbox

/-- The queue is there, or new if it is to be added; the index is one of its nodes. -/
def Fits (shelf : Shelf Bytes Item) : Documented → Prop
  | addQueue name => name ∉ shelf.keys ∧ name ≠ []
  | consume mailbox | length mailbox | getAll mailbox | removeQueue mailbox =>
      mailbox ∈ shelf ∧ mailbox.key ≠ []
  | get mailbox index => (mailbox ∈ shelf ∧ mailbox.key ≠ []) ∧ index < mailbox.items.length
  | getAllQueueNames => True
  | produce mailbox data => (mailbox ∈ shelf ∧ mailbox.key ≠ []) ∧ data ≠ []

/-- The tables of the broker agree with the documentation. -/
def Usable : Documented → Prop
  | length _ => False
  | get _ index => 0 < index ∧ index < 65536
  | _ => True

variable {doc : Documented} {shelf : Shelf Bytes Item}

theorem indexOf_decimal {index : Nat} (small : index < 65536) : indexOf (decimal index) = index := by
  rw [indexOf_decimal_eq_mod (by omega), Nat.mod_eq_of_lt small]

theorem indexOf_lt (index : Bytes) : indexOf index < 65536 := by
  unfold indexOf toUInt16
  omega

/-- When its parameters arrive, a documented request amounts to its action unless the tables
stand in its way. -/
theorem command_eq_action_iff (distinct : shelf.keys.Nodup) (fits : doc.Fits shelf)
    {body : RequestBody} (carried : ∀ pair ∈ doc.parameters, body.get pair.key = some pair.value)
    (undated : doc.method = .get → body.get (text "data") = none) :
    command (brokerRequest body) shelf = doc.action ↔ doc.Usable := by
  have typed {type : Bytes} (first : (⟨text "type", type⟩ : RequestPair) ∈ doc.parameters) :
      (brokerRequest body).type = some type := carried _ first
  have names {mailbox : Mailbox} (member : mailbox ∈ shelf) (nonempty : mailbox.key ≠ [])
      (named : (⟨text "queue", mailbox.key⟩ : RequestPair) ∈ doc.parameters) :
      Names (brokerRequest body) shelf mailbox := ⟨member, carried _ named, nonempty⟩
  cases doc with
  | addQueue name =>
      exact iff_of_true (command_addQueue (typed (by simp [parameters]))
        ⟨carried ⟨text "data", name⟩ (by simp [parameters]), fits.2⟩) trivial
  | consume mailbox =>
      exact iff_of_true (command_consume distinct (typed (by simp [parameters]))
        (names fits.1 fits.2 (by simp [parameters]))) trivial
  | length mailbox =>
      have rejected := command_length_without_data distinct (typed (by simp [parameters]))
        (names fits.1 fits.2 (by simp [parameters])) (undated rfl)
      rw [rejected]
      exact iff_of_false (by simp [action]) id
  | get mailbox index =>
      have given : (brokerRequest body).index = indexOf (decimal index) := by
        have arrived := carried ⟨text "index", decimal index⟩ (by simp [parameters])
        simp only [brokerRequest, arrived, indexOf]
      have decoded := command_get distinct (typed (by simp [parameters]))
        (names fits.1.1 fits.1.2 (by simp [parameters]))
      have bound := indexOf_lt (decimal index)
      rw [decoded, given]
      constructor
      · intro same
        split at same
        · cases same
        · rename_i positive
          simp only [action, Command.get.injEq, true_and] at same
          constructor <;> omega
      · intro usable
        rw [indexOf_decimal usable.2, if_neg usable.1.ne']
        rfl
  | getAll mailbox =>
      exact iff_of_true (command_getAll distinct (typed (by simp [parameters]))
        (names fits.1 fits.2 (by simp [parameters]))) trivial
  | getAllQueueNames =>
      exact iff_of_true (command_getAllQueueNames (typed (by simp [parameters]))) trivial
  | produce mailbox data =>
      exact iff_of_true (command_produce distinct (typed (by simp [parameters]))
        (names fits.1.1 fits.1.2 (by simp [parameters]))
        ⟨carried ⟨text "data", data⟩ (by simp [parameters]), fits.2⟩) trivial
  | removeQueue mailbox =>
      exact iff_of_true (command_removeQueue distinct (typed (by simp [parameters]))
        (names fits.1 fits.2 (by simp [parameters]))) trivial

theorem parameters_nonempty (fits : doc.Fits shelf) :
    ∀ pair ∈ doc.parameters, pair.value ≠ [] := by
  have types : brokerAddQueue ≠ [] ∧ brokerConsume ≠ [] ∧ brokerLength ≠ [] ∧ brokerGet ≠ [] ∧
      brokerGetAll ≠ [] ∧ brokerGetAllQueueNames ≠ [] ∧ brokerProduce ≠ [] ∧
      brokerRemoveQueue ≠ [] := by decide
  have digits (index : Nat) : decimal index ≠ [] := decimal_ne_nil index
  cases doc <;> simp_all [parameters, Fits]

theorem parameters_keys (doc : Documented) : ∀ pair ∈ doc.parameters, pair.key ∈ doc.method.keys := by
  cases doc <;> simp [parameters, method, Method.keys]

end Documented

/-- The answers to a request in which something is missing. -/
def missingMessages : List Bytes :=
  [text "Request is missing the queue name.", text "Request is missing an index.",
    text "Request is missing the data."]

/-- A documented request as a client sends it, with its parameters in any order. -/
structure DocumentedRequest (shelf : Shelf Bytes Item) where
  doc : Documented
  fits : doc.Fits shelf
  client : ClientRequest
  method_eq : client.method = doc.method
  parameters_perm : client.parameters.Perm doc.parameters

/-- The parameters arrive, the request amounts to its action, and it is not answered that one of
them is missing; a length is the number of nodes. -/
def Accepted (env : BrokerEnvironment) (machine : Machine)
    (asked : DocumentedRequest machine.shelf) (behind : Bytes) : Prop :=
  ∃ request parsed,
    requestParse (asked.client.bytes ++ 0 :: behind) machine.world =
      .returned (some request) parsed ∧
    (∀ pair ∈ asked.doc.parameters, request.body.get pair.key = some pair.value) ∧
    command (brokerRequest request.body) machine.shelf = asked.doc.action ∧
    ∀ response after, responseGetResponse env request.body machine = .returned (some response) after →
      (∀ message ∈ missingMessages, response ≠ messageResponse false message) ∧
      ∀ mailbox, asked.doc = .length mailbox → response = dataResponse (decimal mailbox.items.length)

section Documented

variable {env : BrokerEnvironment} {machine : Machine}

theorem messageResponse_injective {success other : Bool} {left right : Bytes}
    (same : messageResponse success left = messageResponse other right) : left = right := by
  simp only [messageResponse, BrokerResponse.mk.injEq, Option.some.injEq, Json.object.injEq,
    List.cons.injEq, Prod.mk.injEq, Json.string.injEq] at same
  exact same.2.2.2.1.2

/-- What the actions report. -/
def outcomeMessages : List Bytes :=
  [text "Queue is empty.", text "Message produced.", text "Node index out of range.",
    text "Failed: Queue with given name already exists.", text "Queue created.",
    text "Failed to create queue.", text "Queue removed.", text "Failed to remove queue."]

theorem Replies.of_action {doc : Documented} {shelf : Shelf Bytes Item} {response : BrokerResponse}
    (replies : Replies env shelf doc.action response) :
    (∃ data, response = dataResponse data) ∨
      ∃ success, ∃ told ∈ outcomeMessages, response = messageResponse success told := by
  generalize shape : doc.action = decoded at replies
  cases replies with
  | rejected message => cases doc <;> cases shape
  | consumed | length | got | listed | named => exact .inl ⟨_, rfl⟩
  | empty | produced | beyond | known | added | unadded | removed | unremoved =>
      exact .inr ⟨_, _, by simp [outcomeMessages], rfl⟩

theorem Replies.not_missing {doc : Documented} {shelf : Shelf Bytes Item} {response : BrokerResponse}
    (replies : Replies env shelf doc.action response) :
    ∀ message ∈ missingMessages, response ≠ messageResponse false message := by
  intro message missing same
  have other : ∀ told ∈ outcomeMessages, told ∉ missingMessages := by decide
  rcases replies.of_action with ⟨data, rfl⟩ | ⟨success, told, inside, rfl⟩
  · exact messageResponse_ne _ _ _ same.symm
  · exact other told inside (messageResponse_injective same ▸ missing)

/-- A documented request is accepted exactly when each of its parameters is the first of its name
in the text, it does not ask for a length, and it does not ask for the index 0 or for one beyond
16 bits. -/
theorem documented_accepted_iff (reachable : Reachable env machine) (json : env.JsonReliable)
    (asked : DocumentedRequest machine.shelf) (behind : Bytes) :
    Accepted env machine asked behind ↔
      (∀ pair ∈ asked.doc.parameters, FirstValue pair.key asked.client.bytes pair.value) ∧
        asked.doc.Usable := by
  have keeps := reachable.keeps
  obtain ⟨parsed, ran⟩ := asked.client.complete.requestParse_run behind machine.world
  have short : asked.client.bytes.length < 65536 := asked.client.short.trans (by decide)
  have named : asked.client.message.method = asked.doc.method.name :=
    congrArg Method.name asked.method_eq
  rw [named] at ran
  have found (pair : RequestPair) (member : pair ∈ asked.doc.parameters) :
      (bodyOf asked.doc.method.name asked.client.bytes).get pair.key = some pair.value ↔
        FirstValue pair.key asked.client.bytes pair.value := by
    rw [ClientRequest.bodyOf_get_of_mem _ _ (asked.doc.parameters_keys pair member),
      extractedValue_eq_some short]
    exact and_iff_right (Documented.parameters_nonempty asked.fits pair member)
  have undated : asked.doc.method = .get →
      (bodyOf asked.doc.method.name asked.client.bytes).get (text "data") = none := by
    intro got
    rw [(bodyOf_get _ _).2.2.1, got]
    exact if_neg (by decide)
  constructor
  · intro accepted
    obtain ⟨request, last, same, carried, amounts, _⟩ := accepted
    cases ran.symm.trans same
    exact ⟨fun pair member => (found pair member).mp (carried pair member),
      (Documented.command_eq_action_iff keeps.nodup asked.fits carried undated).mp amounts⟩
  · intro both
    have carried (pair : RequestPair) (member : pair ∈ asked.doc.parameters) :=
      (found pair member).mpr (both.1 pair member)
    have amounts :=
      (Documented.command_eq_action_iff keeps.nodup asked.fits carried undated).mpr both.2
    refine ⟨_, parsed, ran, carried, amounts, fun response after answered => ⟨?_, ?_⟩⟩
    · have replies : Replies env machine.shelf (command (brokerRequest
          (bodyOf asked.doc.method.name asked.client.bytes)) machine.shelf) response :=
        answered_replies json keeps answered
      rw [amounts] at replies
      exact replies.not_missing
    · intro mailbox isLength
      have usable := both.2
      rw [isLength] at usable
      exact usable.elim

end Documented

def consumeAsked : DocumentedRequest (oneItem faithful).shelf where
  doc := .consume ⟨text "a", [⟨1, text "x"⟩]⟩
  fits := ⟨by decide +kernel, by decide⟩
  client :=
    { method := .get, path := text "/", version := text "HTTP/1.1", headers := [],
      parameters := [⟨text "type", brokerConsume⟩, ⟨text "queue", text "a"⟩],
      distinct := by decide +kernel, keys := by decide +kernel, values := by decide +kernel,
      plain := by decide +kernel, short := by decide +kernel }
  method_eq := rfl
  parameters_perm := .refl _

theorem documented_accepted_iff_computed : Accepted faithful (oneItem faithful) consumeAsked [] := by
  refine (documented_accepted_iff oneItem_reachable (fun _ => rfl) consumeAsked []).mpr ⟨?_, trivial⟩
  have short : consumeAsked.client.bytes.length < 65536 := by decide +kernel
  intro pair member
  rcases List.mem_cons.mp member with rfl | member
  · exact ((extractedValue_eq_some short).mp (by decide +kernel)).2
  · obtain rfl := List.mem_singleton.mp member
    exact ((extractedValue_eq_some short).mp (by decide +kernel)).2

def lengthAsked : DocumentedRequest (oneItem faithful).shelf where
  doc := .length ⟨text "a", [⟨1, text "x"⟩]⟩
  fits := ⟨by decide +kernel, by decide⟩
  client :=
    { method := .get, path := text "/", version := text "HTTP/1.1", headers := [],
      parameters := [⟨text "type", brokerLength⟩, ⟨text "queue", text "a"⟩],
      distinct := by decide +kernel, keys := by decide +kernel, values := by decide +kernel,
      plain := by decide +kernel, short := by decide +kernel }
  method_eq := rfl
  parameters_perm := .refl _

/-- The documented request for a length is answered that its data are missing. -/
theorem length_is_refused :
    Reachable faithful (oneItem faithful) ∧ ¬Accepted faithful (oneItem faithful) lengthAsked [] := by
  refine ⟨oneItem_reachable, fun accepted => ?_⟩
  obtain ⟨parsed, ran⟩ :=
    lengthAsked.client.complete.requestParse_run [] (oneItem faithful).world
  obtain ⟨request, last, same, carried, amounts, _⟩ := accepted
  cases ran.symm.trans same
  refine (Documented.command_eq_action_iff oneItem_reachable.keeps.nodup lengthAsked.fits carried
    fun _ => ?_).mp amounts
  exact (bodyOf_get _ _).2.2.1.trans (if_neg (by decide))

end Bmb
