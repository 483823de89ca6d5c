import Bmb.Http.Encoding
import Bmb.Server.Accounts

namespace Bmb

open Bmb.Base Bmb.Base.Program Bmb.Http Bmb.Posix

/-! Clients that pass messages of any bytes through the server. -/

/-- What a client wants. -/
inductive Errand where
  | add (name : Bytes)
  | put (name message : Bytes)
  | take (name : Bytes)
  | count (name : Bytes)
  | remove (name : Bytes)

namespace Errand

/-- What comes of an errand when the queues hold these messages. -/
def done (shelf : Shelf Bytes Bytes) : Errand → Service.Answer × Shelf Bytes Bytes
  | add name =>
      if name ∈ shelf.keys then
        (.told false (text "Failed: Queue with given name already exists."), shelf)
      else (.told true (text "Queue created."), shelf.create name)
  | put name message =>
      if name ∈ shelf.keys then (.told true (text "Message produced."), shelf.push name message)
      else (.told false (text "Queue not found."), shelf)
  | take name =>
      if name ∈ shelf.keys then
        match Shelf.contents id name shelf with
        | [] => (.told false (text "Queue is empty."), shelf)
        | oldest :: _ => (.gave oldest, shelf.pop name)
      else (.told false (text "Queue not found."), shelf)
  | count name =>
      if name ∈ shelf.keys then (.gave (decimal (Shelf.contents id name shelf).length), shelf)
      else (.told false (text "Queue not found."), shelf)
  | remove name =>
      if name ∈ shelf.keys then (.told true (text "Queue removed."), shelf.remove name)
      else (.told false (text "Queue not found."), shelf)

/-- The parameters of an errand.  A message can be written in any way that stands for it, and
counting does not go without data, whatever it is. -/
inductive Asked (given : Bytes → Option Bytes) : Errand → Prop where
  | add {name : Bytes} (typed : given (text "type") = some brokerAddQueue)
      (data : given (text "data") = some name) (single : IsComponent name) : Asked given (.add name)
  | put {name message encoded : Bytes} (typed : given (text "type") = some brokerProduce)
      (queue : given (text "queue") = some name) (data : given (text "data") = some encoded)
      (encodes : Encodes message encoded) (plain : 0 ∉ message) : Asked given (.put name message)
  | take {name : Bytes} (typed : given (text "type") = some brokerConsume)
      (queue : given (text "queue") = some name) : Asked given (.take name)
  | count {name : Bytes} (typed : given (text "type") = some brokerLength)
      (queue : given (text "queue") = some name) (data : given (text "data") ≠ none) :
      Asked given (.count name)
  | remove {name : Bytes} (typed : given (text "type") = some brokerRemoveQueue)
      (queue : given (text "queue") = some name) : Asked given (.remove name)

end Errand

/-! ## Encoded queues -/

/-- Queues of encoded messages, and what they stand for. -/
structure Translates (encoded plain : Shelf Bytes Bytes) : Prop where
  whole : ∀ queue ∈ encoded, ∀ message ∈ queue.items, WellEscaped message
  shown : encoded.seen decoded = plain

namespace Translates

variable {encoded plain : Shelf Bytes Bytes} {name message data : Bytes}

theorem known (translates : Translates encoded plain) : name ∈ plain.keys ↔ name ∈ encoded.keys := by
  rw [← translates.shown, Shelf.keys_seen]

theorem contents (translates : Translates encoded plain) :
    Shelf.contents id name plain = (Shelf.contents id name encoded).map decoded := by
  rw [← translates.shown, Shelf.contents_seen, Shelf.contents_map]

theorem create (translates : Translates encoded plain) :
    Translates (encoded.create name) (plain.create name) where
  whole := by
    intro queue member
    rcases List.mem_append.mp member with old | new
    · exact translates.whole queue old
    · cases List.mem_singleton.mp new
      exact fun message inside => absurd inside List.not_mem_nil
  shown := by rw [Shelf.seen_create, translates.shown]

theorem push (translates : Translates encoded plain) (escaped : WellEscaped data)
    (means : decoded data = message) :
    Translates (encoded.push name data) (plain.push name message) where
  whole := by
    intro queue member other inside
    rcases Shelf.mem_update.mp member with ⟨_, old⟩ | ⟨_, items, old, changed⟩
    · exact translates.whole queue old other inside
    · rw [changed] at inside
      rcases List.mem_append.mp inside with before | last
      · exact translates.whole _ old other before
      · cases List.mem_singleton.mp last
        exact escaped
  shown := by rw [Shelf.seen_push, translates.shown, means]

theorem pop (translates : Translates encoded plain) : Translates (encoded.pop name) (plain.pop name) where
  whole := by
    intro queue member other inside
    rcases Shelf.mem_update.mp member with ⟨_, old⟩ | ⟨_, items, old, changed⟩
    · exact translates.whole queue old other inside
    · rw [changed] at inside
      exact translates.whole _ old other (List.mem_of_mem_tail inside)
  shown := by rw [Shelf.seen_pop, translates.shown]

theorem remove (translates : Translates encoded plain) :
    Translates (encoded.remove name) (plain.remove name) where
  whole := fun queue member => translates.whole queue (List.mem_filter.mp member).1
  shown := by rw [Shelf.seen_remove, translates.shown]

end Translates

/-! ## Requests -/

section Requests

variable {given : Bytes → Option Bytes} {errand : Errand} {req : BrokerRequest}
  {encoded plain : Shelf Bytes Bytes}

/-- A request with the parameters of a client. -/
structure Carried (given : Bytes → Option Bytes) (req : BrokerRequest) : Prop where
  filled : ∀ key, given key ≠ some []
  type : req.type = given (text "type")
  queue : req.queueName = given (text "queue")
  data : req.data = given (text "data")

theorem Carried.named (carried : Carried given req) {name : Bytes}
    (queue : given (text "queue") = some name) : req.queueName = some name ∧ name ≠ [] :=
  ⟨carried.queue.trans queue, fun empty => carried.filled _ (by rw [queue, empty])⟩

theorem Carried.with_data (carried : Carried given req) {data : Bytes}
    (coded : given (text "data") = some data) : req.data.getD [] ≠ [] := by
  rw [carried.data, coded, Option.getD_some]
  exact fun empty => carried.filled _ (by rw [coded, empty])

/-- A request with all that it needs is turned down only if there is no such queue. -/
theorem serve_named {residue name type : Bytes} {shelf : Shelf Bytes Bytes}
    (typed : req.type = some type) (needed : type ∈ needsQueue) (index : type ∉ needsIndex)
    (named : req.queueName = some name ∧ name ≠ [])
    (filled : type ∈ needsData → req.data.getD [] ≠ []) :
    Service.serve residue req shelf = if name ∈ shelf.keys then Service.grant residue req shelf
      else (.told false (text "Queue not found."), shelf) := by
  have data : ¬(type ∈ needsData ∧ req.data.getD [] = []) := fun both => filled both.1 both.2
  have refusal : Service.refusal req shelf =
      if name ∈ shelf.keys then none else some (text "Queue not found.") := by
    simp only [Service.refusal, typed, Option.getD_some, if_neg data, index, false_and, if_false,
      if_pos needed, named.1, if_neg named.2]
  rw [Service.serve, refusal]
  by_cases known : name ∈ shelf.keys
  · rw [if_pos known, if_pos known]
  · rw [if_neg known, if_neg known]

/-- Both sides look for the same queue. -/
theorem Translates.named {name : Bytes} {granted did : Service.Answer × Shelf Bytes Bytes}
    (translates : Translates encoded plain)
    (both : ∃ answer later after, granted = (answer, later) ∧ did = (answer, after) ∧
      Translates later after) :
    ∃ answer later after,
      (if name ∈ encoded.keys then granted else (.told false (text "Queue not found."), encoded)) =
        (answer, later) ∧
      (if name ∈ plain.keys then did else (.told false (text "Queue not found."), plain)) =
        (answer, after) ∧ Translates later after := by
  by_cases known : name ∈ encoded.keys
  · rw [if_pos known, if_pos (translates.known.mpr known)]
    exact both
  · rw [if_neg known, if_neg (mt translates.known.mp known)]
    exact ⟨_, _, _, rfl, rfl, translates⟩

/-- Serving a request on encoded messages is doing the errand on what they stand for. -/
theorem Errand.Asked.serve (asked : errand.Asked given) (carried : Carried given req)
    (translates : Translates encoded plain) (residue : Bytes) :
    ∃ answer later after, Service.serve residue req encoded = (answer, later) ∧
      errand.done plain = (answer, after) ∧ Translates later after := by
  cases asked with
  | @add name typed data single =>
      have type := carried.type.trans typed
      have given := carried.data.trans data
      have nonempty := carried.with_data data
      have granted : Service.serve residue req encoded = Service.addQueue name encoded := by
        have refusal : Service.refusal req encoded = none := by
          simp [Service.refusal, type, nonempty,
            show brokerAddQueue ∉ needsIndex by decide, show brokerAddQueue ∉ needsQueue by decide]
        rw [Service.serve, refusal]
        dsimp only
        rw [Service.grant_addQueue type, given, Option.getD_some]
      rw [granted, Service.addQueue, Errand.done]
      by_cases known : name ∈ encoded.keys
      · rw [if_pos known, if_pos (translates.known.mpr known)]
        exact ⟨_, _, _, rfl, rfl, translates⟩
      · rw [if_neg known, if_neg (mt translates.known.mp known)]
        exact ⟨_, _, _, rfl, rfl, translates.create⟩
  | @put name message data typed queue coded encodes plainly =>
      have type := carried.type.trans typed
      have given := carried.data.trans coded
      have named := carried.named queue
      have means : decoded data = message := by
        rw [decoded, encodes.coded.decodedMessage_eq, cString_of_no_nul plainly]
      rw [serve_named type (by decide) (by decide) named fun _ => carried.with_data coded,
        Service.grant_produce type, named.1, given]
      exact translates.named ⟨_, _, _, rfl, rfl, translates.push encodes.coded.wellEscaped means⟩
  | @take name typed queue =>
      have type := carried.type.trans typed
      have named := carried.named queue
      rw [serve_named type (by decide) (by decide) named fun needs => absurd needs (by decide),
        Service.grant_consume type, named.1, Option.getD_some]
      refine translates.named ?_
      rw [Service.consume, translates.contents]
      cases some : Shelf.contents id name encoded with
      | nil => exact ⟨_, _, _, rfl, rfl, translates⟩
      | cons oldest others =>
          -- The message is decoded as a whole, so that nothing of the stack is handed out.
          obtain ⟨message, rest, member, rfl⟩ := Shelf.exists_of_contents some
          have whole := translates.whole _ member message List.mem_cons_self
          have same : Broker.decodedMessage message residue = decoded message :=
            whole.decodedMessage_eq residue
          dsimp only [id_eq, List.map_cons]
          rw [same]
          exact ⟨_, _, _, rfl, rfl, translates.pop⟩
  | @count name typed queue data =>
      have type := carried.type.trans typed
      have named := carried.named queue
      obtain ⟨other, coded⟩ := Option.ne_none_iff_exists'.mp data
      rw [serve_named type (by decide) (by decide) named fun _ => carried.with_data coded,
        Service.grant_length type, named.1, Option.getD_some]
      refine translates.named ?_
      rw [Service.length, translates.contents, List.length_map]
      exact ⟨_, _, _, rfl, rfl, translates⟩
  | @remove name typed queue =>
      have type := carried.type.trans typed
      have named := carried.named queue
      rw [serve_named type (by decide) (by decide) named fun needs => absurd needs (by decide),
        Service.grant_removeQueue type, named.1, Option.getD_some]
      exact translates.named ⟨_, _, _, rfl, rfl, translates.remove⟩

theorem Errand.Asked.proper (asked : errand.Asked given) (carried : Carried given req) :
    Service.Proper req := by
  have known {type : Bytes} (typed : given (text "type") = some type) (member : type ∈ recognised) :
      ∃ type ∈ recognised, req.type = some type := ⟨type, member, carried.type.trans typed⟩
  have other {type : Bytes} (typed : given (text "type") = some type) (not : type ≠ brokerAddQueue)
      (name : Bytes) (adds : req.type = some brokerAddQueue) : req.data = some name → name ≠ [] →
      IsComponent name := by
    rw [carried.type, typed, Option.some.injEq] at adds
    exact absurd adds not
  cases asked with
  | add typed data single =>
      refine ⟨known typed (by decide), fun name _ sent _ => ?_⟩
      rw [carried.data, data, Option.some.injEq] at sent
      exact sent ▸ single
  | put typed | take typed | count typed | remove typed =>
      exact ⟨known typed (by decide), other typed (by decide)⟩

end Requests

/-! ## Connections -/

namespace Server

/-- A connection of a client with an errand, on a stack that ends its request. -/
structure Carries (connection : Connection) (errand : Errand) : Prop where
  sent : ∃ client : ClientRequest, client.Legible ∧ errand.Asked client.visible ∧
    connection.arrival.bytes = client.bytes ∧ connection.stack.msg[client.bytes.length]? = some 0

variable {connection : Connection} {errand : Errand}

theorem Carries.request (carries : Carries connection errand) : ∃ req given,
    connection.request = .ok (some req) ∧ errand.Asked given ∧ Carried given (brokerRequest req.body) := by
  obtain ⟨client, legible, asked, arrived, ended⟩ := carries.sent
  obtain ⟨inside, nul⟩ := List.getElem?_eq_some_iff.mp ended
  have memory : received connection.arrival.bytes connection.stack = client.bytes ++
      0 :: (connection.stack.msg.drop (client.bytes.length + 1) ++ connection.stack.behind) := by
    rw [received, arrived, List.drop_eq_getElem_cons inside, nul]
    simp
  refine ⟨⟨client.method.name, bodyOf client.method.name client.bytes⟩, client.visible, ?_, asked, ?_⟩
  · have method : extractedMethod (client.bytes ++
        0 :: (connection.stack.msg.drop (client.bytes.length + 1) ++ connection.stack.behind)) =
          .ok (some client.method.name) :=
      client.complete.extractedMethod List.mem_cons_self (by simp [cString])
    rw [Connection.request, memory]
    rw [method, cString_append_nul (show 0 ∉ client.bytes from client.plain)]
    rfl
  · exact ⟨client.visible_ne_empty, legible.get (by decide), legible.get (by decide),
      legible.get (by decide)⟩

theorem Carries.orderly (carries : Carries connection errand) : Orderly connection := by
  obtain ⟨req, given, asked, wants, carried⟩ := carries.request
  refine ⟨⟨_, asked⟩, fun parsed again => ?_⟩
  rw [asked] at again
  cases again
  exact wants.proper carried

/-! ## Writing errands -/

end Server

namespace Errand

def method : Errand → Method
  | add _ | put _ _ | count _ => .post
  | take _ | remove _ => .get

def parameters : Errand → List RequestPair
  | add name => [⟨text "type", brokerAddQueue⟩, ⟨text "data", name⟩]
  | put name message => [⟨text "type", brokerProduce⟩, ⟨text "queue", name⟩,
      ⟨text "data", percentEncode message⟩]
  | take name => [⟨text "type", brokerConsume⟩, ⟨text "queue", name⟩]
  | count name => [⟨text "type", brokerLength⟩, ⟨text "queue", name⟩, ⟨text "data", text "1"⟩]
  | remove name => [⟨text "type", brokerRemoveQueue⟩, ⟨text "queue", name⟩]

def form (errand : Errand) : Form := bareForm errand.method errand.parameters

/-- An errand with a name that needs no escapes, and with any message that is a string. -/
def Writable : Errand → Prop
  | add name => name ≠ [] ∧ (∀ byte ∈ name, isSafe byte = true) ∧ IsComponent name
  | put name message => name ≠ [] ∧ (∀ byte ∈ name, isSafe byte = true) ∧ message ≠ [] ∧ 0 ∉ message
  | take name | count name | remove name => name ≠ [] ∧ ∀ byte ∈ name, isSafe byte = true

variable {errand : Errand}

theorem Writable.written (writable : errand.Writable) : ∀ pair ∈ errand.parameters, IsWritten pair := by
  have type {word : Bytes} (known : word ∈ recognised) : IsWritten ⟨text "type", word⟩ :=
    ⟨(by decide : text "type" ∈ _),
      (by decide +kernel : ∀ type ∈ recognised, ∀ byte ∈ type, isSafe byte = true) word known⟩
  have queue {name : Bytes} (safe : ∀ byte ∈ name, isSafe byte = true) : IsWritten ⟨text "queue", name⟩ :=
    ⟨(by decide : text "queue" ∈ _), safe⟩
  have data {value : Bytes} (safe : ∀ byte ∈ value, isSafe byte = true) : IsWritten ⟨text "data", value⟩ :=
    ⟨(by decide : text "data" ∈ _), safe⟩
  cases errand with
  | add name =>
      simp only [parameters, List.forall_mem_cons]
      exact ⟨type (by decide), data writable.2.1, by simp⟩
  | put name message =>
      simp only [parameters, List.forall_mem_cons]
      exact ⟨type (by decide), queue writable.2.1, data (percentEncode_safe message), by simp⟩
  | take name =>
      simp only [parameters, List.forall_mem_cons]
      exact ⟨type (by decide), queue writable.2, by simp⟩
  | count name =>
      simp only [parameters, List.forall_mem_cons]
      exact ⟨type (by decide), queue writable.2, data (by decide +kernel), by simp⟩
  | remove name =>
      simp only [parameters, List.forall_mem_cons]
      exact ⟨type (by decide), queue writable.2, by simp⟩

/-- A client with the parameters of an errand asks for it. -/
theorem Writable.asked (writable : errand.Writable) {client : ClientRequest}
    (written : client.toForm = errand.form) : errand.Asked client.visible := by
  have typed {word : Bytes} (known : word ∈ recognised)
      (found : (errand.parameters.find? fun pair => pair.key = text "type") =
        some ⟨text "type", word⟩) :
      client.visible (text "type") = some word := by
    refine visible_of_bareForm written ?_ found ?_
    · cases errand.method <;> decide
    · exact (by decide : ∀ type ∈ recognised, type ≠ []) word known
  have named {name : Bytes} (filled : name ≠ [])
      (found : (errand.parameters.find? fun pair => pair.key = text "queue") = some ⟨text "queue", name⟩) :
      client.visible (text "queue") = some name := by
    refine visible_of_bareForm written ?_ found filled
    cases errand.method <;> decide
  have given {data : Bytes} (posted : errand.method = .post) (filled : data ≠ [])
      (found : (errand.parameters.find? fun pair => pair.key = text "data") = some ⟨text "data", data⟩) :
      client.visible (text "data") = some data := by
    refine visible_of_bareForm written ?_ found filled
    rw [posted]
    decide
  cases errand with
  | add name =>
      exact .add (typed (by decide) rfl) (given rfl writable.1 rfl) writable.2.2
  | put name message =>
      exact .put (typed (by decide) rfl) (named writable.1 rfl)
        (given rfl (percentEncode_ne_nil writable.2.2.1) rfl) (percentEncode_encodes message)
        writable.2.2.2
  | take name => exact .take (typed (by decide) rfl) (named writable.1 rfl)
  | count name =>
      have other : client.visible (text "data") = some (text "1") := given rfl (by decide) rfl
      exact .count (typed (by decide) rfl) (named writable.1 rfl) (by simp [other])
  | remove name => exact .remove (typed (by decide) rfl) (named writable.1 rfl)

end Errand

namespace Server

variable {env : ServerEnvironment} {tree : FileTree} {first : Machine} {accepted : Nat}
  {events : List (Event Connection)} {outputs : List (Nat × Option Bytes)}
  {shelf plain : Shelf Bytes Bytes}
  {process : Process Machine Connection (Option Request × Response) (Option Request × Response)
    (Option Bytes)}

end Server

end Bmb
