import Bmb.Broker.Session

namespace Bmb

open Bmb.Base Bmb.Posix

/-! What exactly a command is answered with, as long as cJSON has memory. -/

def messageResponse (success : Bool) (message : Bytes) : BrokerResponse where
  code := 200
  errorMessage := none
  success := some (.bool success)
  payload := some (.object [(text "message", .string message)])

def dataResponse (data : Bytes) : BrokerResponse where
  code := 200
  errorMessage := none
  success := some (.bool true)
  payload := some (.object [(text "data", .string data)])

/-- The objects that the two listing requests put into their arrays. -/
def entryList (key : Bytes) (index : Nat) : List Bytes → List Json
  | [] => []
  | value :: rest =>
      .object [(text "index", .number index), (key, .string value)] :: entryList key (index + 1) rest

theorem entryList_getElem? (key : Bytes) (values : List Bytes) (first index : Nat) :
    (entryList key first values)[index]? = values[index]?.map fun value =>
      .object [(text "index", .number (first + index)), (key, .string value)] := by
  induction values generalizing first index with
  | nil => rfl
  | cons value rest ih =>
      cases index with
      | zero => rfl
      | succ index =>
          simp only [entryList, List.getElem?_cons_succ]
          rw [ih (first + 1) index, Nat.add_assoc, Nat.add_comm 1 index]

/-- What the two listing requests answer with. -/
def listResponse (env : BrokerEnvironment) (listKey key : Bytes) (values : List Bytes) :
    BrokerResponse :=
  dataResponse (env.jsonPrint (.object [(listKey, .array (entryList key 0 values))]))

section Responses

variable {env : BrokerEnvironment} (json : env.JsonReliable)

include json

theorem cJSONCreate_ensures (item : Json) :
    (cJSONCreate env item).Ensures (· = some item) := by
  intro world made after ran
  simp only [cJSONCreate, json world.jsonCalls, Bool.false_eq_true, if_false] at ran
  cases ran
  rfl

theorem cJSONPrint_ensures (item : Json) :
    (cJSONPrint env item).Ensures (· = some (env.jsonPrint item)) := by
  intro world made after ran
  simp only [cJSONPrint, json world.jsonCalls, Bool.false_eq_true, if_false] at ran
  cases ran
  rfl

theorem addPayloadString_ensures (fields : List (Bytes × Json)) (key : Bytes) (value : Option Bytes) :
    (addPayloadString env (some (.object fields)) key value).Ensures
      (· = some (some (.object (fields ++ (value.map fun bytes => (key, Json.string bytes)).toList)))) := by
  cases value with
  | none => exact .pure (by simp)
  | some value =>
      refine (cJSONCreate_ensures json _).bind (fun made same => ?_)
      subst same
      exact .pure rfl

theorem createResponse_ensures (success : Bool) (code : Nat) (message data : Option Bytes) :
    (createResponse env success code message data none).Ensures
      (· = { code, errorMessage := none, success := some (.bool success),
             payload := some (.object ((message.map fun bytes => (text "message", Json.string bytes)).toList ++
               (data.map fun bytes => (text "data", Json.string bytes)).toList)) }) := by
  refine (cJSONCreate_ensures json _).bind (fun made same => ?_)
  subst same
  refine (cJSONCreate_ensures json _).bind (fun payload same => ?_)
  subst same
  refine (addPayloadString_ensures json [] _ _).bind (fun withMessage same => ?_)
  subst same
  refine (addPayloadString_ensures json _ _ _).bind (fun withData same => ?_)
  subst same
  refine .pure ?_
  simp

theorem createResponse_message (success : Bool) (message : Bytes) :
    (createResponse env success 200 (some message) none none).Ensures
      (· = messageResponse success message) :=
  createResponse_ensures json success 200 (some message) none

theorem createResponse_data (data : Bytes) :
    (createResponse env true 200 none (some data) none).Ensures (· = dataResponse data) :=
  createResponse_ensures json true 200 none (some data)

theorem entryObject_ensures (index : Nat) (key value indexError valueError : Bytes) :
    (entryObject env index key (some value) indexError valueError).Ensures
      (· = .ok (.object [(text "index", .number index), (key, .string value)])) := by
  refine (cJSONCreate_ensures json _).bind (fun made same => ?_)
  subst same
  refine (cJSONCreate_ensures json _).bind (fun number same => ?_)
  subst same
  refine (cJSONCreate_ensures json _).bind (fun string same => ?_)
  subst same
  exact .pure rfl

theorem messageObjects_ensures (items : List Item) (index : Nat) :
    (Ledger.messageObjects env index items).Ensures
      (· = .ok (entryList (text "message") index (items.map Item.message))) := by
  induction items generalizing index with
  | nil => exact .pure rfl
  | cons item rest ih =>
      refine (entryObject_ensures json _ _ _ _ _).bind (fun object same => ?_)
      subst same
      refine (ih (index + 1)).bind (fun objects same => ?_)
      subst same
      exact .pure rfl

theorem nameObjects_ensures (names : List Bytes) (index : Nat) :
    (Broker.nameObjects env index names).Ensures (· = .ok (entryList (text "name") index names)) := by
  induction names generalizing index with
  | nil => exact .pure rfl
  | cons name rest ih =>
      refine (entryObject_ensures json _ _ _ _ _).bind (fun object same => ?_)
      subst same
      refine (ih (index + 1)).bind (fun objects same => ?_)
      subst same
      exact .pure rfl

theorem printArray_ensures (listKey key printError : Bytes) (values : List Bytes) :
    (Broker.printArray env listKey printError (.ok (entryList key 0 values))).Ensures
      (· = listResponse env listKey key values) := by
  refine (cJSONPrint_ensures json _).bind (fun printed same => ?_)
  subst same
  refine .after (fun _ => (createResponse_data json _).bind (fun res same => ?_))
  subst same
  exact .after (fun _ => .pure rfl)

theorem itemsResponse_ensures (items : List Item) :
    (Ledger.itemsResponse env items).Ensures
      (· = listResponse env (text "nodes") (text "message") (items.map Item.message)) := by
  refine (cJSONCreate_ensures json _).bind (fun object same => ?_)
  subst same
  refine (cJSONCreate_ensures json _).bind (fun array same => ?_)
  subst same
  refine (messageObjects_ensures json items 0).bind (fun objects same => ?_)
  subst same
  exact printArray_ensures json _ _ _ _

theorem listNames_ensures (names : List Bytes) :
    (Ledger.listNames env names).Ensures
      (· = listResponse env (text "queueNames") (text "name") names) := by
  refine .after (fun _ => ?_)
  have listed : (Broker.namesResponse env names).Ensures
      (· = listResponse env (text "queueNames") (text "name") names) := by
    refine (cJSONCreate_ensures json _).bind (fun object same => ?_)
    subst same
    refine (cJSONCreate_ensures json _).bind (fun array same => ?_)
    subst same
    refine (nameObjects_ensures json names 0).bind (fun objects same => ?_)
    subst same
    exact printArray_ensures json _ _ _ _
  refine listed.bind (fun res same => ?_)
  subst same
  exact .after (fun _ => .pure rfl)

theorem respondCopied_ensures (data : Bytes) :
    (Ledger.respondCopied env data).Ensures (· = dataResponse data) := by
  refine .after (fun _ => (createResponse_data json data).bind (fun res same => ?_))
  subst same
  exact .after (fun _ => .pure rfl)

theorem deliver_ensures (item : Item) : (Ledger.deliver env item).Ensures
    fun response => ∃ time,
      response = dataResponse (Broker.decodedMessage item.message (env.residue time)) := by
  refine .after (fun world => .after (fun _ => .after (fun _ => ?_)))
  refine (createResponse_data json _).bind (fun res same => ?_)
  subst same
  exact .after (fun _ => .pure ⟨_, rfl⟩)

end Responses

/-! ## Commands -/

/-- A command and its answer. -/
inductive Replies (env : BrokerEnvironment) (shelf : Shelf Bytes Item) :
    Command → BrokerResponse → Prop where
  | rejected (message : Bytes) : Replies env shelf (.rejected message) (messageResponse false message)
  | empty (key : Bytes) :
      Replies env shelf (.consume ⟨key, []⟩) (messageResponse false (text "Queue is empty."))
  | consumed (key : Bytes) (item : Item) (rest : List Item) (time : Nat) :
      Replies env shelf (.consume ⟨key, item :: rest⟩)
        (dataResponse (Broker.decodedMessage item.message (env.residue time)))
  | produced (mailbox : Mailbox) (data : Bytes) :
      Replies env shelf (.produce mailbox data) (messageResponse true (text "Message produced."))
  | length (mailbox : Mailbox) :
      Replies env shelf (.length mailbox) (dataResponse (intToString mailbox.items.length))
  | got {mailbox : Mailbox} {index : Nat} {item : Item}
      (found : mailbox.items.reverse[index]? = some item) :
      Replies env shelf (.get mailbox index) (dataResponse item.message)
  | beyond {mailbox : Mailbox} {index : Nat} (absent : mailbox.items.reverse[index]? = none) :
      Replies env shelf (.get mailbox index)
        (messageResponse false (text "Node index out of range."))
  | listed (mailbox : Mailbox) :
      Replies env shelf (.getAll mailbox)
        (listResponse env (text "nodes") (text "message") (mailbox.items.reverse.map Item.message))
  | named : Replies env shelf .getAllQueueNames
      (listResponse env (text "queueNames") (text "name") shelf.keys)
  | known {name : Bytes} (member : name ∈ shelf.keys) :
      Replies env shelf (.addQueue name)
        (messageResponse false (text "Failed: Queue with given name already exists."))
  | added (name : Bytes) :
      Replies env shelf (.addQueue name) (messageResponse true (text "Queue created."))
  | unadded (name : Bytes) :
      Replies env shelf (.addQueue name) (messageResponse false (text "Failed to create queue."))
  | removed (mailbox : Mailbox) :
      Replies env shelf (.removeQueue mailbox) (messageResponse true (text "Queue removed."))
  | unremoved (mailbox : Mailbox) :
      Replies env shelf (.removeQueue mailbox)
        (messageResponse false (text "Failed to remove queue."))

namespace Ledger

theorem onWorld_ensures {α : Type} {post : α → Prop} {program : Program World α}
    (ensures : program.Ensures post) : (onWorld program).Ensures post :=
  ensures.zoom

variable {env : BrokerEnvironment} (json : env.JsonReliable)

include json

theorem respond_ensures (success : Bool) (message : Bytes) :
    (respond env success 200 (some message) none none).Ensures (· = messageResponse success message) :=
  onWorld_ensures (createResponse_message json success message)

theorem respond_replies {shelf : Shelf Bytes Item} {command : Command} {success : Bool}
    {message : Bytes} (replies : Replies env shelf command (messageResponse success message)) :
    (respond env success 200 (some message) none none).Ensures (Replies env shelf command) := by
  intro ledger response after ran
  cases respond_ensures json _ _ _ _ _ ran
  exact replies

theorem consume_ensures (mailbox : Mailbox) (shelf : Shelf Bytes Item) :
    (consume env mailbox).Ensures (Replies env shelf (.consume mailbox)) := by
  obtain ⟨key, items⟩ := mailbox
  cases items with
  | nil =>
      exact respond_replies json (.empty key)
  | cons item rest =>
      refine .after (fun pres => ?_)
      dsimp only
      split
      · refine .after (fun _ => ?_)
        intro ledger response after ran
        obtain ⟨time, rfl⟩ := onWorld_ensures (deliver_ensures json item) _ _ _ ran
        exact .consumed key item rest time
      · exact .stop _

theorem produce_ensures (mailbox : Mailbox) (data : Bytes) (shelf : Shelf Bytes Item) :
    (produce env mailbox data).Ensures (Replies env shelf (.produce mailbox data)) := by
  have told : (respond env true 200 (some (text "Message produced.")) none none).Ensures
      (Replies env shelf (.produce mailbox data)) := respond_replies json (.produced mailbox data)
  refine .after (fun id => .after (fun stored => ?_))
  dsimp only
  split
  · exact .after (fun _ => told)
  · exact told

theorem length_ensures (mailbox : Mailbox) :
    (length env mailbox).Ensures (· = dataResponse (intToString mailbox.items.length)) := by
  refine onWorld_ensures (.after (fun _ => .after (fun _ => .after (fun _ => ?_))))
  refine (createResponse_data json _).bind (fun res same => ?_)
  subst same
  exact .after (fun _ => .pure rfl)

theorem get_ensures (mailbox : Mailbox) (index : Nat) (shelf : Shelf Bytes Item) :
    (get env mailbox index).Ensures (Replies env shelf (.get mailbox index)) := by
  intro ledger response after ran
  cases found : mailbox.items.reverse[index]? with
  | some item =>
      simp only [get, found] at ran
      cases onWorld_ensures (respondCopied_ensures json item.message) _ _ _ ran
      exact .got found
  | none =>
      simp only [get, found] at ran
      exact respond_replies json (.beyond found) _ _ _ ran

theorem addQueue_replies {name : Bytes} {ledger after : Ledger} {response : BrokerResponse}
    (ran : addQueue env name ledger = .returned response after) :
    Replies env ledger.shelf (.addQueue name) response := by
  by_cases member : name ∈ ledger.shelf.keys
  · simp only [addQueue, Program.run_bind, Program.run_read, if_pos member] at ran
    exact respond_replies json (.known member) _ _ _ ran
  · have tried : Program.Ensures (Replies env ledger.shelf (.addQueue name))
        (addFresh env name ledger.shelf) := by
      refine .after (fun pres => ?_)
      dsimp only
      split
      · split
        · exact .after (fun _ => .after (fun _ => respond_replies json (.added name)))
        · exact .after (fun _ => respond_replies json (.added name))
      · exact respond_replies json (.unadded name)
    rw [addQueue_fresh env member] at ran
    exact tried _ _ _ ran

theorem removeQueue_ensures (mailbox : Mailbox) (shelf : Shelf Bytes Item) :
    (removeQueue env mailbox).Ensures (Replies env shelf (.removeQueue mailbox)) := by
  refine .after (fun pres => ?_)
  split
  · refine .after (fun _ => .after (fun _ => .after (fun _ => ?_)))
    exact respond_replies json (.removed mailbox)
  · exact .after (fun _ => respond_replies json (.unremoved mailbox))

/-- What a command is answered with is its reply. -/
theorem execute_replies {command : Command} {ledger after : Ledger} {response : BrokerResponse}
    (ran : execute env command ledger = .returned (some response) after) :
    Replies env ledger.shelf command response := by
  have via {program : Program Ledger BrokerResponse}
      (replies : ∀ result, program ledger = .returned result after →
        Replies env ledger.shelf command result)
      (mapped : (some <$> program) ledger = .returned (some response) after) :
      Replies env ledger.shelf command response := by
    obtain ⟨result, ran, same⟩ := Program.map_eq_returned mapped
    cases same
    exact replies _ ran
  cases command with
  | untyped => cases ran
  | unknown => cases ran
  | rejected message =>
      exact via (fun _ done => respond_replies json (.rejected message) _ _ _ done) ran
  | consume mailbox => exact via (fun _ done => consume_ensures json mailbox _ _ _ _ done) ran
  | produce mailbox data =>
      exact via (fun _ done => produce_ensures json mailbox data _ _ _ _ done) ran
  | length mailbox =>
      refine via (fun result done => ?_) ran
      cases length_ensures json mailbox _ _ _ done
      exact .length mailbox
  | get mailbox index => exact via (fun _ done => get_ensures json mailbox index _ _ _ _ done) ran
  | getAll mailbox =>
      refine via (fun result done => ?_) ran
      cases onWorld_ensures (itemsResponse_ensures json mailbox.items.reverse) _ _ _ done
      exact .listed mailbox
  | addQueue name => exact via (fun _ done => addQueue_replies json done) ran
  | getAllQueueNames =>
      refine via (fun result done => ?_) ran
      cases onWorld_ensures (listNames_ensures json ledger.shelf.keys) _ _ _ done
      exact .named
  | removeQueue mailbox => exact via (fun _ done => removeQueue_ensures json mailbox _ _ _ _ done) ran

end Ledger

theorem answered_replies {env : BrokerEnvironment} {req : BrokerRequest} {machine after : Machine}
    {response : BrokerResponse} (json : env.JsonReliable) (keeps : machine.Keeps machine.shelf)
    (ran : brokerDispatch env req machine = .returned (some response) after) :
    Replies env machine.shelf (command req machine.shelf) response := by
  have matching := brokerDispatch_matches env req
    (show Tracks machine ⟨machine.shelf, machine.world⟩ from ⟨keeps, rfl⟩)
  rw [ran] at matching
  obtain ⟨image, dispatched, _⟩ := matching.of_returned
  exact Ledger.execute_replies json dispatched

end Bmb
