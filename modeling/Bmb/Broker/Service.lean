import Bmb.Broker.Numbering
import Bmb.Broker.Responses

namespace Bmb.Service

open Bmb.Base Bmb.Posix

/-! The broker as its clients see it: named queues of messages, without ids, files and
pointers, and an answer to every request. -/

inductive Answer where
  | told (success : Bool) (message : Bytes)
  | gave (data : Bytes)
  | listed (listKey key : Bytes) (values : List Bytes)
deriving DecidableEq

/-- The response that an answer is put into. -/
def Answer.response (env : BrokerEnvironment) : Answer → BrokerResponse
  | .told success message => messageResponse success message
  | .gave data => dataResponse data
  | .listed listKey key values => listResponse env listKey key values

/-- Why a request is turned down; of several reasons the first one is told. -/
def refusal (req : BrokerRequest) (shelf : Shelf Bytes Bytes) : Option Bytes :=
  let type := req.type.getD []
  if type ∈ needsData ∧ req.data.getD [] = [] then some (text "Request is missing the data.")
  else if type ∈ needsIndex ∧ req.index = 0 then some (text "Request is missing an index.")
  else if type ∈ needsQueue then
    match req.queueName with
    | none => some (text "Request is missing the queue name.")
    | some name =>
        if name = [] then some (text "Empty queue name given.")
        else if name ∈ shelf.keys then none
        else some (text "Queue not found.")
  else none

section Actions

variable (residue name data : Bytes) (index : Nat) (shelf : Shelf Bytes Bytes)

/-- What is behind a broken escape in a message that is consumed comes from `residue`. -/
def consume : Answer × Shelf Bytes Bytes :=
  match Shelf.contents id name shelf with
  | [] => (.told false (text "Queue is empty."), shelf)
  | oldest :: _ => (.gave (Broker.decodedMessage oldest residue), shelf.pop name)

def produce : Answer × Shelf Bytes Bytes :=
  (.told true (text "Message produced."), shelf.push name data)

def length : Answer × Shelf Bytes Bytes :=
  (.gave (decimal (Shelf.contents id name shelf).length), shelf)

def get : Answer × Shelf Bytes Bytes :=
  match (Shelf.contents id name shelf).reverse[index]? with
  | some message => (.gave message, shelf)
  | none => (.told false (text "Node index out of range."), shelf)

def getAll : Answer × Shelf Bytes Bytes :=
  (.listed (text "nodes") (text "message") (Shelf.contents id name shelf).reverse, shelf)

def addQueue : Answer × Shelf Bytes Bytes :=
  if data ∈ shelf.keys then
    (.told false (text "Failed: Queue with given name already exists."), shelf)
  else (.told true (text "Queue created."), shelf.create data)

def getAllQueueNames : Answer × Shelf Bytes Bytes :=
  (.listed (text "queueNames") (text "name") shelf.keys, shelf)

def removeQueue : Answer × Shelf Bytes Bytes :=
  (.told true (text "Queue removed."), shelf.remove name)

end Actions

/-- What is done for a request that is not turned down. -/
def grant (residue : Bytes) (req : BrokerRequest) (shelf : Shelf Bytes Bytes) :
    Answer × Shelf Bytes Bytes :=
  let type := req.type.getD []
  let name := req.queueName.getD []
  let data := req.data.getD []
  if type = brokerConsume then consume residue name shelf
  else if type = brokerProduce then produce name data shelf
  else if type = brokerLength then length name shelf
  else if type = brokerGet then get name req.index shelf
  else if type = brokerGetAll then getAll name shelf
  else if type = brokerAddQueue then addQueue data shelf
  else if type = brokerGetAllQueueNames then getAllQueueNames shelf
  else removeQueue name shelf

section Granted

variable {residue : Bytes} {req : BrokerRequest} {shelf : Shelf Bytes Bytes}

theorem grant_consume (typed : req.type = some brokerConsume) :
    grant residue req shelf = consume residue (req.queueName.getD []) shelf := by
  rw [grant, typed]
  rfl

theorem grant_produce (typed : req.type = some brokerProduce) :
    grant residue req shelf = produce (req.queueName.getD []) (req.data.getD []) shelf := by
  rw [grant, typed]
  rfl

theorem grant_length (typed : req.type = some brokerLength) :
    grant residue req shelf = length (req.queueName.getD []) shelf := by
  rw [grant, typed]
  rfl

theorem grant_get (typed : req.type = some brokerGet) :
    grant residue req shelf = get (req.queueName.getD []) req.index shelf := by
  rw [grant, typed]
  rfl

theorem grant_getAll (typed : req.type = some brokerGetAll) :
    grant residue req shelf = getAll (req.queueName.getD []) shelf := by
  rw [grant, typed]
  rfl

theorem grant_addQueue (typed : req.type = some brokerAddQueue) :
    grant residue req shelf = addQueue (req.data.getD []) shelf := by
  rw [grant, typed]
  rfl

theorem grant_getAllQueueNames (typed : req.type = some brokerGetAllQueueNames) :
    grant residue req shelf = getAllQueueNames shelf := by
  rw [grant, typed]
  rfl

theorem grant_removeQueue (typed : req.type = some brokerRemoveQueue) :
    grant residue req shelf = removeQueue (req.queueName.getD []) shelf := by
  rw [grant, typed]
  rfl

end Granted

def serve (residue : Bytes) (req : BrokerRequest) (shelf : Shelf Bytes Bytes) :
    Answer × Shelf Bytes Bytes :=
  match refusal req shelf with
  | some reason => (.told false reason, shelf)
  | none => grant residue req shelf

/-! ## Decoded requests -/

/-- What a command comes to, if it is one that is answered. -/
def outcome (residue : Bytes) (shelf : Shelf Bytes Bytes) : Command → Option (Answer × Shelf Bytes Bytes)
  | .untyped | .unknown => none
  | .rejected message => some (.told false message, shelf)
  | .consume ⟨_, []⟩ => some (.told false (text "Queue is empty."), shelf)
  | .consume ⟨key, item :: _⟩ =>
      some (.gave (Broker.decodedMessage item.message residue), shelf.pop key)
  | .produce mailbox data => some (.told true (text "Message produced."), shelf.push mailbox.key data)
  | .length mailbox => some (.gave (decimal mailbox.items.length), shelf)
  | .get mailbox index =>
      match mailbox.items.reverse[index]? with
      | some item => some (.gave item.message, shelf)
      | none => some (.told false (text "Node index out of range."), shelf)
  | .getAll mailbox =>
      some (.listed (text "nodes") (text "message") (mailbox.items.reverse.map Item.message), shelf)
  | .addQueue name =>
      if name ∈ shelf.keys then
        some (.told false (text "Failed: Queue with given name already exists."), shelf)
      else some (.told true (text "Queue created."), shelf.create name)
  | .getAllQueueNames => some (.listed (text "queueNames") (text "name") shelf.keys, shelf)
  | .removeQueue mailbox => some (.told true (text "Queue removed."), shelf.remove mailbox.key)

section Decoded

variable {req : BrokerRequest} {type : Bytes} {shelf : Shelf Bytes Item} {residue : Bytes}

/-- The checks of the broker, of which the last failing one is told, are those of the service. -/
theorem refusal_eq (typed : req.type = some type) :
    refusal req (shelf.seen Item.message) =
      validationError req (if needsQueue.contains type then findMailbox req.queueName shelf else none)
        (needsQueue.contains type) (needsIndex.contains type) (needsData.contains type) := by
  have data : (req.data == none || req.data == some []) = true ↔ req.data.getD [] = [] := by
    cases req.data <;> simp
  simp only [refusal, validationError, typed, Option.getD_some, Bool.and_eq_true, data,
    List.contains_iff_mem, beq_iff_eq, Shelf.keys_seen]
  congr 2
  by_cases needed : type ∈ needsQueue
  · simp only [if_pos needed]
    cases named : req.queueName with
    | none => rfl
    | some name =>
        dsimp only
        by_cases known : name ∈ shelf.keys
        · have found : findMailbox (some name) shelf ≠ none :=
            fun absent => findMailbox_isNone.mp absent known
          simp only [if_pos known, Option.isNone_iff_eq_none, if_neg found]
        · simp only [if_neg known, findMailbox_isNone.mpr known, Option.isNone_none, if_true]
  · simp only [if_neg needed]

theorem contents_seen {mailbox : Mailbox} (distinct : shelf.keys.Nodup) (member : mailbox ∈ shelf) :
    Shelf.contents id mailbox.key (shelf.seen Item.message) = mailbox.items.map Item.message := by
  rw [Shelf.contents_seen, Shelf.contents_of_mem distinct member]

/-- A request that names a queue and passes the checks. -/
theorem outcome_named {mailbox : Mailbox} (distinct : shelf.keys.Nodup) (member : mailbox ∈ shelf)
    (named : req.queueName = some mailbox.key) (typed : req.type = some type)
    (needed : type ∈ needsQueue) :
    outcome residue (shelf.seen Item.message)
        (if type = brokerConsume then .consume mailbox
        else if type = brokerProduce then .produce mailbox (req.data.getD [])
        else if type = brokerLength then .length mailbox
        else if type = brokerGet then .get mailbox req.index
        else if type = brokerGetAll then .getAll mailbox
        else .removeQueue mailbox) =
      some (grant residue req (shelf.seen Item.message)) := by
  simp only [needsQueue, List.mem_cons, List.not_mem_nil, or_false] at needed
  rcases needed with rfl | rfl | rfl | rfl | rfl | rfl
  · rw [grant_consume typed, named, Option.getD_some, consume, contents_seen distinct member]
    obtain ⟨key, items⟩ := mailbox
    cases items <;> rfl
  · rw [grant_produce typed, named]
    rfl
  · rw [grant_length typed, named, Option.getD_some, length, contents_seen distinct member,
      List.length_map]
    rfl
  · rw [grant_get typed, named, Option.getD_some, get, contents_seen distinct member,
      ← List.map_reverse, List.getElem?_map]
    show outcome residue _ (.get mailbox req.index) = _
    rw [outcome]
    cases mailbox.items.reverse[req.index]? <;> rfl
  · rw [grant_getAll typed, named, Option.getD_some, getAll, contents_seen distinct member,
      ← List.map_reverse]
    rfl
  · rw [grant_removeQueue typed, named]
    rfl

/-- A request comes to what its command comes to. -/
theorem outcome_command (distinct : shelf.keys.Nodup) (typed : req.type = some type)
    (known : type ∈ recognised) :
    outcome residue (shelf.seen Item.message) (command req shelf) =
      some (serve residue req (shelf.seen Item.message)) := by
  simp only [command, typed]
  rw [serve, refusal_eq typed]
  cases needed : needsQueue.contains type with
  | false =>
      simp only [Bool.false_eq_true, if_false]
      cases validationError req (none : Option Mailbox) false (needsIndex.contains type)
          (needsData.contains type) with
      | some message => rfl
      | none =>
          have others : type = brokerAddQueue ∨ type = brokerGetAllQueueNames := by
            have absent : type ∉ needsQueue := by simpa using needed
            simp only [recognised, needsQueue, List.mem_cons, List.not_mem_nil, or_false] at known absent
            grind
          rcases others with rfl | rfl
          · dsimp only
            rw [grant_addQueue typed, addQueue, if_pos rfl, outcome]
            by_cases inside : req.data.getD [] ∈ (shelf.seen Item.message).keys
            · rw [if_pos inside, if_pos inside]
            · rw [if_neg inside, if_neg inside]
          · dsimp only
            rw [grant_getAllQueueNames typed]
            rfl
  | true =>
      simp only [if_true]
      cases found : findMailbox req.queueName shelf with
      | none =>
          cases checked : validationError req (none : Option Mailbox) true
              (needsIndex.contains type) (needsData.contains type) with
          | some message => rfl
          | none => exact absurd checked (validationError_unknown req _ _)
      | some mailbox =>
          obtain ⟨member, named⟩ := findMailbox_some found
          cases validationError req (some mailbox) true (needsIndex.contains type)
              (needsData.contains type) with
          | some message => rfl
          | none => exact outcome_named distinct member named typed (List.contains_iff_mem.mp needed)

end Decoded

/-! ## Steps -/

section Steps

variable {env : BrokerEnvironment} {shelf kept : Shelf Bytes Item} {tree : FileTree} {time : Nat}
  {req : BrokerRequest} {decoded : Command} {effects : List Effect} {calls : List PersistCall}
  {success : Bool} {response : BrokerResponse}

theorem addQueue_known {name : Bytes} {ledger after : Ledger} (json : env.JsonReliable)
    (member : name ∈ ledger.shelf.keys)
    (ran : Ledger.addQueue env name ledger = .returned response after) :
    response = messageResponse false (text "Failed: Queue with given name already exists.") := by
  simp only [Ledger.addQueue, Program.run_bind, Program.run_read, if_pos member] at ran
  exact Ledger.respond_ensures json _ _ _ _ _ ran

/-- When nothing fails, a queue with a new name is created. -/
theorem addQueue_creates {name : Bytes} (reliable : env.Reliable)
    (holds : DiskHolds tree env.toEnvironment shelf) (single : IsComponent name)
    (fresh : name ∉ shelf.keys)
    (step : Step env.toEnvironment shelf tree time (.addQueue name) effects calls
      (.answered success kept)) :
    success = true ∧ kept = shelf.create name := by
  cases step with
  | read reads => cases reads
  | known member => exact absurd member fresh
  | adopted _ can => exact absurd ((holds.canOpen_iff single).mp can).2.2 fresh
  | made => exact ⟨rfl, rfl⟩
  | unmade _ why =>
      have can (moment : Nat) : CanMake env.toEnvironment (queuePath name) tree moment
          (name :: env.dataDir) := (holds.canMake_iff single).mpr ⟨reliable _ _, rfl, fresh⟩
      have reaches : Reaches env.toEnvironment .opendir (queuePath name) tree time
          (name :: env.dataDir) := ⟨reliable _ _, (can time).1.resolved⟩
      exact absurd (can _) ((why _ reaches).2 (can time).2)

theorem addQueue_outcome {name : Bytes} (reliable : env.Reliable)
    (holds : DiskHolds tree env.toEnvironment shelf) (single : IsComponent name)
    (step : Step env.toEnvironment shelf tree time (.addQueue name) effects calls
      (.answered success kept))
    (shown : response.success = some (.bool success)) (replies : Replies env shelf (.addQueue name) response)
    (exists_ : name ∈ shelf.keys →
      response = messageResponse false (text "Failed: Queue with given name already exists.")) :
    ∃ moment answer, outcome (env.residue moment) (shelf.seen Item.message) (.addQueue name) =
        some (answer, kept.seen Item.message) ∧ response = answer.response env := by
  by_cases member : name ∈ shelf.keys
  · have told := exists_ member
    subst told
    cases shown
    refine ⟨0, .told false _, ?_, rfl⟩
    rw [outcome, if_pos (by rwa [Shelf.keys_seen])]
    cases step with
    | read reads => cases reads
    | known | unmade => rfl
  · obtain ⟨rfl, rfl⟩ := addQueue_creates reliable holds single member step
    cases replies with
    | known inside => exact absurd inside member
    | added =>
        refine ⟨0, .told true _, ?_, rfl⟩
        rw [outcome, if_neg (by rwa [Shelf.keys_seen]), Shelf.seen_create]
    | unadded => cases shown

/-- When nothing fails and the disk holds the shelf, an answered command does what the service
does. -/
theorem step_outcome (reliable : env.Reliable) (holds : DiskHolds tree env.toEnvironment shelf)
    (bounded : Bounded shelf) (decodes : Decodes req shelf decoded)
    (adds : ∀ name, decoded = .addQueue name → IsComponent name)
    (step : Step env.toEnvironment shelf tree time decoded effects calls (.answered success kept))
    (shown : response.success = some (.bool success)) (replies : Replies env shelf decoded response)
    (exists_ : ∀ name, decoded = .addQueue name → name ∈ shelf.keys →
      response = messageResponse false (text "Failed: Queue with given name already exists.")) :
    ∃ moment answer, outcome (env.residue moment) (shelf.seen Item.message) decoded =
        some (answer, kept.seen Item.message) ∧ response = answer.response env := by
  have adding {name : Bytes} (replies : Replies env shelf (.addQueue name) response)
      (same : decoded = .addQueue name) :=
    addQueue_outcome reliable holds (adds name same) (same ▸ step) shown replies (exists_ name same)
  have removing {mailbox : Mailbox} (same : decoded = .removeQueue mailbox) :
      success = true ∧ kept = shelf.remove mailbox.key := by
    subst same
    cases decodes with
    | read reads => cases reads
    | removeQueue typed names =>
        cases step with
        | read reads => cases reads
        | removed removal => exact ⟨rfl, rfl⟩
        | kept removal => simpa using removal.reliable holds names.member reliable
  cases replies with
  | rejected message =>
      cases step with
      | rejected => exact ⟨0, _, rfl, rfl⟩
      | read reads => cases reads
  | empty key =>
      cases step with
      | empty => exact ⟨0, _, rfl, rfl⟩
      | read reads => cases reads
  | consumed key item rest moment =>
      cases decodes with
      | read reads => cases reads
      | consume typed names =>
          obtain ⟨rfl, _⟩ := step.consumed_oldest holds names.member
          refine ⟨moment, .gave _, ?_, rfl⟩
          rw [Shelf.seen_pop]
          rfl
  | produced mailbox data =>
      cases decodes with
      | read reads => cases reads
      | produce typed names gives =>
          obtain ⟨rfl, _⟩ := step.produced reliable holds bounded names.member
          refine ⟨0, .told true _, ?_, rfl⟩
          rw [Shelf.seen_push]
          rfl
  | length mailbox =>
      cases step with
      | read reads => exact ⟨0, .gave _, rfl, by rw [intToString, formatInt_nat]; rfl⟩
  | @got mailbox index item found =>
      cases step with
      | read reads => exact ⟨0, .gave _, by rw [outcome, found], rfl⟩
  | @beyond mailbox index absent =>
      cases step with
      | read reads => exact ⟨0, .told false _, by rw [outcome, absent], rfl⟩
  | listed mailbox =>
      cases step with
      | read reads => exact ⟨0, .listed _ _ _, rfl, rfl⟩
  | named =>
      cases step with
      | read reads => exact ⟨0, .listed _ _ _, rfl, by rw [Shelf.keys_seen]; rfl⟩
  | known member => exact adding (.known member) rfl
  | added name => exact adding (.added name) rfl
  | unadded name => exact adding (.unadded name) rfl
  | removed mailbox =>
      obtain ⟨_, rfl⟩ := removing rfl
      exact ⟨0, .told true _, by rw [Shelf.seen_remove]; rfl, rfl⟩
  | unremoved mailbox =>
      obtain ⟨rfl, _⟩ := removing rfl
      cases shown

end Steps

/-! ## Requests -/

/-- A request of a known type that creates queues only under the names of files. -/
structure Proper (req : BrokerRequest) : Prop where
  known : ∃ type ∈ recognised, req.type = some type
  single : ∀ name, req.type = some brokerAddQueue → req.data = some name → name ≠ [] →
    IsComponent name

/-- No more than so many ids have been given out in any queue. -/
def Within (count : Nat) (shelf : Shelf Bytes Item) : Prop :=
  ∀ mailbox ∈ shelf, ∀ item ∈ mailbox.items, item.id ≤ count

section Requests

variable {env : BrokerEnvironment} {machine after : Machine} {req : BrokerRequest} {count : Nat}

/-- What is on the disk after a request has been there before, but for one item at most. -/
theorem item_of_diskStep {env : Environment} {disk later : Shelf Bytes Item} {command : Command}
    {effects : List Effect} {mailbox : Mailbox} {item : Item}
    (step : DiskStep env disk command effects later) (member : mailbox ∈ later)
    (inside : item ∈ mailbox.items) :
    (∃ old ∈ disk, item ∈ old.items) ∨
      ∃ old ∈ disk, item.id = followingId old.items := by
  have updated {key : Bytes} {f : List Item → List Item} (here : mailbox ∈ disk.update key f)
      (part : ∀ items, ⟨key, items⟩ ∈ disk → ∀ item ∈ f items, item ∈ items ∨
        ∃ old ∈ disk, item.id = followingId old.items) :
      (∃ old ∈ disk, item ∈ old.items) ∨ ∃ old ∈ disk, item.id = followingId old.items := by
    rcases Shelf.mem_update.mp here with ⟨_, old⟩ | ⟨_, items, old, changed⟩
    · exact .inl ⟨mailbox, old, inside⟩
    · rw [changed] at inside
      exact (part items old item inside).imp_left fun same => ⟨_, old, same⟩
  cases step with
  | nothing => exact .inl ⟨mailbox, member, inside⟩
  | consumed => exact updated member fun _ _ _ kept => .inl (List.mem_of_mem_filter kept)
  | created stored | stored stored =>
      refine updated member fun items _ item new => ?_
      rcases List.mem_append.mp new with old | last
      · exact .inl old
      · rw [List.mem_singleton.mp last]
        exact .inr ⟨_, stored, rfl⟩
  | made =>
      rcases List.mem_append.mp member with old | new
      · exact .inl ⟨mailbox, old, inside⟩
      · rw [List.mem_singleton.mp new] at inside
        simp at inside
  | unlinked => exact updated member fun _ _ _ kept => .inl (List.mem_of_mem_drop kept)
  | removed => exact .inl ⟨mailbox, List.mem_of_mem_filter member, inside⟩

theorem Within.step {env : Environment} {disk later : Shelf Bytes Item} {command : Command}
    {effects : List Effect} (within : Within count disk)
    (step : DiskStep env disk command effects later) : Within (count + 1) later := by
  intro mailbox member item inside
  rcases item_of_diskStep step member inside with ⟨old, stored, there⟩ | ⟨old, stored, fresh⟩
  · exact Nat.le_succ_of_le (within old stored item there)
  · rw [fresh]
    exact followingId_le (Nat.succ_pos count) fun other there =>
      Nat.lt_succ_of_le (within old stored other there)

theorem Within.bounded {shelf : Shelf Bytes Item} (within : Within count shelf)
    (few : count < 2147483647) : Bounded shelf :=
  fun mailbox member item inside => Nat.lt_of_le_of_lt (within mailbox member item inside) few

/-- One request is answered as the service answers it, and leaves what the service leaves, in
memory and on the disk. -/
theorem dispatch_serves (synced : Synced env machine machine.shelf)
    (within : Within count machine.shelf) (few : count + 1 < 2147483647) (reliable : env.Reliable)
    (json : env.JsonReliable) (proper : Proper req) :
    ∃ moment after,
      brokerDispatch env req machine = .returned (some
        ((serve (env.residue moment) req (machine.shelf.seen Item.message)).1.response env)) after ∧
      after.shelf.seen Item.message =
        (serve (env.residue moment) req (machine.shelf.seen Item.message)).2 ∧
      Synced env after after.shelf ∧ Within (count + 1) after.shelf := by
  obtain ⟨type, known, typed⟩ := proper.known
  obtain ⟨response, after, ran⟩ := synced.answered reliable typed known
  obtain ⟨_, _, success, step, shown, _, _⟩ := answered_step synced.keeps ran
  obtain ⟨_, _, _, later, _, onDisk, holds, bounded, agrees⟩ := synced.carried proper.single ran
  obtain rfl := agrees reliable rfl
  have grown := within.step onDisk
  have replies := answered_replies json synced.keeps ran
  have told : ∀ name, command req machine.shelf = .addQueue name → name ∈ machine.shelf.keys →
      response = messageResponse false (text "Failed: Queue with given name already exists.") := by
    intro name amounts member
    have matching := brokerDispatch_matches env req
      (show Tracks machine ⟨machine.shelf, machine.world⟩ from ⟨synced.keeps, rfl⟩)
    rw [ran] at matching
    obtain ⟨image, dispatched, _⟩ := matching.of_returned
    simp only [Ledger.dispatch, Program.run_bind, Program.run_read, amounts] at dispatched
    obtain ⟨_, added, same⟩ := Program.map_eq_returned dispatched
    cases same
    exact addQueue_known json member added
  obtain ⟨moment, answer, comes, rfl⟩ := step_outcome reliable synced.holds synced.bounded
    (command_decodes req machine.shelf) (Synced.command_single proper.single machine.shelf) step
    (shown json) replies told
  rw [outcome_command synced.keeps.nodup typed known] at comes
  have same := Option.some.inj comes
  refine ⟨moment, after, ?_, ?_, bounded (grown.bounded few), grown⟩
  · rw [same, ran]
  · rw [same]

end Requests

/-! ## Runs -/

/-- Requests handled one after the other, each with its response. -/
inductive Handles (env : BrokerEnvironment) :
    Machine → List BrokerRequest → List BrokerResponse → Machine → Prop where
  | done {machine : Machine} : Handles env machine [] [] machine
  | next {first middle last : Machine} {req : BrokerRequest} {response : BrokerResponse}
      {reqs : List BrokerRequest} {responses : List BrokerResponse}
      (ran : brokerDispatch env req first = .returned (some response) middle)
      (rest : Handles env middle reqs responses last) :
      Handles env first (req :: reqs) (response :: responses) last

/-- The same requests to the service. -/
inductive Serves (env : BrokerEnvironment) :
    Shelf Bytes Bytes → List BrokerRequest → List Answer → Shelf Bytes Bytes → Prop where
  | done {shelf : Shelf Bytes Bytes} : Serves env shelf [] [] shelf
  | next {shelf later last : Shelf Bytes Bytes} {req : BrokerRequest} {answer : Answer}
      {reqs : List BrokerRequest} {answers : List Answer} (moment : Nat)
      (served : serve (env.residue moment) req shelf = (answer, later))
      (rest : Serves env later reqs answers last) :
      Serves env shelf (req :: reqs) (answer :: answers) last

section Runs

variable {env : BrokerEnvironment} {first machine : Machine} {tree : FileTree} {count : Nat}

theorem Within.nil : Within 0 [] := by simp [Within]

theorem synced_serves (reqs : List BrokerRequest) (synced : Synced env machine machine.shelf)
    (within : Within count machine.shelf) (few : count + reqs.length < 2147483647)
    (reliable : env.Reliable) (json : env.JsonReliable) (proper : ∀ req ∈ reqs, Proper req) :
    ∃ answers last, Handles env machine reqs (answers.map (Answer.response env)) last ∧
      Serves env (machine.shelf.seen Item.message) reqs answers (last.shelf.seen Item.message) ∧
      Synced env last last.shelf := by
  induction reqs generalizing machine count with
  | nil => exact ⟨[], machine, .done, .done, synced⟩
  | cons req reqs ih =>
      rw [List.length_cons] at few
      obtain ⟨moment, middle, ran, left, kept, grown⟩ := dispatch_serves synced within (by omega)
        reliable json (proper req List.mem_cons_self)
      obtain ⟨answers, last, handles, serves, ended⟩ :=
        ih kept grown (by omega) fun other member => proper other (List.mem_cons_of_mem req member)
      rw [left] at serves
      exact ⟨_ :: answers, last, .next ran handles, .next moment rfl serves, ended⟩

/-- From an empty data directory, and with nothing failing, every run of proper requests is
answered as the service answers it; memory and disk end up with what the service holds. -/
theorem requests_served (reliable : env.Reliable) (json : env.JsonReliable)
    (empty : EmptyData env.toEnvironment tree)
    (started : queuePoolLoad env.toEnvironment (.boot tree) = .returned () first)
    (reqs : List BrokerRequest) (proper : ∀ req ∈ reqs, Proper req)
    (few : reqs.length < 2147483647) :
    ∃ answers last, Handles env first reqs (answers.map (Answer.response env)) last ∧
      Serves env [] reqs answers (last.shelf.seen Item.message) ∧
      last.Keeps last.shelf ∧
      DiskHolds last.world.system.tree env.toEnvironment last.shelf := by
  obtain ⟨synced, perm⟩ := Synced.started empty.holds (by simp [Bounded]) started
  have nothing : first.shelf = [] := List.perm_nil.mp perm
  rw [← nothing] at synced
  obtain ⟨answers, last, handles, serves, ended⟩ := synced_serves reqs synced
    (nothing ▸ Within.nil) (by omega) reliable json proper
  rw [nothing] at serves
  exact ⟨answers, last, handles, serves, ended.keeps, ended.holds⟩

/-- A queue is added, and a message is put into it and taken from it. -/
def roundTrip : List BrokerRequest :=
  [request "addQueue" none (some "a"), request "produce" (some "a") (some "x"),
    request "consume" (some "a") none]

theorem roundTrip_proper : ∀ req ∈ roundTrip, Proper req := by
  intro req member
  simp only [roundTrip, List.mem_cons, List.not_mem_nil, or_false] at member
  rcases member with rfl | rfl | rfl
  · exact ⟨⟨brokerAddQueue, by decide, rfl⟩, by rintro name - ⟨⟩ -; decide⟩
  · exact ⟨⟨brokerProduce, by decide, rfl⟩, fun name adds => absurd adds (by decide)⟩
  · exact ⟨⟨brokerConsume, by decide, rfl⟩, fun name adds => absurd adds (by decide)⟩

/-- What has been put in is what is taken out. -/
theorem requests_served_computed : ∃ first answers last,
    Handles faithful first roundTrip (answers.map (Answer.response faithful)) last ∧
      answers = [.told true (text "Queue created."), .told true (text "Message produced."),
        .gave (text "x")] := by
  obtain ⟨_, started⟩ := Outcome.eq_returned
    (show (queuePoolLoad faithful.toEnvironment (.boot emptyTree)).isReturned = true by decide +kernel)
  obtain ⟨answers, last, handles, serves, _⟩ := requests_served (fun _ _ => rfl) (fun _ => rfl)
    emptyTree_empty started roundTrip roundTrip_proper (by decide)
  refine ⟨_, answers, last, handles, ?_⟩
  generalize last.shelf.seen Item.message = shelf at serves
  have added : serve [] (request "addQueue" none (some "a")) [] =
    (.told true (text "Queue created."), [⟨text "a", []⟩]) := by decide +kernel
  have stored : serve [] (request "produce" (some "a") (some "x")) [⟨text "a", []⟩] =
    (.told true (text "Message produced."), [⟨text "a", [text "x"]⟩]) := by decide +kernel
  have given : serve [] (request "consume" (some "a") none) [⟨text "a", [text "x"]⟩] =
    (.gave (text "x"), [⟨text "a", []⟩]) := by decide +kernel
  cases serves with
  | next one served serves =>
      cases added.symm.trans served
      cases serves with
      | next two served serves =>
          cases stored.symm.trans served
          cases serves with
          | next three served serves =>
              cases given.symm.trans served
              cases serves
              rfl

end Runs

end Bmb.Service
