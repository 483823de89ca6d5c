import Bmb.PercentDecoding
import Bmb.Broker.Delivery
import Bmb.Broker.Restart
import Bmb.Broker.Service

namespace Bmb

open Bmb.Base Bmb.Posix

/-! Processes that follow one another on the same files, as their clients see them. -/

/-! ## What a client learns -/

/-- The data in a response. -/
def dataOf (response : BrokerResponse) : Bytes :=
  match response.payload with
  | some (.object [(_, .string data)]) => data
  | _ => []

/-- A message as it is meant. -/
def decoded (message : Bytes) : Bytes := Broker.decodedMessage message []

def BrokerResponse.granted (response : BrokerResponse) : Bool :=
  match response.success with
  | some (.bool success) => success
  | _ => false

/-- What a request and its response tell of the queues. -/
def witnessed (req : BrokerRequest) (response : BrokerResponse) : Shelf.Event Bytes Bytes :=
  let name := req.queueName.getD []
  let data := req.data.getD []
  if response.granted = false then .idle
  else if req.type = some brokerProduce then .pushed name (decoded data)
  else if req.type = some brokerConsume then .popped name (dataOf response)
  else if req.type = some brokerAddQueue then .created data
  else if req.type = some brokerRemoveQueue then .removed name
  else .idle

/-- A message that comes back from its file and is decoded as a whole. -/
structure Durable (message : Bytes) : Prop where
  text : 0 ∉ message
  kept : 255 ∉ message
  escaped : WellEscaped message

theorem WellEscaped.decodedMessage_eq {message : Bytes} (escaped : WellEscaped message)
    (residue : Bytes) : Broker.decodedMessage message residue = decoded message := by
  obtain ⟨plain, coded⟩ := percentCoded_of_complete escaped.complete
  rw [decoded, coded.decodedMessage_eq, coded.decodedMessage_eq]

section Served

variable {env : BrokerEnvironment} {req : BrokerRequest} {type residue : Bytes}
  {shelf later : Shelf Bytes Bytes} {answer : Service.Answer}

theorem witnessed_refused {response : BrokerResponse} (refused : response.granted = false) :
    witnessed req response = .idle := if_pos refused

theorem witnessed_reads {response : BrokerResponse} (typed : req.type = some type)
    (reads : type ∉ [brokerProduce, brokerConsume, brokerAddQueue, brokerRemoveQueue]) :
    witnessed req response = .idle := by
  simp only [List.mem_cons, List.not_mem_nil, or_false, not_or] at reads
  obtain ⟨produce, consume, add, remove⟩ := reads
  simp only [witnessed, typed, Option.some.injEq, produce, consume, add, remove, if_false, ite_self]

/-- What is told of a served request is what it does. -/
theorem serve_transition (typed : req.type = some type) (known : type ∈ recognised)
    (escaped : ∀ queue ∈ shelf, ∀ message ∈ queue.items, WellEscaped message)
    (served : Service.serve residue req shelf = (answer, later)) :
    Shelf.Transition decoded shelf (witnessed req (answer.response env)) later := by
  have still {other : Service.Answer} {left : Shelf Bytes Bytes}
      (same : (other, shelf) = (answer, left))
      (idle : witnessed req (other.response env) = .idle) :
      Shelf.Transition decoded shelf (witnessed req (answer.response env)) left := by
    obtain ⟨rfl, rfl⟩ := Prod.mk.inj same
    rw [idle]
    exact .idle
  cases refused : Service.refusal req shelf with
  | some reason =>
      simp only [Service.serve, refused] at served
      exact still served (witnessed_refused rfl)
  | none =>
      simp only [Service.serve, refused] at served
      simp only [recognised, List.mem_cons, List.not_mem_nil, or_false] at known
      rcases known with rfl | rfl | rfl | rfl | rfl | rfl | rfl | rfl
      · rw [Service.grant_consume typed, Service.consume] at served
        cases some : Shelf.contents id (req.queueName.getD []) shelf with
        | nil =>
            rw [some] at served
            exact still served (witnessed_refused rfl)
        | cons oldest others =>
            rw [some] at served
            obtain ⟨rfl, rfl⟩ := Prod.mk.inj served
            obtain ⟨message, rest, member, rfl⟩ := Shelf.exists_of_contents some
            have told : witnessed req (Service.Answer.response env
                (.gave (Broker.decodedMessage message residue))) =
                  .popped (req.queueName.getD []) (decoded message) := by
              rw [(escaped _ member message List.mem_cons_self).decodedMessage_eq, witnessed, typed]
              rfl
            exact told ▸ .popped member
      · rw [Service.grant_produce typed] at served
        obtain ⟨rfl, rfl⟩ := Prod.mk.inj served
        have told (message : Bytes) : witnessed req (Service.Answer.response env (.told true message)) =
            .pushed (req.queueName.getD []) (decoded (req.data.getD [])) := by
          rw [witnessed, typed]
          rfl
        exact told _ ▸ .pushed _
      · rw [Service.grant_length typed] at served
        exact still served (witnessed_reads typed (by decide))
      · rw [Service.grant_get typed, Service.get] at served
        split at served
        · exact still served (witnessed_reads typed (by decide))
        · exact still served (witnessed_reads typed (by decide))
      · rw [Service.grant_getAll typed] at served
        exact still served (witnessed_reads typed (by decide))
      · rw [Service.grant_addQueue typed, Service.addQueue] at served
        by_cases member : req.data.getD [] ∈ shelf.keys
        · rw [if_pos member] at served
          exact still served (witnessed_refused rfl)
        · rw [if_neg member] at served
          obtain ⟨rfl, rfl⟩ := Prod.mk.inj served
          have told (message : Bytes) : witnessed req
              (Service.Answer.response env (.told true message)) = .created (req.data.getD []) := by
            rw [witnessed, typed]
            rfl
          exact told _ ▸ .created member
      · rw [Service.grant_getAllQueueNames typed] at served
        exact still served (witnessed_reads typed (by decide))
      · rw [Service.grant_removeQueue typed] at served
        obtain ⟨rfl, rfl⟩ := Prod.mk.inj served
        have told (message : Bytes) : witnessed req
            (Service.Answer.response env (.told true message)) =
              .removed (req.queueName.getD []) := by
          rw [witnessed, typed]
          rfl
        exact told _ ▸ .removed

end Served

/-! ## One process after the other -/

/-- The broker on some file system. -/
def BrokerEnvironment.on (env : BrokerEnvironment) (system : Environment) : BrokerEnvironment :=
  { env with toEnvironment := system }

/-- Nothing fails, and relative paths are those of another environment. -/
structure Restores (env : Environment) (system : Environment) : Prop where
  reliable : system.Reliable
  cwd : system.cwd = env.cwd

/-- Requests to processes of which each starts with the files that the one before has left. -/
inductive Lifetimes (env : BrokerEnvironment) (tree : FileTree) :
    List (BrokerRequest × BrokerResponse) → Environment → Machine → Prop where
  | booted {system : Environment} {first : Machine} (restores : Restores env.toEnvironment system)
      (ran : queuePoolLoad system (.boot tree) = .returned () first) :
      Lifetimes env tree [] system first
  | handled {history : List (BrokerRequest × BrokerResponse)} {system : Environment}
      {before after : Machine} {req : BrokerRequest} {response : BrokerResponse}
      (lifetimes : Lifetimes env tree history system before) (proper : Service.Proper req)
      (durable : ∀ data, req.data = some data → Durable data)
      (ran : brokerDispatch (env.on system) req before = .returned (some response) after) :
      Lifetimes env tree (history ++ [(req, response)]) system after
  | restarted {history : List (BrokerRequest × BrokerResponse)} {old system : Environment}
      {before after : Machine} (lifetimes : Lifetimes env tree history old before)
      (restores : Restores env.toEnvironment system)
      (ran : queuePoolLoad system (.boot before.world.system.tree) = .returned () after) :
      Lifetimes env tree history system after

def account (history : List (BrokerRequest × BrokerResponse)) : List (Shelf.Event Bytes Bytes) :=
  history.map fun entry => witnessed entry.1 entry.2

/-- What has been told of the queues is what they hold, and what they hold comes back. -/
structure Accounted (env : BrokerEnvironment) (history : List (BrokerRequest × BrokerResponse))
    (system : Environment) (machine : Machine) : Prop where
  restores : Restores env.toEnvironment system
  synced : Synced (env.on system) machine machine.shelf
  within : Service.Within history.length machine.shelf
  durable : ∀ mailbox ∈ machine.shelf, ∀ item ∈ mailbox.items, Durable item.message
  balanced : ∀ mailbox ∈ machine.shelf,
    Shelf.given mailbox.key [] (account history) = Shelf.taken mailbox.key [] (account history) ++
      mailbox.items.map fun item => decoded item.message

section Accounted

variable {env : BrokerEnvironment} {tree : FileTree} {machine before after : Machine}
  {system : Environment} {history : List (BrokerRequest × BrokerResponse)} {req : BrokerRequest}
  {response : BrokerResponse} {shelf : Shelf Bytes Item}

theorem readBack_durable (durable : ∀ mailbox ∈ shelf, ∀ item ∈ mailbox.items, Durable item.message) :
    shelf.map Fifo.readBack = shelf := by
  conv_rhs => rw [← List.map_id shelf]
  refine List.map_congr_left fun mailbox member => ?_
  exact (readBack_mailbox_eq_iff fun item inside => (durable mailbox member item inside).text).mpr
    fun item inside => (durable mailbox member item inside).kept

/-- Another process finds the same queues, perhaps in another order. -/
theorem Accounted.restarted (accounted : Accounted env history system before) {fresh : Environment}
    (restores : Restores env.toEnvironment fresh)
    (ran : queuePoolLoad fresh (.boot before.world.system.tree) = .returned () after) :
    Accounted env history fresh after := by
  have holds : DiskHolds before.world.system.tree fresh before.shelf :=
    accounted.synced.holds.of_cwd (restores.cwd.trans accounted.restores.cwd.symm)
  obtain ⟨synced, perm⟩ := @Synced.started (env.on fresh) _ _ _ holds accounted.synced.bounded ran
  rw [readBack_durable accounted.durable] at perm
  exact {
    restores
    synced := synced.of_perm perm.symm
    within := fun mailbox member => accounted.within mailbox (perm.mem_iff.mp member)
    durable := fun mailbox member => accounted.durable mailbox (perm.mem_iff.mp member)
    balanced := fun mailbox member => accounted.balanced mailbox (perm.mem_iff.mp member) }

/-- What is asked of every message that is sent is true of every message that is stored. -/
theorem messages_after {good : Bytes → Prop} {broker : BrokerEnvironment}
    (keeps : before.Keeps before.shelf)
    (all : ∀ mailbox ∈ before.shelf, ∀ item ∈ mailbox.items, good item.message)
    (sent : ∀ data, req.data = some data → good data)
    (ran : brokerDispatch broker req before = .returned (some response) after) :
    ∀ mailbox ∈ after.shelf, ∀ item ∈ mailbox.items, good item.message := by
  intro mailbox member item inside
  obtain ⟨effects, calls, success, step, _, _, _⟩ := answered_step keeps ran
  have decodes := command_decodes req before.shelf
  rcases step.items member inside with ⟨old, stored, there⟩ | ⟨other, produced⟩
  · exact all old stored item there
  · rw [produced] at decodes
    cases decodes with
    | produce typed names gives => exact sent _ gives.given
    | read reads => cases reads

theorem Accounted.handled (json : env.JsonReliable) (accounted : Accounted env history system before)
    (few : history.length + 1 < 2147483647) (proper : Service.Proper req)
    (clean : ∀ data, req.data = some data → Durable data)
    (ran : brokerDispatch (env.on system) req before = .returned (some response) after) :
    Accounted env (history ++ [(req, response)]) system after := by
  obtain ⟨moment, last, again, left, synced, within⟩ := Service.dispatch_serves accounted.synced
    accounted.within few accounted.restores.reliable json proper
  have durable := messages_after accounted.synced.keeps accounted.durable clean ran
  rw [ran] at again
  obtain ⟨same, rfl⟩ := Outcome.returned.inj again
  obtain ⟨type, known, typed⟩ := proper.known
  have messages : ∀ queue ∈ before.shelf.seen Item.message, ∀ message ∈ queue.items,
      WellEscaped message := by
    intro queue member message inside
    obtain ⟨mailbox, stored, rfl⟩ := List.mem_map.mp member
    obtain ⟨item, there, rfl⟩ := List.mem_map.mp inside
    exact (accounted.durable mailbox stored item there).escaped
  generalize serving : Service.serve ((env.on system).residue moment) req
    (before.shelf.seen Item.message) = served at same left
  obtain ⟨answer, later⟩ := served
  have moves := @serve_transition (env.on system) _ _ _ _ _ _ typed known messages serving
  rw [← Option.some.inj same, show later = _ from left.symm] at moves
  have distinct : (before.shelf.seen Item.message).keys.Nodup := by
    rw [Shelf.keys_seen]
    exact accounted.synced.keeps.nodup
  let into (key : Bytes) : List Bytes := Shelf.given key [] (account history)
  let out (key : Bytes) : List Bytes := Shelf.taken key [] (account history)
  have balanced : ∀ queue ∈ before.shelf.seen Item.message,
      into queue.key = out queue.key ++ queue.items.map decoded := by
    intro queue member
    obtain ⟨mailbox, stored, rfl⟩ := List.mem_map.mp member
    have here := accounted.balanced mailbox stored
    rw [List.map_map]
    exact here
  have balance := moves.balance distinct balanced
  refine ⟨accounted.restores, synced, ?_, durable, ?_⟩
  · rw [List.length_append]
    exact within
  · intro mailbox member
    have inside := balance _ (Shelf.mem_seen member)
    rw [account, List.map_append, Shelf.given_append, Shelf.taken_append]
    rw [List.map_map] at inside
    exact inside

theorem Lifetimes.accounted (json : env.JsonReliable) (empty : EmptyData env.toEnvironment tree)
    (lifetimes : Lifetimes env tree history system machine) (few : history.length < 2147483647) :
    Accounted env history system machine := by
  induction lifetimes with
  | @booted system first restores ran =>
      have holds : DiskHolds tree system [] := empty.holds.of_cwd restores.cwd
      obtain ⟨synced, perm⟩ := @Synced.started (env.on system) _ _ _ holds (by simp [Bounded]) ran
      have nothing : first.shelf = [] := List.perm_nil.mp perm
      exact {
        restores
        synced := nothing ▸ synced
        within := nothing ▸ Service.Within.nil
        durable := by simp [nothing]
        balanced := by simp [nothing] }
  | handled _ proper clean ran ih =>
      rw [List.length_append] at few
      exact (ih (by omega)).handled json few proper clean ran
  | restarted _ restores ran ih => exact (ih few).restarted restores ran

end Accounted

/-! ## Two processes -/

theorem durable_plain {message : Bytes} (plain : 0 ∉ message ∧ 255 ∉ message ∧ 37 ∉ message) :
    Durable message := by
  refine ⟨plain.1, plain.2.1, fun front rest split => ?_⟩
  rw [split] at plain
  simp at plain

theorem Lifetimes.asked {tree : FileTree} {history : List (BrokerRequest × BrokerResponse)}
    {machine : Machine} (lifetimes : Lifetimes faithful tree history faithful.toEnvironment machine)
    {req : BrokerRequest} (member : req ∈ Service.roundTrip)
    (answered : isAnswered faithful req machine = true) : ∃ response,
    Lifetimes faithful tree (history ++ [(req, response)]) faithful.toEnvironment
      (machine.asked faithful req) := by
  obtain ⟨response, ran⟩ := asked_returned answered
  refine ⟨response, lifetimes.handled (Service.roundTrip_proper req member) ?_ ran⟩
  intro data given
  simp only [Service.roundTrip, List.mem_cons, List.not_mem_nil, or_false] at member
  rcases member with rfl | rfl | rfl
  · cases given
    exact durable_plain (by decide)
  · cases given
    exact durable_plain (by decide)
  · cases given

end Bmb
