import Bmb.Broker.Lifetimes

namespace Bmb.Service

open Bmb.Base Bmb.Posix

/-! Queues as services of their own: what is asked of the others does not matter. -/

/-- The request is about the queue with this name. -/
def concerns (name : Bytes) (req : BrokerRequest) : Bool :=
  let type := req.type.getD []
  (needsQueue.contains type && decide (req.queueName = some name)) ||
    (decide (type = brokerAddQueue) && decide (req.data = some name))

section Served

variable {name residue : Bytes} {req : BrokerRequest} {type : Bytes} {shelf : Shelf Bytes Bytes}

theorem concerns_iff (typed : req.type = some type) : concerns name req = true ↔
    (type ∈ needsQueue ∧ req.queueName = some name) ∨
      (type = brokerAddQueue ∧ req.data = some name) := by
  simp [concerns, typed]

theorem refusal_only (typed : req.type = some type) (about : concerns name req = true) :
    refusal req (shelf.only name) = refusal req shelf := by
  simp only [refusal, typed, Option.getD_some]
  by_cases needed : type ∈ needsQueue
  · have named : req.queueName = some name := by
      rcases (concerns_iff typed).mp about with ⟨_, named⟩ | ⟨rfl, _⟩
      · exact named
      · exact absurd needed (by decide)
    simp only [named, Shelf.key_mem_only]
  · simp only [if_neg needed]

/-- A request about a queue needs nothing but this queue. -/
theorem serve_only (typed : req.type = some type) (about : concerns name req = true) :
    serve residue req (shelf.only name) =
      ((serve residue req shelf).1, (serve residue req shelf).2.only name) := by
  rw [serve, serve, refusal_only typed about]
  cases refusal req shelf with
  | some reason => rfl
  | none =>
      dsimp only
      rcases (concerns_iff typed).mp about with ⟨needed, named⟩ | ⟨rfl, named⟩
      · simp only [needsQueue, List.mem_cons, List.not_mem_nil, or_false] at needed
        rcases needed with rfl | rfl | rfl | rfl | rfl | rfl
        · rw [grant_consume typed, grant_consume typed, named, Option.getD_some, consume, consume,
            Shelf.contents_only]
          cases Shelf.contents id name shelf with
          | nil => rfl
          | cons oldest others => rw [Shelf.only_pop]
        · rw [grant_produce typed, grant_produce typed, named, Option.getD_some, produce, produce,
            Shelf.only_push]
        · rw [grant_length typed, grant_length typed, named, Option.getD_some, length, length,
            Shelf.contents_only]
        · rw [grant_get typed, grant_get typed, named, Option.getD_some, get, get,
            Shelf.contents_only]
          cases (Shelf.contents id name shelf).reverse[req.index]? <;> rfl
        · rw [grant_getAll typed, grant_getAll typed, named, Option.getD_some, getAll, getAll,
            Shelf.contents_only]
        · rw [grant_removeQueue typed, grant_removeQueue typed, named, Option.getD_some, removeQueue,
            removeQueue, Shelf.only_remove]
      · rw [grant_addQueue typed, grant_addQueue typed, named, Option.getD_some, addQueue, addQueue]
        by_cases member : name ∈ shelf.keys
        · rw [if_pos member, if_pos (Shelf.key_mem_only.mpr member)]
        · rw [if_neg member, if_neg (mt Shelf.key_mem_only.mp member), Shelf.only_create]

/-- What a request asks of a queue. -/
theorem named_of_granted (typed : req.type = some type) (needed : type ∈ needsQueue)
    (granted : refusal req shelf = none) : ∃ name, req.queueName = some name := by
  cases named : req.queueName with
  | some name => exact ⟨name, rfl⟩
  | none =>
      simp only [refusal, typed, Option.getD_some, named, if_pos needed] at granted
      split at granted
      · cases granted
      · split at granted <;> cases granted

/-- A request that is not about a queue leaves it alone. -/
theorem serve_apart (typed : req.type = some type) (known : type ∈ recognised)
    (other : concerns name req = false) :
    (serve residue req shelf).2.only name = shelf.only name := by
  have apart : ¬concerns name req = true := by simp [other]
  rw [concerns_iff typed, not_or, not_and, not_and] at apart
  obtain ⟨elsewhere, fresh⟩ := apart
  rw [serve]
  cases refused : refusal req shelf with
  | some reason => rfl
  | none =>
      have away (needed : type ∈ needsQueue) : req.queueName.getD [] ≠ name := by
        obtain ⟨given, named⟩ := named_of_granted typed needed refused
        intro same
        rw [named, Option.getD_some] at same
        exact elsewhere needed (by rw [named, same])
      dsimp only
      simp only [recognised, List.mem_cons, List.not_mem_nil, or_false] at known
      rcases known with rfl | rfl | rfl | rfl | rfl | rfl | rfl | rfl
      · rw [grant_consume typed, consume]
        cases Shelf.contents id (req.queueName.getD []) shelf with
        | nil => rfl
        | cons oldest others => exact Shelf.only_pop_other (away (by decide))
      · rw [grant_produce typed]
        exact Shelf.only_push_other (away (by decide)) _
      · rw [grant_length typed]
        rfl
      · rw [grant_get typed, get]
        split <;> rfl
      · rw [grant_getAll typed]
        rfl
      · rw [grant_addQueue typed, addQueue]
        split
        · rfl
        · refine Shelf.only_create_other fun same => ?_
          cases given : req.data with
          | none =>
              simp [refusal, typed, given, show brokerAddQueue ∈ needsData by decide] at refused
          | some data =>
              rw [given, Option.getD_some] at same
              exact fresh rfl (by rw [given, same])
      · rw [grant_getAllQueueNames typed]
        rfl
      · rw [grant_removeQueue typed]
        exact Shelf.only_remove_other (away (by decide))

/-- Nothing of the stack is handed out with messages that are decoded as a whole. -/
theorem serve_residue {other : Bytes} (typed : req.type = some type)
    (escaped : ∀ queue ∈ shelf, ∀ message ∈ queue.items, WellEscaped message) :
    serve residue req shelf = serve other req shelf := by
  rw [serve, serve]
  cases refusal req shelf with
  | some reason => rfl
  | none =>
      dsimp only
      by_cases takes : type = brokerConsume
      · rw [takes] at typed
        rw [grant_consume typed, grant_consume typed, consume, consume]
        cases some : Shelf.contents id (req.queueName.getD []) shelf with
        | nil => rfl
        | cons oldest others =>
            obtain ⟨message, rest, member, rfl⟩ := Shelf.exists_of_contents some
            have whole := escaped _ member message List.mem_cons_self
            simp only [id_eq, whole.decodedMessage_eq]
      · simp only [grant, typed, Option.getD_some, if_neg takes]

end Served

/-! ## Runs -/

section Runs

variable {env : BrokerEnvironment} {tree : FileTree} {first machine alone last : Machine}
  {name : Bytes} {history : List (BrokerRequest × BrokerResponse)} {count fewer : Nat}

/-- The requests about a queue, with their responses. -/
def about (name : Bytes) (history : List (BrokerRequest × BrokerResponse)) :
    List (BrokerRequest × BrokerResponse) :=
  history.filter fun entry => concerns name entry.1

/-- A machine that holds what another one holds in one of its queues. -/
structure Apart (env : BrokerEnvironment) (name : Bytes) (count : Nat) (machine alone : Machine) :
    Prop where
  synced : Synced env machine machine.shelf
  syncedAlone : Synced env alone alone.shelf
  within : Within count machine.shelf
  withinAlone : Within count alone.shelf
  escaped : ∀ mailbox ∈ machine.shelf, ∀ item ∈ mailbox.items, WellEscaped item.message
  shown : alone.shelf.seen Item.message = (machine.shelf.seen Item.message).only name

/-- A request to both machines if it is about the queue, and else to the one with all queues. -/
theorem Apart.handled {req : BrokerRequest} {response : BrokerResponse}
    (apart : Apart env name count machine alone) (json : env.JsonReliable) (reliable : env.Reliable)
    (few : count + 1 < 2147483647) (proper : Proper req)
    (escaped : ∀ data, req.data = some data → WellEscaped data)
    (ran : brokerDispatch env req machine = .returned (some response) last) :
    (concerns name req = false ∧ Apart env name (count + 1) last alone) ∨
    (concerns name req = true ∧ ∃ after, brokerDispatch env req alone = .returned (some response) after ∧
      Apart env name (count + 1) last after) := by
  obtain ⟨type, known, typed⟩ := proper.known
  obtain ⟨moment, middle, again, left, synced, within⟩ :=
    dispatch_serves apart.synced apart.within few reliable json proper
  have whole := messages_after apart.synced.keeps apart.escaped escaped ran
  rw [ran] at again
  obtain ⟨same, rfl⟩ := Outcome.returned.inj again
  cases about : concerns name req with
  | false =>
      refine .inl ⟨rfl, synced, apart.syncedAlone, within, ?_, whole, ?_⟩
      · exact fun mailbox member item inside =>
          Nat.le_succ_of_le (apart.withinAlone mailbox member item inside)
      · rw [apart.shown, left, serve_apart typed known about]
  | true =>
      obtain ⟨other, after, answered, leaves, syncedAfter, withinAfter⟩ :=
        dispatch_serves apart.syncedAlone apart.withinAlone few reliable json proper
      have messages : ∀ queue ∈ (machine.shelf.seen Item.message).only name,
          ∀ message ∈ queue.items, WellEscaped message := by
        intro queue member message inside
        obtain ⟨mailbox, stored, rfl⟩ := List.mem_map.mp (Shelf.mem_only.mp member).1
        obtain ⟨item, there, rfl⟩ := List.mem_map.mp inside
        exact apart.escaped mailbox stored item there
      rw [apart.shown, @serve_residue (env.residue other) _ _ _ (env.residue moment) typed messages,
        serve_only typed about] at answered leaves
      rw [Option.some.inj same]
      refine .inr ⟨rfl, after, answered, synced, syncedAfter, within, withinAfter, whole, ?_⟩
      rw [leaves, left]

theorem Apart.handles (json : env.JsonReliable) (reliable : env.Reliable)
    (apart : Apart env name count machine alone) (few : count + history.length < 2147483647)
    (proper : ∀ entry ∈ history, Proper entry.1)
    (escaped : ∀ entry ∈ history, ∀ data, entry.1.data = some data → WellEscaped data)
    (handles : Handles env machine (history.map Prod.fst) (history.map Prod.snd) last) :
    ∃ ended, Handles env alone ((about name history).map Prod.fst) ((about name history).map Prod.snd)
        ended ∧
      Apart env name (count + history.length) last ended := by
  induction history generalizing machine alone count with
  | nil =>
      cases handles
      exact ⟨alone, .done, apart⟩
  | cons entry history ih =>
      obtain ⟨req, response⟩ := entry
      cases handles with
      | next ran rest =>
          rw [List.length_cons] at few
          have properRest : ∀ entry ∈ history, Proper entry.1 :=
            fun entry member => proper entry (List.mem_cons_of_mem _ member)
          have escapedRest : ∀ entry ∈ history, ∀ data, entry.1.data = some data → WellEscaped data :=
            fun entry member => escaped entry (List.mem_cons_of_mem _ member)
          have total : count + 1 + history.length = count + (history.length + 1) := by omega
          rcases apart.handled json reliable (by omega) (proper _ List.mem_cons_self)
            (escaped _ List.mem_cons_self) ran with ⟨other, apart⟩ | ⟨own, after, answered, apart⟩
          · obtain ⟨ended, runs, kept⟩ := ih apart (by omega) properRest escapedRest rest
            rw [total] at kept
            refine ⟨ended, ?_, kept⟩
            rw [about, List.filter_cons_of_neg (by simp [other])]
            exact runs
          · obtain ⟨ended, runs, kept⟩ := ih apart (by omega) properRest escapedRest rest
            rw [total] at kept
            refine ⟨ended, ?_, kept⟩
            rw [about, List.filter_cons_of_pos (by exact own)]
            exact .next answered runs

/-- Without the requests that are not about a queue, the others have the same responses and the
queue ends up with the same messages. -/
theorem queues_independent (json : env.JsonReliable) (reliable : env.Reliable)
    (empty : EmptyData env.toEnvironment tree)
    (started : queuePoolLoad env.toEnvironment (.boot tree) = .returned () first)
    (proper : ∀ entry ∈ history, Proper entry.1)
    (escaped : ∀ entry ∈ history, ∀ data, entry.1.data = some data → WellEscaped data)
    (few : history.length < 2147483647)
    (handles : Handles env first (history.map Prod.fst) (history.map Prod.snd) last)
    (name : Bytes) :
    ∃ alone, Handles env first ((about name history).map Prod.fst) ((about name history).map Prod.snd)
        alone ∧
      (name ∈ alone.shelf.keys ↔ name ∈ last.shelf.keys) ∧
      Shelf.contents Item.message name alone.shelf = Shelf.contents Item.message name last.shelf := by
  obtain ⟨synced, perm⟩ := Synced.started empty.holds (by simp [Bounded]) started
  have nothing : first.shelf = [] := List.perm_nil.mp perm
  rw [← nothing] at synced
  have within : Within 0 first.shelf := nothing ▸ Within.nil
  have apart : Apart env name 0 first first :=
    ⟨synced, synced, within, within, by simp [nothing], by rw [nothing]; rfl⟩
  obtain ⟨alone, runs, kept⟩ := apart.handles json reliable (by omega) proper escaped handles
  refine ⟨alone, runs, ?_, ?_⟩
  · rw [← Shelf.keys_seen Item.message, kept.shown, Shelf.key_mem_only, Shelf.keys_seen]
  · rw [← Shelf.contents_seen, kept.shown, Shelf.contents_only, Shelf.contents_seen]

/-- Another queue is added in between. -/
theorem queues_independent_computed : ∃ history last,
    Handles faithful (loaded faithful emptyTree) (history.map Prod.fst) (history.map Prod.snd) last ∧
      history.length = 3 ∧ (about (text "a") history).length = 2 ∧
      ∃ alone, Handles faithful (loaded faithful emptyTree)
        ((about (text "a") history).map Prod.fst) ((about (text "a") history).map Prod.snd) alone ∧
        Shelf.contents Item.message (text "a") alone.shelf =
          Shelf.contents Item.message (text "a") last.shelf := by
  let adds := request "addQueue" none (some "a")
  let others := request "addQueue" none (some "b")
  let produces := request "produce" (some "a") (some "x")
  obtain ⟨added, first⟩ := @asked_returned faithful (loaded faithful emptyTree) adds (by decide +kernel)
  obtain ⟨other, second⟩ := @asked_returned faithful ((loaded faithful emptyTree).asked faithful adds)
    others (by decide +kernel)
  obtain ⟨produced, third⟩ := @asked_returned faithful
    (((loaded faithful emptyTree).asked faithful adds).asked faithful others) produces (by decide +kernel)
  have shape : ∀ entry ∈ [(adds, added), (others, other), (produces, produced)],
      Proper entry.1 ∧ ∀ data, entry.1.data = some data → WellEscaped data := by
    intro entry member
    simp only [List.mem_cons, List.not_mem_nil, or_false] at member
    rcases member with rfl | rfl | rfl
    · exact ⟨roundTrip_proper _ List.mem_cons_self,
        by rintro _ ⟨⟩; exact (durable_plain (by decide)).escaped⟩
    · exact ⟨⟨⟨brokerAddQueue, by decide, rfl⟩, by rintro name - ⟨⟩ -; decide⟩,
        by rintro _ ⟨⟩; exact (durable_plain (by decide)).escaped⟩
    · exact ⟨roundTrip_proper _ (List.mem_cons_of_mem _ List.mem_cons_self),
        by rintro _ ⟨⟩; exact (durable_plain (by decide)).escaped⟩
  have handles := Handles.next first (.next second (.next third .done))
  obtain ⟨alone, runs, _, same⟩ := @queues_independent faithful emptyTree _ _
    [(adds, added), (others, other), (produces, produced)] (fun _ => rfl) (fun _ _ => rfl)
    emptyTree_empty (loaded_returned (by decide +kernel)) (fun entry member => (shape entry member).1)
    (fun entry member => (shape entry member).2) (by simp) handles (text "a")
  exact ⟨[(adds, added), (others, other), (produces, produced)], _, handles, rfl, rfl, alone, runs, same⟩

end Runs

end Bmb.Service
