import Bmb.Broker.Lifetimes
import Bmb.Broker.Reads
import Bmb.Server.Linearization

namespace Bmb

open Bmb.Base Bmb.Base.Program Bmb.Http Bmb.Posix

/-! What clients have been told, whatever system calls fail. -/

section Requests

variable {env : BrokerEnvironment} {req : BrokerRequest} {response : BrokerResponse}
  {shelf : Shelf Bytes Item} {command : Command} {before after : Machine}

/-- As long as cJSON has memory, an answer is complete. -/
theorem Replies.shape (replies : Replies env shelf command response) :
    ∃ success payload, response = ⟨200, none, some (.bool success), some payload⟩ := by
  cases replies <;> exact ⟨_, _, rfl⟩

/-- Only requests that look at the queues read. -/
theorem looks_of_reads (reads : (Bmb.command req shelf).Reads) : req.looks = true := by
  unfold Bmb.command at reads
  cases typed : req.type with
  | none =>
      rw [typed] at reads
      cases reads
  | some type =>
      rw [typed] at reads
      dsimp only at reads
      have known (looks : type ∈ looking) : req.looks = true := by
        simpa [BrokerRequest.looks, typed] using looks
      split at reads
      · cases reads
      · split at reads
        · split at reads
          · cases reads
          split at reads
          · cases reads
          split at reads
          · rename_i same
            exact known (same ▸ by decide)
          split at reads
          · rename_i same
            exact known (same ▸ by decide)
          split at reads
          · rename_i same
            exact known (same ▸ by decide)
          · cases reads
        · split at reads
          · cases reads
          split at reads
          · rename_i same
            exact known (same ▸ by decide)
          · cases reads

theorem witnessed_looks (looks : req.looks = true) : witnessed req response = .idle := by
  have inside : req.type.getD [] ∈ looking := by simpa [BrokerRequest.looks] using looks
  cases typed : req.type with
  | none =>
      rw [typed] at inside
      exact absurd inside (by decide)
  | some type =>
      rw [typed, Option.getD_some] at inside
      refine witnessed_reads typed fun changes => ?_
      simp only [looking, List.mem_cons, List.not_mem_nil, or_false] at inside
      rcases inside with rfl | rfl | rfl | rfl
      all_goals exact absurd changes (by decide)

/-- The message of an item, as it is meant. -/
def meant (item : Item) : Bytes := decoded item.message

/-- What a request is told is what it does, except that what is stored can get lost. -/
theorem dispatch_lossy (json : env.JsonReliable) (keeps : before.Keeps before.shelf)
    (escaped : ∀ mailbox ∈ before.shelf, ∀ item ∈ mailbox.items, WellEscaped item.message)
    (ran : brokerDispatch env req before = .returned (some response) after) :
    Shelf.Lossy meant before.shelf (witnessed req response) after.shelf := by
  obtain ⟨effects, calls, success, step, shown, _, _⟩ := answered_step keeps ran
  have replies := answered_replies json keeps ran
  have decodes := command_decodes req before.shelf
  have reading (reads : (Bmb.command req before.shelf).Reads) : witnessed req response = .idle :=
    witnessed_looks (looks_of_reads reads)
  have told : response.granted = success := by
    rw [BrokerResponse.granted, shown json]
  have refused (fails : success = false) : witnessed req response = .idle :=
    witnessed_refused (told.trans fails)
  have agreed (succeeds : success = true) {event : Shelf.Event Bytes Bytes}
      (same : (if req.type = some brokerProduce then
          .pushed (req.queueName.getD []) (decoded (req.data.getD []))
        else if req.type = some brokerConsume then .popped (req.queueName.getD []) (dataOf response)
        else if req.type = some brokerAddQueue then .created (req.data.getD [])
        else if req.type = some brokerRemoveQueue then .removed (req.queueName.getD [])
        else .idle) = event) : witnessed req response = event := by
    rw [witnessed, if_neg (by simp [told, succeeds]), same]
  generalize Bmb.command req before.shelf = decided at step replies decodes reading
  generalize after.shelf = later at step
  cases step with
  | rejected | known | unmade | kept | empty =>
      rw [refused rfl]
      exact .moved .idle
  | read reads =>
      rw [reading reads]
      exact .moved .idle
  | @consumed key item rest target positive can =>
      cases decodes with
      | consume typed names =>
          cases replies with
          | consumed _ _ _ time =>
              have decodes : Broker.decodedMessage item.message (env.residue time) = meant item :=
                (escaped _ names.member item List.mem_cons_self).decodedMessage_eq _
              rw [agreed rfl (show _ = .popped key (meant item) by
                rw [typed, names.named, decodes]
                rfl)]
              exact .moved (.popped names.member)
      | read reads => cases reads
  | @unsaved mailbox data =>
      cases decodes with
      | produce typed names gives =>
          rw [agreed rfl (show _ = .pushed mailbox.key (decoded data) by
            rw [typed, names.named, gives.given]
            rfl)]
          exact .lost _ _
      | read reads => cases reads
  | @saved mailbox data =>
      cases decodes with
      | produce typed names gives =>
          rw [agreed rfl (show _ = .pushed mailbox.key (decoded data) by
            rw [typed, names.named, gives.given]
            rfl)]
          exact .moved (@Shelf.Transition.pushed _ _ _ _ meant _ _ ⟨_, data⟩)
      | read reads => cases reads
  | @adopted name _ fresh | @made name _ fresh =>
      cases decodes with
      | addQueue typed gives =>
          rw [agreed rfl (show _ = .created name by
            rw [typed, gives.given]
            rfl)]
          exact .moved (.created fresh)
      | read reads => cases reads
  | @removed mailbox =>
      cases decodes with
      | removeQueue typed names =>
          rw [agreed rfl (show _ = .removed mailbox.key by
            rw [typed, names.named]
            rfl)]
          exact .moved .removed
      | read reads => cases reads

end Requests

namespace Server

variable {env : ServerEnvironment} {machine after : Machine} {accepted : Nat}

/-- What has been taken from the queues and what they hold is a part of what they have been given,
in the same order. -/
structure Thinned (loaded : Shelf Bytes Item) (history : List (BrokerRequest × BrokerResponse))
    (machine : Machine) : Prop where
  keeps : machine.Keeps machine.shelf
  escaped : ∀ mailbox ∈ machine.shelf, ∀ item ∈ mailbox.items, WellEscaped item.message
  thinned : ∀ mailbox ∈ machine.shelf,
    (Shelf.taken mailbox.key [] (account history) ++ mailbox.items.map meant).Sublist
      (Shelf.given mailbox.key (Shelf.contents meant mailbox.key loaded) (account history))

section Thinned

variable {loaded : Shelf Bytes Item} {history : List (BrokerRequest × BrokerResponse)}
  {before : Machine} {req : BrokerRequest} {response : BrokerResponse}

theorem Thinned.still (thinned : Thinned loaded history machine) (keeps : after.Keeps after.shelf)
    (same : after.shelf = machine.shelf) : Thinned loaded history after :=
  ⟨keeps, same ▸ thinned.escaped, same ▸ thinned.thinned⟩

theorem Thinned.start (keeps : machine.Keeps machine.shelf)
    (escaped : ∀ mailbox ∈ machine.shelf, ∀ item ∈ mailbox.items, WellEscaped item.message) :
    Thinned machine.shelf [] machine := by
  refine ⟨keeps, escaped, fun mailbox member => ?_⟩
  show (mailbox.items.map meant).Sublist (Shelf.contents meant mailbox.key machine.shelf)
  rw [Shelf.contents_of_mem keeps.nodup member]

theorem Thinned.answered {broker : BrokerEnvironment} (json : broker.JsonReliable)
    (thinned : Thinned loaded history before)
    (clean : ∀ data, req.data = some data → WellEscaped data)
    (ran : brokerDispatch broker req before = .returned (some response) after) :
    Thinned loaded (history ++ [(req, response)]) after := by
  obtain ⟨_, _, _, _, _, keeps, _⟩ := answered_step thinned.keeps ran
  refine ⟨keeps, messages_after thinned.keeps thinned.escaped clean ran, fun mailbox member => ?_⟩
  rw [account, List.map_append, Shelf.given_append, Shelf.taken_append]
  exact @Shelf.Lossy.thinned _ _ _ _ _ _ _ _ (fun key => Shelf.given key
      (Shelf.contents meant key loaded) (account history))
    (fun key => Shelf.taken key [] (account history)) thinned.keeps.nodup
    (dispatch_lossy json thinned.keeps thinned.escaped ran) thinned.thinned mailbox member

end Thinned

variable {first last : Machine} {events : List (Event Connection)}
  {outputs : List (Nat × Option Bytes)} {tree : FileTree}

variable {process : Process Machine Connection (Option Request × Response)
  (Option Request × Response) (Option Bytes)}

end Server

end Bmb
