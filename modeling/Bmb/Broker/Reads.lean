import Bmb.Broker.Counters
import Bmb.Broker.Service

namespace Bmb

open Bmb.Base Bmb.Base.Program Bmb.Posix

/-! Requests that only look at the queues might as well not have been made. -/

/-- The types of request that look at the queues. -/
def looking : List Bytes := [brokerLength, brokerGet, brokerGetAll, brokerGetAllQueueNames]

def BrokerRequest.looks (req : BrokerRequest) : Bool := looking.contains (req.type.getD [])

section Looks

variable {env : BrokerEnvironment} {req : BrokerRequest} {shelf : Shelf Bytes Item}
  {machine after : Machine}

/-- A request that looks is turned down, or it reads. -/
theorem command_looks (looks : req.looks = true) :
    (∃ message, command req shelf = .rejected message) ∨ (command req shelf).Reads := by
  have inside : req.type.getD [] ∈ looking := by simpa [BrokerRequest.looks] using looks
  have other {type : Bytes} (typed : req.type = some type) (absent : type ∉ looking) : False := by
    rw [typed] at inside
    exact absent inside
  have decodes := command_decodes req shelf
  generalize command req shelf = decoded at decodes
  cases decodes with
  | untyped missing =>
      rw [missing] at inside
      exact absurd inside (by decide)
  | rejected message => exact .inl ⟨message, rfl⟩
  | unknown typed absent =>
      refine (other typed fun member => absent ?_).elim
      simp only [looking, recognised, List.mem_cons, List.not_mem_nil, or_false] at member ⊢
      grind
  | consume typed => exact (other typed (by decide)).elim
  | produce typed => exact (other typed (by decide)).elim
  | read reads => exact .inr reads
  | addQueue typed => exact (other typed (by decide)).elim
  | removeQueue typed => exact (other typed (by decide)).elim

theorem World.Answered.similar {before after : World} (answered : before.Answered after) :
    before.Similar after := by
  obtain ⟨blocks, calls, rfl⟩ := answered
  rfl

variable {ledger last : Ledger}

theorem answering_onWorld {α : Type} {post : α → Prop} {program : Program World α} {value : α}
    (answering : Answering post program)
    (ran : Ledger.onWorld program ledger = .returned value last) :
    Ledger.Similar World.Similar ledger last := by
  obtain ⟨other, world, returned, answered, _⟩ := answering ledger.world
  rw [Ledger.run_onWorld, returned] at ran
  cases ran
  exact ⟨rfl, answered.similar⟩

/-- What is turned down or reads leaves the queues and the files, and even the time, alone. -/
theorem execute_looks {decoded : Command} {answer : Option BrokerResponse}
    (looks : (∃ message, decoded = .rejected message) ∨ decoded.Reads)
    (ran : Ledger.execute env decoded ledger = .returned answer last) :
    Ledger.Similar World.Similar ledger last := by
  rcases looks with ⟨message, rfl⟩ | reads
  · obtain ⟨response, ran, _⟩ := Program.map_eq_returned ran
    exact answering_onWorld (createResponse_answering env _ _ _ _ _) ran
  · cases reads with
    | length mailbox =>
        obtain ⟨response, ran, _⟩ := Program.map_eq_returned ran
        exact answering_onWorld (lengthResponse_answering env _) ran
    | get mailbox index =>
        obtain ⟨response, ran, _⟩ := Program.map_eq_returned ran
        cases found : mailbox.items.reverse[index]? with
        | some item =>
            simp only [Ledger.get, found] at ran
            exact answering_onWorld (respondCopied_answering env _) ran
        | none =>
            simp only [Ledger.get, found] at ran
            exact answering_onWorld (createResponse_answering env _ _ _ _ _) ran
    | getAll mailbox =>
        obtain ⟨response, ran, _⟩ := Program.map_eq_returned ran
        exact answering_onWorld (itemsResponse_answering env _) ran
    | getAllQueueNames =>
        obtain ⟨response, ran, _⟩ := Program.map_eq_returned ran
        exact answering_onWorld (listNames_answering env _) ran

theorem brokerDispatch_looks {response : BrokerResponse} (keeps : machine.Keeps machine.shelf)
    (looks : req.looks = true) (ran : brokerDispatch env req machine = .returned (some response) after) :
    machine.Similar after := by
  have matching := brokerDispatch_matches env req
    (show Tracks machine ⟨machine.shelf, machine.world⟩ from ⟨keeps, rfl⟩)
  rw [ran] at matching
  obtain ⟨image, dispatched, tracks⟩ := matching.of_returned
  have near := execute_looks (command_looks looks) dispatched
  have shown := tracks.keeps.shelf_eq
  have shelf : machine.shelf = image.shelf := near.shelf
  have world : machine.world.Similar image.world := near.world
  refine ⟨keeps, shown ▸ tracks.keeps, shelf.trans shown.symm, ?_⟩
  rw [tracks.world]
  exact world

end Looks

/-! ## Runs -/

section Runs

variable {env : BrokerEnvironment} {tree : FileTree} {first machine other last : Machine}
  {history : List (BrokerRequest × BrokerResponse)}

/-- The requests that do not only look, with their responses. -/
def acting (history : List (BrokerRequest × BrokerResponse)) : List (BrokerRequest × BrokerResponse) :=
  history.filter fun entry => !entry.1.looks

theorem handles_acting (json : env.JsonReliable) (similar : machine.Similar other)
    (handles : Service.Handles env machine (history.map Prod.fst) (history.map Prod.snd) last) :
    ∃ ended, Service.Handles env other ((acting history).map Prod.fst) ((acting history).map Prod.snd)
        ended ∧ last.Similar ended := by
  induction history generalizing machine other with
  | nil =>
      cases handles
      exact ⟨other, .done, similar⟩
  | cons entry history ih =>
      obtain ⟨req, response⟩ := entry
      cases handles with
      | next ran rest =>
          cases looks : req.looks with
          | true =>
              have still := brokerDispatch_looks similar.keeps looks ran
              obtain ⟨ended, runs, close⟩ := ih (trans_of _ (symm_of _ still) similar) rest
              refine ⟨ended, ?_, close⟩
              rw [acting, List.filter_cons_of_neg (by simp [looks])]
              exact runs
          | false =>
              have alike := brokerDispatch_blind json req similar
              rw [ran] at alike
              obtain ⟨after, again, near⟩ := alike.of_returned
              obtain ⟨ended, runs, close⟩ := ih near rest
              refine ⟨ended, ?_, close⟩
              rw [acting, List.filter_cons_of_pos (by simp [looks])]
              exact .next again runs

/-- Whatever calls fail, a run without its requests for lengths, messages and names gives the
others the same responses, and ends with the same queues and the same files. -/
theorem looking_is_harmless (json : env.JsonReliable)
    (started : queuePoolLoad env.toEnvironment (.boot tree) = .returned () first)
    (handles : Service.Handles env first (history.map Prod.fst) (history.map Prod.snd) last) :
    ∃ ended, Service.Handles env first ((acting history).map Prod.fst) ((acting history).map Prod.snd)
        ended ∧
      ended.shelf = last.shelf ∧ ended.world.system = last.world.system := by
  have keeps := (loaded_keeps rfl started).1
  obtain ⟨ended, runs, close⟩ := handles_acting json
    (show first.Similar first from ⟨keeps, keeps, rfl, .refl _⟩) handles
  exact ⟨ended, runs, close.shelf.symm, close.world.system.symm⟩

/-- A request for a length between two requests that act. -/
theorem looking_is_harmless_computed : ∃ history last,
    Service.Handles faithful (loaded faithful emptyTree) (history.map Prod.fst)
        (history.map Prod.snd) last ∧
      history.length = 3 ∧ (acting history).length = 2 ∧
      ∃ ended, Service.Handles faithful (loaded faithful emptyTree)
        ((acting history).map Prod.fst) ((acting history).map Prod.snd) ended ∧
        ended.shelf = last.shelf := by
  let adds := request "addQueue" none (some "a")
  let looks := request "length" (some "a") none
  let produces := request "produce" (some "a") (some "x")
  obtain ⟨added, first⟩ := @asked_returned faithful (loaded faithful emptyTree) adds (by decide +kernel)
  obtain ⟨length, second⟩ := @asked_returned faithful ((loaded faithful emptyTree).asked faithful adds)
    looks (by decide +kernel)
  obtain ⟨produced, third⟩ := @asked_returned faithful
    (((loaded faithful emptyTree).asked faithful adds).asked faithful looks) produces (by decide +kernel)
  have handles := Service.Handles.next first (.next second (.next third .done))
  obtain ⟨ended, runs, same, _⟩ := @looking_is_harmless faithful emptyTree _ _
    [(adds, added), (looks, length), (produces, produced)] (fun _ => rfl)
    (loaded_returned (by decide +kernel)) handles
  exact ⟨[(adds, added), (looks, length), (produces, produced)], _, handles, rfl, rfl, ended, runs, same⟩

end Runs

end Bmb
