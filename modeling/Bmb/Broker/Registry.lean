import Bmb.Base.Registry
import Bmb.Broker.Session

namespace Bmb

open Bmb.Base Bmb.Base.Registry Bmb.Posix

/-! The pool as a registry of queue objects under their names. -/

/-- The array of the pool consists of the objects of a registry, which carry their keys as names,
and these are what its functions find and list. -/
structure IsRegistry (machine : Machine) (registry : Registry Address Bytes) : Prop where
  length : machine.pool.length = registry.length
  slots : machine.pool.pool.slots = registry.objects.map some
  objects : registry.objects.Nodup
  named : ∀ entry ∈ registry, ∃ queue, machine.queues.get entry.1 = some queue ∧ queue.name = entry.2
  names : registry.keys.Nodup
  found : ∀ address name, (address, name) ∈ registry →
    queuePoolGetByName (some name) machine = .returned (some address) machine
  missing : ∀ name ∉ registry.keys, queuePoolGetByName (some name) machine = .returned none machine
  listed : queuePoolGetAllNames machine =
    .returned registry.keys (machine.setWorld (machine.world.allocate 1))

/-- What a request to add or to remove a queue has come to, by the persistence call it has made. -/
def eventOf (before : Machine) (req : BrokerRequest) (after : Machine) : Registry.Event Bytes :=
  if after.world.calls = before.world.calls ++ [⟨.addQueue, true⟩] then .added (req.data.getD [])
  else if after.world.calls = before.world.calls ++ [⟨.removeQueue, true⟩] then
    .removed (req.queueName.getD [])
  else .refused

/-- What the answer to a request says of it. -/
def Base.Registry.Event.succeeded : Registry.Event Bytes → Bool
  | .added _ | .removed _ => true
  | .refused => false

/-- Requests to add and to remove queues, with what they have come to. -/
inductive RegistryRun (env : BrokerEnvironment) (first : Machine) :
    List (Registry.Event Bytes) → Machine → Prop where
  | start : RegistryRun env first [] first
  | handled {events : List (Registry.Event Bytes)} {before after : Machine} {req : BrokerRequest}
      {response : BrokerResponse} (run : RegistryRun env first events before)
      (typed : req.type = some brokerAddQueue ∨ req.type = some brokerRemoveQueue)
      (ran : brokerDispatch env req before = .returned (some response) after) :
      RegistryRun env first (events ++ [eventOf before req after]) after

/-! ## Holdings -/

/-- The objects of some holdings under the names of their queues. -/
def registryOf (holdings : List Holding) : Registry Address Bytes :=
  holdings.map fun holding => (holding.address, holding.mailbox.key)

section Holdings

variable {machine later : Machine} {holdings before after : List Holding} {holding : Holding}

theorem objects_registryOf : (registryOf holdings).objects = holdings.map Holding.address := by
  simp [registryOf, objects]

theorem keys_registryOf :
    (registryOf holdings).keys = holdings.map fun holding => holding.mailbox.key := by
  simp [registryOf, Registry.keys]

theorem Represents.isRegistry (represents : Represents machine holdings) :
    IsRegistry machine (registryOf holdings) where
  length := by rw [represents.length, registryOf, List.length_map]
  slots := by rw [represents.slots, objects_registryOf, List.map_map]; rfl
  objects := by
    rw [objects_registryOf]
    exact List.pairwise_map.mpr (represents.apart.imp fun apart => apart.address)
  named := by
    intro entry member
    obtain ⟨holding, inside, rfl⟩ := List.mem_map.mp member
    exact ⟨_, (represents.holds holding inside).header, rfl⟩
  names := by
    rw [keys_registryOf]
    exact represents.names_nodup
  found := by
    intro address name member
    obtain ⟨holding, inside, same⟩ := List.mem_map.mp member
    obtain ⟨rfl, rfl⟩ := Prod.mk.inj same
    obtain ⟨before, after, rfl⟩ := List.append_of_mem inside
    exact queuePoolGetByName_present represents
  missing := by
    intro name absent
    rw [keys_registryOf] at absent
    exact queuePoolGetByName_absent represents fun other inside same =>
      absent (List.mem_map.mpr ⟨other, inside, same⟩)
  listed := by
    have names := namesFrom_run [] (represents.setWorld (machine.world.allocate 1))
    rw [List.length_nil, ← represents.length] at names
    simp only [queuePoolGetAllNames, Program.run_bind, run_onWorld, run_memAlloc, Program.run_read,
      Machine.setWorld_pool, names, keys_registryOf]

theorem registryOf_added (represents : Represents later (holdings ++ [holding])) :
    Registry.Transition (registryOf holdings) (.added holding.mailbox.key)
      (registryOf (holdings ++ [holding])) := by
  have apart := (List.pairwise_append.mp represents.apart).2.2
  have grown : registryOf (holdings ++ [holding]) =
      registryOf holdings ++ [(holding.address, holding.mailbox.key)] := List.map_append
  rw [grown]
  refine .added ?_ ?_
  · rw [objects_registryOf]
    intro member
    obtain ⟨other, inside, same⟩ := List.mem_map.mp member
    exact (apart other inside holding (by simp)).address same
  · rw [keys_registryOf]
    intro member
    obtain ⟨other, inside, same⟩ := List.mem_map.mp member
    exact (apart other inside holding (by simp)).name same

theorem registryOf_removed (represents : Represents machine (before ++ holding :: after)) :
    Registry.Transition (registryOf (before ++ holding :: after)) (.removed holding.mailbox.key)
      (registryOf (before ++ after)) := by
  have others : ∀ other ∈ before ++ after, other.mailbox.key ≠ holding.mailbox.key :=
    fun other member => (represents.apart_of_middle other member).name
  have left : registryOf (before ++ after) = (registryOf (before ++ holding :: after)).filter
      fun entry => entry.2 ≠ holding.mailbox.key := by
    have kept : ∀ some_ ⊆ before ++ after, (registryOf some_).filter
        (fun entry => entry.2 ≠ holding.mailbox.key) = registryOf some_ := by
      intro some_ inside
      apply List.filter_eq_self.mpr
      intro entry member
      obtain ⟨other, there, rfl⟩ := List.mem_map.mp member
      simpa using others other (inside there)
    have split : registryOf (before ++ holding :: after) =
        registryOf before ++ (holding.address, holding.mailbox.key) :: registryOf after := by
      simp [registryOf]
    rw [split, List.filter_append, List.filter_cons_of_neg (by simp),
      kept before (List.subset_append_left ..), kept after (List.subset_append_right ..)]
    simp [registryOf]
  rw [left]
  refine .removed ?_
  rw [keys_registryOf]
  simp

end Holdings

/-- The names and the objects of a registry can be read off the machine. -/
theorem IsRegistry.unique {machine : Machine} {left right : Registry Address Bytes}
    (leftIs : IsRegistry machine left) (rightIs : IsRegistry machine right) : left = right := by
  have shape {registry : Registry Address Bytes} (is : IsRegistry machine registry) :
      registry = registry.objects.map fun address =>
        (address, ((machine.queues.get address).map Queue.name).getD []) := by
    rw [Registry.objects, List.map_map]
    refine (List.map_id registry).symm.trans (List.map_congr_left fun entry member => ?_)
    obtain ⟨queue, found, named⟩ := is.named entry member
    simp only [id_eq, Function.comp_apply, found, Option.map_some, Option.getD_some, named]
  have same : left.objects = right.objects :=
    List.map_injective_iff.mpr (Option.some_injective _) (leftIs.slots.symm.trans rightIs.slots)
  rw [shape leftIs, shape rightIs, same]

/-! ## Requests -/

section Requests

variable {env : BrokerEnvironment} {machine later : Machine} {ledger final : Ledger}
  {req : BrokerRequest} {shelf : Shelf Bytes Item} {holdings : List Holding}

theorem command_of_addQueue (typed : req.type = some brokerAddQueue) (shelf : Shelf Bytes Item) :
    (∃ message, command req shelf = .rejected message) ∨
      ∃ name, Gives req name ∧ command req shelf = .addQueue name := by
  have unneeded : needsQueue.contains brokerAddQueue = false := by decide
  cases checked : validationError req (none : Option Mailbox) false
      (needsIndex.contains brokerAddQueue) (needsData.contains brokerAddQueue) with
  | some message =>
      refine .inl ⟨message, ?_⟩
      simp only [command, typed, unneeded, Bool.false_eq_true, if_false, checked]
  | none =>
      obtain ⟨name, given, nonempty⟩ := validationError_data checked
      exact .inr ⟨name, ⟨given, nonempty⟩, command_addQueue typed ⟨given, nonempty⟩⟩

theorem command_of_removeQueue (distinct : shelf.keys.Nodup)
    (typed : req.type = some brokerRemoveQueue) :
    (∃ message, command req shelf = .rejected message) ∨
      ∃ mailbox, Names req shelf mailbox ∧ command req shelf = .removeQueue mailbox := by
  have needed : needsQueue.contains brokerRemoveQueue = true := by decide
  cases found : findMailbox req.queueName shelf with
  | none =>
      cases checked : validationError req (none : Option Mailbox) true
          (needsIndex.contains brokerRemoveQueue) (needsData.contains brokerRemoveQueue) with
      | some message =>
          refine .inl ⟨message, ?_⟩
          simp only [command, typed, needed, if_true, found, checked]
      | none => exact absurd checked (validationError_unknown req _ _)
  | some mailbox =>
      obtain ⟨member, named⟩ := findMailbox_some found
      cases checked : validationError req (some mailbox) true
          (needsIndex.contains brokerRemoveQueue) (needsData.contains brokerRemoveQueue) with
      | some message =>
          refine .inl ⟨message, ?_⟩
          simp only [command, typed, needed, if_true, found, checked]
      | none =>
          have names : Names req shelf mailbox :=
            ⟨member, named, validationError_named named checked⟩
          exact .inr ⟨mailbox, names, command_removeQueue distinct typed names⟩

/-- What a request to add or to remove a queue makes of the pool and of the ledger. -/
inductive Settles (data queueName : Option Bytes) (machine : Machine) (ledger : Ledger)
    (later : Machine) (final : Ledger) : Prop where
  | unchanged {registry : Registry Address Bytes} (before : IsRegistry machine registry)
      (after : IsRegistry later registry) (pool : later.pool = machine.pool)
      (shelf : final.shelf = ledger.shelf) : Settles data queueName machine ledger later final
  | added {registry more : Registry Address Bytes} {name : Bytes} (given : data = some name)
      (before : IsRegistry machine registry) (after : IsRegistry later more)
      (transition : Registry.Transition registry (.added name) more)
      (shelf : final.shelf = ledger.shelf.create name) : Settles data queueName machine ledger later final
  | removed {registry more : Registry Address Bytes} {name : Bytes}
      (given : queueName = some name) (before : IsRegistry machine registry)
      (after : IsRegistry later more)
      (transition : Registry.Transition registry (.removed name) more)
      (known : name ∈ ledger.shelf.keys)
      (shelf : final.shelf = ledger.shelf.remove name) : Settles data queueName machine ledger later final

theorem TracksAt.unchanged {data queueName : Option Bytes} (tracks : TracksAt holdings machine ledger)
    (kept : TracksAt holdings later final) (pool : later.pool = machine.pool) :
    Settles data queueName machine ledger later final :=
  .unchanged tracks.represents.isRegistry kept.represents.isRegistry pool
    (kept.shelf.symm.trans tracks.shelf)

theorem addQueue_settles (req : BrokerRequest) {name : Bytes}
    (tracks : TracksAt holdings machine ledger) (given : req.data = some name) :
    Outcome.Matches (fun later final => Settles req.data req.queueName machine ledger later final ∧
        later.world = final.world)
      (Broker.addQueue env req machine) (Ledger.addQueue env name ledger) := by
  refine (addQueue_holdings env tracks given).weaken ?_
  rintro later final (⟨pool, kept⟩ | grown)
  · exact ⟨tracks.unchanged kept pool, kept.world⟩
  · refine ⟨.added given tracks.represents.isRegistry grown.represents.isRegistry
      (registryOf_added grown.represents) ?_, grown.world⟩
    rw [← grown.shelf, List.map_append, tracks.shelf]
    rfl

theorem removeQueue_settles (req : BrokerRequest) {before after : List Holding}
    {address : Address} {cells : List Address} {mailbox : Mailbox}
    (serves : Serves machine ledger before after address cells mailbox)
    (target : req.queue = some address) (named : req.queueName = some mailbox.key) :
    Outcome.Matches (fun later final => Settles req.data req.queueName machine ledger later final ∧
        later.world = final.world)
      (Broker.removeQueue env req machine) (Ledger.removeQueue env mailbox ledger) := by
  refine (removeQueue_holdings env serves target).weaken ?_
  rintro later final (⟨pool, kept⟩ | shrunk)
  · exact ⟨serves.tracksAt.unchanged kept pool, kept.world⟩
  · refine ⟨.removed named serves.represents.isRegistry shrunk.represents.isRegistry
      (registryOf_removed serves.represents) ?_ ?_, shrunk.world⟩
    · rw [serves.shelf]
      simp
    · rw [← shrunk.shelf, serves.without]

theorem dispatchAction_addQueue (typed : req.type = some brokerAddQueue) :
    dispatchAction env req = some <$> Broker.addQueue env req := by
  rw [dispatchAction_typed env typed]
  rfl

theorem dispatchAction_removeQueue (typed : req.type = some brokerRemoveQueue) :
    dispatchAction env req = some <$> Broker.removeQueue env req := by
  rw [dispatchAction_typed env typed]
  rfl

theorem dispatch_addQueue (tracks : TracksAt holdings machine ledger)
    (typed : req.type = some brokerAddQueue) :
    Outcome.Matches (fun later final => Settles req.data req.queueName machine ledger later final ∧
        later.world = final.world)
      (brokerDispatch env req machine) (Ledger.dispatch env req ledger) := by
  have unneeded : needsQueue.contains brokerAddQueue = false := by decide
  simp only [Ledger.dispatch, Program.run_bind, Program.run_read, command, typed, brokerDispatch,
    run_inStrArray, unneeded, Bool.false_eq_true, if_false, Program.run_pure]
  rw [validationError_congr req (none : Pointer) (none : Option Mailbox) rfl]
  cases checked : validationError req (none : Option Mailbox) false
      (needsIndex.contains brokerAddQueue) (needsData.contains brokerAddQueue) with
  | some message =>
      exact Program.matches_map some (matches_onWorld_of tracks.world
        (fun world => ⟨tracks.unchanged (tracks.setWorld world) rfl, rfl⟩) _)
  | none =>
      obtain ⟨name, given, _⟩ := validationError_data checked
      dsimp only
      have named : req.data.getD [] = name := by rw [given, Option.getD_some]
      rw [dispatchAction_addQueue rfl, named]
      exact Program.matches_map some (addQueue_settles ⟨_, _, _, _, _⟩ tracks given)

theorem dispatch_removeQueue (tracks : TracksAt holdings machine ledger)
    (typed : req.type = some brokerRemoveQueue) :
    Outcome.Matches (fun later final => Settles req.data req.queueName machine ledger later final ∧
        later.world = final.world)
      (brokerDispatch env req machine) (Ledger.dispatch env req ledger) := by
  have needed : needsQueue.contains brokerRemoveQueue = true := by decide
  have answered (message : Bytes) : Outcome.Matches
      (fun later final => Settles req.data req.queueName machine ledger later final ∧ later.world = final.world)
      ((some <$> onWorld (createResponse env false 200 (some message) none none)) machine)
      ((some <$> Ledger.respond env false 200 (some message) none none) ledger) :=
    Program.matches_map some (matches_onWorld_of tracks.world
      (fun world => ⟨tracks.unchanged (tracks.setWorld world) rfl, rfl⟩) _)
  have search := tracks.tracks.found req.queueName
  simp only [Ledger.dispatch, Program.run_bind, Program.run_read, command, typed, brokerDispatch,
    run_inStrArray, needed, if_true]
  cases found : findMailbox req.queueName ledger.shelf with
  | none =>
      rw [found] at search
      simp only [search]
      cases checked : validationError req (none : Option Mailbox) true
          (needsIndex.contains brokerRemoveQueue) (needsData.contains brokerRemoveQueue) with
      | none => exact absurd checked (validationError_unknown req _ _)
      | some message =>
          rw [validationError_congr req (none : Pointer) (none : Option Mailbox) rfl, checked]
          exact answered message
  | some mailbox =>
      rw [found] at search
      obtain ⟨before, after, address, cells, located, serves⟩ := search
      simp only [located]
      rw [validationError_congr req (some address) (some mailbox) rfl]
      cases validationError req (some mailbox) true (needsIndex.contains brokerRemoveQueue)
          (needsData.contains brokerRemoveQueue) with
      | some message => exact answered message
      | none =>
          dsimp only
          rw [dispatchAction_removeQueue rfl]
          exact Program.matches_map some
            (removeQueue_settles ⟨_, _, _, _, _⟩ serves rfl (findMailbox_some found).2)

/-- The queues when a request has been handled, `shelf` unless there is an answer. -/
def Ending.kept (shelf : Shelf Bytes Item) : Ending → Shelf Bytes Item
  | .answered _ kept => kept
  | .trapped | .unassigned => shelf

section Endings

variable {effects : List Effect} {calls : List PersistCall} {ending : Ending}
  {outcome : Outcome Ledger (Option BrokerResponse)}

theorem Ends.shelf_eq
    (ends : Ends env Ledger.world (fun shelf after => after.shelf = shelf) shelf ledger effects calls
      ending outcome) : outcome.state.shelf = ending.kept shelf := by
  cases ends with
  | trapped kept | unassigned kept | answered _ kept => exact kept

theorem Ends.answers {response : BrokerResponse}
    (ends : Ends env Ledger.world (fun shelf after => after.shelf = shelf) shelf ledger effects calls
      ending (.returned (some response) final)) :
    ∃ success kept, ending = .answered success kept ∧ Answers env success response := by
  cases ends with
  | answered shown => exact ⟨_, _, rfl, shown⟩

/-- A request to add or to remove a queue is refused, or it succeeds with its persistence call. -/
theorem Step.registers {command : Command} {tree : FileTree} {time : Nat}
    (step : Step env.toEnvironment shelf tree time command effects calls ending)
    (kind : (∃ message, command = .rejected message) ∨ (∃ name, command = .addQueue name) ∨
      ∃ mailbox ∈ shelf, command = .removeQueue mailbox) :
    (ending.kept shelf = shelf ∧ (∀ call ∈ calls, call.success = false) ∧
      ∀ success kept, ending = .answered success kept → success = false) ∨
    (∃ name, ending = .answered true (shelf.create name) ∧ calls = [⟨.addQueue, true⟩]) ∨
    ∃ name ∈ shelf.keys, ending = .answered true (shelf.remove name) ∧
      calls = [⟨.removeQueue, true⟩] := by
  rcases kind with ⟨message, rfl⟩ | ⟨name, rfl⟩ | ⟨mailbox, member, rfl⟩
  · cases step with
    | rejected => exact .inl ⟨rfl, by simp, by simp⟩
    | read reads => cases reads
  · cases step with
    | known | unmade => exact .inl ⟨rfl, by simp, by simp⟩
    | adopted | made => exact .inr (.inl ⟨name, rfl, rfl⟩)
    | read reads => cases reads
  · cases step with
    | kept | unread => exact .inl ⟨rfl, by simp, by simp⟩
    | removed => exact .inr (.inr ⟨mailbox.key, Shelf.key_mem member, rfl, rfl⟩)
    | read reads => cases reads

end Endings

namespace Settles

variable {data queueName : Option Bytes}

theorem refused (settles : Settles data queueName machine ledger later final)
    (same : final.shelf = ledger.shelf) :
    ∃ registry, IsRegistry machine registry ∧ IsRegistry later registry ∧
      later.pool = machine.pool := by
  cases settles with
  | unchanged before after pool => exact ⟨_, before, after, pool⟩
  | added _ _ _ _ shelf => exact absurd (shelf.symm.trans same) Shelf.create_ne_self
  | removed _ _ _ _ known shelf => exact absurd (shelf.symm.trans same) (Shelf.remove_ne_self known)

theorem grown {name : Bytes} (settles : Settles data queueName machine ledger later final)
    (same : final.shelf = ledger.shelf.create name) :
    ∃ registry more, IsRegistry machine registry ∧ IsRegistry later more ∧
      Registry.Transition registry (.added (data.getD [])) more := by
  cases settles with
  | unchanged _ _ _ shelf => exact absurd (same.symm.trans shelf) Shelf.create_ne_self
  | added given before after transition =>
      rw [given]
      exact ⟨_, _, before, after, transition⟩
  | removed _ _ _ _ _ shelf => exact absurd (same.symm.trans shelf) Shelf.create_ne_remove

theorem shrunk {name : Bytes} (settles : Settles data queueName machine ledger later final)
    (known : name ∈ ledger.shelf.keys) (same : final.shelf = ledger.shelf.remove name) :
    ∃ registry more, IsRegistry machine registry ∧ IsRegistry later more ∧
      Registry.Transition registry (.removed (queueName.getD [])) more := by
  cases settles with
  | unchanged _ _ _ shelf => exact absurd (same.symm.trans shelf) (Shelf.remove_ne_self known)
  | added _ _ _ _ shelf => exact absurd (shelf.symm.trans same) Shelf.create_ne_remove
  | removed given before after transition =>
      rw [given]
      exact ⟨_, _, before, after, transition⟩

end Settles

theorem eventOf_refused {calls : List PersistCall}
    (made : later.world.calls = machine.world.calls ++ calls)
    (failed : ∀ call ∈ calls, call.success = false) : eventOf machine req later = .refused := by
  have other {type : PersistType} :
      ¬later.world.calls = machine.world.calls ++ [⟨type, true⟩] := by
    intro same
    rw [List.append_cancel_left (made.symm.trans same)] at failed
    exact absurd (failed _ (List.mem_singleton.mpr rfl)) (by simp)
  rw [eventOf, if_neg other, if_neg other]

theorem eventOf_added (made : later.world.calls = machine.world.calls ++ [⟨.addQueue, true⟩]) :
    eventOf machine req later = .added (req.data.getD []) :=
  if_pos made

theorem eventOf_removed
    (made : later.world.calls = machine.world.calls ++ [⟨.removeQueue, true⟩]) :
    eventOf machine req later = .removed (req.queueName.getD []) := by
  have other : ¬later.world.calls = machine.world.calls ++ [⟨.addQueue, true⟩] := by
    intro same
    have equal := List.append_cancel_left (made.symm.trans same)
    simp at equal
  rw [eventOf, if_neg other, if_pos made]

/-- What a request makes of the registry of a pool, whether it is answered or not. -/
structure Registers (env : BrokerEnvironment) (machine : Machine) (req : BrokerRequest)
    (registry later : Registry Address Bytes) (after : Machine) : Prop where
  kept : IsRegistry after later
  transition : Registry.Transition registry (eventOf machine req after) later
  refused : eventOf machine req after = .refused → after.pool = machine.pool
  answers : ∀ response, brokerDispatch env req machine = .returned (some response) after →
    Answers env (eventOf machine req after).succeeded response

theorem request_registers (keeps : machine.Keeps machine.shelf)
    (typed : req.type = some brokerAddQueue ∨ req.type = some brokerRemoveQueue) :
    ∃ registry later, IsRegistry machine registry ∧
      Registers env machine req registry later (brokerDispatch env req machine).state := by
  obtain ⟨holdings, represents, persist, shown⟩ := id keeps
  have tracks : TracksAt holdings machine ⟨machine.shelf, machine.world⟩ :=
    ⟨represents, persist, shown, rfl⟩
  have settled : Outcome.Matches (fun later final =>
      Settles req.data req.queueName machine ⟨machine.shelf, machine.world⟩ later final ∧
        later.world = final.world) (brokerDispatch env req machine)
      (Ledger.execute env (command req machine.shelf) ⟨machine.shelf, machine.world⟩) := by
    rcases typed with adds | removes
    · exact dispatch_addQueue tracks adds
    · exact dispatch_removeQueue tracks removes
  obtain ⟨effects, calls, ending, step, ends⟩ :=
    Ledger.execute_step env (command req machine.shelf) ⟨machine.shelf, machine.world⟩
  have kind : (∃ message, command req machine.shelf = .rejected message) ∨
      (∃ name, command req machine.shelf = .addQueue name) ∨
      ∃ mailbox ∈ machine.shelf, command req machine.shelf = .removeQueue mailbox := by
    rcases typed with adds | removes
    · exact (command_of_addQueue adds machine.shelf).imp_right fun ⟨name, _, same⟩ =>
        .inl ⟨name, same⟩
    · exact (command_of_removeQueue keeps.nodup removes).imp_right fun ⟨mailbox, names, same⟩ =>
        .inr ⟨mailbox, names.member, same⟩
  have shelf := ends.shelf_eq
  have made := ends.handled.calls
  have answers (success : Bool) (ended : ∀ said kept, ending = .answered said kept → said = success) :
      ∀ response, brokerDispatch env req machine =
        .returned (some response) (brokerDispatch env req machine).state →
      Answers env success response := by
    intro response ran
    rw [ran] at settled
    obtain ⟨final, same, _⟩ := settled.of_returned
    rw [same] at ends
    obtain ⟨said, kept, shape, shown⟩ := ends.answers
    rwa [← ended said kept shape]
  obtain ⟨settles, world⟩ := settled.states
  rw [← world] at made
  rcases step.registers kind with ⟨kept, failed, unsuccessful⟩ | ⟨name, rfl, rfl⟩ |
    ⟨name, known, rfl, rfl⟩
  · obtain ⟨registry, before, after, pool⟩ := settles.refused (shelf.trans kept)
    have event := @eventOf_refused _ _ req _ made failed
    refine ⟨registry, registry, before, after, event ▸ .refused, fun _ => pool, ?_⟩
    rw [event]
    exact answers false unsuccessful
  · obtain ⟨registry, more, before, after, transition⟩ := settles.grown shelf
    have event := @eventOf_added _ _ req made
    refine ⟨registry, more, before, after, event ▸ transition, fun same => ?_, ?_⟩
    · rw [event] at same
      contradiction
    · rw [event]
      exact answers true (by rintro _ _ ⟨⟩; rfl)
  · obtain ⟨registry, less, before, after, transition⟩ := settles.shrunk known shelf
    have event := @eventOf_removed _ _ req made
    refine ⟨registry, less, before, after, event ▸ transition, fun same => ?_, ?_⟩
    · rw [event] at same
      contradiction
    · rw [event]
      exact answers true (by rintro _ _ ⟨⟩; rfl)

end Requests

/-! ## Runs -/

/-- The queue names that a starting process gets listed. -/
def Lists (env : Environment) (tree : FileTree) (names : List Bytes) : Prop :=
  ∃ pres world, persistDispatch env ⟨.getQueueList, none, 0, none⟩ (Machine.boot tree).world =
    .returned pres world ∧ pres.data = .queueList names

section Runs

variable {env : BrokerEnvironment} {first machine : Machine} {tree : FileTree}
  {events : List (Registry.Event Bytes)} {req : BrokerRequest}

theorem loaded_lists (ran : queuePoolLoad env.toEnvironment (.boot tree) = .returned () first) :
    Lists env.toEnvironment tree first.shelf.keys := by
  have read := (loaded_keeps rfl ran).2
  obtain ⟨pres, world, called, rest⟩ := Program.bind_eq_returned.mp read
  cases listed : pres.data with
  | queueList names =>
      rw [listed] at rest
      obtain ⟨shelf, middle, loaded, released⟩ := Program.bind_eq_returned.mp rest
      have keys := loadMailboxes_keys env.toEnvironment true names _ _ _ loaded
      have same : shelf = first.shelf := by
        rw [Program.run_bind, Program.run_modify] at released
        exact (Outcome.returned.inj released).1
      rw [← same, keys]
      exact ⟨pres, world, called, listed⟩
  | _ =>
      rw [listed] at rest
      cases rest

/-- Along a run the entries of the registry are the names that stand. -/
theorem RegistryRun.registry (keeps : first.Keeps first.shelf)
    (run : RegistryRun env first events machine) :
    machine.Keeps machine.shelf ∧ ∃ registry, IsRegistry machine registry ∧
      registry.keys = standing (first.shelf.keys.map .added ++ events) := by
  induction run with
  | start =>
      obtain ⟨holdings, represents, _, shown⟩ := id keeps
      refine ⟨keeps, registryOf holdings, represents.isRegistry, ?_⟩
      rw [List.append_nil, standing_added, keys_registryOf, ← shown, Shelf.keys, List.map_map]
      rfl
  | @handled events before after req response run typed ran ih =>
      obtain ⟨kept, registry, known, keys⟩ := ih
      obtain ⟨other, later, same, registers⟩ := request_registers kept typed
      obtain ⟨_, _, _, _, _, stays, _⟩ := answered_step kept ran
      rw [same.unique known, ran] at registers
      refine ⟨stays, later, registers.kept, ?_⟩
      rw [registers.transition.keys_eq, keys, ← List.append_assoc, standing_concat]
      rfl

/-- After any requests to add and to remove queues the pool is a registry of the names that stand,
and the next such request adds one entry, removes one or is refused. -/
theorem pool_is_registry (loaded : queuePoolLoad env.toEnvironment (.boot tree) = .returned () first)
    (run : RegistryRun env first events machine) :
    ∃ names registry, Lists env.toEnvironment tree names ∧ IsRegistry machine registry ∧
      registry.keys = standing (names.map .added ++ events) ∧
      (∀ name, (∃ address, queuePoolGetByName (some name) machine =
          .returned (some address) machine) ↔ Stands name (names.map .added ++ events)) ∧
      ∀ req : BrokerRequest, req.type = some brokerAddQueue ∨ req.type = some brokerRemoveQueue →
        ∃ later, Registers env machine req registry later (brokerDispatch env req machine).state := by
  obtain ⟨keeps, registry, is, keys⟩ := run.registry (loaded_keeps rfl loaded).1
  refine ⟨first.shelf.keys, registry, loaded_lists loaded, is, keys, fun name => ?_,
    fun req typed => ?_⟩
  · rw [← mem_standing, ← keys]
    constructor
    · rintro ⟨address, found⟩
      by_contra absent
      rw [is.missing name absent] at found
      cases found
    · intro member
      obtain ⟨⟨address, _⟩, entry, rfl⟩ := List.mem_map.mp member
      exact ⟨address, is.found _ _ entry⟩
  · obtain ⟨other, later, same, registers⟩ := request_registers keeps typed
    exact ⟨later, same.unique is ▸ registers⟩

theorem RegistryRun.asked (run : RegistryRun env first events machine) (req : BrokerRequest)
    (typed : req.type = some brokerAddQueue ∨ req.type = some brokerRemoveQueue)
    (answered : isAnswered env req machine = true) :
    RegistryRun env first (events ++ [eventOf machine req (machine.asked env req)])
      (machine.asked env req) := by
  obtain ⟨response, ran⟩ := asked_returned answered
  exact .handled run typed ran

end Runs

/-- A pool that has been emptied and has grown again. -/
def regrown : Machine :=
  (((loaded faithful emptyTree).asked faithful (request "addQueue" none (some "a"))).asked faithful
    (request "removeQueue" (some "a") none)).asked faithful (request "addQueue" none (some "b"))

theorem pool_is_registry_computed :
    ∃ names registry, Lists faithful.toEnvironment emptyTree names ∧ IsRegistry regrown registry ∧
      registry.keys = standing (names.map .added ++
        [.added (text "a"), .removed (text "a"), .added (text "b")]) := by
  have run := ((RegistryRun.start.asked (request "addQueue" none (some "a")) (.inl (by decide))
    (show isAnswered faithful _ (loaded faithful emptyTree) = true by decide +kernel)).asked
      (request "removeQueue" (some "a") none) (.inr (by decide)) (by decide +kernel)).asked
        (request "addQueue" none (some "b")) (.inl (by decide)) (by decide +kernel)
  obtain ⟨names, registry, lists, is, keys, _⟩ :=
    pool_is_registry (loaded_returned (by decide +kernel)) run
  refine ⟨names, registry, lists, is, keys.trans (congrArg standing ?_)⟩
  exact congrArg (names.map Registry.Event.added ++ ·) (by decide +kernel)

end Bmb
