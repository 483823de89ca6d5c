import Bmb.Base.Refinement
import Bmb.Broker.Ledger
import Bmb.QueuePool.Represents

namespace Bmb

open Bmb.Base Bmb.Posix

/-! The broker over pointers does what the broker over a ledger does. -/

/-- The pool keeps the queues of a shelf, each with persistence switched on. -/
def Machine.Keeps (machine : Machine) (shelf : Shelf Bytes Item) : Prop :=
  ∃ holdings, Represents machine holdings ∧ (∀ holding ∈ holdings, holding.persist = true) ∧
    holdings.map Holding.mailbox = shelf

/-- The pool keeps the queues of the ledger, and the world is that of the ledger. -/
structure Tracks (machine : Machine) (ledger : Ledger) : Prop where
  keeps : machine.Keeps ledger.shelf
  world : machine.world = ledger.world

namespace Machine.Keeps

variable {machine : Machine} {shelf : Shelf Bytes Item} {mailbox : Mailbox}

theorem nodup (keeps : machine.Keeps shelf) : shelf.keys.Nodup := by
  obtain ⟨holdings, represents, _, rfl⟩ := keeps
  simpa [Shelf.keys, Function.comp_def] using represents.names_nodup

theorem setWorld (keeps : machine.Keeps shelf) (world : World) :
    (machine.setWorld world).Keeps shelf := by
  obtain ⟨holdings, represents, persist, shown⟩ := keeps
  exact ⟨holdings, represents.setWorld world, persist, shown⟩

theorem locate (keeps : machine.Keeps shelf) (member : mailbox ∈ shelf) :
    ∃ before after address cells,
      Represents machine (before ++ ⟨address, cells, true, mailbox⟩ :: after) ∧
      (∀ holding ∈ before ++ after, holding.persist = true) ∧
      shelf = before.map Holding.mailbox ++ mailbox :: after.map Holding.mailbox := by
  obtain ⟨holdings, represents, persist, rfl⟩ := keeps
  obtain ⟨⟨address, cells, persisted, _⟩, inside, rfl⟩ := List.mem_map.mp member
  obtain ⟨before, after, rfl⟩ := List.append_of_mem inside
  have same : persisted = true := persist _ inside
  subst same
  refine ⟨before, after, address, cells, represents, ?_, by simp⟩
  intro holding other
  exact persist holding (by rcases List.mem_append.mp other with left | right <;> simp [*])

end Machine.Keeps

section World

variable {machine : Machine} {ledger : Ledger}

theorem matches_onWorld_of {α : Type} {related : Machine → Ledger → Prop}
    (same : machine.world = ledger.world)
    (relates : ∀ world, related (machine.setWorld world) (ledger.setWorld world))
    (program : Program World α) :
    Outcome.Matches related (onWorld program machine) (Ledger.onWorld program ledger) := by
  rw [run_onWorld, Ledger.run_onWorld, same]
  cases program ledger.world with
  | returned value world => exact .returned (relates world)
  | trapped trap world => exact .trapped (relates world)

theorem Tracks.setWorld (tracks : Tracks machine ledger) (world : World) :
    Tracks (machine.setWorld world) (ledger.setWorld world) :=
  ⟨tracks.keeps.setWorld world, rfl⟩

theorem matches_onWorld {α : Type} (tracks : Tracks machine ledger) (program : Program World α) :
    Outcome.Matches Tracks (onWorld program machine) (Ledger.onWorld program ledger) :=
  matches_onWorld_of tracks.world tracks.setWorld program

/-- The pool consists of the holdings, and these are the queues of the ledger. -/
structure TracksAt (holdings : List Holding) (machine : Machine) (ledger : Ledger) : Prop where
  represents : Represents machine holdings
  persist : ∀ holding ∈ holdings, holding.persist = true
  shelf : holdings.map Holding.mailbox = ledger.shelf
  world : machine.world = ledger.world

theorem TracksAt.tracks {holdings : List Holding} (tracks : TracksAt holdings machine ledger) :
    Tracks machine ledger :=
  ⟨⟨holdings, tracks.represents, tracks.persist, tracks.shelf⟩, tracks.world⟩

theorem TracksAt.setWorld {holdings : List Holding} (tracks : TracksAt holdings machine ledger)
    (world : World) : TracksAt holdings (machine.setWorld world) (ledger.setWorld world) :=
  ⟨tracks.represents.setWorld world, tracks.persist, tracks.shelf, rfl⟩

theorem onWorld_answer {α : Type} (answer : Program World α) :
    (do
      let res ← onWorld answer
      onWorld memFree
      pure res : Program Machine α) =
      onWorld (do
        let res ← answer
        memFree
        pure res) := by
  simp only [onWorld_bind, onWorld_pure]

end World

/-! ## One queue -/

section Serving

variable (env : BrokerEnvironment) {machine later : Machine} {ledger : Ledger}
  {before after : List Holding} {address : Address} {cells : List Address} {mailbox : Mailbox}
  {req : BrokerRequest}

/-- The queue at an address of the pool is the one with a mailbox of the ledger. -/
structure Serves (machine : Machine) (ledger : Ledger) (before after : List Holding)
    (address : Address) (cells : List Address) (mailbox : Mailbox) : Prop where
  represents : Represents machine (before ++ ⟨address, cells, true, mailbox⟩ :: after)
  persist : ∀ holding ∈ before ++ after, holding.persist = true
  shelf : ledger.shelf = before.map Holding.mailbox ++ mailbox :: after.map Holding.mailbox
  world : machine.world = ledger.world

namespace Serves

theorem holds (serves : Serves machine ledger before after address cells mailbox) :
    QueueHolds machine address cells true mailbox :=
  serves.represents.holds _ (List.mem_append_right _ (List.mem_cons_self ..))

theorem setWorld (serves : Serves machine ledger before after address cells mailbox)
    (world : World) :
    Serves (machine.setWorld world) (ledger.setWorld world) before after address cells mailbox :=
  ⟨serves.represents.setWorld world, serves.persist, serves.shelf, rfl⟩

theorem nodup (serves : Serves machine ledger before after address cells mailbox) :
    (Shelf.keys (before.map Holding.mailbox ++ mailbox :: after.map Holding.mailbox)).Nodup := by
  simpa [Shelf.keys, Function.comp_def] using serves.represents.names_nodup

theorem tracksAt (serves : Serves machine ledger before after address cells mailbox) :
    TracksAt (before ++ ⟨address, cells, true, mailbox⟩ :: after) machine ledger := by
  refine ⟨serves.represents, ?_, by simp [serves.shelf], serves.world⟩
  intro holding member
  rcases List.mem_append.mp member with left | right
  · exact serves.persist holding (by simp [left])
  · rcases List.mem_cons.mp right with rfl | right
    · rfl
    · exact serves.persist holding (by simp [right])

theorem tracks (serves : Serves machine ledger before after address cells mailbox) :
    Tracks machine ledger :=
  serves.tracksAt.tracks

theorem updated {world : World}
    (serves : Serves machine ledger before after address cells mailbox)
    (f : List Item → List Item) (newCells touched : List Address)
    (holds : QueueHolds later address newCells true ⟨mailbox.key, f mailbox.items⟩)
    (same : OutsideSame touched address machine later)
    (own : ∀ cell ∈ newCells ++ touched, cell ∈ cells ∨ machine.nodes.frontier ≤ cell)
    (worldSame : later.world = world) :
    Tracks later ((ledger.setShelf (ledger.shelf.update mailbox.key f)).setWorld world) := by
  have represents := serves.represents.replace
    ⟨address, newCells, true, ⟨mailbox.key, f mailbox.items⟩⟩ holds same rfl rfl own
  have changed := Shelf.update_middle (f := f) serves.nodup
  exact Serves.tracks ⟨represents, serves.persist,
    (congrArg (Shelf.update mailbox.key f) serves.shelf).trans changed, worldSame⟩

end Serves

/-- The end of `consume` frees the detached node and answers. -/
theorem deliver_matches {last : Address} {item : Item} {next : Pointer}
    (tracks : Tracks (machine.setNodes (machine.nodes.free last)) ledger)
    (found : machine.nodes.get last = some { id := item.id, message := some item.message, next }) :
    Outcome.Matches Tracks
      ((do
        match ← Node.getMessage (some last) with
        | none => .stop .nullPointer
        | some message => do
            let machine ← .read
            let data := Broker.decodedMessage message (env.residue machine.world.system.clock)
            onWorld memAlloc
            Node.destruct (some last)
            let res ← onWorld (createResponse env true 200 none (some data) none)
            onWorld memFree
            pure res : Program Machine BrokerResponse) machine)
      (Ledger.onWorld (Ledger.deliver env item) ledger) := by
  have world : machine.world = ledger.world := tracks.world
  have destroyed := Queue.destruct_node_run
    (show (machine.setWorld (ledger.world.allocate 1)).nodes.get last = _ from found)
  have answered := matches_onWorld (tracks.setWorld ((ledger.world.allocate 1).release 2)) (do
    let res ← createResponse env true 200 none (some (Broker.decodedMessage item.message
      (env.residue ledger.world.system.clock))) none
    memFree
    pure res)
  rw [← onWorld_answer] at answered
  simp only [Program.run_bind, Queue.getMessage_run found, Program.run_read, world, run_onWorld memAlloc, run_memAlloc, destroyed]
  exact answered

theorem consume_matches (serves : Serves machine ledger before after address cells mailbox)
    (target : req.queue = some address) :
    Outcome.Matches Tracks (Broker.consume env req machine) (Ledger.consume env mailbox ledger) := by
  have emptiness := Queue.isEmpty_run serves.holds
  obtain ⟨key, items⟩ := mailbox
  cases items with
  | nil =>
      simp only [Broker.consume, Ledger.consume, target, Program.run_bind, emptiness]
      exact matches_onWorld serves.tracks _
  | cons item rest =>
      have polled := Queue.poll_run env.toEnvironment serves.holds
      simp only [Broker.consume, Ledger.consume, target, Program.run_bind, emptiness,
        Ledger.run_onWorld, ← serves.world]
      cases call : persistDispatch env.toEnvironment ⟨.removeNode, some key, item.id, none⟩
          machine.world with
      | trapped trap world =>
          simp only [call] at polled
          simp only [List.isEmpty_cons, Bool.not_false, if_true, Program.run_bind, polled]
          exact .trapped (serves.tracks.setWorld world)
      | returned pres world =>
          simp only [call] at polled
          cases success : pres.success with
          | false =>
              simp only [success, Bool.false_eq_true, if_false] at polled
              simp only [List.isEmpty_cons, Bool.not_false, if_true, Program.run_bind, polled,
                Node.getMessage, nodeAt, Program.run_ite, success, Bool.false_eq_true, if_false,
                Program.run_stop]
              exact .trapped (serves.tracks.setWorld world)
          | true =>
              simp only [success, if_true] at polled
              obtain ⟨kept, last, detached, rfl, ran, found, keeps, same, worldSame⟩ := polled
              have absent : last ∉ kept := serves.holds.chain.last_not_mem
              have tracks : Tracks (detached.setNodes (detached.nodes.free last))
                  ((ledger.setShelf (ledger.shelf.pop key)).setWorld world) := by
                refine serves.updated List.tail kept (kept ++ [last]) ?_ ?_ ?_ worldSame
                · exact keeps.frame (fun cell member =>
                    Store.get_free_of_ne fun same => absent (same ▸ member)) rfl
                · refine ⟨fun cell outside => ?_, same.queues, same.pool⟩
                  simp only [List.mem_append, List.mem_singleton, not_or] at outside
                  exact (Store.get_free_of_ne outside.2).trans (same.nodes cell outside.1)
                · intro cell member
                  left
                  simp only [List.mem_append, List.mem_singleton] at member ⊢
                  tauto
              have delivered := deliver_matches env tracks ((same.nodes last absent).trans found)
              simp only [List.isEmpty_cons, Bool.not_false, if_true, Program.run_bind, ran,
                Program.run_ite, success, Ledger.onShelf, Program.run_modify]
              exact delivered

theorem Serves.withNode (serves : Serves machine ledger before after address cells mailbox)
    (id : Nat) (message : Bytes) :
    Serves (machine.withNode id message) ledger before after address cells mailbox :=
  ⟨serves.represents.withNode id message, serves.persist, serves.shelf, serves.world⟩

/-- The end of `produce` adds a prepared node to its queue and answers. -/
theorem add_matches {world : World} (item : Item)
    (serves : Serves machine ledger before after address cells mailbox)
    (prepared : Serves ((machine.setWorld world).withNode item.id item.message)
      (ledger.setWorld world) before after address cells mailbox) :
    Outcome.Matches Tracks
      ((do
        let _ ← Queue.add env.toEnvironment (some address) (some machine.nodes.frontier)
        onWorld (createResponse env true 200 (some (text "Message produced.")) none none) :
          Program Machine BrokerResponse) ((machine.setWorld world).withNode item.id item.message))
      ((do
        if ← Ledger.onWorld (storeCalls env.toEnvironment mailbox.key (some item.message)) then
          Ledger.onShelf (Shelf.push mailbox.key item)
        else pure ()
        Ledger.respond env true 200 (some (text "Message produced.")) none none :
          Program Ledger BrokerResponse) (ledger.setWorld world)) := by
  have found := withNode_found (machine.setWorld world) item.id item.message
  have same := withNode_same (machine.setWorld world) item.id item.message address
  have unused : machine.nodes.frontier ∉ cells := fun member =>
    Nat.lt_irrefl _ (serves.holds.chain.bounded member)
  have added := Queue.add_run env.toEnvironment prepared.holds unused found
  rw [prepared.world] at added
  rw [Program.run_bind, Program.run_bind, Ledger.run_onWorld]
  cases stored : storeCalls env.toEnvironment mailbox.key (some item.message)
      (ledger.setWorld world).world with
  | trapped trap final =>
      simp only [stored] at added
      simp only [added]
      exact .trapped (prepared.tracks.setWorld final)
  | returned success final =>
      cases success with
      | false =>
          simp only [stored] at added
          simp only [added]
          exact matches_onWorld (prepared.tracks.setWorld final) _
      | true =>
          simp only [stored] at added
          obtain ⟨linked, ran, holds, linkedSame, worldSame⟩ := added
          have tracks := serves.updated (· ++ [item]) (machine.nodes.frontier :: cells)
            [machine.nodes.frontier] holds
            (OutsideSame.trans ⟨same.nodes, same.queues, same.pool⟩ linkedSame)
            (linked_own machine) worldSame
          simp only [ran]
          exact matches_onWorld tracks _

theorem produce_matches {data : Bytes}
    (serves : Serves machine ledger before after address cells mailbox)
    (target : req.queue = some address) (given : req.data.getD [] = data) :
    Outcome.Matches Tracks (Broker.produce env req machine)
      (Ledger.produce env mailbox data ledger) := by
  simp only [Broker.produce, Ledger.produce, Ledger.producedId, target, given, Program.run_bind,
    run_queueAt serves.holds.header, run_onWorld (persistDispatch _ _), Ledger.run_onWorld,
    serves.world]
  cases call : persistDispatch env.toEnvironment ⟨.getNextId, some mailbox.key, 0, none⟩
      ledger.world with
  | trapped trap world => exact .trapped (serves.tracks.setWorld world)
  | returned persistRes world =>
      cases answer : persistRes.data with
      | null | queue | queueList | content =>
          simp only [answer, nextIdFrom, Program.run_stop]
          exact .trapped (serves.tracks.setWorld world)
      | nextId newNodeId =>
          have prepared := (serves.setWorld (((world.allocate 1).release 1).allocate 1)).withNode
            newNodeId data
          have filled := Queue.setMessage_run
            (((machine.setWorld (world.allocate 1)).setNodes
              (machine.nodes.alloc { id := newNodeId, message := none, next := none })).setWorld
                ((world.allocate 1).release 1)) data Store.get_alloc_self
          simp only [answer, nextIdFrom, Program.run_pure, Queue.new_node_run, run_onWorld memFree,
            run_memFree, run_memAlloc, Machine.setWorld_world, Machine.setNodes_world,
            Machine.setWorld_nodes, Machine.setWorld_setWorld, filled]
          have finished := add_matches env ⟨newNodeId, data⟩ serves prepared
          rw [Program.run_bind, Program.run_bind, Ledger.run_onWorld] at finished
          exact finished

theorem length_matches (serves : Serves machine ledger before after address cells mailbox)
    (target : req.queue = some address) :
    Outcome.Matches Tracks (Broker.length env req machine) (Ledger.length env mailbox ledger) := by
  have same : Broker.length env req machine = onWorld (do
      memAlloc
      memAlloc
      memFree
      let res ← createResponse env true 200 none (some (intToString mailbox.items.length)) none
      memFree
      pure res) machine := by
    rw [Broker.length, target, Program.run_bind, Queue.size_run serves.holds]
    simp only [onWorld_bind, onWorld_pure]
  rw [same]
  exact matches_onWorld serves.tracks _

theorem Serves.node_at {index : Nat} {item : Item}
    (serves : Serves machine ledger before after address cells mailbox)
    (here : mailbox.items.reverse[index]? = some item) :
    ∃ cell next, Queue.get (some address) index machine = .returned (some cell) machine ∧
      machine.nodes.get cell = some { id := item.id, message := some item.message, next } := by
  have inside : index < cells.length := by
    have bound := (List.getElem?_eq_some_iff.mp here).1
    rwa [List.length_reverse, ← serves.holds.length_eq] at bound
  obtain ⟨found, there, node⟩ := serves.holds.node_at (List.getElem?_eq_getElem inside)
  rw [here] at there
  cases there
  refine ⟨cells[index], _, ?_, node⟩
  rw [Queue.get_run serves.holds inside, List.getElem?_eq_getElem inside]

theorem get_matches (serves : Serves machine ledger before after address cells mailbox)
    (target : req.queue = some address) :
    Outcome.Matches Tracks (Broker.get env req machine)
      (Ledger.get env mailbox req.index ledger) := by
  cases here : mailbox.items.reverse[req.index]? with
  | none =>
      have outside : ¬mailbox.items.length > req.index := by
        have bound := List.getElem?_eq_none_iff.mp here
        rw [List.length_reverse] at bound
        omega
      simp only [Broker.get, Ledger.get, target, here, Program.run_bind,
        Queue.size_run serves.holds, outside, if_false]
      exact matches_onWorld serves.tracks _
  | some item =>
      have inside : mailbox.items.length > req.index := by
        simpa using (List.getElem?_eq_some_iff.mp here).1
      obtain ⟨cell, next, ran, found⟩ := serves.node_at here
      have same : Broker.get env req machine =
          onWorld (Ledger.respondCopied env item.message) machine := by
        rw [Broker.get, target, Program.run_bind, Queue.size_run serves.holds]
        simp only [Program.run_ite, inside, if_true]
        rw [Program.run_bind, ran, Ledger.respondCopied]
        simp only [onWorld_bind, onWorld_pure]
        rw [Program.run_bind, Queue.getMessage_run found]
      rw [same, Ledger.get, here]
      exact matches_onWorld serves.tracks _

/-- The loop of `get_all` reads the mailbox from the newest item to the oldest. -/
theorem nodeObjects_run {index : Nat} {items : List Item}
    (serves : Serves machine ledger before after address cells mailbox)
    (rest : mailbox.items.reverse.drop index = items) :
    Broker.nodeObjects env (some address) index items.length machine =
      onWorld (Ledger.messageObjects env index items) machine := by
  induction items generalizing machine ledger index with
  | nil => rfl
  | cons item items ih =>
      have here : mailbox.items.reverse[index]? = some item := by
        rw [← List.head?_drop, rest]
        rfl
      have later : mailbox.items.reverse.drop (index + 1) = items := by
        rw [← List.tail_drop, rest]
        rfl
      obtain ⟨cell, next, ran, found⟩ := serves.node_at here
      simp only [List.length_cons, Broker.nodeObjects, Ledger.messageObjects, Program.run_bind, ran,
        Queue.getMessage_run found, run_onWorld]
      cases entryObject env index (text "message") (some item.message)
          (text "Failed to add index to node JSON object.")
          (text "Failed to add message to node JSON object.") machine.world with
      | trapped trap world => rfl
      | returned object world =>
          cases object with
          | error errMsg => rfl
          | ok object =>
              simp only [Program.run_bind, ih (serves.setWorld world) later, run_onWorld,
                Machine.setWorld_world, Machine.setWorld_setWorld]
              cases Ledger.messageObjects env (index + 1) items world with
              | trapped trap world => rfl
              | returned objects world => cases objects <;> rfl

theorem getAll_matches (serves : Serves machine ledger before after address cells mailbox)
    (target : req.queue = some address) :
    Outcome.Matches Tracks (Broker.getAll env req machine)
      (Ledger.getAll env mailbox ledger) := by
  have same : Broker.getAll env req machine =
      onWorld (Ledger.itemsResponse env mailbox.items.reverse) machine := by
    simp only [Broker.getAll, Ledger.itemsResponse, target, Program.run_bind,
      Queue.size_run serves.holds, run_onWorld]
    cases cJSONCreate env (.object []) machine.world with
    | trapped trap world => rfl
    | returned list world =>
        cases list with
        | none => simp only [run_onWorld, Machine.setWorld_world, Machine.setWorld_setWorld]
        | some list =>
            simp only [Program.run_bind, run_onWorld, Machine.setWorld_world,
              Machine.setWorld_setWorld]
            cases cJSONCreate env (.array []) world with
            | trapped trap world => rfl
            | returned array world =>
                cases array with
                | none => simp only [run_onWorld, Machine.setWorld_world, Machine.setWorld_setWorld]
                | some array =>
                    have read := nodeObjects_run env (serves.setWorld world)
                      (List.drop_zero)
                    rw [List.length_reverse] at read
                    simp only [Program.run_bind, read, run_onWorld, Machine.setWorld_world,
                      Machine.setWorld_setWorld]
                    cases Ledger.messageObjects env 0 mailbox.items.reverse world <;> rfl
  rw [same]
  exact matches_onWorld serves.tracks _

theorem Serves.without (serves : Serves machine ledger before after address cells mailbox) :
    ledger.shelf.remove mailbox.key = (before ++ after).map Holding.mailbox := by
  rw [serves.shelf, Shelf.remove_middle serves.nodup, List.map_append]

/-- A request to remove a queue leaves the pool alone or closes the gap that the queue leaves. -/
theorem removeQueue_holdings (serves : Serves machine ledger before after address cells mailbox)
    (target : req.queue = some address) :
    Outcome.Matches
      (fun later final =>
        later.pool = machine.pool ∧
          TracksAt (before ++ ⟨address, cells, true, mailbox⟩ :: after) later final ∨
        TracksAt (before ++ after) later final)
      (Broker.removeQueue env req machine) (Ledger.removeQueue env mailbox ledger) := by
  have located := queuePoolGetByName_present serves.represents
  simp only [Broker.removeQueue, Ledger.removeQueue, queuePoolRemoveByName, target,
    Program.run_bind, run_queueAt serves.holds.header, located, reduceCtorEq, if_false,
    run_onWorld (persistDispatch _ _), Ledger.run_onWorld (persistDispatch _ _), serves.world]
  cases call : persistDispatch env.toEnvironment ⟨.removeQueue, some mailbox.key, 0, none⟩
      ledger.world with
  | trapped trap world => exact .trapped (.inl ⟨rfl, serves.tracksAt.setWorld world⟩)
  | returned pres world =>
      cases success : pres.success with
      | false =>
          simp only [Program.run_ite, success, Bool.false_eq_true, if_false, Program.run_bind]
          cases pres.errorMessage <;>
            exact matches_onWorld_of rfl (fun world => .inl ⟨rfl, serves.tracksAt.setWorld world⟩) _
      | true =>
          have served := serves.setWorld world
          have searched := findFrom_present [] served.represents
          obtain ⟨later, ran, represents, laterWorld⟩ := removeAt_run served.represents
          have emptied : before ++ after = [] ↔ ledger.shelf.remove mailbox.key = [] := by
            rw [serves.without, List.map_eq_nil_iff]
          have freed : later.world = world.release (2 * mailbox.items.length + 2 +
              if ledger.shelf.remove mailbox.key = [] then 1 else 0) := by
            rw [laterWorld]
            exact congrArg (world.release <| 2 * mailbox.items.length + 2 + ·)
              (if_congr emptied rfl rfl)
          have tracks : TracksAt (before ++ after) later
              ((ledger.setShelf (ledger.shelf.remove mailbox.key)).setWorld
                (world.release (2 * mailbox.items.length + 2 +
                  if ledger.shelf.remove mailbox.key = [] then 1 else 0))) :=
            ⟨represents, serves.persist, serves.without.symm, freed⟩
          simp only [Program.run_ite, success, if_true, Program.run_bind, Program.run_read,
            Machine.setWorld_pool, serves.represents.length, List.length_nil, Nat.zero_add,
            Ledger.onShelf, Program.run_modify] at searched ⊢
          simp only [searched, Program.run_bind, ran, Program.run_pure, if_true]
          exact matches_onWorld_of tracks.world (fun world => .inr (tracks.setWorld world)) _

theorem removeQueue_matches (serves : Serves machine ledger before after address cells mailbox)
    (target : req.queue = some address) :
    Outcome.Matches Tracks (Broker.removeQueue env req machine)
      (Ledger.removeQueue env mailbox ledger) :=
  (removeQueue_holdings env serves target).weaken fun
    | _, _, .inl ⟨_, tracks⟩ => tracks.tracks
    | _, _, .inr tracks => tracks.tracks

end Serving

/-! ## The whole pool -/

section Pool

variable (env : BrokerEnvironment) {machine : Machine} {ledger : Ledger}

theorem Tracks.serves {mailbox : Mailbox} (tracks : Tracks machine ledger)
    (member : mailbox ∈ ledger.shelf) :
    ∃ before after address cells, Serves machine ledger before after address cells mailbox := by
  obtain ⟨before, after, address, cells, represents, persist, shown⟩ := tracks.keeps.locate member
  exact ⟨before, after, address, cells, represents, persist, shown, tracks.world⟩

theorem Tracks.found (tracks : Tracks machine ledger) (name : Option Bytes) :
    match findMailbox name ledger.shelf with
    | none => queuePoolGetByName name machine = .returned none machine
    | some mailbox => ∃ before after address cells,
        queuePoolGetByName name machine = .returned (some address) machine ∧
        Serves machine ledger before after address cells mailbox := by
  cases name with
  | none => rfl
  | some name =>
      cases search : ledger.shelf.find? (fun mailbox => mailbox.key = name) with
      | none =>
          simp only [findMailbox, Option.bind_some, search]
          obtain ⟨holdings, represents, _, shown⟩ := tracks.keeps
          apply queuePoolGetByName_absent represents
          intro holding member
          have inside : holding.mailbox ∈ ledger.shelf := shown ▸ List.mem_map_of_mem member
          simpa using List.find?_eq_none.mp search _ inside
      | some mailbox =>
          simp only [findMailbox, Option.bind_some, search]
          have named : mailbox.key = name := by simpa using List.find?_some search
          obtain ⟨before, after, address, cells, serves⟩ :=
            tracks.serves (List.mem_of_find?_eq_some search)
          refine ⟨before, after, address, cells, ?_, serves⟩
          rw [← named]
          exact queuePoolGetByName_present serves.represents

theorem findMailbox_isNone {name : Bytes} {shelf : Shelf Bytes Item} :
    findMailbox (some name) shelf = none ↔ name ∉ shelf.keys := by
  simp [findMailbox, Shelf.keys]

/-- A request to add a queue leaves the pool alone or puts a new object behind the others. -/
theorem addQueue_holdings {holdings : List Holding} {req : BrokerRequest} {name : Bytes}
    (tracks : TracksAt holdings machine ledger) (given : req.data = some name) :
    Outcome.Matches
      (fun later final =>
        later.pool = machine.pool ∧ TracksAt holdings later final ∨
        TracksAt (holdings ++ [⟨machine.queues.frontier, [], true, ⟨name, []⟩⟩]) later final)
      (Broker.addQueue env req machine) (Ledger.addQueue env name ledger) := by
  have search := tracks.tracks.found (some name)
  cases found : findMailbox (some name) ledger.shelf with
  | some mailbox =>
      rw [found] at search
      obtain ⟨before, after, address, cells, located, serves⟩ := search
      have known : name ∈ ledger.shelf.keys := by
        by_contra unknown
        rw [findMailbox_isNone.mpr unknown] at found
        contradiction
      simp only [Broker.addQueue, Ledger.addQueue, given, Program.run_bind, located,
        Program.run_read, Program.run_ite, known, if_true, ne_eq, reduceCtorEq, not_false_eq_true]
      exact matches_onWorld_of tracks.world (fun world => .inl ⟨rfl, tracks.setWorld world⟩) _
  | none =>
      rw [found] at search
      have unknown := findMailbox_isNone.mp found
      obtain ⟨made, ran, fresh, madeWorld⟩ := Queue.new_run machine name
      simp only [Broker.addQueue, Ledger.addQueue, given, Program.run_bind, search,
        Program.run_read, Program.run_ite, unknown, if_false, ne_eq, not_true_eq_false,
        Option.getD_some, queuePoolAdd, ran, Bool.false_eq_true]
      simp only [run_onWorld (persistDispatch _ _), Ledger.run_onWorld memAlloc,
        Ledger.run_onWorld (persistDispatch _ _), run_memAlloc, madeWorld, tracks.world]
      have kept (world : World) :
          TracksAt holdings (made.setWorld world) (ledger.setWorld world) :=
        ⟨(fresh.setWorld world).represents tracks.represents, tracks.persist, tracks.shelf, rfl⟩
      cases call : persistDispatch env.toEnvironment ⟨.addQueue, some name, 0, none⟩
          ((ledger.world.allocate 1).allocate 1) with
      | trapped trap world =>
          simp only [Ledger.setWorld, call]
          exact .trapped (.inl ⟨fresh.pool, kept world⟩)
      | returned pres world =>
          cases success : pres.success with
          | false =>
              simp only [Ledger.setWorld, call, success, Bool.false_eq_true, if_false,
                Program.run_pure]
              exact matches_onWorld_of rfl (fun world => .inl ⟨fresh.pool, kept world⟩) _
          | true =>
              have first : made.pool.length = 0 ↔ ledger.shelf = [] := by
                rw [fresh.pool, tracks.represents.length, List.length_eq_zero_iff, ← tracks.shelf,
                  List.map_eq_nil_iff]
              have stored (final : World) :
                  TracksAt (holdings ++ [⟨machine.queues.frontier, [], true, ⟨name, []⟩⟩])
                    ((made.setWorld final).setPool
                      (made.pool.append (some machine.queues.frontier)))
                    ((ledger.setShelf (ledger.shelf.create name)).setWorld final) := by
                refine ⟨fresh.stored tracks.represents (fun holding member same => ?_) final, ?_, ?_,
                  rfl⟩
                · exact unknown (List.mem_map.mpr
                    ⟨holding.mailbox, tracks.shelf ▸ List.mem_map_of_mem member, same⟩)
                · intro holding member
                  rcases List.mem_append.mp member with old | new
                  · exact tracks.persist holding old
                  · rw [List.mem_singleton.mp new]
                · rw [List.map_append, tracks.shelf]
                  rfl
              simp only [Ledger.setWorld, call, success, if_true, queuePoolStore_run,
                Program.run_pure, Machine.setWorld_pool, first]
              split <;> exact matches_onWorld_of rfl (fun world => .inr (stored world)) _

theorem addQueue_matches {req : BrokerRequest} {name : Bytes} (tracks : Tracks machine ledger)
    (given : req.data = some name) :
    Outcome.Matches Tracks (Broker.addQueue env req machine)
      (Ledger.addQueue env name ledger) := by
  obtain ⟨⟨holdings, represents, persist, shown⟩, world⟩ := tracks
  exact (addQueue_holdings env ⟨represents, persist, shown, world⟩ given).weaken fun
    | _, _, .inl ⟨_, tracks⟩ => tracks.tracks
    | _, _, .inr tracks => tracks.tracks

theorem getAllQueueNames_matches (tracks : Tracks machine ledger) :
    Outcome.Matches Tracks (Broker.getAllQueueNames env machine)
      (Ledger.getAllQueueNames env ledger) := by
  obtain ⟨holdings, represents, persist, shown⟩ := tracks.keeps
  have names := namesFrom_run [] (represents.setWorld (machine.world.allocate 1))
  have keys : (holdings.map fun holding => holding.mailbox.key) = ledger.shelf.keys := by
    rw [← shown, Shelf.keys, List.map_map]
    rfl
  rw [List.length_nil, ← represents.length, keys] at names
  have same : Broker.getAllQueueNames env machine =
      onWorld (Ledger.listNames env ledger.shelf.keys) machine := by
    rw [Ledger.listNames]
    simp only [onWorld_bind, onWorld_pure, Broker.getAllQueueNames, queuePoolGetAllNames,
      Program.run_bind, run_onWorld memAlloc, run_memAlloc, Program.run_read,
      Machine.setWorld_pool, names]
  rw [same]
  exact matches_onWorld tracks _

theorem validationError_congr {α β : Type} (req : BrokerRequest) (queue : Option α)
    (other : Option β) (same : queue.isNone = other.isNone) (needsQueue needsIndex needsData : Bool) :
    validationError req queue needsQueue needsIndex needsData =
      validationError req other needsQueue needsIndex needsData := by
  simp only [validationError, same]

theorem validationError_unknown {α : Type} (req : BrokerRequest) (needsIndex needsData : Bool) :
    validationError req (none : Option α) true needsIndex needsData ≠ none := by
  unfold validationError
  simp only [if_true, Option.isNone_none]
  split
  · simp
  · split
    · simp
    · split
      · simp
      · split <;> simp

theorem validationError_data {α : Type} {req : BrokerRequest} {queue : Option α}
    {needsQueue needsIndex : Bool}
    (passed : validationError req queue needsQueue needsIndex true = none) :
    ∃ data, req.data = some data ∧ data ≠ [] := by
  cases given : req.data with
  | none => simp [validationError, given] at passed
  | some data =>
      refine ⟨data, rfl, ?_⟩
      rintro rfl
      simp [validationError, given] at passed

theorem dispatchAction_typed {req : BrokerRequest} {type : Bytes} (typed : req.type = some type) :
    dispatchAction env req =
      if type = brokerConsume then some <$> Broker.consume env req
      else if type = brokerProduce then some <$> Broker.produce env req
      else if type = brokerLength then some <$> Broker.length env req
      else if type = brokerGet then some <$> Broker.get env req
      else if type = brokerGetAll then some <$> Broker.getAll env req
      else if type = brokerAddQueue then some <$> Broker.addQueue env req
      else if type = brokerGetAllQueueNames then some <$> Broker.getAllQueueNames env
      else if type = brokerRemoveQueue then some <$> Broker.removeQueue env req
      else pure none := by
  funext machine
  simp only [dispatchAction, typed, Program.run_bind, run_strEqual, beq_iff_eq, Program.run_ite]

theorem queueAction_matches {req : BrokerRequest} {type : Bytes} {before after : List Holding}
    {address : Address} {cells : List Address} {mailbox : Mailbox}
    (serves : Serves machine ledger before after address cells mailbox)
    (typed : req.type = some type) (target : req.queue = some address)
    (member : type ∈ needsQueue) :
    Outcome.Matches Tracks (dispatchAction env req machine)
      (Ledger.execute env
        (if type = brokerConsume then .consume mailbox
        else if type = brokerProduce then .produce mailbox (req.data.getD [])
        else if type = brokerLength then .length mailbox
        else if type = brokerGet then .get mailbox req.index
        else if type = brokerGetAll then .getAll mailbox
        else .removeQueue mailbox) ledger) := by
  rw [dispatchAction_typed env typed]
  simp only [needsQueue, List.mem_cons, List.not_mem_nil, or_false] at member
  rcases member with rfl | rfl | rfl | rfl | rfl | rfl
  · exact Program.matches_map some (consume_matches env serves target)
  · exact Program.matches_map some (produce_matches env serves target rfl)
  · exact Program.matches_map some (length_matches env serves target)
  · exact Program.matches_map some (get_matches env serves target)
  · exact Program.matches_map some (getAll_matches env serves target)
  · exact Program.matches_map some (removeQueue_matches env serves target)

/-- Every request does to the pool and to the world what its command does to the
ledger, and gets the same answer. -/
theorem brokerDispatch_matches (req : BrokerRequest) (tracks : Tracks machine ledger) :
    Outcome.Matches Tracks (brokerDispatch env req machine) (Ledger.dispatch env req ledger) := by
  simp only [Ledger.dispatch, Program.run_bind, Program.run_read, command]
  cases typed : req.type with
  | none =>
      simp only [brokerDispatch, typed]
      exact .trapped tracks
  | some type =>
      simp only [brokerDispatch, typed, Program.run_bind, run_inStrArray]
      cases needed : needsQueue.contains type with
      | true =>
          have search := tracks.found req.queueName
          cases found : findMailbox req.queueName ledger.shelf with
          | none =>
              rw [found] at search
              simp only [if_true, Program.run_bind, search]
              cases checked : validationError req (none : Option Mailbox) true
                  (needsIndex.contains type) (needsData.contains type) with
              | none => exact absurd checked (validationError_unknown req _ _)
              | some errMsg =>
                  rw [validationError_congr req (none : Pointer) (none : Option Mailbox) rfl, checked]
                  exact Program.matches_map some (matches_onWorld tracks _)
          | some mailbox =>
              rw [found] at search
              obtain ⟨before, after, address, cells, located, serves⟩ := search
              simp only [if_true, Program.run_bind, located]
              rw [validationError_congr req (some address) (some mailbox) rfl]
              cases validationError req (some mailbox) true (needsIndex.contains type)
                  (needsData.contains type) with
              | some errMsg => exact Program.matches_map some (matches_onWorld tracks _)
              | none =>
                  exact queueAction_matches env serves rfl rfl (List.contains_iff_mem.mp needed)
      | false =>
          have absent : type ∉ needsQueue := by simpa using needed
          simp only [Bool.false_eq_true, if_false, Program.run_bind, Program.run_pure]
          rw [validationError_congr req (none : Pointer) (none : Option Mailbox) rfl]
          cases checked : validationError req (none : Option Mailbox) false
              (needsIndex.contains type) (needsData.contains type) with
          | some errMsg => exact Program.matches_map some (matches_onWorld tracks _)
          | none =>
              dsimp only
              rw [dispatchAction_typed env rfl]
              simp only [needsQueue, List.mem_cons, List.not_mem_nil, or_false, not_or] at absent
              obtain ⟨notConsume, notProduce, notLength, notGet, notGetAll, notRemove⟩ := absent
              rw [if_neg notConsume, if_neg notProduce, if_neg notLength, if_neg notGet,
                if_neg notGetAll]
              by_cases adds : type = brokerAddQueue
              · subst adds
                obtain ⟨name, given, _⟩ := validationError_data checked
                have named : req.data.getD [] = name := by rw [given, Option.getD_some]
                rw [if_pos rfl, if_pos rfl, named]
                exact Program.matches_map some (addQueue_matches env tracks given)
              · rw [if_neg adds, if_neg adds]
                by_cases lists : type = brokerGetAllQueueNames
                · rw [if_pos lists, if_pos lists]
                  exact Program.matches_map some (getAllQueueNames_matches env tracks)
                · rw [if_neg lists, if_neg lists, if_neg notRemove]
                  exact .returned tracks

end Pool

end Bmb
