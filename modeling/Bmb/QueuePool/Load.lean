import Bmb.Broker.Refinement
import Bmb.Persist.Queues

namespace Bmb

open Bmb.Base Bmb.Posix

/-! What `queue_pool_load` reads from the files, without pointers. -/

section Files

variable (env : Environment)

/-- The items of a queue, read from the files with the given ids. -/
def loadItems (name : Bytes) : List Int → Program World (List Item)
  | [] => pure []
  | id :: rest => do
      let pnres ← persistDispatch env ⟨.readNode, some name, toUInt32 id, none⟩
      match pnres.data with
      | .content nodeContent => do
          memAlloc
          memAlloc
          memFree
          let items ← loadItems name rest
          pure (⟨toUInt32 id, cString nodeContent⟩ :: items)
      | _ => .stop (.exit exitFailure)

def loadMailbox (first : Bool) (name : Bytes) : Program World Mailbox := do
  let pqres ← persistDispatch env ⟨.readQueue, some name, 0, none⟩
  match pqres.data with
  | .queue queueNodes => do
      memAlloc
      memAlloc
      if first then memAlloc else pure ()
      let items ← loadItems env name (queueNodes.tail.take (queueNodes.headD 0).toNat)
      -- the next id is asked for and thrown away
      let pidres ← persistDispatch env ⟨.getNextId, some name, 0, none⟩
      if pidres.success then memFree else pure ()
      memFree
      pure ⟨name, items⟩
  | _ => .stop (.exit exitFailure)

def loadMailboxes (first : Bool) : List Bytes → Program World (Shelf Bytes Item)
  | [] => pure []
  | name :: rest => do
      let mailbox ← loadMailbox env first name
      let shelf ← loadMailboxes false rest
      pure (mailbox :: shelf)

def loadShelf : Program World (Shelf Bytes Item) := do
  let pres ← persistDispatch env ⟨.getQueueList, none, 0, none⟩
  match pres.data with
  | .queueList queueList => do
      let shelf ← loadMailboxes env true queueList
      .modify (·.release (queueList.length + 2))
      pure shelf
  | _ => .stop (.exit exitFailure)

theorem loadMailbox_key (first : Bool) (name : Bytes) :
    Program.Ensures (fun mailbox => mailbox.key = name) (loadMailbox env first name) := by
  unfold loadMailbox
  refine Program.Ensures.after fun pqres => ?_
  split
  · have finished (items : List Item) : Program.Ensures (fun mailbox => mailbox.key = name) (do
        let pidres ← persistDispatch env ⟨.getNextId, some name, 0, none⟩
        if pidres.success then memFree else pure ()
        memFree
        pure ⟨name, items⟩ : Program World Mailbox) := by
      refine Program.Ensures.after fun pidres => ?_
      dsimp only
      split
      · exact Program.Ensures.after fun _ => Program.Ensures.after fun _ => .pure rfl
      · exact Program.Ensures.after fun _ => .pure rfl
    refine Program.Ensures.after fun _ => Program.Ensures.after fun _ => ?_
    dsimp only
    split
    · exact Program.Ensures.after fun _ => Program.Ensures.after finished
    · exact Program.Ensures.after finished
  · exact .stop _

theorem loadMailboxes_keys (first : Bool) (names : List Bytes) :
    Program.Ensures (fun shelf => shelf.keys = names) (loadMailboxes env first names) := by
  induction names generalizing first with
  | nil => exact .pure rfl
  | cons name rest ih =>
      refine (loadMailbox_key env first name).bind fun mailbox named => ?_
      refine (ih false).bind fun shelf keys => .pure ?_
      rw [Shelf.keys_cons, named, keys]

end Files

/-- A load into memory that ends like the reading of the files, and in what it left. -/
inductive LoadMatches {α : Type} (holds : α → Machine → Prop) :
    Outcome Machine Unit → Outcome World α → Prop where
  | returned {value : α} {later : Machine} (kept : holds value later) :
      LoadMatches holds (.returned () later) (.returned value later.world)
  | trapped {trap : Trap} {later : Machine} :
      LoadMatches holds (.trapped trap later) (.trapped trap later.world)

namespace LoadMatches

variable {α β : Type} {holds : α → Machine → Prop} {others : β → Machine → Prop}

theorem bind {first : Program Machine Unit} {next : Unit → Program Machine Unit}
    {files : Program World α} {rest : α → Program World β} {machine : Machine} {world : World}
    (head : LoadMatches holds (first machine) (files world))
    (tail : ∀ value later, holds value later →
      LoadMatches others (next () later) (rest value later.world)) :
    LoadMatches others ((first >>= next) machine) ((files >>= rest) world) := by
  rw [Program.run_bind, Program.run_bind]
  generalize first machine = left at head
  generalize files world = right at head
  cases head with
  | returned kept => exact tail _ _ kept
  | trapped => exact .trapped

theorem onWorld {files : Program World α} {machine : Machine} {next : α → Program Machine Unit}
    {rest : α → Program World β}
    (tail : ∀ value world, files machine.world = .returned value world →
      LoadMatches others (next value (machine.setWorld world)) (rest value world)) :
    LoadMatches others ((Bmb.onWorld files >>= next) machine) ((files >>= rest) machine.world) := by
  rw [Program.run_bind, Program.run_bind, run_onWorld]
  cases ran : files machine.world with
  | returned value world => exact tail value world ran
  | trapped trap world => exact @LoadMatches.trapped _ _ _ (machine.setWorld world)

theorem map {loaded : Outcome Machine Unit} {files : Program World α} {world : World}
    (head : LoadMatches holds loaded (files world)) (f : α → β)
    (shown : ∀ value later, holds value later → others (f value) later) :
    LoadMatches others loaded ((do
      let value ← files
      pure (f value)) world) := by
  rw [Program.run_bind]
  generalize files world = right at head
  cases head with
  | returned kept => exact .returned (shown _ _ kept)
  | trapped => exact .trapped

end LoadMatches

variable {env : Environment} {machine : Machine} {before : List Holding} {address : Address}
  {cells : List Address} {name : Bytes} {items : List Item}

theorem loadNode_run (env : Environment) (id : Nat) (message : Bytes) (next : Program Machine Unit)
    (represents : Represents machine (before ++ [⟨address, cells, false, ⟨name, items⟩⟩])) :
    ∃ later, (do
        let newNode ← Node.new id
        Node.setMessage newNode message
        let _ ← Queue.add env (some address) newNode
        onWorld memFree
        next) machine = next later ∧
      later.world = ((machine.world.allocate 1).allocate 1).release 1 ∧
      Represents later (before ++
        [⟨address, machine.nodes.frontier :: cells, false, ⟨name, items ++ [⟨id, message⟩]⟩⟩]) := by
  let ready := (machine.setWorld ((machine.world.allocate 1).allocate 1)).withNode id message
  have prepared : Represents ready (before ++ [⟨address, cells, false, ⟨name, items⟩⟩]) :=
    (represents.setWorld _).withNode id message
  have holds := prepared.holds ⟨address, cells, false, ⟨name, items⟩⟩ (by simp)
  have old := represents.holds ⟨address, cells, false, ⟨name, items⟩⟩ (by simp)
  have unused : machine.nodes.frontier ∉ cells := fun member =>
    Nat.lt_irrefl _ (old.chain.bounded member)
  have filled : Node.setMessage (some machine.nodes.frontier) message
      ((machine.setWorld (machine.world.allocate 1)).setNodes
        (machine.nodes.alloc { id, message := none, next := none })) = .returned () ready :=
    Queue.setMessage_run _ message Store.get_alloc_self
  obtain ⟨linked, ran, linkedHolds, linkedSame, linkedWorld⟩ :=
    @Queue.add_unpersisted_run _ _ _ _ env _ ⟨id, message⟩ _ holds unused
      (withNode_found (machine.setWorld _) id message)
  have same := withNode_same (machine.setWorld ((machine.world.allocate 1).allocate 1)) id message
    address
  have added := represents.replace
    ⟨address, machine.nodes.frontier :: cells, false, ⟨name, items ++ [⟨id, message⟩]⟩⟩ linkedHolds
    (OutsideSame.trans ⟨same.nodes, same.queues, same.pool⟩ linkedSame) rfl rfl
    (linked_own machine)
  refine ⟨linked.setWorld (linked.world.release 1), ?_, ?_, added.setWorld _⟩
  · simp only [Program.run_bind, Queue.new_node_run, filled, ran, run_onWorld, run_memFree]
  · rw [Machine.setWorld_world, linkedWorld]
    rfl

theorem loadNodes_matches (ids : List Int)
    (represents : Represents machine (before ++ [⟨address, cells, false, ⟨name, items⟩⟩])) :
    LoadMatches (fun loaded later => ∃ newCells,
        Represents later (before ++ [⟨address, newCells, false, ⟨name, items ++ loaded⟩⟩]))
      (loadNodes env name (some address) ids machine) (loadItems env name ids machine.world) := by
  induction ids generalizing machine cells items with
  | nil => exact .returned ⟨cells, by simpa using represents⟩
  | cons id rest ih =>
      apply LoadMatches.onWorld
      intro pnres world _
      cases pnres.data with
      | null | nextId | queue | queueList => exact .trapped
      | content nodeContent =>
          obtain ⟨later, ran, laterWorld, loaded⟩ := loadNode_run env (toUInt32 id)
            (cString nodeContent) (loadNodes env name (some address) rest)
            (represents.setWorld world)
          have files : ∀ rest : Program World (List Item), (do
              memAlloc
              memAlloc
              memFree
              rest) world = rest later.world := by
            intro rest
            rw [laterWorld]
            rfl
          dsimp only
          rw [ran, files]
          refine (ih loaded).map _ (fun read final kept => ?_)
          obtain ⟨newCells, represented⟩ := kept
          exact ⟨newCells, by simpa using represented⟩

theorem setPersist_run {persist : Bool} (switched : Bool)
    (represents : Represents machine (before ++ [⟨address, cells, persist, ⟨name, items⟩⟩])) :
    ∃ later, updateQueue (some address) (Queue.setPersist switched) machine = .returned () later ∧
      later.world = machine.world ∧
      Represents later (before ++ [⟨address, cells, switched, ⟨name, items⟩⟩]) := by
  have holds := represents.holds ⟨address, cells, persist, ⟨name, items⟩⟩ (by simp)
  have header := Store.get_modify_self (Queue.setPersist switched) holds.header
  refine ⟨_, run_updateQueue machine (Queue.setPersist switched) holds.header, rfl, ?_⟩
  have same : OutsideSame [] address machine
      { machine with queues := machine.queues.modify address (Queue.setPersist switched) } :=
    ⟨fun _ _ => rfl, fun _ different => Store.get_modify_of_ne _ different, rfl⟩
  exact represents.replace ⟨address, cells, switched, ⟨name, items⟩⟩ ⟨header, holds.chain⟩ same
    rfl rfl (fun cell member => .inl (by simpa using member))

theorem queuePoolAdd_run (env : Environment) {holdings : List Holding}
    (represents : Represents machine holdings)
    (unknown : ∀ holding ∈ holdings, holding.mailbox.key ≠ name) :
    ∃ later, queuePoolAdd env name true machine = .returned true later ∧
      later.world = (if holdings.isEmpty then ((machine.world.allocate 1).allocate 1).allocate 1
        else (machine.world.allocate 1).allocate 1) ∧
      Represents later (holdings ++ [⟨machine.queues.frontier, [], true, ⟨name, []⟩⟩]) := by
  obtain ⟨made, ran, fresh, madeWorld⟩ := Queue.new_run machine name
  have first : made.pool.length = 0 ↔ holdings.isEmpty = true := by
    rw [fresh.pool, represents.length, List.length_eq_zero_iff, List.isEmpty_iff]
  refine ⟨_, ?_, ?_, fresh.stored represents unknown (if holdings.isEmpty then
    ((machine.world.allocate 1).allocate 1).allocate 1 else (machine.world.allocate 1).allocate 1)⟩
  · simp only [queuePoolAdd, Program.run_bind, ran, if_true, queuePoolStore_run, first, madeWorld,
      Program.run_pure]
  · rfl

theorem loadQueue_matches {holdings : List Holding} (represents : Represents machine holdings)
    (unknown : ∀ holding ∈ holdings, holding.mailbox.key ≠ name) :
    LoadMatches (fun mailbox later => mailbox.key = name ∧ ∃ address cells,
        Represents later (holdings ++ [⟨address, cells, true, mailbox⟩]))
      (loadQueue env name machine) (loadMailbox env holdings.isEmpty name machine.world) := by
  apply LoadMatches.onWorld
  intro pqres world _
  cases pqres.data with
  | null | nextId | content | queueList => exact .trapped
  | queue queueNodes =>
      obtain ⟨added, addRan, addedWorld, addedHolds⟩ :=
        queuePoolAdd_run env (represents.setWorld world) unknown
      have located := queuePoolGetByName_present addedHolds
      obtain ⟨silent, silentRan, silentWorld, silentHolds⟩ := setPersist_run false addedHolds
      have nodes := @loadNodes_matches env _ _ _ _ _ _
        (queueNodes.tail.take (queueNodes.headD 0).toNat) silentHolds
      have files : ∀ rest : Program World Mailbox, (do
          memAlloc
          memAlloc
          if holdings.isEmpty then memAlloc else pure ()
          rest) world = rest silent.world := by
        intro rest
        rw [silentWorld, addedWorld]
        split <;> rfl
      dsimp only
      rw [files]
      simp only [Program.run_bind (queuePoolAdd _ _ _), addRan,
        Program.run_bind (queuePoolGetByName _), located, Program.run_bind (updateQueue _ _), silentRan]
      refine nodes.bind (fun items later kept => ?_)
      obtain ⟨cells, loaded⟩ := kept
      apply LoadMatches.onWorld
      intro pidres final _
      have switched (freed : Nat) := setPersist_run true (loaded.setWorld (final.release freed))
      cases pidres.success with
      | false =>
          obtain ⟨last, ran, lastWorld, represented⟩ := switched 1
          simp only [Bool.false_eq_true, if_false, Program.run_bind, Program.run_pure, run_onWorld,
            run_memFree, Machine.setWorld_world, Machine.setWorld_setWorld, ran]
          rw [← show last.world = final.release 1 from lastWorld]
          exact .returned ⟨rfl, _, _, represented⟩
      | true =>
          obtain ⟨last, ran, lastWorld, represented⟩ := switched 2
          simp only [if_true, Program.run_bind, Program.run_pure, run_onWorld, run_memFree,
            Machine.setWorld_world, Machine.setWorld_setWorld, World.release_release, ran]
          rw [← show last.world = final.release 2 from lastWorld]
          exact .returned ⟨rfl, _, _, represented⟩

theorem loadQueues_matches {holdings : List Holding} (names : List Bytes)
    (represents : Represents machine holdings)
    (persist : ∀ holding ∈ holdings, holding.persist = true)
    (distinct : (holdings.map (fun holding => holding.mailbox.key) ++ names).Nodup) :
    LoadMatches (fun shelf later => Shelf.keys shelf = names ∧
        later.Keeps (holdings.map Holding.mailbox ++ shelf))
      (loadQueues env names machine) (loadMailboxes env holdings.isEmpty names machine.world) := by
  induction names generalizing machine holdings with
  | nil => exact .returned ⟨rfl, holdings, represents, persist, by simp⟩
  | cons name rest ih =>
      have unknown : ∀ holding ∈ holdings, holding.mailbox.key ≠ name := by
        intro holding member same
        rw [List.nodup_append] at distinct
        exact distinct.2.2 _ (List.mem_map_of_mem member) name (by simp) same
      refine (loadQueue_matches represents unknown).bind (fun mailbox later kept => ?_)
      obtain ⟨named, address, cells, loaded⟩ := kept
      have persistLoaded : ∀ holding ∈ holdings ++ [⟨address, cells, true, mailbox⟩],
          holding.persist = true := by
        intro holding member
        rcases List.mem_append.mp member with old | new
        · exact persist holding old
        · rw [List.mem_singleton.mp new]
      have others := ih loaded persistLoaded (by simpa [named] using distinct)
      have later : (holdings ++ [Holding.mk address cells true mailbox]).isEmpty = false := by simp
      rw [later] at others
      refine others.map _ (fun shelf final kept => ?_)
      exact ⟨by rw [Shelf.keys_cons, kept.1, named], by simpa using kept.2⟩

/-- Loading into an empty pool ends like the reading of the files, and then the pool
keeps exactly what has been read. -/
theorem queuePoolLoad_matches (env : Environment) (empty : machine.pool = .init) :
    LoadMatches (fun shelf later => later.Keeps shelf)
      (queuePoolLoad env machine) (loadShelf env machine.world) := by
  apply LoadMatches.onWorld
  intro pres world ran
  rcases getQueueListCall_run env machine.world with ⟨target, after, _, listed, _⟩ |
    ⟨_, message, after, failed, _⟩
  · rw [listed] at ran
    cases ran
    have start : Represents (machine.setWorld world) [] := (Represents.init empty).setWorld world
    have distinct := queueNames_nodup env machine.world.system.tree machine.world.system.clock target
    dsimp only [persistSuccess]
    refine (loadQueues_matches _ start (by simp) (by simpa using distinct)).bind
      (fun shelf later kept => ?_)
    exact .returned (kept.2.setWorld _)
  · rw [failed] at ran
    cases ran
    exact .trapped

end Bmb
