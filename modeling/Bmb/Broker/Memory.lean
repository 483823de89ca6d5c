import Bmb.Broker.Session
import Bmb.QueuePool.Memory

namespace Bmb

open Bmb.Base Bmb.Base.Program Bmb.Posix

/-! What commands leave allocated besides the queues. -/

theorem World.Answered.balance {before after : World} (answered : before.Answered after) :
    after.balance = before.balance := by
  obtain ⟨blocks, calls, rfl⟩ := answered
  show ((before.allocate blocks).release blocks).balance = before.balance
  simp

theorem Answering.leaves {α : Type} {post : α → Prop} {program : Program World α}
    (answering : Answering post program) : Leaves (fun _ => 0) program := by
  intro world value after ran
  obtain ⟨_, _, same, answered, _⟩ := answering world
  rw [ran] at same
  cases same
  rw [answered.balance, Int.add_zero]

/-! ## Commands -/

/-- A command that leaves no block behind when it is answered: a queue to be added gets its
directory, a node to be produced its file, and a removal is not left in the middle. -/
def Command.Tidy (env : Environment) (tree : FileTree) (time : Nat) (shelf : Shelf Bytes Item) :
    Command → Prop
  | .produce mailbox _ => ∀ target,
      CanOpen env (queuePath mailbox.key) tree (time + 3) target →
        ∃ file, CanCreate env (nodeFile mailbox.key (nextIdAt env tree (time + 3) target)) tree
          (time + 4) file
  | .addQueue name => name ∉ shelf.keys →
      ∃ target, Reaches env .opendir (queuePath name) tree time target ∧
        (CanOpen env (queuePath name) tree time target ∨
          tree.get target = none ∧ CanMake env (queuePath name) tree (time + 1) target)
  | .removeQueue mailbox => Unlinkable env (queuePath mailbox.key) tree time
  | _ => True

namespace Ledger

/-- The allocated blocks that do not belong to the queues. -/
def spare (ledger : Ledger) : Int := ledger.world.balance - shelfBlocks ledger.shelf

variable {env : BrokerEnvironment} {ledger after : Ledger} {mailbox : Mailbox}
  {response : BrokerResponse} {req : BrokerRequest}

theorem onWorld_spare {α : Type} {blocks : α → Int} {program : Program World α}
    (leaves : Leaves blocks program) : Costs spare blocks (onWorld program) := by
  intro ledger value after ran
  obtain ⟨world, shape, rfl⟩ := onWorld_eq_returned ran
  have left := leaves _ _ _ shape
  simp only [spare, setWorld]
  omega

theorem onWorld_returned {α : Type} {program : Program World α} {value : α}
    (ran : onWorld program ledger = .returned value after) :
    after.shelf = ledger.shelf ∧ program ledger.world = .returned value after.world := by
  obtain ⟨world, shape, rfl⟩ := onWorld_eq_returned ran
  exact ⟨rfl, shape⟩

theorem respond_spare (success : Bool) (code : Nat) (message data errorMessage : Option Bytes) :
    Costs spare (fun _ => 0) (respond env success code message data errorMessage) :=
  onWorld_spare (createResponse_answering env _ _ _ _ _).leaves

theorem deliver_leaves (item : Item) : Leaves (fun _ => -2) (deliver env item) := by
  intro world res after ran
  obtain ⟨_, _, same, answered, _⟩ := deliver_run env item world
  rw [ran] at same
  cases same
  rw [answered.balance, World.balance_release]
  rfl

theorem consume_spare (distinct : ledger.shelf.keys.Nodup) (member : mailbox ∈ ledger.shelf)
    (ran : consume env mailbox ledger = .returned response after) : after.spare = ledger.spare := by
  obtain ⟨key, items⟩ := mailbox
  cases items with
  | nil => exact (respond_spare _ _ _ _ _ _ _ _ ran).trans (Int.add_zero _)
  | cons item rest =>
      obtain ⟨pres, called, first, rest⟩ := bind_eq_returned.mp ran
      have paid := onWorld_spare removeNodeCall_leaves _ _ _ first
      have kept := (onWorld_returned first).1
      cases success : pres.success with
      | false =>
          rw [success] at rest
          cases rest
      | true =>
          rw [success, if_pos rfl] at rest
          obtain ⟨_, popped, shelved, last⟩ := bind_eq_returned.mp rest
          cases shelved
          have delivered := onWorld_spare (deliver_leaves item) _ _ _ last
          have smaller := @shelfBlocks_update _ _ List.tail distinct member
          have free : refusal pres = 0 := by rw [refusal, success, if_pos rfl]
          simp only [spare, setShelf, Shelf.pop, kept, smaller, List.tail_cons, List.length_cons]
            at delivered paid ⊢
          omega

theorem addQueue_spare {name : Bytes}
    (tidy : (Command.addQueue name).Tidy env.toEnvironment ledger.world.system.tree
      ledger.world.system.clock ledger.shelf)
    (ran : addQueue env name ledger = .returned response after) : after.spare = ledger.spare := by
  by_cases known : name ∈ ledger.shelf.keys
  · simp only [addQueue, Program.run_bind, Program.run_read, if_pos known] at ran
    exact (respond_spare _ _ _ _ _ _ _ _ ran).trans (Int.add_zero _)
  · rw [addQueue_fresh env known] at ran
    rcases addQueueCall_run env.toEnvironment name ((ledger.world.allocate 1).allocate 1) with
      ⟨_, _, made, called, _⟩ | ⟨_, _, _, _, _, why⟩
    · have paid := addQueueCall_leaves _ _ _ called
      have free : refusal (persistSuccess .null) = 0 := rfl
      rw [World.balance_allocate, World.balance_allocate, free] at paid
      simp only [addFresh, Program.run_bind, run_onWorld, setWorld, called, persistSuccess, if_true]
        at ran
      by_cases first : ledger.shelf = []
      · simp only [if_pos first, Program.run_bind, run_onWorld, run_memAlloc, onShelf,
          Program.run_modify, setWorld, setShelf] at ran
        have answered := respond_spare _ _ _ _ _ _ _ _ ran
        simp only [spare, shelfBlocks_create, if_pos first, World.balance_allocate] at answered ⊢
        omega
      · simp only [if_neg first, Program.run_bind, onShelf, Program.run_modify, setShelf] at ran
        have answered := respond_spare _ _ _ _ _ _ _ _ ran
        simp only [spare, shelfBlocks_create, if_neg first] at answered ⊢
        omega
    · obtain ⟨target, reaches, makes⟩ := tidy known
      obtain ⟨closed, unmade⟩ := why target reaches
      rcases makes with opened | ⟨absent, can⟩
      · exact absurd opened closed
      · exact absurd can (unmade absent)

theorem nextIdFrom_leaves (data : PersistData) :
    Leaves (fun _ => 0) (nextIdFrom data : Program World Nat) := by
  cases data with
  | nextId id => exact .pure rfl
  | null | queue | queueList | content => exact .stop _

theorem producedId_leaves {name : Bytes} : Leaves (fun _ => 2) (producedId env name) :=
  .bind getNextIdCall_leaves fun _ => .bind (nextIdFrom_leaves _) fun _ =>
    .bind memAlloc_leaves fun _ => .bind memFree_leaves fun _ => .bind memAlloc_leaves fun _ => .pure rfl

/-- The error message of a file that has not been created stays behind. -/
theorem storeCalls_leaves {name data : Bytes} :
    Leaves (fun stored => if stored then 0 else 1) (storeCalls env.toEnvironment name (some data)) := by
  refine .bind getNextIdCall_leaves fun res => .bind (nextIdFrom_leaves _) fun id => ?_
  refine .bind memFree_leaves fun _ => .bind addNodeCall_leaves fun pres => .pure ?_
  unfold refusal
  omega

theorem tidy_stored {data : Bytes} {name : Bytes} {id : Nat} {world first second : World} {stored : Bool}
    (tidy : ∀ target, CanOpen env.toEnvironment (queuePath name) world.system.tree
        (world.system.clock + 3) target →
      ∃ file, CanCreate env.toEnvironment
        (nodeFile name (nextIdAt env.toEnvironment world.system.tree (world.system.clock + 3) target))
        world.system.tree (world.system.clock + 4) file)
    (numbered : producedId env name world = .returned id first)
    (saved : storeCalls env.toEnvironment name (some data) first = .returned stored second) :
    stored = true := by
  rcases producedId_cases env name world with ⟨_, middle, _, ran, readied, clock⟩ | ⟨_, _, ran, _⟩
  · rw [ran] at numbered
    obtain ⟨_, rfl⟩ := Outcome.returned.inj numbered
    have cases := storeCalls_cases env name data middle
    simp only [readied.tree, clock, replay_nil, Nat.add_assoc, Nat.reduceAdd, saved] at cases
    rcases cases with ⟨_, _, same, _⟩ | ⟨target, can, ⟨_, _, same, _⟩ | ⟨_, ⟨_, _, _, same, _⟩ | ⟨cannot, _⟩⟩⟩
    · exact absurd same (by simp)
    · exact absurd same (by simp)
    · exact (Outcome.returned.inj same).1
    · obtain ⟨file, created⟩ := tidy target can
      exact absurd created (cannot file)
  · rw [ran] at numbered
    cases numbered

theorem produce_spare {data : Bytes} (distinct : ledger.shelf.keys.Nodup)
    (member : mailbox ∈ ledger.shelf)
    (tidy : (Command.produce mailbox data).Tidy env.toEnvironment ledger.world.system.tree
      ledger.world.system.clock ledger.shelf)
    (ran : produce env mailbox data ledger = .returned response after) :
    after.spare = ledger.spare := by
  obtain ⟨id, first, numbered, rest⟩ := bind_eq_returned.mp ran
  obtain ⟨stored, second, saved, rest⟩ := bind_eq_returned.mp rest
  have node := onWorld_spare producedId_leaves _ _ _ numbered
  have kept := (onWorld_returned saved).1.trans (onWorld_returned numbered).1
  have paid := onWorld_spare storeCalls_leaves _ _ _ saved
  have complete := tidy_stored tidy (onWorld_returned numbered).2 (onWorld_returned saved).2
  subst complete
  rw [if_pos rfl] at rest
  obtain ⟨_, third, shelved, last⟩ := bind_eq_returned.mp rest
  cases shelved
  have answered := respond_spare _ _ _ _ _ _ _ _ last
  have larger := @shelfBlocks_update _ _ (· ++ [⟨id, data⟩]) distinct member
  rw [if_pos rfl] at paid
  simp only [spare, setShelf, Shelf.push, kept, larger, List.length_append, List.length_singleton]
    at answered paid node ⊢
  omega

theorem removeQueue_spare (distinct : ledger.shelf.keys.Nodup) (member : mailbox ∈ ledger.shelf)
    (tidy : (Command.removeQueue mailbox).Tidy env.toEnvironment ledger.world.system.tree
      ledger.world.system.clock ledger.shelf)
    (ran : removeQueue env mailbox ledger = .returned response after) :
    after.spare = ledger.spare := by
  rcases removeQueueCall_run env.toEnvironment mailbox.key ledger.world with
    ⟨_, _, world, _, called, _⟩ | ⟨_, _, message, world, _, called, _⟩ | ⟨_, _, world, called, _⟩
  · have paid := removeQueueCall_balance tidy called
    have fewer := shelfBlocks_remove distinct member
    rw [removeQueue_done env called] at ran
    have answered := respond_spare _ _ _ _ _ _ _ _ ran
    simp only [spare, setShelf, setWorld, fewer, mailboxBlocks, World.balance_release] at answered ⊢
    rw [refusal, persistSuccess, if_pos rfl] at paid
    push_cast at answered
    omega
  · have paid := removeQueueCall_balance tidy called
    rw [removeQueue_refused env called] at ran
    have answered := respond_spare _ _ _ _ _ _ _ _ ran
    simp only [spare, setWorld, World.balance_release] at answered ⊢
    rw [refusal, if_neg (by simp)] at paid
    omega
  · simp only [removeQueue, Program.run_bind, run_onWorld, called] at ran
    exact absurd ran (by simp)

/-- A tidy command that is answered leaves nothing allocated besides the queues. -/
theorem execute_spare {decoded : Command} {answer : Option BrokerResponse}
    (distinct : ledger.shelf.keys.Nodup) (decodes : Decodes req ledger.shelf decoded)
    (tidy : decoded.Tidy env.toEnvironment ledger.world.system.tree ledger.world.system.clock ledger.shelf)
    (ran : execute env decoded ledger = .returned answer after) : after.spare = ledger.spare := by
  cases decoded with
  | untyped => cases ran
  | unknown =>
      cases ran
      rfl
  | rejected message =>
      obtain ⟨_, answered, _⟩ := map_eq_returned ran
      exact (respond_spare _ _ _ _ _ _ _ _ answered).trans (Int.add_zero _)
  | consume mailbox =>
      obtain ⟨_, answered, _⟩ := map_eq_returned ran
      exact consume_spare distinct (decodes.touched_names rfl).1.member answered
  | produce mailbox data =>
      obtain ⟨_, answered, _⟩ := map_eq_returned ran
      exact produce_spare distinct (decodes.touched_names rfl).1.member tidy answered
  | removeQueue mailbox =>
      obtain ⟨_, answered, _⟩ := map_eq_returned ran
      exact removeQueue_spare distinct (decodes.touched_names rfl).1.member tidy answered
  | addQueue name =>
      obtain ⟨_, answered, _⟩ := map_eq_returned ran
      exact addQueue_spare tidy answered
  | length mailbox =>
      obtain ⟨_, answered, _⟩ := map_eq_returned ran
      exact (onWorld_spare (lengthResponse_answering env _).leaves _ _ _ answered).trans (Int.add_zero _)
  | getAll mailbox =>
      obtain ⟨_, answered, _⟩ := map_eq_returned ran
      exact (onWorld_spare (itemsResponse_answering env _).leaves _ _ _ answered).trans (Int.add_zero _)
  | getAllQueueNames =>
      obtain ⟨_, answered, _⟩ := map_eq_returned ran
      exact (onWorld_spare (listNames_answering env _).leaves _ _ _ answered).trans (Int.add_zero _)
  | get mailbox index =>
      obtain ⟨_, answered, _⟩ := map_eq_returned ran
      cases found : mailbox.items.reverse[index]? with
      | some item =>
          simp only [get, found] at answered
          exact (onWorld_spare (respondCopied_answering env _).leaves _ _ _ answered).trans
            (Int.add_zero _)
      | none =>
          simp only [get, found] at answered
          exact (respond_spare _ _ _ _ _ _ _ _ answered).trans (Int.add_zero _)

end Ledger

/-! ## Memory as it is -/

/-- The allocated blocks that do not belong to the queues. -/
def Machine.spare (machine : Machine) : Int := machine.world.balance - shelfBlocks machine.shelf

/-- A request whose command leaves no block behind. -/
def TidyRequest (env : BrokerEnvironment) (machine : Machine) (req : BrokerRequest) : Prop :=
  (command req machine.shelf).Tidy env.toEnvironment machine.world.system.tree
    machine.world.system.clock machine.shelf

section Machines

variable {env : BrokerEnvironment} {machine after : Machine} {req : BrokerRequest}

theorem Machine.setWorld_spare (machine : Machine) (world : World) :
    (machine.setWorld world).spare = machine.spare + (world.balance - machine.world.balance) := by
  show world.balance - shelfBlocks machine.shelf =
    machine.world.balance - shelfBlocks machine.shelf + (world.balance - machine.world.balance)
  omega

theorem brokerDispatch_spare {answer : Option BrokerResponse} (keeps : machine.Keeps machine.shelf)
    (tidy : TidyRequest env machine req) (ran : brokerDispatch env req machine = .returned answer after) :
    after.Keeps after.shelf ∧ after.spare = machine.spare := by
  have matching := brokerDispatch_matches env req
    (show Tracks machine ⟨machine.shelf, machine.world⟩ from ⟨keeps, rfl⟩)
  rw [ran] at matching
  obtain ⟨⟨shelf, world⟩, dispatched, kept, same⟩ := matching.of_returned
  have spare := @Ledger.execute_spare env ⟨machine.shelf, machine.world⟩ _ _ _ _ keeps.nodup
    (command_decodes req machine.shelf) tidy dispatched
  have shown := kept.shelf_eq
  refine ⟨by rwa [shown], ?_⟩
  rw [Machine.spare, shown, same]
  exact spare

theorem queuePoolLoad_spare (empty : machine.pool = .init) (start : machine.world.system.clock = 0)
    (tidy : LoadTidy env.toEnvironment machine.world.system.tree)
    (ran : queuePoolLoad env.toEnvironment machine = .returned () after) :
    after.Keeps after.shelf ∧ after.spare = machine.world.balance := by
  obtain ⟨keeps, read⟩ := loaded_keeps empty ran
  refine ⟨keeps, ?_⟩
  rw [Machine.spare, loadShelf_balance tidy start read]
  omega

end Machines

end Bmb
