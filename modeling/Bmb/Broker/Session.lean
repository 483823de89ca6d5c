import Bmb.Broker.Step
import Bmb.QueuePool.Load

namespace Bmb

open Bmb.Base Bmb.Posix

/-! The broker process: it starts with a load and then handles one request after the
other. -/

/-! ## Memory as it is -/

/-- The items of a queue as they lie in memory, from its tail to its root. -/
def Queue.items (nodes : Store Node) (queue : Queue) : List Item :=
  (cellsFrom Node.next nodes nodes.frontier queue.root).reverse.map fun node =>
    ⟨node.id, node.message.getD []⟩

def Machine.mailboxAt (machine : Machine) (slot : Pointer) : Option Mailbox :=
  (slot.bind machine.queues.get).map fun queue => ⟨queue.name, queue.items machine.nodes⟩

/-- The queues that the array of the pool points to. -/
def Machine.shelf (machine : Machine) : Shelf Bytes Item :=
  (machine.pool.pool.slots.take machine.pool.length).filterMap machine.mailboxAt

theorem QueueHolds.mailboxAt_eq {machine : Machine} {address : Address} {cells : List Address}
    {persist : Bool} {mailbox : Mailbox}
    (holds : QueueHolds machine address cells persist mailbox) :
    machine.mailboxAt (some address) = some mailbox := by
  have shown := holds.chain.cellsFrom_eq holds.chain.length_le_frontier
  have items : (cellsFrom Node.next machine.nodes machine.nodes.frontier cells.head?).map
      (fun node => (⟨node.id, node.message.getD []⟩ : Item)) = mailbox.items.reverse := by
    have read := congrArg (List.map fun pair : Nat × Option Bytes =>
      (⟨pair.1, pair.2.getD []⟩ : Item)) shown
    simpa [Node.shows, Item.stored, Function.comp_def] using read
  simp only [Machine.mailboxAt, Option.bind_some, holds.header, Option.map_some, Queue.items,
    List.map_reverse, items, List.reverse_reverse]

theorem Machine.Keeps.shelf_eq {machine : Machine} {shelf : Shelf Bytes Item}
    (keeps : machine.Keeps shelf) : machine.shelf = shelf := by
  obtain ⟨holdings, represents, _, rfl⟩ := keeps
  have slots : machine.pool.pool.slots.take machine.pool.length =
      holdings.map fun holding => some holding.address := by
    rw [represents.slots, represents.length, ← List.length_map, List.take_length]
  unfold Machine.shelf
  rw [slots, List.filterMap_map, ← List.filterMap_eq_map]
  apply List.filterMap_congr
  intro holding member
  exact (represents.holds holding member).mailboxAt_eq

/-! ## Runs -/

/-- A process that has just been started. -/
def Machine.boot (tree : FileTree) : Machine where
  nodes := .empty
  queues := .empty
  pool := .init
  world := { system := { tree } }

/-- Requests handled one after the other, each to its end and each as allowed. -/
inductive Session (env : BrokerEnvironment) (allowed : Machine → BrokerRequest → Machine → Prop)
    (first : Machine) : Machine → Prop where
  | start : Session env allowed first first
  | handled {before after : Machine} {req : BrokerRequest} {response : BrokerResponse}
      (session : Session env allowed first before) (fits : allowed before req after)
      (ran : brokerDispatch env req before = .returned (some response) after) :
      Session env allowed first after

/-- The states of a broker process, whatever its files were and whatever it was asked. -/
def Reachable (env : BrokerEnvironment) (machine : Machine) : Prop :=
  ∃ tree first, queuePoolLoad env.toEnvironment (.boot tree) = .returned () first ∧
    Session env (fun _ _ _ => True) first machine

variable {env : BrokerEnvironment} {allowed : Machine → BrokerRequest → Machine → Prop}
  {first last : Machine}

/-- What holds at the start and is kept by every allowed request holds throughout. -/
theorem Session.invariant {invariant : Machine → Prop} (session : Session env allowed first last)
    (start : invariant first)
    (kept : ∀ before req response after, invariant before → allowed before req after →
      brokerDispatch env req before = .returned (some response) after → invariant after) :
    invariant last := by
  induction session with
  | start => exact start
  | handled session fits ran ih => exact kept _ _ _ _ ih fits ran

theorem answered_step {req : BrokerRequest} {machine after : Machine} {response : BrokerResponse}
    (keeps : machine.Keeps machine.shelf)
    (ran : brokerDispatch env req machine = .returned (some response) after) :
    ∃ effects calls success,
      Step env.toEnvironment machine.shelf machine.world.system.tree machine.world.system.clock
        (command req machine.shelf) effects calls (.answered success after.shelf) ∧
      Answers env success response ∧ after.Keeps after.shelf ∧
      machine.world.Handled effects calls after.world := by
  obtain ⟨effects, calls, ending, step, ends⟩ := brokerDispatch_step env req keeps
  rw [ran] at ends
  cases ends with
  | answered shown kept handled =>
      have same := kept.shelf_eq
      exact ⟨effects, calls, _, same ▸ step, shown, same ▸ kept, handled⟩

theorem Session.keeps (session : Session env allowed first last)
    (start : first.Keeps first.shelf) : last.Keeps last.shelf := by
  refine @Session.invariant _ _ _ _ (fun machine => machine.Keeps machine.shelf) session start ?_
  intro before req response after keeps _ ran
  obtain ⟨_, _, _, _, _, kept, _⟩ := answered_step keeps ran
  exact kept

theorem loaded_keeps {machine : Machine} (empty : machine.pool = .init)
    (ran : queuePoolLoad env.toEnvironment machine = .returned () first) :
    first.Keeps first.shelf ∧
      loadShelf env.toEnvironment machine.world = .returned first.shelf first.world := by
  have loaded := queuePoolLoad_matches env.toEnvironment empty
  rw [ran] at loaded
  generalize read : loadShelf env.toEnvironment machine.world = outcome at loaded
  cases loaded with
  | returned kept =>
      have same := kept.shelf_eq
      exact ⟨same.symm ▸ kept, by rw [same]⟩

theorem Reachable.keeps {machine : Machine} (reachable : Reachable env machine) :
    machine.Keeps machine.shelf := by
  obtain ⟨tree, first, ran, session⟩ := reachable
  exact session.keeps (loaded_keeps rfl ran).1

/-! ## Computed runs -/

/-- An environment in which nothing fails. -/
def faithful : BrokerEnvironment where
  cwd := []
  fails := fun _ _ => false
  order := fun _ names => names
  order_perm := fun _ _ => .refl _
  jsonFails := fun _ => false
  jsonPrint := fun _ => []
  residue := fun _ => []

/-- A file tree with an empty data directory. -/
def emptyTree : FileTree :=
  ⟨((∅ : AList fun _ : Path => Entry).insert [] .directory).insert [text "data"] .directory⟩

def request (type : String) (queue data : Option String) : BrokerRequest :=
  ⟨some (text type), none, queue.map text, 0, data.map text⟩

def loaded (env : BrokerEnvironment) (tree : FileTree) : Machine :=
  (queuePoolLoad env.toEnvironment (.boot tree)).state

/-- The state after a request, whether it is answered or not. -/
def Machine.asked (machine : Machine) (env : BrokerEnvironment) (req : BrokerRequest) : Machine :=
  (brokerDispatch env req machine).state

def isLoaded (env : BrokerEnvironment) (tree : FileTree) : Bool :=
  match queuePoolLoad env.toEnvironment (.boot tree) with
  | .returned _ _ => true
  | .trapped _ _ => false

def isAnswered (env : BrokerEnvironment) (req : BrokerRequest) (machine : Machine) : Bool :=
  match brokerDispatch env req machine with
  | .returned (some _) _ => true
  | _ => false

def saysTrue (env : BrokerEnvironment) (req : BrokerRequest) (machine : Machine) : Bool :=
  match brokerDispatch env req machine with
  | .returned (some ⟨_, _, some (.bool true), _⟩) _ => true
  | _ => false

theorem loaded_returned {tree : FileTree} (ran : isLoaded env tree = true) :
    queuePoolLoad env.toEnvironment (.boot tree) = .returned () (loaded env tree) := by
  unfold isLoaded at ran
  unfold loaded
  split at ran
  · rename_i outcome
    rw [outcome]
    rfl
  · contradiction

theorem asked_returned {machine : Machine} {req : BrokerRequest}
    (ran : isAnswered env req machine = true) :
    ∃ response, brokerDispatch env req machine = .returned (some response) (machine.asked env req) := by
  unfold isAnswered at ran
  unfold Machine.asked
  split at ran
  · rename_i response after outcome
    exact ⟨response, by rw [outcome]; rfl⟩
  · contradiction

theorem Session.asked {machine : Machine} (session : Session env allowed first machine)
    (req : BrokerRequest) (answered : isAnswered env req machine = true)
    (fits : allowed machine req (machine.asked env req)) :
    Session env allowed first (machine.asked env req) := by
  obtain ⟨response, ran⟩ := asked_returned answered
  exact .handled session fits ran

theorem Reachable.loaded {tree : FileTree} (ran : isLoaded env tree = true) :
    Reachable env (loaded env tree) :=
  ⟨tree, _, loaded_returned ran, .start⟩

theorem Reachable.asked {machine : Machine} (reachable : Reachable env machine)
    (req : BrokerRequest) (answered : isAnswered env req machine = true) :
    Reachable env (machine.asked env req) := by
  obtain ⟨tree, first, ran, session⟩ := reachable
  exact ⟨tree, first, ran, session.asked req answered trivial⟩

/-- An environment in which one kind of call always fails. -/
def failing (call : Call) : BrokerEnvironment :=
  { faithful with fails := fun other _ => decide (other = call) }

end Bmb
