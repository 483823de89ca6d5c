import Bmb.Base.Chain
import Bmb.Persist

namespace Bmb

open Bmb.Base Bmb.Posix

/-! The data structures of `queue_node.h`, `queue.h` and `queue_pool.h`, and the
state of the process in which they live. -/

structure Node where
  id : Nat
  message : Option Bytes
  next : Pointer
deriving DecidableEq

structure Queue where
  name : Bytes
  root : Pointer
  tail : Pointer
  persist : Bool
deriving DecidableEq

/-- The array of queue pointers of a pool: not allocated yet, allocated, or freed
with the pointer still set. -/
inductive PoolBlock where
  | null
  | live (slots : List Pointer)
  | freed
deriving DecidableEq

structure QueuePool where
  length : Nat
  pool : PoolBlock
deriving DecidableEq

/-- The state of the process that requests work on. -/
structure Machine where
  nodes : Store Node
  queues : Store Queue
  pool : QueuePool
  world : World

namespace Machine

def setWorld (world : World) (machine : Machine) : Machine := { machine with world }

def setNodes (nodes : Store Node) (machine : Machine) : Machine := { machine with nodes }

def setQueues (queues : Store Queue) (machine : Machine) : Machine := { machine with queues }

def setPool (pool : QueuePool) (machine : Machine) : Machine := { machine with pool }

variable (machine : Machine) (newNodes : Store Node) (newQueues : Store Queue)
  (newPool : QueuePool) (newWorld : World)

@[simp] theorem setNodes_nodes : (machine.setNodes newNodes).nodes = newNodes := rfl

@[simp] theorem setNodes_queues : (machine.setNodes newNodes).queues = machine.queues := rfl

@[simp] theorem setNodes_pool : (machine.setNodes newNodes).pool = machine.pool := rfl

@[simp] theorem setNodes_world : (machine.setNodes newNodes).world = machine.world := rfl

@[simp] theorem setQueues_nodes : (machine.setQueues newQueues).nodes = machine.nodes := rfl

@[simp] theorem setQueues_queues : (machine.setQueues newQueues).queues = newQueues := rfl

@[simp] theorem setQueues_pool : (machine.setQueues newQueues).pool = machine.pool := rfl

@[simp] theorem setQueues_world : (machine.setQueues newQueues).world = machine.world := rfl

@[simp] theorem setPool_nodes : (machine.setPool newPool).nodes = machine.nodes := rfl

@[simp] theorem setPool_queues : (machine.setPool newPool).queues = machine.queues := rfl

@[simp] theorem setPool_pool : (machine.setPool newPool).pool = newPool := rfl

@[simp] theorem setPool_world : (machine.setPool newPool).world = machine.world := rfl

@[simp] theorem setWorld_nodes : (machine.setWorld newWorld).nodes = machine.nodes := rfl

@[simp] theorem setWorld_queues : (machine.setWorld newWorld).queues = machine.queues := rfl

@[simp] theorem setWorld_pool : (machine.setWorld newWorld).pool = machine.pool := rfl

@[simp] theorem setWorld_world : (machine.setWorld newWorld).world = newWorld := rfl

@[simp] theorem setWorld_setWorld (world : World) :
    (machine.setWorld world).setWorld newWorld = machine.setWorld newWorld := rfl

end Machine

def onWorld {α : Type} (program : Program World α) : Program Machine α :=
  program.zoom Machine.world Machine.setWorld

@[simp] theorem run_onWorld {α : Type} (program : Program World α) (machine : Machine) :
    onWorld program machine =
      match program machine.world with
      | .returned value world => .returned value (machine.setWorld world)
      | .trapped trap world => .trapped trap (machine.setWorld world) := by
  unfold onWorld Program.zoom
  cases program machine.world <;> rfl

theorem onWorld_bind {α β : Type} (first : Program World α) (next : α → Program World β) :
    onWorld (first >>= next) = onWorld first >>= fun value => onWorld (next value) := by
  funext machine
  simp only [run_onWorld, Program.run_bind]
  cases first machine.world <;> rfl

theorem onWorld_eq_returned {α : Type} {program : Program World α} {machine after : Machine} {value : α}
    (ran : onWorld program machine = .returned value after) :
    ∃ world, program machine.world = .returned value world ∧ after = machine.setWorld world :=
  Program.zoom_eq_returned ran

@[simp] theorem onWorld_pure {α : Type} (value : α) : onWorld (pure value) = pure value := rfl

/-- Dereference of a node pointer. -/
def nodeAt (this : Pointer) : Program Machine Node := fun machine =>
  match this with
  | none => .trapped .nullPointer machine
  | some address =>
      match machine.nodes.get address with
      | none => .trapped .danglingPointer machine
      | some node => .returned node machine

def updateNode (this : Pointer) (f : Node → Node) : Program Machine Unit := do
  let _ ← nodeAt this
  .modify fun machine => machine.setNodes (machine.nodes.modify (this.getD 0) f)

theorem run_nodeAt {machine : Machine} {address : Address} {node : Node}
    (found : machine.nodes.get address = some node) :
    nodeAt (some address) machine = .returned node machine := by
  simp only [nodeAt, found]

theorem run_updateNode {machine : Machine} {address : Address} {node : Node} (f : Node → Node)
    (found : machine.nodes.get address = some node) :
    updateNode (some address) f machine =
      .returned () (machine.setNodes (machine.nodes.modify address f)) := by
  simp only [updateNode, Program.run_bind, run_nodeAt found, Program.run_modify, Option.getD_some]

def queueAt (this : Pointer) : Program Machine Queue := fun machine =>
  match this with
  | none => .trapped .nullPointer machine
  | some address =>
      match machine.queues.get address with
      | none => .trapped .danglingPointer machine
      | some queue => .returned queue machine

def updateQueue (this : Pointer) (f : Queue → Queue) : Program Machine Unit := do
  let _ ← queueAt this
  .modify fun machine => machine.setQueues (machine.queues.modify (this.getD 0) f)

theorem run_queueAt {machine : Machine} {address : Address} {queue : Queue}
    (found : machine.queues.get address = some queue) :
    queueAt (some address) machine = .returned queue machine := by
  simp only [queueAt, found]

theorem run_updateQueue (machine : Machine) {address : Address} {queue : Queue} (f : Queue → Queue)
    (found : machine.queues.get address = some queue) :
    updateQueue (some address) f machine =
      .returned () (machine.setQueues (machine.queues.modify address f)) := by
  simp only [updateQueue, Program.run_bind, run_queueAt found, Program.run_modify, Option.getD_some]

end Bmb
