import Bmb.Queue

namespace Bmb

open Bmb.Base Bmb.Posix

/-! `queue_pool.c`: the array of all queues. -/

/-- `EXIT_FAILURE` of the start-up code. -/
def exitFailure : Nat := 1

/-- `this->pool[index]`. -/
def slotAt (index : Nat) : Program Machine Pointer := fun machine =>
  match machine.pool.pool with
  | .null => .trapped .nullPointer machine
  | .freed => .trapped .danglingPointer machine
  | .live slots =>
      match slots[index]? with
      | none => .trapped .outOfBounds machine
      | some slot => .returned slot machine

def QueuePool.init : QueuePool := { length := 0, pool := .null }

def queuePoolInit : Program Machine Unit := do
  onWorld memAlloc
  .modify (·.setPool .init)

/-- Store a queue pointer behind the entries of the pool, in a new array if there
are none. -/
def QueuePool.append (this : QueuePool) (queue : Pointer) : QueuePool :=
  if this.length = 0 then { length := 1, pool := .live [queue] }
  else
    match this.pool with
    | .live slots =>
        { length := this.length + 1, pool := .live (slots.take this.length ++ [queue]) }
    | _ => { length := this.length + 1, pool := this.pool }

variable (env : Environment)

/-- The part of `queue_pool_add` that puts the new queue into the array. -/
def queuePoolStore (newQueue : Pointer) : Program Machine Unit := do
  let machine ← .read
  if machine.pool.length = 0 then onWorld memAlloc else pure ()
  .modify fun machine => machine.setPool (machine.pool.append newQueue)

def queuePoolAdd (name : Bytes) (init : Bool) : Program Machine Bool := do
  let newQueue ← Queue.new name
  if init then do
    queuePoolStore newQueue
    pure true
  else do
    let pres ← onWorld (persistDispatch env ⟨.addQueue, some name, 0, none⟩)
    if pres.success then do
      queuePoolStore newQueue
      pure true
    else pure false

/-- The array without its `NULL` entries; an array left empty is freed. -/
def QueuePool.clearNulls (this : QueuePool) : QueuePool :=
  match this.pool with
  | .live slots =>
      let tmpPool := (slots.take this.length).filter Option.isSome
      if tmpPool = [] then { length := 0, pool := .freed }
      else { length := tmpPool.length, pool := .live tmpPool }
  | _ => this

def queuePoolClearNulls : Program Machine Unit := do
  .modify fun machine => machine.setPool machine.pool.clearNulls
  let machine ← .read
  if machine.pool.length = 0 then onWorld memFree else pure ()

/-- The names of the slots from `index` on. -/
def namesFrom (index : Nat) : Nat → Program Machine (List Bytes)
  | 0 => pure []
  | remaining + 1 => do
      let slot ← slotAt index
      let queue ← queueAt slot
      let rest ← namesFrom (index + 1) remaining
      pure (queue.name :: rest)

def queuePoolGetAllNames : Program Machine (List Bytes) := do
  onWorld memAlloc
  let machine ← .read
  namesFrom 0 machine.pool.length

/-- The search loop of `queue_pool_get_by_name`: the index and the pointer of the
first queue with the name. -/
def findFrom (name : Bytes) (index : Nat) : Nat → Program Machine (Option (Nat × Pointer))
  | 0 => pure none
  | remaining + 1 => do
      let slot ← slotAt index
      let queue ← queueAt slot
      if queue.name = name then pure (some (index, slot))
      else findFrom name (index + 1) remaining

def queuePoolGetByName (name : Option Bytes) : Program Machine Pointer :=
  match name with
  | none => pure none
  | some name => do
      let machine ← .read
      match ← findFrom name 0 machine.pool.length with
      | none => pure none
      | some (_, queue) => pure queue

/-- The inner loop of `queue_pool_load`: read the files of a queue and add their
contents, in the order of the array. -/
def loadNodes (queueName : Bytes) (queue : Pointer) : List Int → Program Machine Unit
  | [] => pure ()
  | id :: rest => do
      let pnres ← onWorld (persistDispatch env ⟨.readNode, some queueName, toUInt32 id, none⟩)
      match pnres.data with
      | .content nodeContent => do
          let newNode ← Node.new (toUInt32 id)
          Node.setMessage newNode (cString nodeContent)
          let _ ← Queue.add env queue newNode
          onWorld memFree
          loadNodes queueName queue rest
      | _ => .stop (.exit exitFailure)

/-- One round of the outer loop of `queue_pool_load`. -/
def loadQueue (queueName : Bytes) : Program Machine Unit := do
  let pqres ← onWorld (persistDispatch env ⟨.readQueue, some queueName, 0, none⟩)
  match pqres.data with
  | .queue queueNodes => do
      let _ ← queuePoolAdd env queueName true
      let queue ← queuePoolGetByName (some queueName)
      updateQueue queue (Queue.setPersist false)
      loadNodes env queueName queue (queueNodes.tail.take (queueNodes.headD 0).toNat)
      let pidres ← onWorld (persistDispatch env ⟨.getNextId, some queueName, 0, none⟩)
      -- the id is only printed; the block behind `data` is freed if there is one
      if pidres.success then onWorld memFree else pure ()
      onWorld memFree
      updateQueue queue (Queue.setPersist true)
  | _ => .stop (.exit exitFailure)

def loadQueues : List Bytes → Program Machine Unit
  | [] => pure ()
  | queueName :: rest => do
      loadQueue env queueName
      loadQueues rest

def queuePoolLoad : Program Machine Unit := do
  let pres ← onWorld (persistDispatch env ⟨.getQueueList, none, 0, none⟩)
  match pres.data with
  | .queueList queueList => do
      loadQueues env queueList
      -- the copies of the names, the block with their number, and the array
      onWorld (.modify (·.release (queueList.length + 2)))
  | _ => .stop (.exit exitFailure)

/-- Removal of the first queue with the name from the array. -/
def removeAt (index : Nat) (queue : Pointer) : Program Machine Unit := do
  Queue.clear queue
  Queue.destruct queue
  .modify fun machine =>
    match machine.pool.pool with
    | .live slots => machine.setPool { machine.pool with pool := .live (slots.set index none) }
    | _ => machine
  queuePoolClearNulls

def queuePoolRemoveByName (name : Bytes) : Program Machine Bool := do
  let pres ← onWorld (persistDispatch env ⟨.removeQueue, some name, 0, none⟩)
  if pres.success then do
    let machine ← .read
    match ← findFrom name 0 machine.pool.length with
    | none => pure false
    | some (index, queue) => do
        removeAt index queue
        pure true
  else do
    onWorld (memFreeNullable pres.errorMessage)
    pure false

/-- The loop of `queue_pool_destruct`, from `index` on. -/
def destructQueues (index : Nat) : Nat → Program Machine Unit
  | 0 => pure ()
  | remaining + 1 => do
      let queue ← slotAt index
      Queue.clear queue
      Queue.destruct queue
      destructQueues (index + 1) remaining

/-- `mem_free` of the array; one that was left empty by a removal has been freed before. -/
def freePoolArray : PoolBlock → Program Machine Unit
  | .null => pure ()
  | .live _ => onWorld memFree
  | .freed => .stop .danglingPointer

def queuePoolDestruct : Program Machine Unit := do
  let machine ← .read
  destructQueues 0 machine.pool.length
  freePoolArray machine.pool.pool
  onWorld memFree

end Bmb
