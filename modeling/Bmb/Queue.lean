import Bmb.Machine

namespace Bmb

open Bmb.Base Bmb.Posix

/-! `queue_node.c` and `queue.c`: queues as singly linked chains of nodes, the
newest node at the root and the oldest at the tail. -/

namespace Node

def setNextField (next : Pointer) (node : Node) : Node := { node with next }

def setMessageField (message : Bytes) (node : Node) : Node := { node with message := some message }

/-- `Node_new`, with the fields `Node_construct` clears. -/
def new (id : Nat) : Program Machine Pointer := do
  onWorld memAlloc
  let machine ← .read
  .modify fun machine =>
    machine.setNodes (machine.nodes.alloc { id, message := none, next := none })
  pure (some machine.nodes.frontier)

def getMessage (this : Pointer) : Program Machine (Option Bytes) := do
  let node ← nodeAt this
  pure node.message

/-- The message is freed; its pointer stays set. -/
def clearMessage (this : Pointer) : Program Machine Unit := do
  let node ← nodeAt this
  onWorld (memFreeNullable node.message)

def setMessage (this : Pointer) (message : Bytes) : Program Machine Unit := do
  clearMessage this
  onWorld memAlloc
  updateNode this (setMessageField message)

def getNext (this : Pointer) : Program Machine Pointer := do
  let node ← nodeAt this
  pure node.next

def setNext (this next : Pointer) : Program Machine Unit := updateNode this (setNextField next)

def destruct (this : Pointer) : Program Machine Unit := do
  clearMessage this
  onWorld memFree
  .modify fun machine => machine.setNodes (machine.nodes.free (this.getD 0))

end Node

/-- The id behind the `data` pointer of a response to `PERSIST_GET_NEXT_ID`. -/
def nextIdFrom {σ : Type} (data : PersistData) : Program σ Nat :=
  match data with
  | .nextId id => pure id
  | _ => .stop .nullPointer

namespace Queue

def setEnds (root tail : Pointer) (queue : Queue) : Queue := { queue with root, tail }

def setRoot (root : Pointer) (queue : Queue) : Queue := { queue with root }

def setTail (tail : Pointer) (queue : Queue) : Queue := { queue with tail }

def setPersist (persist : Bool) (queue : Queue) : Queue := { queue with persist }

def reset (this : Pointer) : Program Machine Unit := updateQueue this (setEnds none none)

/-- `Queue_new` and `Queue_construct`. -/
def new (name : Bytes) : Program Machine Pointer := do
  onWorld memAlloc
  let machine ← .read
  .modify fun machine =>
    machine.setQueues (machine.queues.alloc { name, root := none, tail := none, persist := true })
  onWorld memAlloc
  let this : Pointer := some machine.queues.frontier
  reset this
  pure this

/-- The counting loop of `Queue_size`.  The fuel exceeds the number of cells, so it
only runs out on a chain that never ends. -/
def countFrom : Nat → Pointer → Nat → Program Machine Nat
  | 0, _, _ => .stop .divergence
  | fuel + 1, element, counter => do
      let next ← Node.getNext element
      if next ≠ none then countFrom fuel next (counter + 1) else pure counter

def size (this : Pointer) : Program Machine Nat := do
  let queue ← queueAt this
  if queue.root = none then pure 0
  else do
    let machine ← .read
    countFrom (machine.nodes.frontier + 1) queue.root 1

/-- `Queue_get`; the loop variable counts down instead of up. -/
def get (this : Pointer) : Nat → Program Machine Pointer
  | 0 => do
      let queue ← queueAt this
      pure queue.root
  | index + 1 => do
      let element ← get this index
      Node.getNext element

def getNextTail (this : Pointer) : Program Machine Pointer := do
  let queueSize ← size this
  if queueSize ≤ 1 then pure none else get this (queueSize - 2)

def isEmpty (this : Pointer) : Program Machine Bool := do
  let queueSize ← size this
  pure (if queueSize > 0 then false else true)

def peek (this : Pointer) : Program Machine Pointer := do
  let queue ← queueAt this
  pure queue.tail

variable (env : Environment)

/-- The persistence part of `Queue_add`; whether the node has been stored. -/
def addPersisted (name : Bytes) (rt : Pointer) : Program Machine Bool := do
  let pidres ← onWorld (persistDispatch env ⟨.getNextId, some name, 0, none⟩)
  let nextId ← nextIdFrom pidres.data
  onWorld memFree
  let message ← Node.getMessage rt
  let pres ← onWorld (persistDispatch env ⟨.addNode, some name, nextId, message⟩)
  pure pres.success

/-- The linking part of `Queue_add`. -/
def link (this rt : Pointer) : Program Machine Bool := do
  let queue ← queueAt this
  if queue.root ≠ none then do
    Node.setNext rt queue.root
    updateQueue this (setRoot rt)
    pure true
  else do
    Node.setNext rt none
    updateQueue this (setTail rt)
    updateQueue this (setRoot rt)
    pure true

def add (this rt : Pointer) : Program Machine Bool := do
  let queue ← queueAt this
  if queue.persist then do
    if ← addPersisted env queue.name rt then link this rt else pure false
  else link this rt

/-- The unlinking part of `Queue_poll`. -/
def detach (this tail nextTail : Pointer) : Program Machine Pointer := do
  if nextTail ≠ none then do
    Node.setNext nextTail none
    updateQueue this (setTail nextTail)
    pure tail
  else do
    reset this
    pure tail

def poll (this : Pointer) : Program Machine Pointer := do
  if ← isEmpty this then pure none
  else do
    let queue ← queueAt this
    let tail := queue.tail
    let nextTail ← getNextTail this
    if queue.persist then do
      let node ← nodeAt tail
      let pres ← onWorld (persistDispatch env ⟨.removeNode, some queue.name, node.id, none⟩)
      if pres.success then detach this tail nextTail else pure none
    else detach this tail nextTail

/-- The loop of `Queue_clear` that copies the chain into an array. -/
def asArray : Nat → Pointer → Program Machine (List Pointer)
  | 0, _ => .stop .divergence
  | fuel + 1, element => do
      let next ← Node.getNext element
      if next ≠ none then do
        let rest ← asArray fuel next
        pure (element :: rest)
      else pure [element]

def destructNodes : List Pointer → Program Machine Unit
  | [] => pure ()
  | node :: rest => do
      Node.destruct node
      destructNodes rest

/-- The nodes are destroyed; `root` and `tail` stay set. -/
def clear (this : Pointer) : Program Machine Unit := do
  if ← isEmpty this then pure ()
  else do
    let queueSize ← size this
    let queue ← queueAt this
    let machine ← .read
    let array ← asArray (machine.nodes.frontier + 1) queue.root
    destructNodes (array.take queueSize)

def destruct (this : Pointer) : Program Machine Unit := do
  let _ ← queueAt this
  onWorld memFree
  onWorld memFree
  .modify fun machine => machine.setQueues (machine.queues.free (this.getD 0))

end Queue

end Bmb
