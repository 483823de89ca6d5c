import Bmb.Util

namespace Bmb

open Bmb.Base Bmb.Posix

/-! `persist.c`: queues as directories below `./data`, nodes as files in them. -/

structure PersistRequest where
  type : PersistType
  queueName : Option Bytes
  nodeId : Nat
  data : Option Bytes

/-- What the `data` pointer of a response refers to. -/
inductive PersistData where
  | null
  | nextId (id : Nat)
  | queue (nodeList : List Int)
  | queueList (names : List Name)
  | content (bytes : Bytes)
deriving DecidableEq

structure PersistResponse where
  errorMessage : Option Bytes
  success : Bool
  data : PersistData
deriving DecidableEq

def strerror : Errno → Bytes
  | .success => text "Success"
  | .enoent => text "No such file or directory"
  | .enotdir => text "Not a directory"
  | .eexist => text "File exists"
  | .eisdir => text "Is a directory"
  | .enotempty => text "Directory not empty"
  | .einval => text "Invalid argument"
  | .eio => text "Input/output error"

def dataPath : Bytes := text "./data"

/-- The text `persist_dispatch` builds in `path`, whatever its length. -/
def queuePath (queueName : Bytes) : Bytes := dataPath ++ slash :: queueName

def nodePath (path name : Bytes) : Bytes := path ++ slash :: name

def createErrorMessage (part1 part2 : Bytes) : Program World Bytes := do
  memAlloc
  pure (part1 ++ part2)

def persistFailure (part1 : Bytes) : Program World PersistResponse := do
  let world ← .read
  let message ← createErrorMessage part1 (strerror world.system.errno)
  pure { errorMessage := some message, success := false, data := .null }

def persistSuccess (data : PersistData) : PersistResponse :=
  { errorMessage := none, success := true, data }

variable (env : Environment)

def checkDir (path : Bytes) : Program World (Option (List Name)) := system (opendir env path)

/-- `strcat` with a file name that may be `NULL`. -/
def filePath (path : Bytes) (name : Option Bytes) : Program World Bytes :=
  match name with
  | none => .stop .nullPointer
  | some name => do
      .modify (·.build (nodePath path name))
      pure (nodePath path name)

def createNodeFile (path : Bytes) (name : Option Bytes) (content : Option Bytes) :
    Program World Bool := do
  let filePath ← filePath path name
  match ← system (fopenWrite env filePath) with
  | some stream => do
      -- `fprintf` prints a NULL string as "(null)"; its result is not looked at
      system fun current =>
        ((), writeContent env current stream (content.getD (text "(null)")))
      closeStream
      pure true
  | none => pure false

def createQueueDir (path : Bytes) : Program World Bool := do
  match ← system (opendir env path) with
  | some _ => do
      closeStream
      pure true
  | none => do
      let world ← .read
      if world.system.errno = .enoent then system (mkdir env path) else pure false

/-- Directory entries that count as nodes. -/
def isNodeName (name : Name) : Bool := atoi name != 0

def countNodes (entries : List Name) : Nat := entries.countP isNodeName

def getQueueLength (path : Bytes) : Program World Nat := do
  match ← checkDir env path with
  | none => pure 0
  | some entries => do
      closeStream
      pure (countNodes entries)

/-- The array `read_queue` fills: the number of nodes, then their sorted ids. -/
def nodeList (entries : List Name) : List Int :=
  let ids := (entries.filter isNodeName).map atoi
  toInt32 ids.length :: sortIntArrayAsc ids

def readQueue (path : Bytes) : Program World (Option (List Int)) := do
  match ← checkDir env path with
  | none => pure none
  | some entries => do
      memAlloc
      closeStream
      pure (some (nodeList entries))

/-- The id `get_next_node_id` derives from the array of `read_queue`. -/
def nextIdOf (queue : List Int) : Nat :=
  let queueSize := queue.headD 0
  if queueSize > 0 then toUInt32 (queue.getD queueSize.toNat 0 + 1) else 1

def getNextNodeId (path : Bytes) : Program World (Option Nat) := do
  let _queueLength ← getQueueLength env path
  match ← readQueue env path with
  | none => pure none
  | some queue => do
      memAlloc
      memFree
      pure (some (nextIdOf queue))

def getQueueList : Program World (Option (List Name)) := do
  match ← checkDir env dataPath with
  | none => pure none
  | some entries => do
      let names := entries.filter fun name => name != dot && name != dotdot
      closeStream
      -- the array, a copy of every name and the block that holds their number
      .modify (·.allocate (names.length + 2))
      pure (some names)

/-- A byte as the signed `char` it is stored in. -/
def toChar (byte : UInt8) : Int := if byte.toNat < 128 then byte.toNat else byte.toNat - 256

def EOF : Int := -1

/-- The loop `while ((c = fgetc(fp)) != EOF)`: `c` is a `char`, so a byte that
reads as -1 ends it like the end of the file. -/
def readChars : Bytes → Bytes
  | [] => []
  | byte :: rest => if toChar byte = EOF then [] else byte :: readChars rest

def readNode (path : Bytes) (name : Option Bytes) : Program World (Option Bytes) := do
  let filePath ← filePath path name
  match ← system (fopenRead env filePath) with
  | none => pure none
  | some content => do
      memAlloc
      closeStream
      pure (some (readChars content))

def removeNode (path : Bytes) (name : Option Bytes) : Program World Bool := do
  let filePath ← filePath path name
  system (unlink env filePath)

/-- Access to an array that may be `NULL`. -/
def arrayGet (array : Option (List Int)) (index : Nat) : Program World Int :=
  match array with
  | none => .stop .nullPointer
  | some entries =>
      match entries[index]? with
      | none => .stop .outOfBounds
      | some entry => pure entry

/-- The unlinking loop of `persist_remove_queue`, from `index` on. -/
def removeNodeFiles (path : Bytes) (nodeFileArr : Option (List Int)) (index : Nat) :
    Nat → Program World Bool
  | 0 => pure true
  | remaining + 1 => do
      let id ← arrayGet nodeFileArr index
      memAlloc
      let nodeRemoved ← removeNode env path (some (intToString id))
      memFree
      if nodeRemoved then removeNodeFiles path nodeFileArr (index + 1) remaining
      else pure false

/-- The stream opened by the first check is never closed. -/
def persistRemoveQueue (path : Bytes) : Program World Bool := do
  match ← checkDir env path with
  | none => pure false
  | some _ => do
      let nodeFileArr ← readQueue env path
      let queueLength ← getQueueLength env path
      if ← removeNodeFiles env path nodeFileArr 1 queueLength then do
        memFreeNullable nodeFileArr
        system (rmdir env path)
      else pure false

def queueNameNeeded (type : PersistType) : Bool :=
  type == .addQueue || type == .readQueue || type == .removeQueue ||
    type == .addNode || type == .removeNode || type == .readNode

/-- The branch of `persist_dispatch` for the request type. -/
def persistAction (req : PersistRequest) (path : Bytes) (nodeIdStr : Option Bytes) :
    Program World PersistResponse :=
  match req.type with
  | .addQueue => do
      if ← createQueueDir env path then pure (persistSuccess .null)
      else persistFailure (text "Error creating directory: ")
  | .removeQueue => do
      if ← persistRemoveQueue env path then pure (persistSuccess .null)
      else persistFailure (text "Error removing queue: ")
  | .readQueue => do
      let _queueLength ← getQueueLength env path
      match ← readQueue env path with
      | none => persistFailure (text "Error reading queue: ")
      | some queue => pure (persistSuccess (.queue queue))
  | .getQueueList => do
      match ← getQueueList env with
      | none => persistFailure (text "Error getting queue list: ")
      | some queues => pure (persistSuccess (.queueList queues))
  | .addNode => do
      if ← createNodeFile env path nodeIdStr req.data then pure (persistSuccess .null)
      else persistFailure (text "Error creating file: ")
  | .removeNode => do
      if ← removeNode env path nodeIdStr then pure (persistSuccess .null)
      else persistFailure (text "Error removing file: ")
  | .readNode => do
      match ← readNode env path nodeIdStr with
      | some nodeContent => pure (persistSuccess (.content nodeContent))
      | none => persistFailure (text "Error reading node: ")
  | .getNextId => do
      match ← getNextNodeId env path with
      | some nextId => pure (persistSuccess (.nextId nextId))
      | none => persistFailure (text "Error getting next node id: ")
  | .other _ => do
      let message ← createErrorMessage (text "Error: ")
        (text "Persistence request type not recognized.")
      pure { errorMessage := some message, success := false, data := .null }

/-- The text of a node id that is not zero, converted to `int` on the way. -/
def nodeIdText (nodeId : Nat) : Option Bytes :=
  if nodeId > 0 then some (intToString (toInt32 nodeId)) else none

def persistDispatch (req : PersistRequest) : Program World PersistResponse := do
  let response ←
    if queueNameNeeded req.type && req.queueName.isNone then do
      let message ← createErrorMessage (text "Error: ") (text "Queue name needed.")
      pure { errorMessage := some message, success := false, data := .null }
    else do
      let path := match req.queueName with
        | none => dataPath
        | some queueName => queuePath queueName
      .modify (·.build path)
      let nodeIdStr := nodeIdText req.nodeId
      if nodeIdStr.isSome then memAlloc else pure ()
      let response ← persistAction env req path nodeIdStr
      memFreeNullable nodeIdStr
      pure response
  .modify (·.record ⟨req.type, response.success⟩)
  pure response

end Bmb
