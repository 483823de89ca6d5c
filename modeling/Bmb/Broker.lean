import Bmb.QueuePool

namespace Bmb

open Bmb.Base Bmb.Posix

/-! `broker.c`: validation of requests and the actions on queues. -/

/-- The values the cJSON library builds for the broker. -/
inductive Json where
  | bool (value : Bool)
  | number (value : Nat)
  | string (bytes : Bytes)
  | array (items : List Json)
  | object (fields : List (Bytes × Json))

/-- The environment of the whole process: the file system, the cJSON library, and
what an uninitialised stack array holds behind the bytes written to it. -/
structure BrokerEnvironment extends Environment where
  jsonFails : Nat → Bool
  jsonPrint : Json → Bytes
  residue : Nat → Bytes

/-- cJSON never runs out of memory. -/
def BrokerEnvironment.JsonReliable (env : BrokerEnvironment) : Prop :=
  ∀ call, env.jsonFails call = false

structure BrokerRequest where
  type : Option Bytes
  queue : Pointer
  queueName : Option Bytes
  index : Nat
  data : Option Bytes
deriving DecidableEq

structure BrokerResponse where
  code : Nat
  errorMessage : Option Bytes
  success : Option Json
  payload : Option Json

def brokerConsume : Bytes := text "consume"
def brokerProduce : Bytes := text "produce"
def brokerLength : Bytes := text "length"
def brokerGet : Bytes := text "get"
def brokerGetAll : Bytes := text "getAll"
def brokerAddQueue : Bytes := text "addQueue"
def brokerGetAllQueueNames : Bytes := text "getAllQueueNames"
def brokerRemoveQueue : Bytes := text "removeQueue"

def needsQueue : List Bytes :=
  [brokerConsume, brokerProduce, brokerLength, brokerGet, brokerGetAll, brokerRemoveQueue]

def needsIndex : List Bytes := [brokerGet]

def needsData : List Bytes := [brokerProduce, brokerLength, brokerAddQueue]

variable (env : BrokerEnvironment)

/-- Allocation of a JSON item, which gives `NULL` when cJSON has no memory left. -/
def cJSONCreate (item : Json) : Program World (Option Json) := fun world =>
  .returned (if env.jsonFails world.jsonCalls then none else some item)
    { world with jsonCalls := world.jsonCalls + 1 }

def cJSONPrint (item : Json) : Program World (Option Bytes) := fun world =>
  .returned (if env.jsonFails world.jsonCalls then none else some (env.jsonPrint item))
    { world with jsonCalls := world.jsonCalls + 1 }

/-- `cJSON_AddItemToObject`; nothing happens without an object. -/
def cJSONAddItem (key : Bytes) (item : Json) : Option Json → Option Json
  | some (.object fields) => some (.object (fields ++ [(key, item)]))
  | other => other

/-- Add a string to the payload unless it is `NULL`; `none` when cJSON fails. -/
def addPayloadString (payload : Option Json) (key : Bytes) (value : Option Bytes) :
    Program World (Option (Option Json)) :=
  match value with
  | none => pure (some payload)
  | some value => do
      match ← cJSONCreate env (.string value) with
      | none => pure none
      | some item => pure (some (cJSONAddItem key item payload))

def createResponse (success : Bool) (code : Nat) (message data errorMessage : Option Bytes) :
    Program World BrokerResponse := do
  match ← cJSONCreate env (.bool success) with
  | none =>
      pure { code := 500
             errorMessage := some (text "Failed to add success value to response JSON.")
             success := none, payload := none }
  | some jsonSuccess => do
      let jsonPayload ← cJSONCreate env (.object [])
      match ← addPayloadString env jsonPayload (text "message") (message <|> errorMessage) with
      | none =>
          pure { code := 500
                 errorMessage := some (text "Failed to add message value to response JSON.")
                 success := some jsonSuccess, payload := jsonPayload }
      | some withMessage => do
          match ← addPayloadString env withMessage (text "data") data with
          | none =>
              pure { code := 500
                     errorMessage := some (text "Failed to add data value to response JSON.")
                     success := some jsonSuccess, payload := withMessage }
          | some withData =>
              pure { code, errorMessage, success := some jsonSuccess, payload := withData }

/-- An entry of the arrays in the responses to `getAll` and `getAllQueueNames`. -/
def entryObject (index : Nat) (key : Bytes) (value : Option Bytes) (indexError valueError : Bytes) :
    Program World (Except Bytes Json) := do
  match ← cJSONCreate env (.object []) with
  | none => pure (.error indexError)
  | some _ => do
      match ← cJSONCreate env (.number index) with
      | none => pure (.error indexError)
      | some number => do
          match value with
          | none => pure (.error valueError)
          | some value => do
              match ← cJSONCreate env (.string value) with
              | none => pure (.error valueError)
              | some string =>
                  pure (.ok (.object [(text "index", number), (key, string)]))

namespace Broker

def addQueue (req : BrokerRequest) : Program Machine BrokerResponse := do
  let queueDuplicate ← queuePoolGetByName req.data
  if queueDuplicate ≠ none then
    onWorld (createResponse env false 200
      (some (text "Failed: Queue with given name already exists.")) none none)
  else do
    if ← queuePoolAdd env.toEnvironment (req.data.getD []) false then
      onWorld (createResponse env true 200 (some (text "Queue created.")) none none)
    else
      onWorld (createResponse env false 200 (some (text "Failed to create queue.")) none none)

/-- The string in `decodedMessage` after `url_decode`: when decoding stops early,
the bytes written so far run into whatever the array held before. -/
def decodedMessage (message residue : Bytes) : Bytes :=
  let decoded := urlDecode message
  if decoded.2 then cString decoded.1 else cString (decoded.1 ++ residue)

def consume (req : BrokerRequest) : Program Machine BrokerResponse := do
  if !(← Queue.isEmpty req.queue) then do
    let node ← Queue.poll env.toEnvironment req.queue
    match ← Node.getMessage node with
    | none => .stop .nullPointer
    | some message => do
        let machine ← .read
        let data := decodedMessage message (env.residue machine.world.system.clock)
        onWorld memAlloc
        Node.destruct node
        let res ← onWorld (createResponse env true 200 none (some data) none)
        onWorld memFree
        pure res
  else
    onWorld (createResponse env false 200 (some (text "Queue is empty.")) none none)

def get (req : BrokerRequest) : Program Machine BrokerResponse := do
  let queueSize ← Queue.size req.queue
  if queueSize > req.index then do
    let node ← Queue.get req.queue req.index
    match ← Node.getMessage node with
    | none => .stop .nullPointer
    | some message => do
        onWorld memAlloc
        let res ← onWorld (createResponse env true 200 none (some message) none)
        onWorld memFree
        pure res
  else
    onWorld (createResponse env false 200 (some (text "Node index out of range.")) none none)

/-- The loop of `get_all`: the objects of the nodes from `index` on, or an error text. -/
def nodeObjects (queue : Pointer) (index : Nat) : Nat → Program Machine (Except Bytes (List Json))
  | 0 => pure (.ok [])
  | remaining + 1 => do
      let node ← Queue.get queue index
      let message ← Node.getMessage node
      match ← onWorld (entryObject env index (text "message") message
          (text "Failed to add index to node JSON object.")
          (text "Failed to add message to node JSON object.")) with
      | .error errMsg => pure (.error errMsg)
      | .ok object => do
          match ← nodeObjects queue (index + 1) remaining with
          | .error errMsg => pure (.error errMsg)
          | .ok objects => pure (.ok (object :: objects))

/-- The common end of `get_all` and `get_all_queue_names`: print the array and
answer with its text. -/
def printArray (key printError : Bytes) (objects : Except Bytes (List Json)) :
    Program World BrokerResponse := do
  match objects with
  | .error errMsg => createResponse env false 500 none none (some errMsg)
  | .ok objects => do
      match ← cJSONPrint env (.object [(key, .array objects)]) with
      | none => createResponse env false 500 none none (some printError)
      | some string => do
          memAlloc
          let res ← createResponse env true 200 none (some string) none
          memFree
          pure res

def getAll (req : BrokerRequest) : Program Machine BrokerResponse := do
  let queueSize ← Queue.size req.queue
  match ← onWorld (cJSONCreate env (.object [])) with
  | none =>
      onWorld (createResponse env false 500 none none
        (some (text "Failed to add an array to JSON node list.")))
  | some _ => do
      match ← onWorld (cJSONCreate env (.array [])) with
      | none =>
          onWorld (createResponse env false 500 none none
            (some (text "Failed to add an array to JSON node list.")))
      | some _ => do
          let objects ← nodeObjects env req.queue 0 queueSize
          onWorld (printArray env (text "nodes") (text "Failed to print nodes.") objects)

/-- The loop of `get_all_queue_names`. -/
def nameObjects (index : Nat) : List Bytes → Program World (Except Bytes (List Json))
  | [] => pure (.ok [])
  | name :: rest => do
      match ← entryObject env index (text "name") (some name)
          (text "Failed to add index to node JSON object.")
          (text "Failed to add queue name to node JSON object.") with
      | .error errMsg => pure (.error errMsg)
      | .ok object => do
          match ← nameObjects (index + 1) rest with
          | .error errMsg => pure (.error errMsg)
          | .ok objects => pure (.ok (object :: objects))

/-- The part of `get_all_queue_names` after the names have been collected. -/
def namesResponse (names : List Bytes) : Program World BrokerResponse := do
  match ← cJSONCreate env (.object []) with
  | none =>
      createResponse env false 500 none none
        (some (text "Failed to add an array to JSON node list."))
  | some _ => do
      match ← cJSONCreate env (.array []) with
      | none =>
          createResponse env false 500 none none
            (some (text "Failed to add an array to JSON node list."))
      | some _ => do
          let objects ← nameObjects env 0 names
          printArray env (text "queueNames") (text "Failed to print queue names.") objects

def getAllQueueNames : Program Machine BrokerResponse := do
  let queueNamesArray ← queuePoolGetAllNames
  let res ← onWorld (namesResponse env queueNamesArray)
  onWorld memFree
  pure res

def length (req : BrokerRequest) : Program Machine BrokerResponse := do
  let queueSize ← Queue.size req.queue
  let queueSizeStr := intToString queueSize
  onWorld memAlloc
  onWorld memAlloc
  onWorld memFree
  let res ← onWorld (createResponse env true 200 none (some queueSizeStr) none)
  onWorld memFree
  pure res

def produce (req : BrokerRequest) : Program Machine BrokerResponse := do
  let queue ← queueAt req.queue
  let persistRes ← onWorld
    (persistDispatch env.toEnvironment ⟨.getNextId, some queue.name, 0, none⟩)
  let newNodeId ← nextIdFrom persistRes.data
  let newNode ← Node.new newNodeId
  onWorld memFree
  Node.setMessage newNode (req.data.getD [])
  let _ ← Queue.add env.toEnvironment req.queue newNode
  onWorld (createResponse env true 200 (some (text "Message produced.")) none none)

def removeQueue (req : BrokerRequest) : Program Machine BrokerResponse := do
  let reqQueue ← queueAt req.queue
  let queue ← queuePoolGetByName (some reqQueue.name)
  if queue = none then
    onWorld (createResponse env false 200
      (some (text "Failed: Queue with the given name doesn't exist.")) none none)
  else do
    if ← queuePoolRemoveByName env.toEnvironment reqQueue.name then
      onWorld (createResponse env true 200 (some (text "Queue removed.")) none none)
    else
      onWorld (createResponse env false 200 (some (text "Failed to remove queue.")) none none)

end Broker

/-- The message of the last check of `broker_dispatch` that a request fails. -/
def validationError {α : Type} (req : BrokerRequest) (queue : Option α)
    (resNeedsQueue resNeedsIndex resNeedsData : Bool) : Option Bytes :=
  let errMsg :=
    if resNeedsQueue then
      match req.queueName with
      | none => some (text "Request is missing the queue name.")
      | some name =>
          if name = [] then some (text "Empty queue name given.")
          else if queue.isNone then some (text "Queue not found.")
          else none
    else none
  let errMsg :=
    if resNeedsIndex && req.index == 0 then some (text "Request is missing an index.") else errMsg
  if resNeedsData && (req.data == none || req.data == some []) then
    some (text "Request is missing the data.")
  else errMsg

/-- The chain of comparisons that selects the action; `none` is a response that has
not been assigned. -/
def dispatchAction (req : BrokerRequest) : Program Machine (Option BrokerResponse) := do
  if ← strEqual req.type brokerConsume then some <$> Broker.consume env req
  else if ← strEqual req.type brokerProduce then some <$> Broker.produce env req
  else if ← strEqual req.type brokerLength then some <$> Broker.length env req
  else if ← strEqual req.type brokerGet then some <$> Broker.get env req
  else if ← strEqual req.type brokerGetAll then some <$> Broker.getAll env req
  else if ← strEqual req.type brokerAddQueue then some <$> Broker.addQueue env req
  else if ← strEqual req.type brokerGetAllQueueNames then some <$> Broker.getAllQueueNames env
  else if ← strEqual req.type brokerRemoveQueue then some <$> Broker.removeQueue env req
  else pure none

def brokerDispatch (req : BrokerRequest) : Program Machine (Option BrokerResponse) := do
  let resNeedsQueue ← inStrArray req.type needsQueue
  let resNeedsIndex ← inStrArray req.type needsIndex
  let resNeedsData ← inStrArray req.type needsData
  let queue ← if resNeedsQueue then queuePoolGetByName req.queueName else pure none
  match validationError req queue resNeedsQueue resNeedsIndex resNeedsData with
  | some errMsg => some <$> onWorld (createResponse env false 200 (some errMsg) none none)
  | none => dispatchAction env { req with queue }

def brokerInit : Program Machine Unit := do
  onWorld memAlloc
  queuePoolInit
  queuePoolLoad env.toEnvironment

end Bmb
