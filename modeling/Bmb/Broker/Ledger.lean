import Bmb.Broker
import Bmb.Queue.Operations

namespace Bmb

open Bmb.Base Bmb.Posix

/-! The broker without pointers.  A ledger keeps the queues as a shelf of mailboxes; a
request is decoded into a command, and a command works on the shelf and on the
world.  The world is handled exactly as in `broker.c`. -/

/-- Everything a request can amount to. -/
inductive Command where
  | untyped
  | rejected (message : Bytes)
  | unknown
  | consume (mailbox : Mailbox)
  | produce (mailbox : Mailbox) (data : Bytes)
  | length (mailbox : Mailbox)
  | get (mailbox : Mailbox) (index : Nat)
  | getAll (mailbox : Mailbox)
  | addQueue (name : Bytes)
  | getAllQueueNames
  | removeQueue (mailbox : Mailbox)

/-- The mailbox with a name, if a name is given and known. -/
def findMailbox (name : Option Bytes) (shelf : Shelf Bytes Item) : Option Mailbox :=
  name.bind fun name => shelf.find? fun mailbox => mailbox.key = name

def command (req : BrokerRequest) (shelf : Shelf Bytes Item) : Command :=
  match req.type with
  | none => .untyped
  | some type =>
      let found := if needsQueue.contains type then findMailbox req.queueName shelf else none
      match validationError req found (needsQueue.contains type) (needsIndex.contains type)
          (needsData.contains type) with
      | some message => .rejected message
      | none =>
          match found with
          | some mailbox =>
              if type = brokerConsume then .consume mailbox
              else if type = brokerProduce then .produce mailbox (req.data.getD [])
              else if type = brokerLength then .length mailbox
              else if type = brokerGet then .get mailbox req.index
              else if type = brokerGetAll then .getAll mailbox
              else .removeQueue mailbox
          | none =>
              if type = brokerAddQueue then .addQueue (req.data.getD [])
              else if type = brokerGetAllQueueNames then .getAllQueueNames
              else .unknown

structure Ledger where
  shelf : Shelf Bytes Item
  world : World

namespace Ledger

def setShelf (shelf : Shelf Bytes Item) (ledger : Ledger) : Ledger := { ledger with shelf }

def setWorld (world : World) (ledger : Ledger) : Ledger := { ledger with world }

def onWorld {α : Type} (program : Program World α) : Program Ledger α :=
  program.zoom Ledger.world Ledger.setWorld

theorem run_onWorld {α : Type} (program : Program World α) (ledger : Ledger) :
    onWorld program ledger =
      match program ledger.world with
      | .returned value world => .returned value (ledger.setWorld world)
      | .trapped trap world => .trapped trap (ledger.setWorld world) := by
  unfold onWorld Program.zoom
  cases program ledger.world <;> rfl

theorem onWorld_eq_returned {α : Type} {program : Program World α} {ledger after : Ledger}
    {value : α} (ran : onWorld program ledger = .returned value after) :
    ∃ world, program ledger.world = .returned value world ∧ after = ledger.setWorld world :=
  Program.zoom_eq_returned ran

variable (env : BrokerEnvironment)

def onShelf (f : Shelf Bytes Item → Shelf Bytes Item) : Program Ledger Unit :=
  .modify fun ledger => ledger.setShelf (f ledger.shelf)

def respond (success : Bool) (code : Nat) (message data errorMessage : Option Bytes) :
    Program Ledger BrokerResponse :=
  onWorld (createResponse env success code message data errorMessage)

def addQueue (name : Bytes) : Program Ledger BrokerResponse := do
  let ledger ← .read
  if name ∈ ledger.shelf.keys then
    respond env false 200 (some (text "Failed: Queue with given name already exists.")) none none
  else do
    -- the queue object and its name
    onWorld memAlloc
    onWorld memAlloc
    let pres ← onWorld (persistDispatch env.toEnvironment ⟨.addQueue, some name, 0, none⟩)
    if pres.success then do
      if ledger.shelf = [] then onWorld memAlloc else pure ()
      onShelf (Shelf.create name)
      respond env true 200 (some (text "Queue created.")) none none
    else
      respond env false 200 (some (text "Failed to create queue.")) none none

/-- The end of `addQueue`, when the object of a queue with a new name has been made. -/
def addFresh (name : Bytes) (shelf : Shelf Bytes Item) : Program Ledger BrokerResponse := do
  let pres ← onWorld (persistDispatch env.toEnvironment ⟨.addQueue, some name, 0, none⟩)
  if pres.success then do
    if shelf = [] then onWorld memAlloc else pure ()
    onShelf (Shelf.create name)
    respond env true 200 (some (text "Queue created.")) none none
  else
    respond env false 200 (some (text "Failed to create queue.")) none none

/-- The end of `consume`, when the oldest item has left its queue. -/
def deliver (item : Item) : Program World BrokerResponse := do
  let world ← .read
  let data := Broker.decodedMessage item.message (env.residue world.system.clock)
  memAlloc
  .modify (·.release 2)
  let res ← createResponse env true 200 none (some data) none
  memFree
  pure res

def consume (mailbox : Mailbox) : Program Ledger BrokerResponse :=
  match mailbox.items with
  | [] => respond env false 200 (some (text "Queue is empty.")) none none
  | item :: _ => do
      let pres ← onWorld
        (persistDispatch env.toEnvironment ⟨.removeNode, some mailbox.key, item.id, none⟩)
      if pres.success then do
        onShelf (Shelf.pop mailbox.key)
        onWorld (deliver env item)
      else .stop .nullPointer

/-- The world's part of `get` and `length` when they have something to return. -/
def respondCopied (data : Bytes) : Program World BrokerResponse := do
  memAlloc
  let res ← createResponse env true 200 none (some data) none
  memFree
  pure res

def get (mailbox : Mailbox) (index : Nat) : Program Ledger BrokerResponse :=
  match mailbox.items.reverse[index]? with
  | some item => onWorld (respondCopied env item.message)
  | none => respond env false 200 (some (text "Node index out of range.")) none none

/-- The objects of `getAll` for a list of messages. -/
def messageObjects (index : Nat) : List Item → Program World (Except Bytes (List Json))
  | [] => pure (.ok [])
  | item :: rest => do
      match ← entryObject env index (text "message") (some item.message)
          (text "Failed to add index to node JSON object.")
          (text "Failed to add message to node JSON object.") with
      | .error errMsg => pure (.error errMsg)
      | .ok object => do
          match ← messageObjects (index + 1) rest with
          | .error errMsg => pure (.error errMsg)
          | .ok objects => pure (.ok (object :: objects))

def itemsResponse (items : List Item) : Program World BrokerResponse := do
  match ← cJSONCreate env (.object []) with
  | none =>
      createResponse env false 500 none none
        (some (text "Failed to add an array to JSON node list."))
  | some _ => do
      match ← cJSONCreate env (.array []) with
      | none =>
          createResponse env false 500 none none
            (some (text "Failed to add an array to JSON node list."))
      | some _ => do
          let objects ← messageObjects env 0 items
          Broker.printArray env (text "nodes") (text "Failed to print nodes.") objects

def getAll (mailbox : Mailbox) : Program Ledger BrokerResponse :=
  onWorld (itemsResponse env mailbox.items.reverse)

def listNames (names : List Bytes) : Program World BrokerResponse := do
  memAlloc
  let res ← Broker.namesResponse env names
  memFree
  pure res

def getAllQueueNames : Program Ledger BrokerResponse := do
  let ledger ← .read
  onWorld (listNames env ledger.shelf.keys)

def length (mailbox : Mailbox) : Program Ledger BrokerResponse :=
  onWorld do
    memAlloc
    memAlloc
    memFree
    let res ← createResponse env true 200 none (some (intToString mailbox.items.length)) none
    memFree
    pure res

/-- The id that `produce` gives to its node. -/
def producedId (name : Bytes) : Program World Nat := do
  let persistRes ← persistDispatch env.toEnvironment ⟨.getNextId, some name, 0, none⟩
  let newNodeId ← nextIdFrom persistRes.data
  memAlloc
  memFree
  memAlloc
  pure newNodeId

def produce (mailbox : Mailbox) (data : Bytes) : Program Ledger BrokerResponse := do
  let newNodeId ← onWorld (producedId env mailbox.key)
  if ← onWorld (storeCalls env.toEnvironment mailbox.key (some data)) then
    onShelf (Shelf.push mailbox.key ⟨newNodeId, data⟩)
  else pure ()
  respond env true 200 (some (text "Message produced.")) none none

def removeQueue (mailbox : Mailbox) : Program Ledger BrokerResponse := do
  let pres ← onWorld
    (persistDispatch env.toEnvironment ⟨.removeQueue, some mailbox.key, 0, none⟩)
  if pres.success then do
    onShelf (Shelf.remove mailbox.key)
    let ledger ← .read
    -- the nodes with their messages, the queue with its name, and an array left empty
    onWorld (.modify (·.release
      (2 * mailbox.items.length + 2 + if ledger.shelf = [] then 1 else 0)))
    respond env true 200 (some (text "Queue removed.")) none none
  else do
    onWorld (memFreeNullable pres.errorMessage)
    respond env false 200 (some (text "Failed to remove queue.")) none none

def execute : Command → Program Ledger (Option BrokerResponse)
  | .untyped => .stop .nullPointer
  | .rejected message => some <$> respond env false 200 (some message) none none
  | .unknown => pure none
  | .consume mailbox => some <$> consume env mailbox
  | .produce mailbox data => some <$> produce env mailbox data
  | .length mailbox => some <$> length env mailbox
  | .get mailbox index => some <$> get env mailbox index
  | .getAll mailbox => some <$> getAll env mailbox
  | .addQueue name => some <$> addQueue env name
  | .getAllQueueNames => some <$> getAllQueueNames env
  | .removeQueue mailbox => some <$> removeQueue env mailbox

def dispatch (req : BrokerRequest) : Program Ledger (Option BrokerResponse) := do
  let ledger ← .read
  execute env (command req ledger.shelf)

end Ledger

end Bmb
