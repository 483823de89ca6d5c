import Bmb.Broker.Responses

namespace Bmb

open Bmb.Base Bmb.Base.Program Bmb.Posix

/-! The counters of `mem.c` and the number of connections play no part in what the broker does. -/

namespace World

/-- A world without what is only counted. -/
def uncounted (world : World) : World :=
  { world with memAllocated := 0, memFreed := 0, jsonCalls := 0 }

/-- Worlds with nothing but their counters to tell them apart. -/
def Similar (left right : World) : Prop := left.uncounted = right.uncounted

instance : Std.Symm Similar := ⟨fun _ _ similar => similar.symm⟩

instance : IsTrans World Similar := ⟨fun _ _ _ left right => left.trans right⟩

theorem Similar.refl (world : World) : world.Similar world := rfl

variable {left right : World}

theorem Similar.system (similar : left.Similar right) : left.system = right.system := by
  have same : left.uncounted.system = right.uncounted.system := by rw [similar]
  exact same

theorem Similar.requestCounter (similar : left.Similar right) :
    left.requestCounter = right.requestCounter := by
  have same : left.uncounted.requestCounter = right.uncounted.requestCounter := by rw [similar]
  exact same

/-- What changes a world apart from its counters keeps worlds similar. -/
theorem Similar.apply {f : World → World} (apart : ∀ world, (f world).uncounted = (f world.uncounted).uncounted)
    (similar : left.Similar right) : (f left).Similar (f right) := by
  unfold Similar
  rw [apart left, apart right, similar]

end World

/-- A relation that is kept by whatever the broker does in two worlds at once. -/
class Careless (related : World → World → Prop) : Prop where
  system : ∀ {left right}, related left right → left.system = right.system
  perform : ∀ {left right} system, related left right →
    related { left with system } { right with system }
  allocate : ∀ {left right} blocks, related left right →
    related (left.allocate blocks) (right.allocate blocks)
  release : ∀ {left right} blocks, related left right →
    related (left.release blocks) (right.release blocks)
  build : ∀ {left right} path, related left right → related (left.build path) (right.build path)
  record : ∀ {left right} call, related left right → related (left.record call) (right.record call)
  called : ∀ {left right}, related left right →
    related { left with jsonCalls := left.jsonCalls + 1 } { right with jsonCalls := right.jsonCalls + 1 }

instance : Careless World.Similar where
  system := World.Similar.system
  perform system similar :=
    similar.apply (show ∀ world : World, ({ world with system } : World).uncounted = _ from fun _ => rfl)
  allocate _ similar := similar
  release _ similar := similar
  build path similar :=
    similar.apply (show ∀ world : World, (world.build path).uncounted = _ from fun _ => rfl)
  record call similar :=
    similar.apply (show ∀ world : World, (world.record call).uncounted = _ from fun _ => rfl)
  called similar := similar

/-- From related worlds a program does the same, and leaves related worlds. -/
abbrev Blind {α : Type} (related : World → World → Prop) (program : Program World α) : Prop :=
  Alike related program program

section Blind

variable {related : World → World → Prop} [Careless related]

theorem blind_allocate (blocks : Nat) : Blind related (.modify (·.allocate blocks)) :=
  .modify fun _ _ relates => Careless.allocate blocks relates

theorem blind_release (blocks : Nat) : Blind related (.modify (·.release blocks)) :=
  .modify fun _ _ relates => Careless.release blocks relates

theorem blind_build (path : Bytes) : Blind related (.modify (·.build path)) :=
  .modify fun _ _ relates => Careless.build path relates

theorem blind_record (call : PersistCall) : Blind related (.modify (·.record call)) :=
  .modify fun _ _ relates => Careless.record call relates

theorem blind_memAlloc : Blind related memAlloc := blind_allocate 1

theorem blind_memFree : Blind related memFree := blind_release 1

theorem blind_memFreeNullable {α : Type} (block : Option α) :
    Blind related (memFreeNullable block) := by
  cases block with
  | none => exact .pure ()
  | some _ => exact blind_memFree

theorem blind_system {α : Type} (call : System → α × System) : Blind related (system call) := by
  intro left right relates
  rw [run_system, run_system, Careless.system relates]
  exact .returned (Careless.perform (call right.system).2 relates)

theorem blind_closeStream : Blind related closeStream := blind_system _

omit [Careless related] in
/-- A program may look at the system part of the world. -/
theorem blind_read {α : Type} {next : World → Program World α}
    (tail : ∀ left right, related left right → Alike related (next left) (next right)) :
    Blind related (Program.read >>= next) :=
  .read tail

end Blind

/-! ## Persistence -/

section Persistence

variable {related : World → World → Prop} [Careless related] (env : Environment)

theorem blind_createErrorMessage (part1 part2 : Bytes) : Blind related (createErrorMessage part1 part2) :=
  .bind blind_memAlloc fun _ => .pure _

theorem blind_persistFailure (part1 : Bytes) : Blind related (persistFailure part1) := by
  refine blind_read fun left right similar => ?_
  rw [Careless.system similar]
  exact .bind (blind_createErrorMessage _ _) fun _ => .pure _

theorem blind_filePath (path : Bytes) (name : Option Bytes) : Blind related (filePath path name) := by
  cases name with
  | none => exact .stop _
  | some name => exact .bind (blind_build _) fun _ => .pure _

theorem blind_createNodeFile (path : Bytes) (name content : Option Bytes) :
    Blind related (createNodeFile env path name content) := by
  refine .bind (blind_filePath path name) fun filePath => .bind (blind_system _) fun stream => ?_
  cases stream with
  | none => exact .pure false
  | some stream => exact .bind (blind_system _) fun _ => .bind blind_closeStream fun _ => .pure true

theorem blind_createQueueDir (path : Bytes) : Blind related (createQueueDir env path) := by
  refine .bind (blind_system _) fun opened => ?_
  cases opened with
  | some entries => exact .bind blind_closeStream fun _ => .pure true
  | none =>
      refine blind_read fun left right similar => ?_
      rw [Careless.system similar]
      exact .ite (blind_system _) (.pure false)

theorem blind_getQueueLength (path : Bytes) : Blind related (getQueueLength env path) := by
  refine .bind (blind_system _) fun entries => ?_
  cases entries with
  | none => exact .pure 0
  | some entries => exact .bind blind_closeStream fun _ => .pure _

theorem blind_readQueue (path : Bytes) : Blind related (readQueue env path) := by
  refine .bind (blind_system _) fun entries => ?_
  cases entries with
  | none => exact .pure none
  | some entries => exact .bind blind_memAlloc fun _ => .bind blind_closeStream fun _ => .pure _

theorem blind_getNextNodeId (path : Bytes) : Blind related (getNextNodeId env path) := by
  refine .bind (blind_getQueueLength env path) fun _ => .bind (blind_readQueue env path) fun queue => ?_
  cases queue with
  | none => exact .pure none
  | some queue => exact .bind blind_memAlloc fun _ => .bind blind_memFree fun _ => .pure _

theorem blind_getQueueList : Blind related (getQueueList env) := by
  refine .bind (blind_system _) fun entries => ?_
  cases entries with
  | none => exact .pure none
  | some entries => exact .bind blind_closeStream fun _ => .bind (blind_allocate _) fun _ => .pure _

theorem blind_readNode (path : Bytes) (name : Option Bytes) : Blind related (readNode env path name) := by
  refine .bind (blind_filePath path name) fun filePath => .bind (blind_system _) fun content => ?_
  cases content with
  | none => exact .pure none
  | some content => exact .bind blind_memAlloc fun _ => .bind blind_closeStream fun _ => .pure _

theorem blind_removeNode (path : Bytes) (name : Option Bytes) : Blind related (removeNode env path name) :=
  .bind (blind_filePath path name) fun _ => blind_system _

omit [Careless related] in
theorem blind_arrayGet (array : Option (List Int)) (index : Nat) : Blind related (arrayGet array index) := by
  cases array with
  | none => exact .stop _
  | some entries =>
      unfold arrayGet
      dsimp only
      cases entries[index]? with
      | none => exact .stop _
      | some entry => exact .pure entry

theorem blind_removeNodeFiles (path : Bytes) (nodeFileArr : Option (List Int)) (index remaining : Nat) :
    Blind related (removeNodeFiles env path nodeFileArr index remaining) := by
  induction remaining generalizing index with
  | zero => exact .pure true
  | succ remaining ih =>
      refine .bind (blind_arrayGet nodeFileArr index) fun id => .bind blind_memAlloc fun _ => ?_
      refine .bind (blind_removeNode env path _) fun removed => .bind blind_memFree fun _ => ?_
      cases removed with
      | true => exact ih (index + 1)
      | false => exact .pure false

theorem blind_persistRemoveQueue (path : Bytes) : Blind related (persistRemoveQueue env path) := by
  refine .bind (blind_system _) fun entries => ?_
  cases entries with
  | none => exact .pure false
  | some entries =>
      refine .bind (blind_readQueue env path) fun nodeFileArr => ?_
      refine .bind (blind_getQueueLength env path) fun queueLength => ?_
      refine .bind (blind_removeNodeFiles env path nodeFileArr 1 queueLength) fun removed => ?_
      cases removed with
      | true => exact .bind (blind_memFreeNullable nodeFileArr) fun _ => blind_system _
      | false => exact .pure false

theorem blind_persistAction (req : PersistRequest) (path : Bytes) (nodeIdStr : Option Bytes) :
    Blind related (persistAction env req path nodeIdStr) := by
  unfold persistAction
  cases req.type with
  | addQueue =>
      exact .bind (blind_createQueueDir env path) fun _ => .ite (.pure _) (blind_persistFailure _)
  | removeQueue =>
      exact .bind (blind_persistRemoveQueue env path) fun _ => .ite (.pure _) (blind_persistFailure _)
  | readQueue =>
      refine .bind (blind_getQueueLength env path) fun _ => .bind (blind_readQueue env path) fun queue => ?_
      cases queue with
      | none => exact blind_persistFailure _
      | some queue => exact .pure _
  | getQueueList =>
      refine .bind (blind_getQueueList env) fun queues => ?_
      cases queues with
      | none => exact blind_persistFailure _
      | some queues => exact .pure _
  | addNode =>
      exact .bind (blind_createNodeFile env path nodeIdStr req.data) fun _ =>
        .ite (.pure _) (blind_persistFailure _)
  | removeNode =>
      exact .bind (blind_removeNode env path nodeIdStr) fun _ =>
        .ite (.pure _) (blind_persistFailure _)
  | readNode =>
      refine .bind (blind_readNode env path nodeIdStr) fun nodeContent => ?_
      cases nodeContent with
      | none => exact blind_persistFailure _
      | some nodeContent => exact .pure _
  | getNextId =>
      refine .bind (blind_getNextNodeId env path) fun nextId => ?_
      cases nextId with
      | none => exact blind_persistFailure _
      | some nextId => exact .pure _
  | other code => exact .bind (blind_createErrorMessage _ _) fun _ => .pure _

theorem blind_persistDispatch (req : PersistRequest) : Blind related (persistDispatch env req) := by
  have logged (response : PersistResponse) : Blind related (do
      let response ← (pure response : Program World PersistResponse)
      .modify (·.record ⟨req.type, response.success⟩)
      pure response) :=
    .bind (.pure _) fun _ => .bind (blind_record _) fun _ => .pure _
  refine .ite (.bind (blind_createErrorMessage _ _) fun _ => logged _) (.bind (blind_build _) fun _ => ?_)
  have acted (path : Bytes) : Blind related (do
      let response ← persistAction env req path (nodeIdText req.nodeId)
      memFreeNullable (nodeIdText req.nodeId)
      let response ← pure response
      .modify (·.record ⟨req.type, response.success⟩)
      pure response) :=
    .bind (blind_persistAction env req _ _) fun response =>
      .bind (blind_memFreeNullable _) fun _ => logged response
  exact .ite (.bind blind_memAlloc fun _ => acted _) (acted _)

end Persistence

/-! ## Answers -/

section Answers

variable {related : World → World → Prop} [Careless related] {env : BrokerEnvironment} (json : env.JsonReliable)

include json

theorem blind_cJSONCreate (item : Json) : Blind related (cJSONCreate env item) := by
  intro left right similar
  simp only [cJSONCreate, json _, Bool.false_eq_true, if_false]
  exact .returned (Careless.called similar)

theorem blind_cJSONPrint (item : Json) : Blind related (cJSONPrint env item) := by
  intro left right similar
  simp only [cJSONPrint, json _, Bool.false_eq_true, if_false]
  exact .returned (Careless.called similar)

theorem blind_addPayloadString (payload : Option Json) (key : Bytes) (value : Option Bytes) :
    Blind related (addPayloadString env payload key value) := by
  cases value with
  | none => exact .pure _
  | some value =>
      refine .bind (blind_cJSONCreate json _) fun item => ?_
      cases item with
      | none => exact .pure none
      | some item => exact .pure _

theorem blind_createResponse (success : Bool) (code : Nat) (message data errorMessage : Option Bytes) :
    Blind related (createResponse env success code message data errorMessage) := by
  refine .bind (blind_cJSONCreate json _) fun jsonSuccess => ?_
  cases jsonSuccess with
  | none => exact .pure _
  | some jsonSuccess =>
      refine .bind (blind_cJSONCreate json _) fun jsonPayload => ?_
      refine .bind (blind_addPayloadString json _ _ _) fun withMessage => ?_
      cases withMessage with
      | none => exact .pure _
      | some withMessage =>
          refine .bind (blind_addPayloadString json _ _ _) fun withData => ?_
          cases withData with
          | none => exact .pure _
          | some withData => exact .pure _

theorem blind_entryObject (index : Nat) (key : Bytes) (value : Option Bytes)
    (indexError valueError : Bytes) : Blind related (entryObject env index key value indexError valueError) := by
  refine .bind (blind_cJSONCreate json _) fun object => ?_
  cases object with
  | none => exact .pure _
  | some object =>
      refine .bind (blind_cJSONCreate json _) fun number => ?_
      cases number with
      | none => exact .pure _
      | some number =>
          cases value with
          | none => exact .pure _
          | some value =>
              refine .bind (blind_cJSONCreate json _) fun string => ?_
              cases string with
              | none => exact .pure _
              | some string => exact .pure _

theorem blind_messageObjects (index : Nat) (items : List Item) :
    Blind related (Ledger.messageObjects env index items) := by
  induction items generalizing index with
  | nil => exact .pure _
  | cons item rest ih =>
      refine .bind (blind_entryObject json _ _ _ _ _) fun object => ?_
      cases object with
      | error errMsg => exact .pure _
      | ok object =>
          refine .bind (ih (index + 1)) fun objects => ?_
          cases objects with
          | error errMsg => exact .pure _
          | ok objects => exact .pure _

theorem blind_nameObjects (index : Nat) (names : List Bytes) :
    Blind related (Broker.nameObjects env index names) := by
  induction names generalizing index with
  | nil => exact .pure _
  | cons name rest ih =>
      refine .bind (blind_entryObject json _ _ _ _ _) fun object => ?_
      cases object with
      | error errMsg => exact .pure _
      | ok object =>
          refine .bind (ih (index + 1)) fun objects => ?_
          cases objects with
          | error errMsg => exact .pure _
          | ok objects => exact .pure _

theorem blind_respondCopied (data : Bytes) : Blind related (Ledger.respondCopied env data) :=
  .bind blind_memAlloc fun _ => .bind (blind_createResponse json _ _ _ _ _) fun _ =>
    .bind blind_memFree fun _ => .pure _

theorem blind_printArray (key printError : Bytes) (objects : Except Bytes (List Json)) :
    Blind related (Broker.printArray env key printError objects) := by
  cases objects with
  | error errMsg => exact blind_createResponse json _ _ _ _ _
  | ok objects =>
      refine .bind (blind_cJSONPrint json _) fun string => ?_
      cases string with
      | none => exact blind_createResponse json _ _ _ _ _
      | some string => exact blind_respondCopied json string

/-- The two listing requests make an object and an array first. -/
theorem blind_listing {rest : Program World BrokerResponse} {errMsg : Bytes} (blind : Blind related rest) :
    Blind related (do
      match ← cJSONCreate env (.object []) with
      | none => createResponse env false 500 none none (some errMsg)
      | some _ => do
          match ← cJSONCreate env (.array []) with
          | none => createResponse env false 500 none none (some errMsg)
          | some _ => rest) := by
  refine .bind (blind_cJSONCreate json _) fun object => ?_
  cases object with
  | none => exact blind_createResponse json _ _ _ _ _
  | some object =>
      refine .bind (blind_cJSONCreate json _) fun array => ?_
      cases array with
      | none => exact blind_createResponse json _ _ _ _ _
      | some array => exact blind

theorem blind_itemsResponse (items : List Item) : Blind related (Ledger.itemsResponse env items) :=
  blind_listing json (.bind (blind_messageObjects json 0 items) fun _ => blind_printArray json _ _ _)

theorem blind_listNames (names : List Bytes) : Blind related (Ledger.listNames env names) :=
  .bind blind_memAlloc fun _ =>
    .bind (blind_listing json (.bind (blind_nameObjects json 0 names) fun _ =>
      blind_printArray json _ _ _)) fun _ => .bind blind_memFree fun _ => .pure _

theorem blind_deliver (item : Item) : Blind related (Ledger.deliver env item) := by
  refine blind_read fun left right similar => ?_
  rw [Careless.system similar]
  exact .bind blind_memAlloc fun _ => .bind (blind_release 2) fun _ =>
    .bind (blind_createResponse json _ _ _ _ _) fun _ => .bind blind_memFree fun _ => .pure _

end Answers

/-! ## The broker -/

namespace Ledger

/-- Ledgers with the same queues in related worlds. -/
structure Similar (related : World → World → Prop) (left right : Ledger) : Prop where
  shelf : left.shelf = right.shelf
  world : related left.world right.world

abbrev Blind {α : Type} (related : World → World → Prop) (program : Program Ledger α) : Prop :=
  Alike (Similar related) program program

variable {related : World → World → Prop}

theorem blind_onWorld {α : Type} {program : Program World α} (blind : Bmb.Blind related program) :
    Blind related (onWorld program) :=
  .zoom (fun _ _ similar => similar.world) (fun _ _ _ _ similar close => ⟨similar.shelf, close⟩) blind

theorem blind_onShelf (f : Shelf Bytes Item → Shelf Bytes Item) : Blind related (onShelf f) :=
  .modify fun _ _ similar => ⟨congrArg f similar.shelf, similar.world⟩

variable [Careless related] {env : BrokerEnvironment}

theorem blind_persist (req : PersistRequest) : Blind related (onWorld (persistDispatch env.toEnvironment req)) :=
  blind_onWorld (blind_persistDispatch env.toEnvironment req)

variable (json : env.JsonReliable)

include json

theorem blind_respond (success : Bool) (code : Nat) (message data errorMessage : Option Bytes) :
    Blind related (respond env success code message data errorMessage) :=
  blind_onWorld (blind_createResponse json _ _ _ _ _)

theorem blind_addQueue (name : Bytes) : Blind related (addQueue env name) := by
  refine .read fun left right similar => ?_
  rw [similar.shelf]
  refine .ite (blind_respond json _ _ _ _ _) (.bind (blind_onWorld blind_memAlloc) fun _ => ?_)
  refine .bind (blind_onWorld blind_memAlloc) fun _ => .bind (blind_persist _) fun pres => ?_
  have stored : Blind related (do
      onShelf (Shelf.create name)
      respond env true 200 (some (text "Queue created.")) none none) :=
    .bind (blind_onShelf _) fun _ => blind_respond json _ _ _ _ _
  exact .ite (.ite (.bind (blind_onWorld blind_memAlloc) fun _ => stored) stored)
    (blind_respond json _ _ _ _ _)

theorem blind_consume (mailbox : Mailbox) : Blind related (consume env mailbox) := by
  obtain ⟨key, items⟩ := mailbox
  cases items with
  | nil => exact blind_respond json _ _ _ _ _
  | cons item rest =>
      refine .bind (blind_persist _) fun pres => .ite (.bind (blind_onShelf _) fun _ => ?_) (.stop _)
      exact blind_onWorld (blind_deliver json item)

theorem blind_produce (mailbox : Mailbox) (data : Bytes) : Blind related (produce env mailbox data) := by
  have numbered (data : PersistData) : Bmb.Blind related (nextIdFrom data) := by
    cases data with
    | nextId id => exact .pure id
    | null | queue | queueList | content => exact .stop _
  have chosen : Bmb.Blind related (producedId env mailbox.key) :=
    .bind (blind_persistDispatch env.toEnvironment _) fun persistRes =>
      .bind (numbered _) fun _ => .bind blind_memAlloc fun _ => .bind blind_memFree fun _ =>
        .bind blind_memAlloc fun _ => .pure _
  have stored : Bmb.Blind related (storeCalls env.toEnvironment mailbox.key (some data)) :=
    .bind (blind_persistDispatch env.toEnvironment _) fun pidres =>
      .bind (numbered _) fun _ => .bind blind_memFree fun _ =>
        .bind (blind_persistDispatch env.toEnvironment _) fun _ => .pure _
  have answered : Blind related (respond env true 200 (some (text "Message produced.")) none none) :=
    blind_respond json _ _ _ _ _
  refine .bind (blind_onWorld chosen) fun newNodeId => .bind (blind_onWorld stored) fun success => ?_
  exact .ite (.bind (blind_onShelf _) fun _ => answered) answered

theorem blind_removeQueue (mailbox : Mailbox) : Blind related (removeQueue env mailbox) := by
  refine .bind (blind_persist _) fun pres => .ite (.bind (blind_onShelf _) fun _ => ?_) ?_
  · refine .read fun left right similar => ?_
    rw [similar.shelf]
    exact .bind (blind_onWorld (blind_release _)) fun _ => blind_respond json _ _ _ _ _
  · exact .bind (blind_onWorld (blind_memFreeNullable _)) fun _ => blind_respond json _ _ _ _ _

theorem blind_length (mailbox : Mailbox) : Blind related (length env mailbox) :=
  blind_onWorld (.bind blind_memAlloc fun _ => .bind blind_memAlloc fun _ => .bind blind_memFree fun _ =>
    .bind (blind_createResponse json _ _ _ _ _) fun _ => .bind blind_memFree fun _ => .pure _)

theorem blind_get (mailbox : Mailbox) (index : Nat) : Blind related (get env mailbox index) := by
  unfold get
  cases mailbox.items.reverse[index]? with
  | some item => exact blind_onWorld (blind_respondCopied json item.message)
  | none => exact blind_respond json _ _ _ _ _

theorem blind_execute (command : Command) : Blind related (execute env command) := by
  cases command with
  | untyped => exact .stop _
  | rejected message => exact .map some (blind_respond json _ _ _ _ _)
  | unknown => exact .pure none
  | consume mailbox => exact .map some (blind_consume json mailbox)
  | produce mailbox data => exact .map some (blind_produce json mailbox data)
  | length mailbox => exact .map some (blind_length json mailbox)
  | get mailbox index => exact .map some (blind_get json mailbox index)
  | getAll mailbox => exact .map some (blind_onWorld (blind_itemsResponse json _))
  | addQueue name => exact .map some (blind_addQueue json name)
  | getAllQueueNames =>
      refine .map some (.read fun left right similar => ?_)
      rw [similar.shelf]
      exact blind_onWorld (blind_listNames json _)
  | removeQueue mailbox => exact .map some (blind_removeQueue json mailbox)

theorem blind_dispatch (req : BrokerRequest) : Blind related (dispatch env req) := by
  refine .read fun left right similar => ?_
  rw [similar.shelf]
  exact blind_execute json _

end Ledger

/-! ## Machines -/

/-- Machines with the same queues, wherever these lie in memory, in related worlds. -/
structure Machine.Related (related : World → World → Prop) (left right : Machine) : Prop where
  keeps : left.Keeps left.shelf
  keepsOther : right.Keeps right.shelf
  shelf : left.shelf = right.shelf
  world : related left.world right.world

/-- From machines in related worlds a request is answered in the same way, and leaves such
machines. -/
theorem brokerDispatch_blind {env : BrokerEnvironment} {related : World → World → Prop}
    [Careless related] (json : env.JsonReliable) (req : BrokerRequest) :
    Alike (Machine.Related related) (brokerDispatch env req) (brokerDispatch env req) := by
  intro left right similar
  have tracks : Tracks left ⟨left.shelf, left.world⟩ := ⟨similar.keeps, rfl⟩
  have tracksOther : Tracks right ⟨right.shelf, right.world⟩ := ⟨similar.keepsOther, rfl⟩
  have matching := brokerDispatch_matches env req tracks
  have matchingOther := brokerDispatch_matches env req tracksOther
  have alike := Ledger.blind_dispatch json req
    (show Ledger.Similar related ⟨left.shelf, left.world⟩ ⟨right.shelf, right.world⟩ from
      ⟨similar.shelf, similar.world⟩)
  generalize brokerDispatch env req left = outcome at matching
  generalize brokerDispatch env req right = outcomeOther at matchingOther
  generalize Ledger.dispatch env req ⟨left.shelf, left.world⟩ = image at matching alike
  generalize Ledger.dispatch env req ⟨right.shelf, right.world⟩ = imageOther at matchingOther alike
  have close {one two : Machine} {ledger ledgerOther : Ledger} (first : Tracks one ledger)
      (second : Tracks two ledgerOther) (near : Ledger.Similar related ledger ledgerOther) :
      Machine.Related related one two := by
    have shelf := first.keeps.shelf_eq
    have shelfOther := second.keeps.shelf_eq
    refine ⟨shelf ▸ first.keeps, shelfOther ▸ second.keeps, ?_, ?_⟩
    · rw [shelf, shelfOther, near.shelf]
    · rw [first.world, second.world]
      exact near.world
  cases matching with
  | returned tracks =>
      cases alike with
      | returned near =>
          cases matchingOther with
          | returned tracksOther => exact .returned (close tracks tracksOther near)
  | trapped tracks =>
      cases alike with
      | trapped near =>
          cases matchingOther with
          | trapped tracksOther => exact .trapped (close tracks tracksOther near)

/-- Machines that only counters tell apart. -/
abbrev Machine.Similar : Machine → Machine → Prop := Machine.Related World.Similar

instance : Std.Symm Machine.Similar :=
  ⟨fun _ _ similar => ⟨similar.keepsOther, similar.keeps, similar.shelf.symm,
    symm_of World.Similar similar.world⟩⟩

instance : IsTrans Machine Machine.Similar :=
  ⟨fun _ _ _ left right => ⟨left.keeps, right.keepsOther, left.shelf.trans right.shelf,
    trans_of World.Similar left.world right.world⟩⟩

/-- The same world, in which so many connections have been accepted. -/
def World.Counted (count : Nat) (left right : World) : Prop :=
  left = right ∧ left.requestCounter = count

instance (count : Nat) : Careless (World.Counted count) where
  system counted := congrArg World.system counted.1
  perform := by
    rintro world _ system ⟨rfl, counted⟩
    exact ⟨rfl, counted⟩
  allocate := by
    rintro world _ blocks ⟨rfl, counted⟩
    exact ⟨rfl, counted⟩
  release := by
    rintro world _ blocks ⟨rfl, counted⟩
    exact ⟨rfl, counted⟩
  build := by
    rintro world _ path ⟨rfl, counted⟩
    exact ⟨rfl, counted⟩
  record := by
    rintro world _ call ⟨rfl, counted⟩
    exact ⟨rfl, counted⟩
  called := by
    rintro world _ ⟨rfl, counted⟩
    exact ⟨rfl, counted⟩

/-- Whatever is asked, the number of connections is left alone. -/
theorem brokerDispatch_requestCounter {env : BrokerEnvironment} (json : env.JsonReliable)
    (req : BrokerRequest) {machine : Machine} (keeps : machine.Keeps machine.shelf) :
    (brokerDispatch env req machine).state.world.requestCounter = machine.world.requestCounter :=
  (brokerDispatch_blind json req (show Machine.Related (World.Counted _) machine machine from
    ⟨keeps, keeps, rfl, rfl, rfl⟩)).states.world.2

end Bmb
