import Bmb.Http.Assembly
import Bmb.Http.Memory
import Bmb.Server.App

namespace Bmb.Server

open Bmb.Base Bmb.Base.Program Bmb.Http Bmb.Posix

/-! What connections leave allocated, and the counters at the end of the process. -/

section Connections

variable {env : ServerEnvironment} {machine after : Machine} {arrival : Arrival} {stack : Stack}

/-- The request that a connection is parsed into, if it is one, leaves no block behind. -/
def TidyConnection (env : ServerEnvironment) (machine : Machine) (arrival : Arrival) (stack : Stack) :
    Prop :=
  let memory := received arrival.bytes stack
  ∀ method, extractedMethod memory = .ok (some method) →
    TidyRequest env.toBrokerEnvironment machine (brokerRequest (bodyOf method (cString memory)))

theorem responseHandle_spare {req : Option Request} {jsonBody : Json} {handled : Response}
    (json : env.JsonReliable) (keeps : machine.Keeps machine.shelf)
    (tidy : ∀ parsed ∈ req, TidyRequest env.toBrokerEnvironment machine (brokerRequest parsed.body))
    (ran : responseHandle env ⟨none, [], some jsonBody, none, req, none⟩ machine =
      .returned handled after) :
    after.Keeps after.shelf ∧ after.spare = machine.spare + 8 ∧
      ∃ status headers jsonBody body, headers.length = 5 ∧
        handled = ⟨some status, headers, jsonBody, some body, req, none⟩ := by
  obtain ⟨headed, one, first, rest⟩ := bind_eq_returned.mp ran
  obtain ⟨world, set, rfl⟩ := onWorld_eq_returned first
  obtain ⟨headers, _, same, five, system, blocks⟩ := responseSetHeaders_blocks env
    ⟨none, [], some jsonBody, none, req, none⟩ machine.world
  rw [set] at same
  cases same
  have kept : (machine.setWorld world).Keeps (machine.setWorld world).shelf := keeps.setWorld world
  have spare := machine.setWorld_spare world
  cases req with
  | none =>
      obtain ⟨ended, refused, rfl⟩ := onWorld_eq_returned rest
      obtain ⟨stating, middle, begun, refused⟩ := bind_eq_returned.mp refused
      obtain ⟨status, stated, set, one⟩ := responseSetStatus_blocks 400
        ⟨none, headers, some jsonBody, none, none, none⟩ world
      obtain ⟨body, _, same, two⟩ := responseSetError_blocks (text "Empty request received.")
        ⟨some status, headers, some jsonBody, none, none, none⟩ rfl stated
      have last := machine.setWorld_spare ended
      rw [Machine.setWorld_world, set] at begun
      cases begun
      rw [same] at refused
      cases refused
      refine ⟨keeps.setWorld ended, ?_, status, headers, some jsonBody, body, five, rfl⟩
      rw [Machine.setWorld_setWorld]
      omega
  | some parsed =>
      have ready : TidyRequest env.toBrokerEnvironment (machine.setWorld world)
          (brokerRequest parsed.body) := by
        have before := tidy parsed rfl
        rw [TidyRequest, ← system] at before
        exact before
      obtain ⟨answer, two, dispatched, rest⟩ := bind_eq_returned.mp rest
      obtain ⟨keptAfter, spareAfter⟩ := brokerDispatch_spare kept ready dispatched
      cases answer with
      | none => cases rest
      | some brokerRes =>
          obtain ⟨ended, filled, rfl⟩ := onWorld_eq_returned rest
          obtain ⟨status, jsonBody, body, _, same, more⟩ := responseFill_blocks json brokerRes
            ⟨none, headers, some jsonBody, none, some parsed, none⟩ rfl two.world
          have last := two.setWorld_spare ended
          rw [filled] at same
          cases same
          refine ⟨keptAfter.setWorld ended, ?_, status, headers, jsonBody, body, five, rfl⟩
          omega

theorem requestParse_request {memory : Bytes} {world after : World} {parsed : Request}
    (ran : requestParse memory world = .returned (some parsed) after) :
    ∃ method, extractedMethod memory = .ok (some method) ∧
      parsed.body = bodyOf method (cString memory) := by
  have result := requestParse_result memory world
  rw [ran] at result
  cases found : extractedMethod memory with
  | error trap =>
      rw [found] at result
      cases result
  | ok method =>
      rw [found] at result
      cases method with
      | none => cases result
      | some method =>
          cases result
          exact ⟨method, rfl, rfl⟩

theorem requestDestructNullable_leaves (req : Option Request) :
    Leaves (fun _ => -requestBlocks req) (requestDestructNullable req) := by
  cases req with
  | none => exact .pure rfl
  | some req => exact requestDestruct_leaves req

/-- The end of a thread, on the world. -/
def threadEnd (req : Option Request) (res : Response) : Program World (Option Bytes) := do
  requestDestructNullable req
  responseDestruct res
  memFree
  memFree
  pure (responseGet res)

theorem onWorld_threadEnd (req : Option Request) (res : Response) :
    onWorld (threadEnd req res) = (do
      onWorld (requestDestructNullable req)
      onWorld (responseDestruct res)
      onWorld memFree
      onWorld memFree
      pure (responseGet res)) := by
  simp only [threadEnd, onWorld_bind, onWorld_pure]

theorem threadEnd_leaves (req : Option Request) (res : Response) :
    Leaves (fun _ => -(requestBlocks req + responseBlocks res + 2)) (threadEnd req res) := by
  refine .bind (requestDestructNullable_leaves req) fun _ => ?_
  refine .bind (responseDestruct_leaves res) fun _ => .bind memFree_leaves fun _ => ?_
  refine .bind memFree_leaves fun _ => .pure ?_
  omega

/-- A thread frees everything that it allocates, and the two blocks that it has been given. -/
theorem brokerThread_spare {sent : Option Bytes} (json : env.JsonReliable)
    (keeps : machine.Keeps machine.shelf) (tidy : TidyConnection env machine arrival stack)
    (ran : brokerThread env arrival stack machine = .returned sent after) :
    after.Keeps after.shelf ∧ after.spare = machine.spare - 2 := by
  obtain ⟨req, _, first, ran⟩ := bind_eq_returned.mp ran
  obtain ⟨parsed, parseRan, rfl⟩ := onWorld_eq_returned first
  have parsing := (requestParse_stands (received arrival.bytes stack)).returned
    (show machine.world.Stands _ _ _ from ⟨rfl, rfl, rfl⟩) parseRan
  obtain ⟨fresh, _, second, ran⟩ := bind_eq_returned.mp ran
  obtain ⟨made, newRan, rfl⟩ := onWorld_eq_returned second
  obtain ⟨jsonBody, _, same, system, one⟩ := responseNew_run json req parsed
  rw [Machine.setWorld_world, same] at newRan
  cases newRan
  obtain ⟨handled, answered, handling, ran⟩ := bind_eq_returned.mp ran
  rw [Machine.setWorld_setWorld] at handling
  have ready : ∀ given ∈ req,
      TidyRequest env.toBrokerEnvironment (machine.setWorld made) (brokerRequest given.body) := by
    intro given member
    cases member
    obtain ⟨method, found, body⟩ := requestParse_request parseRan
    have before := tidy method found
    rw [TidyRequest, ← parsing.tree, ← parsing.clock, ← system, ← body] at before
    exact before
  obtain ⟨kept, spare, status, headers, jsonBody, body, five, rfl⟩ :=
    responseHandle_spare json (keeps.setWorld made) ready handling
  obtain ⟨assembled, _, third, ran⟩ := bind_eq_returned.mp ran
  obtain ⟨joined, assembleRan, rfl⟩ := onWorld_eq_returned third
  obtain ⟨resString, _, same, more⟩ := responseAssemble_blocks
    ⟨some status, headers, jsonBody, some body, req, none⟩ rfl rfl answered.world
  rw [assembleRan] at same
  cases same
  have ending := (congrFun (onWorld_threadEnd req _) _).trans ran
  obtain ⟨freed, freeRan, rfl⟩ := onWorld_eq_returned ending
  have left : freed.balance = joined.balance + -(requestBlocks req +
      responseBlocks ⟨some status, headers, jsonBody, some body, req, some resString⟩ + 2) :=
    threadEnd_leaves _ _ _ _ _ freeRan
  have start := machine.setWorld_spare made
  have final := answered.setWorld_spare freed
  have owned : responseBlocks ⟨some status, headers, jsonBody, some body, req, some resString⟩ = 10 := by
    have some_ : headers ≠ [] := List.ne_nil_of_length_pos (by omega)
    rw [responseBlocks, if_neg some_, five]
    rfl
  have balance := parsing.balance
  rw [owned] at left
  refine ⟨kept.setWorld freed, ?_⟩
  rw [Machine.setWorld_setWorld, final]
  omega

/-! ## Runs -/

/-- The connections of a server that has been started on a file tree, served one after the
other and each as allowed. -/
inductive Served (env : ServerEnvironment) (allowed : Machine → Arrival → Stack → Prop)
    (tree : FileTree) : Machine → Prop where
  | started {first : Machine} (ran : appInit env (.boot tree) = .returned () first) :
      Served env allowed tree first
  | completed {before after : Machine} {arrival : Arrival} {stack : Stack} {sent : Option Bytes}
      (served : Served env allowed tree before) (fits : allowed before arrival stack)
      (ran : serveConnection env arrival stack before = .returned sent after) :
      Served env allowed tree after

theorem balance_awaited (world : World) :
    ((world.allocate 1).allocate 1).balance = world.balance + 2 := by
  rw [World.balance_allocate, World.balance_allocate]
  omega

theorem serveConnection_spare {sent : Option Bytes} (json : env.JsonReliable)
    (keeps : machine.Keeps machine.shelf) (tidy : TidyConnection env machine arrival stack)
    (ran : serveConnection env arrival stack machine = .returned sent after) :
    after.Keeps after.shelf ∧ after.spare = machine.spare := by
  let counted : World :=
    { (machine.world.allocate 1).allocate 1 with requestCounter := machine.world.requestCounter + 1 }
  have thread : brokerThread env arrival stack (machine.setWorld counted) = .returned sent after := ran
  obtain ⟨kept, spare⟩ := brokerThread_spare json (keeps.setWorld counted) tidy thread
  have more := machine.setWorld_spare counted
  have blocks : counted.balance = machine.world.balance + 2 := balance_awaited machine.world
  exact ⟨kept, by omega⟩

/-- Besides the blocks of the queues there are always three: those of the server, the broker
and the pool. -/
theorem Served.spare {tree : FileTree} (served : Served env (TidyConnection env) tree machine)
    (json : env.JsonReliable) (tidy : LoadTidy env.toEnvironment tree) :
    machine.Keeps machine.shelf ∧ machine.spare = 3 := by
  induction served with
  | @started first ran =>
      let prepared := ((Machine.boot tree).setWorld
        ((((Machine.boot tree).world.allocate 1).allocate 1).allocate 1)).setPool .init
      obtain ⟨_, loaded, load, counted⟩ := bind_eq_returned.mp
        (show (queuePoolLoad env.toEnvironment >>= fun _ =>
          onWorld (.modify fun world => { world with requestCounter := 0 })) prepared =
            .returned () first from ran)
      obtain ⟨world, reset, rfl⟩ := onWorld_eq_returned counted
      cases reset
      obtain ⟨keeps, spare⟩ := queuePoolLoad_spare rfl rfl tidy load
      exact ⟨keeps.setWorld _, spare⟩
  | completed _ fits ran ih =>
      obtain ⟨keeps, spare⟩ := ih
      obtain ⟨kept, same⟩ := serveConnection_spare json keeps fits ran
      exact ⟨kept, same.trans spare⟩

/-! ## Computed runs -/

/-- A stack on which there is nothing yet. -/
def blankStack : Stack where
  msg := List.replicate clientMessageSize 0
  behind := [0]
  size := List.length_replicate
  ended := by simp

/-- A connection with a request to add a queue. -/
def addingConnection : Arrival where
  bytes := text "POST / HTTP/1.1\r\n\r\ntype=addQueue&data=a"
  fits := by decide +kernel

def startedServer (env : ServerEnvironment) : Machine := (appInit env (.boot emptyTree)).state

def servedServer (env : ServerEnvironment) : Machine :=
  (serveConnection env addingConnection blankStack (startedServer env)).state

theorem Served.computed {allowed : Machine → Arrival → Stack → Prop}
    (started : (appInit env (.boot emptyTree)).isReturned = true)
    (fits : allowed (startedServer env) addingConnection blankStack)
    (served : (serveConnection env addingConnection blankStack (startedServer env)).isReturned = true) :
    Served env allowed emptyTree (servedServer env) := by
  obtain ⟨_, begun⟩ := Outcome.eq_returned started
  obtain ⟨_, ran⟩ := Outcome.eq_returned served
  exact .completed (.started begun) fits ran

/-! ## The end of the process -/

/-- The connections along a run leave nothing behind, so that `app_close`, called while the next
one is awaited, ends with the two blocks of that one. -/
theorem counters_balance {tree : FileTree} (json : env.JsonReliable)
    (tidy : LoadTidy env.toEnvironment tree)
    (served : Served env (TidyConnection env) tree machine)
    (whole : machine.pool.pool = .null ∨ machine.shelf ≠ []) :
    ∃ report closed, (awaitConnection >>= fun _ => appClose) machine = .returned report closed ∧
      (report.memoryAllocations : Int) - report.memoryFreed = 2 := by
  obtain ⟨keeps, spare⟩ := served.spare json tidy
  let awaited := (machine.world.allocate 1).allocate 1
  obtain ⟨destroyed, ran, balance⟩ := queuePoolDestruct_run (keeps.setWorld awaited) whole
  have two : awaited.balance = machine.world.balance + 2 := balance_awaited machine.world
  have closing : (awaitConnection >>= fun _ => appClose) machine = .returned
      ⟨destroyed.world.requestCounter, destroyed.world.memAllocated, destroyed.world.memFreed + 2⟩
      (destroyed.setWorld (destroyed.world.release 2)) := by
    show appClose (machine.setWorld awaited) = _
    rw [appClose, Program.run_bind, ran]
    rfl
  refine ⟨_, _, closing, ?_⟩
  rw [Machine.spare] at spare
  rw [World.balance, Machine.setWorld_world] at balance
  dsimp only
  push_cast
  omega

/-- After a queue has been added, everything is freed. -/
theorem counters_balance_computed :
    ∃ report closed, (awaitConnection >>= fun _ => appClose) (servedServer epoch) =
        .returned report closed ∧ (report.memoryAllocations : Int) - report.memoryFreed = 2 := by
  have tidy : LoadTidy epoch.toEnvironment emptyTree := by
    intro target can
    rw [can.1.path_eq, show queueNames _ = [] by decide +kernel]
    trivial
  have adds : TidyConnection epoch (startedServer epoch) addingConnection blankStack := by
    intro method found
    have posted : extractedMethod (received addingConnection.bytes blankStack) =
        .ok (some (text "POST")) := by decide +kernel
    rw [posted] at found
    cases found
    have asked : brokerRequest (bodyOf (text "POST")
        (cString (received addingConnection.bytes blankStack))) =
          request "addQueue" none (some "a") := by decide +kernel
    rw [asked, TidyRequest, command_addQueue rfl ⟨rfl, by decide⟩]
    exact fun _ => ⟨[text "a", text "data"], ⟨by decide +kernel, by decide +kernel⟩,
      .inr ⟨by decide +kernel, ⟨by decide +kernel, by decide +kernel⟩, by decide +kernel⟩⟩
  exact counters_balance (fun _ => rfl) tidy
    (Served.computed (by decide +kernel) adds (by decide +kernel)) (.inr (by decide +kernel))

/-- A connection whose request has one of the known types. -/
def RecognisedConnection (_machine : Machine) (arrival : Arrival) (stack : Stack) : Prop :=
  let memory := received arrival.bytes stack
  ∃ method type, extractedMethod memory = .ok (some method) ∧
    (bodyOf method (cString memory)).get (text "type") = some type ∧ type ∈ recognised

/-- A queue whose directory cannot be made. -/
def refusing : ServerEnvironment := { epoch with toBrokerEnvironment := failing .mkdir }

/-- The object, the name and the error message of a queue that is refused are never freed. -/
theorem refused_queue_leaks :
    ¬∀ (env : ServerEnvironment) (tree : FileTree) (machine : Machine), env.JsonReliable →
      Served env RecognisedConnection tree machine → ∀ report closed,
        (awaitConnection >>= fun _ => appClose) machine = .returned report closed →
          (report.memoryAllocations : Int) - report.memoryFreed = 2 := by
  intro balances
  have served : Served refusing RecognisedConnection emptyTree (servedServer refusing) :=
    .computed (by decide +kernel)
      ⟨text "POST", text "addQueue", by decide +kernel, by decide +kernel, by decide +kernel⟩
      (by decide +kernel)
  obtain ⟨closed, ran⟩ := Outcome.result_eq_ok.mp
    (show ((awaitConnection >>= fun _ => appClose) (servedServer refusing)).result =
      .ok ⟨1, 34, 29⟩ by decide +kernel)
  exact absurd (balances refusing emptyTree _ (fun _ => rfl) served _ closed ran) (by decide)

end Connections

end Bmb.Server
