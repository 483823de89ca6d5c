import Bmb.Base.Interleaving
import Bmb.Broker.Counters
import Bmb.Server.Memory

namespace Bmb.Server

open Bmb.Base Bmb.Base.Program Bmb.Http Bmb.Posix

/-! `broker_thread` as one of many threads: everything but `res->handle` is done without the
lock. -/

/-- What a thread works on: the bytes that `recv` stores, and the stack that it stores them on. -/
structure Connection where
  arrival : Arrival
  stack : Stack

/-- What a connection is parsed into, whatever the world is like. -/
def Connection.request (connection : Connection) : Except Trap (Option Request) :=
  let memory := received connection.arrival.bytes connection.stack
  (extractedMethod memory).map (Option.map fun method => ⟨method, bodyOf method (cString memory)⟩)

theorem threadRequest_result (connection : Connection) (world : World) :
    (threadRequest connection.arrival connection.stack world).result = connection.request :=
  requestParse_result (received connection.arrival.bytes connection.stack) world

/-- A response as `Response_construct` leaves it. -/
def newResponse (req : Option Request) : Response := ⟨none, [], some (.object []), none, req, none⟩

variable (env : ServerEnvironment)

/-- `main` up to the creation of a thread, and `broker_thread` up to the lock, under the lock,
and from then on. -/
def serverThread : ThreadCode Machine Connection (Option Request × Response)
    (Option Request × Response) (Option Bytes) where
  accept := do
    awaitConnection
    serverAccept
  prepare connection := do
    let req ← onWorld (threadRequest connection.arrival connection.stack)
    let res ← onWorld (responseNew env req)
    pure (req, res)
  critical thread := do
    let res ← responseHandle env thread.2
    pure (thread.1, res)
  finish thread := do
    let res ← onWorld (responseAssemble thread.2)
    onWorld (requestDestructNullable thread.1)
    onWorld (responseDestruct res)
    onWorld memFree
    onWorld memFree
    pure (responseGet res)

/-- A thread that is not interrupted does what `broker_thread` does on its own. -/
theorem serverThread_whole (connection : Connection) :
    (serverThread env).whole connection = brokerThread env connection.arrival connection.stack := by
  funext machine
  simp only [ThreadCode.whole, serverThread, brokerThread, run_bind, run_pure]
  cases onWorld (threadRequest connection.arrival connection.stack) machine with
  | trapped trap after => rfl
  | returned req parsed =>
      dsimp only
      cases onWorld (responseNew env req) parsed with
      | trapped trap after => rfl
      | returned res made =>
          dsimp only
          cases responseHandle env res made with
          | trapped trap after => rfl
          | returned res handled => rfl

/-! ## Outside of the lock -/

/-- A program that changes nothing but the counters. -/
abbrev Unseen {α : Type} (program : Program World α) : Prop :=
  ∀ origin : World, Keeps origin.Similar program

section Unseen

theorem unseen_allocate (blocks : Nat) : Unseen (.modify (·.allocate blocks)) :=
  fun _ => .modify fun _ similar => similar

theorem unseen_release (blocks : Nat) : Unseen (.modify (·.release blocks)) :=
  fun _ => .modify fun _ similar => similar

theorem unseen_memAlloc : Unseen memAlloc := unseen_allocate 1

theorem unseen_memFree : Unseen memFree := unseen_release 1

theorem unseen_memFreeNullable {α : Type} (block : Option α) : Unseen (memFreeNullable block) := by
  cases block with
  | none => exact fun _ => .pure ()
  | some _ => exact unseen_memFree

theorem unseen_requestExtractData (request key : Bytes) : Unseen (requestExtractData request key) := by
  intro origin
  refine .bind (unseen_memAlloc origin) fun _ => .bind (unseen_memFree origin) fun _ => ?_
  cases extractedValue request key with
  | none => exact .pure none
  | some data =>
      exact .bind (unseen_memAlloc origin) fun _ => .bind (unseen_memAlloc origin) fun _ => .pure _

theorem unseen_addExtractedPair (body : RequestBody) (pair : Option RequestPair) :
    Unseen (addExtractedPair body pair) := by
  intro origin
  cases pair with
  | none => exact .pure body
  | some pair =>
      intro world similar
      rw [addExtractedPair, requestBodyAdd]
      by_cases empty : body.pairs = []
      · rw [if_pos empty]
        exact similar
      · rw [if_neg empty]
        exact similar

theorem unseen_extractAndAdd {α : Type} (body : RequestBody) (request key : Bytes)
    {next : RequestBody → Program World α} (rest : ∀ extended, Unseen (next extended)) :
    Unseen (do
      let pair ← requestExtractData request key
      let extended ← addExtractedPair body pair
      next extended) :=
  fun origin => .bind (unseen_requestExtractData request key origin) fun pair =>
    .bind (unseen_addExtractedPair body pair origin) fun extended => rest extended origin

theorem unseen_requestParse (memory : Bytes) : Unseen (requestParse memory) := by
  have parsed (method : Bytes) (body : RequestBody) :
      Unseen (pure (some ⟨method, body⟩) : Program World (Option Request)) := fun _ => .pure _
  have ended (method request : Bytes) (body : RequestBody) :
      Unseen (parameterByMethod method request body) := by
    unfold parameterByMethod
    split
    · exact unseen_extractAndAdd _ _ _ (parsed method)
    split
    · exact unseen_extractAndAdd _ _ _ (parsed method)
    · exact parsed method body
  intro origin
  refine .bind (unseen_memAlloc origin) fun _ => .bind (unseen_memAlloc origin) fun _ => ?_
  unfold requestExtractMethod
  cases extractedMethod memory with
  | error trap => exact fun _ similar => similar
  | ok found =>
      cases found with
      | none => exact fun _ similar => similar
      | some method =>
          have extracted : Keeps origin.Similar (do
              let body ← addExtractedPair .new (← requestExtractData (cString memory) (text "type"))
              let body ← addExtractedPair body (← requestExtractData (cString memory) (text "queue"))
              parameterByMethod method (cString memory) body) :=
            unseen_extractAndAdd .new _ _ (fun _ => unseen_extractAndAdd _ _ _ (ended _ _)) origin
          exact fun world similar => extracted (world.allocate 1) similar

theorem unseen_responseNew (req : Option Request) : Unseen (responseNew env req) := by
  intro origin
  refine .bind (unseen_memAlloc origin) fun _ => .bind ?_ fun _ => .pure _
  exact fun world similar => similar

theorem unseen_requestDestructNullable (req : Option Request) : Unseen (requestDestructNullable req) := by
  intro origin
  cases req with
  | none => exact .pure ()
  | some req =>
      exact .bind (unseen_release _ origin) fun _ => .bind (unseen_memFree origin) fun _ =>
        unseen_memFree origin

theorem unseen_responseDestruct (res : Response) : Unseen (responseDestruct res) :=
  fun origin => .bind (unseen_memFreeNullable _ origin) fun _ => .bind (unseen_release _ origin) fun _ =>
    .bind (unseen_memFreeNullable _ origin) fun _ => .bind (unseen_memFreeNullable _ origin) fun _ =>
      unseen_memFree origin

end Unseen

/-! ## Under the lock -/

section Locked

variable {related : World → World → Prop}

theorem alike_onWorld {α : Type} {program : Program World α} (blind : Blind related program) :
    Alike (Machine.Related related) (onWorld program) (onWorld program) :=
  .zoom (fun _ _ similar => similar.world)
    (fun _ _ _ _ similar close =>
      ⟨similar.keeps.setWorld _, similar.keepsOther.setWorld _, similar.shelf, close⟩) blind

theorem onWorld_result {α : Type} (program : Program World α) (machine : Machine) :
    (onWorld program machine).result = (program machine.world).result := by
  rw [run_onWorld]
  cases program machine.world <;> rfl

/-- What changes only counters leaves a machine similar to those that it has been similar to. -/
theorem similar_onWorld {α : Type} {program : Program World α} (unseen : Unseen program)
    {machine other : Machine} (similar : machine.Similar other) :
    (onWorld program machine).state.Similar other := by
  have kept := (unseen machine.world).state (World.Similar.refl _)
  rw [run_onWorld]
  cases ran : program machine.world with
  | returned value world =>
      rw [ran] at kept
      exact ⟨similar.keeps.setWorld _, similar.keepsOther, similar.shelf,
        trans_of World.Similar (symm_of World.Similar kept) similar.world⟩
  | trapped trap world =>
      rw [ran] at kept
      exact ⟨similar.keeps.setWorld _, similar.keepsOther, similar.shelf,
        trans_of World.Similar (symm_of World.Similar kept) similar.world⟩

/-- What only counts leaves the queues and the files alone. -/
theorem onWorld_quiet {α : Type} {program : Program World α} (unseen : Unseen program)
    {machine after : Machine} {value : α} (keeps : machine.Keeps machine.shelf)
    (ran : onWorld program machine = .returned value after) :
    after.Keeps after.shelf ∧ after.shelf = machine.shelf ∧
      after.world.system = machine.world.system := by
  have similar := similar_onWorld unseen
    (show machine.Similar machine from ⟨keeps, keeps, rfl, .refl _⟩)
  rw [ran] at similar
  exact ⟨similar.keeps, similar.shelf, similar.world.system⟩

variable [Careless related]

theorem blind_newBuffer (size : Nat) (text : Bytes) : Blind related (newBuffer size text) :=
  .bind blind_memAlloc fun _ => .pure _

theorem blind_responseSetStatus (code : Nat) (this : Response) : Blind related (responseSetStatus code this) :=
  .bind (blind_newBuffer _ _) fun _ => .pure _

theorem blind_responseSetError (errorMessage : Bytes) (this : Response) :
    Blind related (responseSetError errorMessage this) :=
  .bind (blind_memFreeNullable _) fun _ => .bind (blind_newBuffer _ _) fun _ => .pure _

/-- The date depends on the number of connections. -/
theorem blind_responseSetHeaders
    (counts : ∀ {left right}, related left right → left.requestCounter = right.requestCounter)
    (this : Response) : Blind related (responseSetHeaders env this) := by
  refine .bind blind_memAlloc fun _ => .bind (blind_newBuffer _ _) fun _ => ?_
  refine .bind (blind_newBuffer _ _) fun _ => .bind (blind_newBuffer _ _) fun _ => ?_
  refine .bind (blind_newBuffer _ _) fun _ => blind_read fun left right similar => ?_
  rw [counts similar]
  exact .bind (blind_newBuffer _ _) fun _ => .bind (blind_newBuffer _ _) fun _ =>
    .bind blind_memFree fun _ => .pure _

variable {env} (json : env.JsonReliable)

include json

theorem blind_responseFill (brokerRes : BrokerResponse) (this : Response) :
    Blind related (responseFill env brokerRes this) := by
  refine .bind (blind_responseSetStatus _ _) fun stated => .bind ?_ fun printed => ?_
  · unfold cJSONPrintNullable
    split
    · exact .pure none
    · exact blind_cJSONPrint json _
  · cases printed with
    | none => exact .bind (blind_responseSetStatus _ _) fun _ => blind_responseSetError _ _
    | some string => exact .bind (blind_newBuffer _ _) fun _ => .pure _

theorem alike_responseHandle
    (counts : ∀ {left right}, related left right → left.requestCounter = right.requestCounter)
    (this : Response) :
    Alike (Machine.Related related) (responseHandle env this) (responseHandle env this) := by
  refine .bind (alike_onWorld (blind_responseSetHeaders env counts this)) fun headed => ?_
  cases headed.req with
  | none =>
      exact alike_onWorld (.bind (blind_responseSetStatus _ _) fun _ => blind_responseSetError _ _)
  | some req =>
      refine .bind (brokerDispatch_blind json _) fun answered => ?_
      cases answered with
      | none => exact .stop _
      | some brokerRes => exact alike_onWorld (blind_responseFill json brokerRes headed)

end Locked

/-! ## What threads depend on -/

section Independence

/-- A response whose status and body have been set. -/
def Filled (this : Response) : Prop := this.status.isSome ∧ this.body.isSome

theorem responseSetError_filled (errorMessage : Bytes) {this : Response} (stated : this.status.isSome) :
    Ensures Filled (responseSetError errorMessage this) :=
  .after fun _ => .after fun _ => .pure ⟨stated, rfl⟩

theorem responseSetStatus_stated (code : Nat) (this : Response) :
    Ensures (fun set => set.status.isSome) (responseSetStatus code this) :=
  .after fun _ => .pure rfl

theorem responseFill_filled (brokerRes : BrokerResponse) (this : Response) :
    Ensures Filled (responseFill env brokerRes this) := by
  refine .bind (responseSetStatus_stated _ _) fun stated some_ => .after fun printed => ?_
  cases printed with
  | none =>
      exact .bind (responseSetStatus_stated _ _) fun failed some_ => responseSetError_filled _ some_
  | some string => exact .after fun _ => .pure ⟨some_, rfl⟩

/-- Whatever the broker answers, a handled response has a status and a body. -/
theorem responseHandle_filled (this : Response) : Ensures Filled (responseHandle env this) := by
  refine .after fun headed => ?_
  cases headed.req with
  | none =>
      exact .zoom (.bind (responseSetStatus_stated _ _) fun _ some_ => responseSetError_filled _ some_)
  | some req =>
      refine .after fun answered => ?_
      cases answered with
      | none => exact .stop _
      | some brokerRes => exact .zoom (responseFill_filled env brokerRes headed)

/-- The beginning of a thread, on the world. -/
def threadStart (connection : Connection) : Program World (Option Request × Response) := do
  let req ← threadRequest connection.arrival connection.stack
  let res ← responseNew env req
  pure (req, res)

theorem onWorld_threadStart (connection : Connection) :
    onWorld (threadStart env connection) = (serverThread env).prepare connection := by
  simp only [threadStart, serverThread, onWorld_bind, onWorld_pure]

theorem unseen_threadStart (connection : Connection) : Unseen (threadStart env connection) :=
  fun origin => .bind (unseen_requestParse _ origin) fun req =>
    .bind (unseen_responseNew env req origin) fun _ => .pure _

/-- The end of a thread, on the world. -/
def threadLeave (thread : Option Request × Response) : Program World (Option Bytes) := do
  let res ← responseAssemble thread.2
  threadEnd thread.1 res

theorem onWorld_threadLeave (thread : Option Request × Response) :
    onWorld (threadLeave thread) = (serverThread env).finish thread := by
  simp only [threadLeave, serverThread, onWorld_bind, onWorld_threadEnd]

theorem unseen_threadLeave (thread : Option Request × Response) : Unseen (threadLeave thread) := by
  intro origin
  refine .bind ?_ fun res => .bind (unseen_requestDestructNullable _ origin) fun _ =>
    .bind (unseen_responseDestruct _ origin) fun _ => .bind (unseen_memFree origin) fun _ =>
      .bind (unseen_memFree origin) fun _ => .pure _
  unfold responseAssemble
  split
  · exact .bind (.bind (unseen_memAlloc origin) fun _ => .pure _) fun _ => .pure _
  · exact .stop _

/-- What `Response_assemble` puts together. -/
def assembled (this : Response) (status body : Buffer) : Bytes :=
  status.text ++ newline :: this.headers.flatMap (·.text ++ [newline]) ++ body.text

theorem threadLeave_result {req : Option Request} {res : Response} {status body : Buffer}
    (stated : res.status = some status) (filled : res.body = some body) (world : World) :
    (threadLeave (req, res) world).result = .ok (some (assembled res status body)) := by
  simp only [threadLeave, responseAssemble, stated, filled, newBuffer, memAlloc, threadEnd, run_bind,
    run_modify, run_pure]
  cases req <;> rfl

variable {env}

/-- A thread that has left its critical section sends what it has been answered with. -/
theorem serverThread_finishes {thread handled : Option Request × Response} {machine after : Machine}
    (ran : (serverThread env).critical thread machine = .returned handled after) :
    ∃ sent, ∀ machine other, machine.Similar other →
      ∃ ended, (serverThread env).finish handled machine = .returned sent ended ∧
        ended.Similar other := by
  obtain ⟨res, middle, filled, rest⟩ := bind_eq_returned.mp ran
  cases rest
  obtain ⟨stated, filled⟩ := responseHandle_filled env _ _ _ _ filled
  obtain ⟨status, stated⟩ := Option.isSome_iff_exists.mp stated
  obtain ⟨body, filled⟩ := Option.isSome_iff_exists.mp filled
  refine ⟨some (assembled res status body), fun machine other similar => ?_⟩
  have left : (threadLeave (thread.1, res) machine.world).result = _ := threadLeave_result stated filled _
  rw [← onWorld_result (threadLeave (thread.1, res)) machine, Outcome.result_eq_ok] at left
  obtain ⟨ended, ran⟩ := left
  have close := similar_onWorld (unseen_threadLeave (thread.1, res)) similar
  rw [ran] at close
  exact ⟨ended, by rw [← onWorld_threadLeave, ran], close⟩

variable (json : env.JsonReliable)

include json

theorem responseNew_result (req : Option Request) (world : World) :
    (responseNew env req world).result = .ok (newResponse req) := by
  simp only [responseNew, run_bind, run_memAlloc, cJSONCreate, json _, Bool.false_eq_true, if_false,
    run_pure, Outcome.result, newResponse]

theorem threadStart_result (connection : Connection) (world : World) :
    (threadStart env connection world).result =
      connection.request.map fun req => (req, newResponse req) := by
  rw [← threadRequest_result connection world, threadStart, run_bind]
  cases threadRequest connection.arrival connection.stack world with
  | trapped trap after => rfl
  | returned req after =>
      have made := responseNew_result json req after
      dsimp only
      rw [run_bind]
      cases created : responseNew env req after with
      | trapped trap last =>
          rw [created] at made
          cases made
      | returned res last =>
          rw [created] at made
          cases made
          rfl

/-- What a thread prepares depends on what it has received alone, and it does not touch the
queues. -/
theorem serverThread_prepares {connection : Connection} {machine other : Machine}
    (similar : machine.Similar other) :
    ((serverThread env).prepare connection machine).result =
        connection.request.map (fun req => (req, newResponse req)) ∧
      ((serverThread env).prepare connection machine).state.Similar other := by
  rw [← onWorld_threadStart]
  exact ⟨(onWorld_result _ machine).trans (threadStart_result json connection machine.world),
    similar_onWorld (unseen_threadStart env connection) similar⟩

theorem serverThread_discreet : (serverThread env).Discreet Machine.Similar where
  admits := .bind (alike_onWorld (.bind blind_memAlloc fun _ => blind_memAlloc)) fun _ =>
    alike_onWorld (.modify fun _ _ similar => similar.apply
      (show ∀ world : World, ({ world with requestCounter := world.requestCounter + 1 } : World).uncounted = _
        from fun _ => rfl))
  prepares _ := ⟨_, fun _ _ similar => serverThread_prepares json similar⟩
  enters thread := .bind (alike_responseHandle json World.Similar.requestCounter thread.2) fun _ =>
    .pure _
  finishes _ _ _ _ ran := serverThread_finishes ran

end Independence

end Bmb.Server
