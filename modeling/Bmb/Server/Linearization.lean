import Bmb.Broker.Service
import Bmb.Server.Schedules

namespace Bmb

open Bmb.Base Bmb.Base.Program Bmb.Http Bmb.Posix

/-! What the threads of the server send, in any order of their steps. -/

namespace Service

variable (env : BrokerEnvironment)

def Answer.success : Answer → Bool
  | .told success _ => success
  | .gave _ | .listed _ _ _ => true

def Answer.payload : Answer → Json
  | .told _ message => .object [(text "message", .string message)]
  | .gave data => .object [(text "data", .string data)]
  | .listed listKey key values =>
      .object [(text "data", .string
        (env.jsonPrint (.object [(listKey, .array (entryList key 0 values))])))]

/-- What is printed for an answer. -/
def Answer.page (answer : Answer) : Json :=
  .object [(text "success", .bool answer.success), (text "payload", answer.payload env)]

theorem Answer.response_eq (answer : Answer) : answer.response env =
    ⟨200, none, some (.bool answer.success), some (answer.payload env)⟩ := by
  cases answer <;> rfl

end Service

namespace Server

variable {env : ServerEnvironment} {machine other : Machine}

/-- What a thread sends when the queues hold these messages and so many connections have been
accepted, and what the queues hold then. -/
inductive Sends (env : ServerEnvironment) (accepted : Nat) (shelf : Shelf Bytes Bytes) :
    Option Request → Bytes → Shelf Bytes Bytes → Prop where
  | refused : Sends env accepted shelf none
      (assembledText 400 (env.asctime accepted) (text "Empty request received.")) shelf
  | answered {req : Request} {answer : Service.Answer} {later : Shelf Bytes Bytes} (moment : Nat)
      (served : Service.serve (env.residue moment) (brokerRequest req.body) shelf = (answer, later)) :
      Sends env accepted shelf (some req)
        (assembledText 200 (env.asctime accepted) (env.jsonPrint (answer.page env.toBrokerEnvironment)))
        later

/-- What the server sends, one connection after the other, when the queues hold these messages
at first. -/
inductive Transcript (env : ServerEnvironment) (origin : Shelf Bytes Bytes) :
    List (Event Connection) → List (Nat × Option Bytes) → Nat → Shelf Bytes Bytes → Prop where
  | start : Transcript env origin [] [] 0 origin
  | admitted {events : List (Event Connection)} {outputs : List (Nat × Option Bytes)}
      {accepted : Nat} {shelf : Shelf Bytes Bytes} (connection : Connection)
      (transcript : Transcript env origin events outputs accepted shelf) :
      Transcript env origin (events ++ [.admitted connection]) outputs (accepted + 1) shelf
  | served {events : List (Event Connection)} {outputs : List (Nat × Option Bytes)}
      {accepted : Nat} {shelf later : Shelf Bytes Bytes} {connection : Connection}
      {req : Option Request} {sent : Bytes} (index : Nat)
      (transcript : Transcript env origin events outputs accepted shelf)
      (asked : connection.request = .ok req) (sends : Sends env accepted shelf req sent later) :
      Transcript env origin (events ++ [.served index connection]) (outputs ++ [(index, some sent)])
        accepted later

/-- A connection that is parsed, and into a proper request if it is one. -/
structure Orderly (connection : Connection) : Prop where
  parsed : ∃ req, connection.request = .ok req
  proper : ∀ req, connection.request = .ok (some req) → Service.Proper (brokerRequest req.body)

/-- A machine that holds what the service holds, in memory and on the disk. -/
structure Steady (env : ServerEnvironment) (accepted served : Nat) (shelf : Shelf Bytes Bytes)
    (machine : Machine) : Prop where
  synced : Synced env.toBrokerEnvironment machine machine.shelf
  within : Service.Within served machine.shelf
  counted : machine.world.requestCounter = accepted
  shown : machine.shelf.seen Item.message = shelf

variable {accepted served : Nat} {shelf : Shelf Bytes Bytes}

theorem Steady.similar (steady : Steady env accepted served shelf machine)
    (similar : machine.Similar other) : Steady env accepted served shelf other where
  synced :=
    { keeps := similar.keepsOther
      holds := by rw [← similar.world.system, ← similar.shelf]; exact steady.synced.holds
      bounded := by rw [← similar.shelf]; exact steady.synced.bounded
      single := by rw [← similar.shelf]; exact steady.synced.single }
  within := by rw [← similar.shelf]; exact steady.within
  counted := by rw [← similar.world.requestCounter]; exact steady.counted
  shown := by rw [← similar.shelf]; exact steady.shown

/-- What a program that changes only counters leaves. -/
theorem Steady.ran {α : Type} {program : Program World α} {value : α} {world : World}
    (steady : Steady env accepted served shelf machine) (unseen : Unseen program)
    (ran : program machine.world = .returned value world) :
    onWorld program machine = .returned value (machine.setWorld world) ∧
      Steady env accepted served shelf (machine.setWorld world) := by
  have same : onWorld program machine = .returned value (machine.setWorld world) := by
    rw [run_onWorld, ran]
  have similar := similar_onWorld unseen (similar_refl steady.synced.keeps)
  rw [same] at similar
  exact ⟨same, steady.similar (symm_of _ similar)⟩

theorem Steady.more (steady : Steady env accepted served shelf machine) :
    Steady env accepted (served + 1) shelf machine :=
  { steady with within := fun mailbox member item inside =>
      Nat.le_succ_of_le (steady.within mailbox member item inside) }

/-- The main thread counts a connection. -/
theorem Steady.accept (steady : Steady env accepted served shelf machine)
    (ran : (serverThread env).accept machine = .returned () other) :
    Steady env (accepted + 1) served shelf other := by
  cases ran
  exact {
    synced :=
      { keeps := steady.synced.keeps.setWorld _
        holds := steady.synced.holds
        bounded := steady.synced.bounded
        single := steady.synced.single }
    within := steady.within
    counted := congrArg (· + 1) steady.counted
    shown := steady.shown }

theorem unseen_newBuffer (size : Nat) (text : Bytes) : Unseen (newBuffer size text) :=
  fun origin => .bind (unseen_memAlloc origin) fun _ => .pure _

theorem unseen_responseSetStatus (code : Nat) (this : Response) :
    Unseen (responseSetStatus code this) :=
  fun origin => .bind (unseen_newBuffer _ _ origin) fun _ => .pure _

theorem unseen_responseSetError (errorMessage : Bytes) (this : Response) :
    Unseen (responseSetError errorMessage this) :=
  fun origin => .bind (unseen_memFreeNullable _ origin) fun _ =>
    .bind (unseen_newBuffer _ _ origin) fun _ => .pure _

theorem unseen_responseSetHeaders (this : Response) : Unseen (responseSetHeaders env this) :=
  fun origin => .bind (unseen_memAlloc origin) fun _ => .bind (unseen_newBuffer _ _ origin) fun _ =>
    .bind (unseen_newBuffer _ _ origin) fun _ => .bind (unseen_newBuffer _ _ origin) fun _ =>
      .bind (unseen_newBuffer _ _ origin) fun _ => .bind .read fun _ =>
        .bind (unseen_newBuffer _ _ origin) fun _ => .bind (unseen_newBuffer _ _ origin) fun _ =>
          .bind (unseen_memFree origin) fun _ => .pure _

theorem unseen_responseFill (brokerRes : BrokerResponse) (this : Response) :
    Unseen (responseFill env brokerRes this) := by
  intro origin
  refine .bind (unseen_responseSetStatus _ _ origin) fun stated => .bind ?_ fun printed => ?_
  · unfold cJSONPrintNullable
    split
    · exact .pure none
    · exact fun world similar => similar
  · cases printed with
    | none => exact .bind (unseen_responseSetStatus _ _ origin) fun _ => unseen_responseSetError _ _ origin
    | some string => exact .bind (unseen_newBuffer _ _ origin) fun _ => .pure _

/-! ## One connection -/

/-- A response to be sent as this text. -/
def ReadsAs (res : Response) (sent : Bytes) : Prop :=
  ∃ status body, res.status = some status ∧ res.body = some body ∧ assembled res status body = sent

theorem responseFill_page (json : env.JsonReliable) {success : Bool} {payload : Json} {this : Response}
    (blank : this.jsonBody = some (.object [])) (headed : this.headers = responseHeaders (env.asctime accepted))
    (world : World) :
    ∃ filled after, responseFill env ⟨200, none, some (.bool success), some payload⟩ this world =
        .returned filled after ∧
      ReadsAs filled (assembledText 200 (env.asctime accepted) (env.jsonPrint
        (.object [(text "success", .bool success), (text "payload", payload)]))) := by
  obtain ⟨stated, status⟩ := responseSetStatus_run this world 200
  let page : Json := .object [(text "success", .bool success), (text "payload", payload)]
  let printed := env.jsonPrint page
  refine ⟨{ this with
    status := some ⟨(statusLine 200).length + 1, statusLine 200⟩
    jsonBody := some page
    body := some ⟨printed.length + 1, printed⟩ }, ?_, ?_, _, _, rfl, rfl, ?_⟩
  rotate_left
  · simp only [responseFill, run_bind, status, cJSONAddNullable, blank, cJSONAddItem, List.nil_append,
      List.cons_append, cJSONPrintNullable, cJSONPrint, json _, Bool.false_eq_true, if_false, newBuffer,
      run_memAlloc, run_pure]
    rfl
  · rw [assembled, headed]
    rfl

theorem refuse_page {this : Response} (empty : this.body = none)
    (headed : this.headers = responseHeaders (env.asctime accepted)) (world : World) :
    ∃ refused after, (do
        let this ← responseSetStatus 400 this
        responseSetError (text "Empty request received.") this) world = .returned refused after ∧
      ReadsAs refused (assembledText 400 (env.asctime accepted) (text "Empty request received.")) := by
  obtain ⟨stated, status⟩ := responseSetStatus_run this world 400
  refine ⟨{ this with
    status := some ⟨(statusLine 400).length + 1, statusLine 400⟩
    body := some ⟨(text "Empty request received.").length + 1, text "Empty request received."⟩ },
    stated.allocate 1, ?_, _, _, rfl, rfl, ?_⟩
  · simp only [run_bind, status, responseSetError, empty, memFreeNullable, newBuffer, run_pure,
      run_memAlloc]
  · rw [assembled, headed]
    rfl

/-- Handling a request under the lock is what the service does. -/
theorem responseHandle_sends (json : env.JsonReliable) (reliable : env.Reliable)
    (steady : Steady env accepted served shelf machine) (few : served + 1 < 2147483647)
    {req : Option Request}
    (proper : ∀ parsed ∈ req, Service.Proper (brokerRequest parsed.body)) :
    ∃ handled after sent later, responseHandle env (newResponse req) machine = .returned handled after ∧
      ReadsAs handled sent ∧ Sends env accepted shelf req sent later ∧
      Steady env accepted (served + 1) later after := by
  obtain ⟨headed, headers⟩ := responseSetHeaders_run env (newResponse req) machine.world
  obtain ⟨started, begun⟩ := steady.ran (unseen_responseSetHeaders _) headers
  rw [steady.counted] at started
  cases req with
  | none =>
      obtain ⟨refused, told, ended, reads⟩ := @refuse_page env accepted
        { newResponse none with headers := responseHeaders (env.asctime accepted) } rfl rfl headed
      obtain ⟨ran, steady⟩ := begun.ran (fun origin => .bind (unseen_responseSetStatus _ _ origin)
        fun _ => unseen_responseSetError _ _ origin) ended
      refine ⟨refused, _, _, _, ?_, reads, .refused, steady.more⟩
      rw [responseHandle, run_bind, started]
      exact ran
  | some parsed =>
      obtain ⟨moment, after, ran, left, synced, within⟩ := Service.dispatch_serves begun.synced
        begun.within few reliable json (proper parsed rfl)
      have counted := brokerDispatch_requestCounter json (brokerRequest parsed.body) begun.synced.keeps
      rw [ran, Outcome.state_returned, begun.counted] at counted
      rw [begun.shown] at ran left
      generalize answering : Service.serve (env.residue moment) (brokerRequest parsed.body) shelf = served
        at ran left
      obtain ⟨answer, later⟩ := served
      obtain ⟨filled, last, filling, reads⟩ := @responseFill_page env accepted json answer.success
        (answer.payload env.toBrokerEnvironment)
        { newResponse (some parsed) with headers := responseHeaders (env.asctime accepted) } rfl rfl
        after.world
      rw [← answer.response_eq] at filling
      have dispatched : Steady env accepted (_ + 1) later after := ⟨synced, within, counted, left⟩
      obtain ⟨ended, steady⟩ := dispatched.ran (unseen_responseFill _ _) filling
      refine ⟨filled, _, _, _, ?_, reads, .answered moment answering, steady⟩
      rw [responseHandle, run_bind, started]
      simp only [newResponse, responseGetResponse, run_bind, ran]
      exact ended

/-! ## Threads -/

theorem prepare_parsed (json : env.JsonReliable) {connection : Connection} {req : Option Request}
    (parsed : connection.request = .ok req) (similar : machine.Similar other) :
    ∃ ready, (serverThread env).prepare connection machine = .returned (req, newResponse req) ready ∧
      ready.Similar other := by
  obtain ⟨result, quiet⟩ := @serverThread_prepares env json connection _ _ similar
  rw [parsed] at result
  obtain ⟨ready, ran⟩ := Outcome.result_eq_ok.mp result
  rw [ran] at quiet
  exact ⟨ready, ran, quiet⟩

theorem finish_sends {req : Option Request} {res : Response} {sent : Bytes} (reads : ReadsAs res sent)
    (similar : machine.Similar other) :
    ∃ ended, (serverThread env).finish (req, res) machine = .returned (some sent) ended ∧
      ended.Similar other := by
  obtain ⟨status, body, stated, filled, rfl⟩ := reads
  have left := @threadLeave_result req res status body stated filled machine.world
  rw [← onWorld_result (threadLeave (req, res)) machine, Outcome.result_eq_ok] at left
  obtain ⟨ended, ran⟩ := left
  have close := similar_onWorld (unseen_threadLeave (req, res)) similar
  rw [ran] at close
  exact ⟨ended, by rw [← onWorld_threadLeave, ran], close⟩

/-- A thread that runs as a whole sends what the service answers. -/
theorem whole_sends (json : env.JsonReliable) (reliable : env.Reliable)
    (steady : Steady env accepted served shelf machine) (few : served + 1 < 2147483647)
    {connection : Connection} (orderly : Orderly connection) :
    ∃ req sent after later, connection.request = .ok req ∧
      (serverThread env).whole connection machine = .returned (some sent) after ∧
      Sends env accepted shelf req sent later ∧ Steady env accepted (served + 1) later after := by
  obtain ⟨req, parsed⟩ := orderly.parsed
  obtain ⟨ready, prepared, quiet⟩ := prepare_parsed json parsed (similar_refl steady.synced.keeps)
  have proper : ∀ given ∈ req, Service.Proper (brokerRequest given.body) := by
    rintro given ⟨⟩
    exact orderly.proper given parsed
  obtain ⟨handled, middle, sent, later, handling, reads, sends, kept⟩ :=
    responseHandle_sends json reliable (steady.similar (symm_of _ quiet)) few proper
  obtain ⟨ended, finished, close⟩ := @finish_sends env middle _ req _ _ reads
    (similar_refl kept.synced.keeps)
  refine ⟨req, sent, ended, later, parsed, ?_, sends, kept.similar (symm_of _ close)⟩
  have critical : (serverThread env).critical (req, newResponse req) ready =
      .returned (req, handled) middle := by
    show (responseHandle env (newResponse req) >>= fun res => pure (req, res)) ready = _
    simp only [run_bind, handling, run_pure]
  simp only [ThreadCode.whole, run_bind, prepared, critical, finished]

variable {tree : FileTree} {first last : Machine} {events more : List (Event Connection)}
  {outputs : List (Nat × Option Bytes)} {origin : Shelf Bytes Bytes} {disk : Shelf Bytes Item}

/-- Threads that run one after the other send what the service answers. -/
theorem serial_transcript (json : env.JsonReliable) (reliable : env.Reliable)
    (start : Steady env 0 served origin first)
    (serial : (serverThread env).Serial first events outputs last)
    (orderly : ∀ index connection, .served index connection ∈ events → Orderly connection)
    (few : served + outputs.length < 2147483647) :
    ∃ accepted shelf, Transcript env origin events outputs accepted shelf ∧
      Steady env accepted (served + outputs.length) shelf last := by
  induction serial with
  | start => exact ⟨0, origin, .start, start⟩
  | admitted serial connection ran ih =>
      obtain ⟨accepted, shelf, transcript, steady⟩ :=
        ih (fun index other member => orderly index other (List.mem_append_left _ member)) few
      exact ⟨accepted + 1, shelf, .admitted connection transcript, steady.accept ran⟩
  | served serial index ran ih =>
      rw [List.length_append, List.length_singleton] at few ⊢
      obtain ⟨accepted, shelf, transcript, steady⟩ :=
        ih (fun index other member => orderly index other (List.mem_append_left _ member)) (by omega)
      obtain ⟨req, sent, after, later, asked, again, sends, kept⟩ := whole_sends json reliable steady few
        (orderly index _ (List.mem_append_right _ (List.mem_singleton_self _)))
      rw [ran] at again
      cases again
      exact ⟨accepted, later, .served index transcript asked sends, kept⟩

/-! ## Schedules -/

variable {process : Process Machine Connection (Option Request × Response) (Option Request × Response)
  (Option Bytes)}

/-- A server that has been started holds what can be read back from the disk. -/
theorem appInit_holds (holds : DiskHolds tree env.toEnvironment disk)
    (started : appInit env (.boot tree) = .returned () first) :
    first.Keeps first.shelf ∧ first.shelf.Perm (disk.map Fifo.readBack) ∧
      DiskHolds first.world.system.tree env.toEnvironment disk ∧ first.world.requestCounter = 0 := by
  obtain ⟨prepared, loaded, init, system, load, rfl⟩ := appInit_loads started
  obtain ⟨keeps, read⟩ := loaded_keeps init load
  have there : DiskHolds prepared.world.system.tree env.toEnvironment disk := by
    rw [system]
    exact holds
  obtain ⟨shelf, perm, yields⟩ := loadShelf_disk there
  rcases yields with ⟨after, ran, same⟩ | ⟨_, _, failed⟩
  · rw [read] at ran
    obtain ⟨found, world⟩ := Outcome.returned.inj ran
    have tree := same.tree
    rw [← world] at tree
    refine ⟨keeps.setWorld _, found ▸ perm, ?_, rfl⟩
    show DiskHolds loaded.world.system.tree env.toEnvironment disk
    rw [tree]
    exact there
  · rw [read] at failed
    cases failed

/-- From files that hold queues of readable messages a server starts with these queues. -/
theorem appInit_steady (holds : DiskHolds tree env.toEnvironment disk)
    (readable : disk.map Fifo.readBack = disk) (within : Service.Within served disk)
    (few : served < 2147483647) (started : appInit env (.boot tree) = .returned () first) :
    Steady env 0 served (first.shelf.seen Item.message) first ∧ first.shelf.Perm disk := by
  obtain ⟨keeps, perm, there, counted⟩ := appInit_holds holds started
  rw [readable] at perm
  have inside : Service.Within served first.shelf :=
    fun mailbox member => within mailbox (perm.mem_iff.mp member)
  refine ⟨⟨⟨keeps, there.of_perm perm.symm, inside.bounded few, ?_⟩, inside, counted, rfl⟩, perm⟩
  intro name member
  obtain ⟨mailbox, stored, rfl⟩ := List.mem_map.mp member
  exact holds.single mailbox.key (Shelf.key_mem (perm.mem_iff.mp stored))

/-- What has been served under a schedule, one after the other. -/
theorem schedule_transcript (json : env.JsonReliable) (reliable : env.Reliable)
    (start : Steady env 0 served origin first) (schedule : Schedule env first events process)
    (orderly : ∀ connection, .admitted connection ∈ events → Orderly connection)
    (few : served + process.threads.length < 2147483647) :
    ∃ outputs last accepted shelf,
      ThreadCode.Serialized (serverThread env) Machine.Similar first events outputs last process ∧
      Transcript env origin events outputs accepted shelf ∧
      Steady env accepted (served + outputs.length) shelf process.shared := by
  obtain ⟨outputs, last, serialized⟩ := schedule.serialized (serverThread_discreet json)
    (.idle (similar_refl start.synced.keeps))
  simp only [List.nil_append] at serialized
  have served : ∀ index connection, .served index connection ∈ events → Orderly connection := by
    intro index connection event
    obtain ⟨phase, turn⟩ := serialized.asked index connection event
    exact orderly connection (schedule.admitted _ (List.mem_of_getElem? turn))
  have bound := serialized.length_le
  obtain ⟨accepted, shelf, transcript, steady⟩ :=
    serial_transcript json reliable start serialized.serial served (by omega)
  exact ⟨outputs, last, accepted, shelf, serialized, transcript,
    steady.similar (symm_of _ serialized.agrees)⟩

theorem adding_orderly : Orderly adding := by
  have body : brokerRequest addingRequest.body = request "addQueue" none (some "a") := by
    decide +kernel
  refine ⟨⟨_, adding_parsed⟩, fun req parsed => ?_⟩
  rw [adding_parsed] at parsed
  rw [← Option.some.inj (Except.ok.inj parsed), body]
  exact ⟨⟨brokerAddQueue, by decide, rfl⟩, by rintro name - ⟨⟩ -; decide⟩

theorem Transcript.sent {index : Nat} {sent : Option Bytes}
    (transcript : Transcript env origin events outputs accepted shelf) (served : (index, sent) ∈ outputs) :
    ∃ response, sent = some response := by
  induction transcript with
  | start => simp at served
  | admitted connection _ ih => exact ih served
  | served other _ asked sends ih =>
      rcases List.mem_append.mp served with old | new
      · exact ih old
      · cases List.mem_singleton.mp new
        exact ⟨_, rfl⟩

end Server

end Bmb
