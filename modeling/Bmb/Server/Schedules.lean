import Bmb.Server.Threads

namespace Bmb.Server

open Bmb.Base Bmb.Base.Program Bmb.Http Bmb.Posix

/-! Every order in which the threads of the server can take their steps. -/

/-- The threads of a server that has been started come so far, in any order. -/
abbrev Schedule (env : ServerEnvironment) (first : Machine) :=
  (serverThread env).Run Machine.Similar (.idle first)

variable {env : ServerEnvironment} {tree : FileTree} {first machine after : Machine}
  {events more : List (Event Connection)}
  {process later : Process Machine Connection (Option Request × Response) (Option Request × Response)
    (Option Bytes)}

/-! ## The start -/

theorem appInit_loads (started : appInit env machine = .returned () first) :
    ∃ (prepared loaded : Machine), prepared.pool = .init ∧
      prepared.world.system = machine.world.system ∧
      queuePoolLoad env.toEnvironment prepared = .returned () loaded ∧
      first = loaded.setWorld { loaded.world with requestCounter := 0 } := by
  let prepared := (machine.setWorld
    (((machine.world.allocate 1).allocate 1).allocate 1)).setPool .init
  obtain ⟨_, loaded, load, counted⟩ := bind_eq_returned.mp
    (show (queuePoolLoad env.toEnvironment >>= fun _ =>
      onWorld (.modify fun world => { world with requestCounter := 0 })) prepared =
        .returned () first from started)
  cases counted
  exact ⟨prepared, loaded, rfl, rfl, load, rfl⟩

theorem appInit_keeps (started : appInit env machine = .returned () first) :
    first.Keeps first.shelf := by
  obtain ⟨prepared, loaded, empty, _, load, rfl⟩ := appInit_loads started
  exact (loaded_keeps empty load).1.setWorld _

theorem similar_refl (keeps : machine.Keeps machine.shelf) : machine.Similar machine :=
  ⟨keeps, keeps, rfl, .refl _⟩

/-- A round of `main` whose thread is not disturbed. -/
theorem serveConnection_schedule {connection : Connection} {sent : Option Bytes}
    (threads : List (Thread Connection (Option Request × Response) (Option Request × Response)
      (Option Bytes)))
    (ran : serveConnection env connection.arrival connection.stack machine = .returned sent after) :
    (serverThread env).Run Machine.Similar ⟨machine, none, threads⟩
      [.admitted connection, .served threads.length connection]
      ⟨after, none, threads ++ [⟨connection, .done sent⟩]⟩ := by
  let counted : World := { (machine.world.allocate 1).allocate 1 with
    requestCounter := machine.world.requestCounter + 1 }
  let process : Process Machine Connection (Option Request × Response) (Option Request × Response)
      (Option Bytes) := ⟨machine.setWorld counted, none, threads ++ [⟨connection, .created⟩]⟩
  have admitted : (serverThread env).Step Machine.Similar ⟨machine, none, threads⟩
      [.admitted connection] process := .accept connection rfl
  have turn : process.threads[threads.length]? = some ⟨connection, .created⟩ := by simp [process]
  have whole : (serverThread env).whole connection process.shared = .returned sent after := by
    rw [serverThread_whole]
    exact ran
  have served : process.threads.set threads.length ⟨connection, .done sent⟩ =
      threads ++ [⟨connection, .done sent⟩] := by simp [process]
  have run := (ThreadCode.Run.start.step admitted).trans (.whole rfl turn whole)
  rw [served] at run
  exact run

/-- Connections that are served one after the other make a schedule. -/
theorem Served.schedule {allowed : Machine → Arrival → Stack → Prop}
    (served : Served env allowed tree machine) :
    ∃ first events threads, appInit env (.boot tree) = .returned () first ∧
      Schedule env first events ⟨machine, none, threads⟩ := by
  induction served with
  | @started first ran => exact ⟨first, [], [], ran, .start⟩
  | @completed before after arrival stack sent _ fits ran ih =>
      obtain ⟨first, events, threads, started, schedule⟩ := ih
      exact ⟨first, _, _, started, schedule.trans
        (@serveConnection_schedule _ _ _ ⟨arrival, stack⟩ _ threads ran)⟩

/-- The connection that adds a queue. -/
def adding : Connection := ⟨addingConnection, blankStack⟩

def addingRequest : Request :=
  ⟨text "POST", bodyOf (text "POST") (cString (received addingConnection.bytes blankStack))⟩

theorem adding_parsed : adding.request = .ok (some addingRequest) := by rfl

theorem adding_schedule : ∃ first sent,
    appInit epoch (.boot emptyTree) = .returned () first ∧
      Schedule epoch first [.admitted adding, .served 0 adding]
        ⟨servedServer epoch, none, [⟨adding, .done sent⟩]⟩ := by
  obtain ⟨_, started⟩ := Outcome.eq_returned
    (show (appInit epoch (.boot emptyTree)).isReturned = true by decide +kernel)
  obtain ⟨sent, served⟩ := Outcome.eq_returned
    (show (serveConnection epoch addingConnection blankStack (startedServer epoch)).isReturned = true by
      decide +kernel)
  exact ⟨_, sent, started, @serveConnection_schedule _ _ _ adding sent [] served⟩

/-- The server whose first thread has got the lock. -/
def entered (env : ServerEnvironment) (tree : FileTree) (connection : Connection) : Machine :=
  let admitted := ((serverThread env).accept (appInit env (.boot tree)).state).state
  ((serverThread env).prepare connection admitted).state

theorem entered_schedule {connection : Connection} {req : Option Request} (json : env.JsonReliable)
    (started : (appInit env (.boot tree)).isReturned = true)
    (parsed : connection.request = .ok req) :
    ∃ first, appInit env (.boot tree) = .returned () first ∧
      Schedule env first [.admitted connection] ⟨entered env tree connection, some 0,
        [⟨connection, .holding (req, newResponse req)⟩]⟩ := by
  obtain ⟨_, begun⟩ := Outcome.eq_returned started
  let first := (appInit env (.boot tree)).state
  let admitted := ((serverThread env).accept first).state
  have keeps : admitted.Keeps admitted.shelf := (appInit_keeps begun).setWorld _
  have result := (@serverThread_prepares env json connection _ _ (similar_refl keeps)).1
  rw [parsed] at result
  obtain ⟨ready, prepared⟩ := Outcome.result_eq_ok.mp result
  have here : ready = entered env tree connection := by
    rw [entered]
    exact (congrArg Outcome.state prepared).symm
  have run : Schedule env first [.admitted connection] ⟨admitted, none, [⟨connection, .created⟩]⟩ :=
    ThreadCode.Run.start.step (.accept connection rfl)
  exact ⟨first, begun, run.trans (here ▸ .enter rfl rfl prepared)⟩

/-! ## One after the other -/

/-- Whatever order the threads take their steps in and whatever calls fail, the server comes to
what it comes to when the threads run one after the other, in the order in which they get the
lock.  Each is served once at most, every thread that has ended has sent what it sends there,
and a thread that is served later comes behind those that have been served. -/
theorem schedules_serialize (json : env.JsonReliable)
    (started : appInit env (.boot tree) = .returned () first)
    (schedule : Schedule env first events process) :
    ∃ outputs last, (serverThread env).Serial first events outputs last ∧
      process.shared.Similar last ∧ (outputs.map Prod.fst).Nodup ∧
      (∀ index connection sent, process.threads[index]? = some ⟨connection, .done sent⟩ →
        (index, sent) ∈ outputs) ∧
      ∀ more later, (serverThread env).Run Machine.Similar process more later →
        ∃ fresh end_, (serverThread env).Serial first (events ++ more) (outputs ++ fresh) end_ ∧
          later.shared.Similar end_ := by
  have discreet := serverThread_discreet json
  have start : ThreadCode.Serialized (serverThread env) _ first [] [] first (.idle first) :=
    .idle (similar_refl (appInit_keeps started))
  obtain ⟨outputs, last, serialized⟩ := schedule.serialized discreet start
  refine ⟨outputs, last, serialized.serial, serialized.agrees, serialized.once, ?_, ?_⟩
  · intro index connection sent ended
    cases serialized.sound index _ ended with
    | done served => exact served
  · intro more later run
    obtain ⟨fresh, end_, extended⟩ := run.serialized discreet serialized
    exact ⟨fresh, end_, extended.serial, extended.agrees⟩

/-- A server that has been started serves a connection at least. -/
theorem schedules_serialize_computed : ∃ first sent outputs last,
    (serverThread epoch).Serial first [.admitted adding, .served 0 adding] outputs last ∧
      (servedServer epoch).Similar last ∧ (0, sent) ∈ outputs := by
  obtain ⟨first, sent, started, schedule⟩ := adding_schedule
  obtain ⟨outputs, last, serial, agrees, _, ended, _⟩ :=
    schedules_serialize (fun _ => rfl) started schedule
  exact ⟨first, sent, outputs, last, serial, agrees, ended 0 adding sent rfl⟩

/-! ## Under the lock -/

section Lock

theorem keeps_own {shelf : Shelf Bytes Item} (keeps : machine.Keeps shelf) :
    machine.Keeps machine.shelf := by
  rwa [keeps.shelf_eq]

theorem keeps_onWorld {α : Type} (program : Program World α) :
    Keeps (fun machine => machine.Keeps machine.shelf) (onWorld program) := by
  intro machine keeps
  rw [run_onWorld]
  cases program machine.world with
  | returned value world => exact keeps.setWorld world
  | trapped trap world => exact keeps.setWorld world

theorem keeps_brokerDispatch (env : BrokerEnvironment) (req : BrokerRequest) :
    Keeps (fun machine => machine.Keeps machine.shelf) (brokerDispatch env req) := by
  intro machine keeps
  obtain ⟨_, _, _, _, ends⟩ := brokerDispatch_step env req keeps
  generalize brokerDispatch env req machine = outcome at ends
  cases ends with
  | trapped kept | unassigned kept | answered _ kept => exact keeps_own kept

theorem keeps_responseHandle (this : Response) :
    Keeps (fun machine => machine.Keeps machine.shelf) (responseHandle env this) := by
  refine .bind (keeps_onWorld _) fun headed => ?_
  cases headed.req with
  | none => exact keeps_onWorld _
  | some req =>
      refine .bind (keeps_brokerDispatch _ _) fun answered => ?_
      cases answered with
      | none => exact .stop _
      | some brokerRes => exact keeps_onWorld _

/-- A step that is not taken under the lock leaves the queues and the files alone. -/
theorem step_similar (keeps : process.shared.Keeps process.shared.shelf)
    (step : (serverThread env).Step Machine.Similar process more later) :
    (later.shared.Keeps later.shared.shelf ∧ later.shared.shelf = process.shared.shelf ∧
      later.shared.world.system = process.shared.world.system) ∨
    (later.shared.Keeps later.shared.shelf ∧ ∃ index connection thread,
      process.threads[index]? = some ⟨connection, .holding thread⟩ ∧
      more = [.served index connection]) := by
  cases step with
  | accept connection ran =>
      cases ran
      exact .inl ⟨keeps.setWorld _, rfl, rfl⟩
  | drift drifted => exact .inl ⟨drifted.keepsOther, drifted.shelf.symm, drifted.world.system.symm⟩
  | prepare turn ran =>
      rw [← onWorld_threadStart] at ran
      exact .inl (onWorld_quiet (unseen_threadStart env _) keeps ran)
  | lock | unlock => exact .inl ⟨keeps, rfl, rfl⟩
  | @critical index connection thread result machine turn ran =>
      obtain ⟨res, middle, handled, rest⟩ := bind_eq_returned.mp ran
      cases rest
      have kept := (keeps_responseHandle thread.2).returned keeps handled
      exact .inr ⟨kept, _, _, _, turn, rfl⟩
  | finish turn ran =>
      rw [← onWorld_threadLeave] at ran
      exact .inl (onWorld_quiet (unseen_threadLeave _) keeps ran)

theorem schedule_keeps (started : appInit env (.boot tree) = .returned () first)
    (schedule : Schedule env first events process) :
    process.shared.Keeps process.shared.shelf := by
  induction schedule with
  | start => exact appInit_keeps started
  | step _ step ih =>
      rcases step_similar ih step with ⟨keeps, _⟩ | ⟨keeps, _⟩
      · exact keeps
      · exact keeps

/-- In any order of the steps the queues and the files are only changed by the thread that holds
the lock, and no other thread is then in its critical section. -/
theorem only_holder_changes (started : appInit env (.boot tree) = .returned () first)
    (schedule : Schedule env first events process)
    (step : (serverThread env).Step Machine.Similar process more later)
    (changed : later.shared.shelf ≠ process.shared.shelf ∨
      later.shared.world.system ≠ process.shared.world.system) :
    ∃ index connection, more = [.served index connection] ∧ process.lock = some index ∧
      ∀ other thread, process.threads[other]? = some thread → thread.phase.Inside → other = index := by
  rcases step_similar (schedule_keeps started schedule) step with
    ⟨_, shelf, system⟩ | ⟨_, index, connection, thread, turn, served⟩
  · rcases changed with queues | files
    · exact absurd shelf queues
    · exact absurd system files
  · refine ⟨index, connection, served, (schedule.guarded index).mpr ⟨_, turn, trivial⟩, ?_⟩
    intro other rival there inside
    exact schedule.exclusive there inside turn trivial

/-- The first queue is added by the thread that has got the lock. -/
theorem only_holder_changes_computed : ∃ first process later,
    Schedule epoch first [.admitted adding] process ∧
      process.shared.shelf.keys = [] ∧ later.shared.shelf.keys = [text "a"] ∧
      ∃ index connection, (serverThread epoch).Step Machine.Similar process
        [.served index connection] later ∧ process.lock = some index := by
  obtain ⟨first, started, schedule⟩ := @entered_schedule epoch emptyTree adding _ (fun _ => rfl)
    (by decide +kernel) adding_parsed
  obtain ⟨_, ran⟩ := Outcome.eq_returned (show ((serverThread epoch).critical
    (some addingRequest, newResponse (some addingRequest))
    (entered epoch emptyTree adding)).isReturned = true by decide +kernel)
  have before : (entered epoch emptyTree adding).shelf.keys = [] := by decide +kernel
  have after : ((serverThread epoch).critical (some addingRequest, newResponse (some addingRequest))
      (entered epoch emptyTree adding)).state.shelf.keys = [text "a"] := by decide +kernel
  obtain ⟨index, connection, same, held, _⟩ :=
    only_holder_changes started schedule (.critical List.getElem?_cons_zero ran) (.inl fun same => by
      have keys := congrArg Shelf.keys same
      rw [after, before] at keys
      cases keys)
  cases same
  exact ⟨_, _, _, schedule, before, after, 0, adding, .critical List.getElem?_cons_zero ran, held⟩

end Lock

/-! ## The end of the process -/

section Stops

end Stops

end Bmb.Server
