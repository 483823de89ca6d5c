import Bmb.Broker.Interruption
import Bmb.Broker.Lifetimes
import Bmb.Server.Linearization

namespace Bmb

open Bmb.Base Bmb.Base.Program Bmb.Http Bmb.Posix

/-! Servers that are killed at any moment, and started again on the files that they leave. -/

namespace Service

variable {residue message : Bytes} {req : BrokerRequest} {shelf later : Shelf Bytes Bytes}
  {answer : Answer} {queue : Fifo Bytes Bytes}

/-- How a request can change the queues. -/
inductive Moves (name data : Bytes) (shelf : Shelf Bytes Bytes) : Shelf Bytes Bytes → Prop where
  | nothing : Moves name data shelf shelf
  | popped : Moves name data shelf (shelf.pop name)
  | pushed : Moves name data shelf (shelf.push name data)
  | created : Moves name data shelf (shelf.create data)
  | removed : Moves name data shelf (shelf.remove name)

theorem grant_moves (residue : Bytes) (req : BrokerRequest) (shelf : Shelf Bytes Bytes) :
    Moves (req.queueName.getD []) (req.data.getD []) shelf (grant residue req shelf).2 := by
  unfold grant
  dsimp only
  split
  · unfold consume
    split
    · exact .nothing
    · exact .popped
  split
  · exact .pushed
  split
  · exact .nothing
  split
  · unfold get
    split
    · exact .nothing
    · exact .nothing
  split
  · exact .nothing
  split
  · unfold addQueue
    split
    · exact .nothing
    · exact .created
  split
  · exact .nothing
  · exact .removed

/-- After a request there are only the old messages and the one that it brings. -/
theorem serve_messages (served : serve residue req shelf = (answer, later)) (member : queue ∈ later)
    (inside : message ∈ queue.items) :
    (∃ old ∈ shelf, message ∈ old.items) ∨ message = req.data.getD [] := by
  have moves : Moves (req.queueName.getD []) (req.data.getD []) shelf later := by
    rw [show later = (serve residue req shelf).2 by rw [served], serve]
    split
    · exact .nothing
    · exact grant_moves residue req shelf
  cases moves with
  | nothing => exact .inl ⟨queue, member, inside⟩
  | popped =>
      rcases Shelf.mem_update.mp member with ⟨_, old⟩ | ⟨_, items, old, rest⟩
      · exact .inl ⟨queue, old, inside⟩
      · rw [rest] at inside
        exact .inl ⟨_, old, List.mem_of_mem_tail inside⟩
  | pushed =>
      rcases Shelf.mem_update.mp member with ⟨_, old⟩ | ⟨_, items, old, more⟩
      · exact .inl ⟨queue, old, inside⟩
      · rw [more] at inside
        rcases List.mem_append.mp inside with before | new
        · exact .inl ⟨_, old, before⟩
        · exact .inr (List.mem_singleton.mp new)
  | created =>
      rcases List.mem_append.mp member with old | new
      · exact .inl ⟨queue, old, inside⟩
      · rw [List.mem_singleton.mp new] at inside
        simp at inside
  | removed => exact .inl ⟨queue, List.mem_of_mem_filter member, inside⟩

end Service

namespace Server

abbrev ServerProcess :=
  Process Machine Connection (Option Request × Response) (Option Request × Response) (Option Bytes)

/-- A message that comes back from its file. -/
def Readable (message : Bytes) : Prop := 0 ∉ message ∧ 255 ∉ message

theorem extractedValue_subset {request key value : Bytes}
    (extracted : extractedValue request key = some value) : value ⊆ request := by
  unfold extractedValue at extracted
  split at extracted
  · cases extracted
  · dsimp only at extracted
    split at extracted
    · cases extracted
    · cases extracted
      exact fun byte member => List.mem_of_mem_drop (List.mem_of_mem_take member)

theorem request_body {connection : Connection} {req : Request}
    (asked : connection.request = .ok (some req)) : ∃ method, req.body =
      bodyOf method (cString (received connection.arrival.bytes connection.stack)) := by
  obtain ⟨after, ran⟩ := Outcome.result_eq_ok.mp
    ((threadRequest_result connection { system := { tree := ⟨∅⟩ } }).trans asked)
  obtain ⟨method, _, body⟩ := requestParse_request ran
  exact ⟨method, body⟩

/-- The data of a request come from a string. -/
theorem request_plain {connection : Connection} {req : Request} {data : Bytes}
    (asked : connection.request = .ok (some req)) (given : (brokerRequest req.body).data = some data) :
    0 ∉ data := by
  obtain ⟨method, body⟩ := request_body asked
  have extracted := (bodyOf_get method _).2.2.1.symm.trans (body ▸ given)
  split at extracted
  · intro member
    have there := List.mem_takeWhile_imp (extractedValue_subset extracted member)
    simp at there
  · cases extracted

/-- An orderly connection that brings no byte at which the reading of a file ends. -/
structure Lasting (connection : Connection) : Prop extends Orderly connection where
  readable : ∀ req data, connection.request = .ok (some req) →
    (brokerRequest req.body).data = some data → 255 ∉ data

/-- The files that a process leaves when it is killed: between two steps, or after some of the
changes that a thread makes in its critical section. -/
inductive Killed (env : ServerEnvironment) (process : ServerProcess) :
    Option Connection → FileTree → Prop where
  | between : Killed env process none process.shared.world.system.tree
  | within {index : Nat} {connection : Connection} {thread : Option Request × Response}
      {effects : List Effect} (turn : process.threads[index]? = some ⟨connection, .holding thread⟩)
      (changes : ((serverThread env).critical thread process.shared).state.world.system.effects =
        process.shared.world.system.effects ++ effects) (count : Nat) :
      Killed env process (some connection)
        (replay (effects.take count) process.shared.world.system.tree)

/-- A process up to its end, and the connection in whose critical section it ends. -/
structure Life where
  env : ServerEnvironment
  events : List (Event Connection)
  process : ServerProcess
  stopped : Option Connection

/-- Processes of which each starts with the files that the one before has left, and the number of
connections that they have accepted. -/
inductive Lives (env : ServerEnvironment) (tree : FileTree) : List Life → Nat → FileTree → Prop where
  | start : Lives env tree [] 0 tree
  | killed {lives : List Life} {accepted : Nat} {before after : FileTree} {life : Life}
      {first : Machine} (lived : Lives env tree lives accepted before)
      (restores : Restores env.toEnvironment life.env.toEnvironment) (json : life.env.JsonReliable)
      (started : appInit life.env (.boot before) = .returned () first)
      (schedule : Schedule life.env first life.events life.process)
      (lasting : ∀ connection, .admitted connection ∈ life.events → Lasting connection)
      (killed : Killed life.env life.process life.stopped after) :
      Lives env tree (lives ++ [life]) (accepted + life.process.threads.length) after

/-- What the queues hold when the process has been killed: what the service holds, before or after
the request that is stopped, a message that is still empty, or a queue without some of its oldest
messages. -/
inductive Cut (env : ServerEnvironment) (accepted : Nat) (shelf : Shelf Bytes Bytes) :
    Option Connection → Shelf Bytes Bytes → Prop where
  | unchanged (stopped : Option Connection) : Cut env accepted shelf stopped shelf
  | finished {connection : Connection} {req : Option Request} {sent : Bytes}
      {later : Shelf Bytes Bytes} (asked : connection.request = .ok req)
      (sends : Sends env accepted shelf req sent later) :
      Cut env accepted shelf (some connection) later
  | unwritten {connection : Connection} {req : Request} {name : Bytes}
      (asked : connection.request = .ok (some req))
      (produces : (brokerRequest req.body).type = some brokerProduce)
      (named : (brokerRequest req.body).queueName = some name) :
      Cut env accepted shelf (some connection) (shelf.push name [])
  | shortened {connection : Connection} {req : Request} {name : Bytes}
      (asked : connection.request = .ok (some req))
      (removes : (brokerRequest req.body).type = some brokerRemoveQueue)
      (named : (brokerRequest req.body).queueName = some name) (count : Nat) :
      Cut env accepted shelf (some connection) (shelf.update name (List.drop count))

/-- What the service makes of the connections of all processes. -/
inductive Recounted : List Life → Shelf Bytes Bytes → Prop where
  | start : Recounted [] []
  | killed {lives : List Life} {life : Life} {outputs : List (Nat × Option Bytes)} {accepted : Nat}
      {found origin shelf later : Shelf Bytes Bytes} (recounted : Recounted lives found)
      (listed : origin.Perm found)
      (transcript : Transcript life.env origin life.events outputs accepted shelf)
      (answered : ∀ index connection sent,
        life.process.threads[index]? = some ⟨connection, .done sent⟩ → (index, sent) ∈ outputs)
      (cut : Cut life.env accepted shelf life.stopped later) : Recounted (lives ++ [life]) later

section Changes

variable {env : ServerEnvironment} {machine : Machine} {accepted served : Nat}
  {origin shelf later : Shelf Bytes Bytes} {req : Option Request}

/-- The changes of the files while a request is handled. -/
inductive Changes (env : Environment) (disk : Shelf Bytes Item) :
    Option Request → List Effect → Shelf Bytes Item → Prop where
  | refused : Changes env disk none [] disk
  | answered {req : Request} {effects : List Effect} {later : Shelf Bytes Item}
      (step : DiskStep env disk (command (brokerRequest req.body) disk) effects later) :
      Changes env disk (some req) effects later

/-- Handling a request changes the files in the steps of its command. -/
theorem responseHandle_changes (reliable : env.Reliable)
    (steady : Steady env accepted served shelf machine)
    (proper : ∀ parsed ∈ req, Service.Proper (brokerRequest parsed.body)) {handled : Response}
    {after : Machine} (ran : responseHandle env (newResponse req) machine = .returned handled after) :
    ∃ effects, after.world.system.effects = machine.world.system.effects ++ effects ∧
      Changes env.toEnvironment machine.shelf req effects after.shelf := by
  obtain ⟨headed, begun, headers, rest⟩ := bind_eq_returned.mp ran
  obtain ⟨keeps, same, system⟩ := onWorld_quiet (unseen_responseSetHeaders _) steady.synced.keeps headers
  obtain ⟨ready, listed⟩ := responseSetHeaders_run env (newResponse req) machine.world
  rw [run_onWorld, listed] at headers
  cases headers
  cases req with
  | none =>
      obtain ⟨_, left, ended⟩ := onWorld_quiet (fun origin => .bind
        (unseen_responseSetStatus _ _ origin) fun _ => unseen_responseSetError _ _ origin) keeps rest
      refine ⟨[], ?_, ?_⟩
      · rw [ended, system, List.append_nil]
      · rw [left, same]
        exact .refused
  | some parsed =>
      obtain ⟨answered, middle, dispatched, filled⟩ := bind_eq_returned.mp rest
      cases answered with
      | none => cases filled
      | some response =>
          have synced : Synced env.toBrokerEnvironment (machine.setWorld ready) machine.shelf :=
            ⟨keeps, by rw [system]; exact steady.synced.holds, steady.synced.bounded,
              by rw [same]; exact steady.synced.single⟩
          obtain ⟨effects, calls, ending, step, ends, ⟨later, onDisk, agrees⟩, _⟩ :=
            synced.follows (proper parsed rfl).single
          rw [show brokerDispatch env.toBrokerEnvironment (brokerRequest parsed.body)
              (machine.setWorld ready) = _ from
            dispatched] at ends
          cases ends with
          | answered shown kept handled =>
              obtain ⟨_, left, ended⟩ := onWorld_quiet (unseen_responseFill _ _)
                (kept.shelf_eq.symm ▸ kept) filled
              refine ⟨effects, ?_, ?_⟩
              · rw [ended, handled.effects, system]
              · rw [left, kept.shelf_eq, agrees reliable same _ _ rfl]
                exact .answered (same ▸ onDisk)

/-- What is found between two changes is there before or after them, or a message is empty. -/
theorem between_items {command : Command} {old new stopped : Shelf Bytes Item} {mailbox : Mailbox}
    {item : Item} (between : Between command old new stopped) (member : mailbox ∈ stopped)
    (inside : item ∈ mailbox.items) :
    (∃ other ∈ old, item ∈ other.items) ∨ (∃ other ∈ new, item ∈ other.items) ∨
      item.message = [] ∧ ∃ other ∈ new, ∃ whole ∈ other.items, whole.id = item.id := by
  cases between with
  | before => exact .inl ⟨mailbox, member, inside⟩
  | after => exact .inr (.inl ⟨mailbox, member, inside⟩)
  | @unwritten queue data message id produces written =>
      rcases Shelf.mem_update.mp member with ⟨_, there⟩ | ⟨_, items, there, more⟩
      · exact .inl ⟨mailbox, there, inside⟩
      · rw [more] at inside
        rcases List.mem_append.mp inside with before | last
        · exact .inl ⟨_, there, before⟩
        · cases List.mem_singleton.mp last
          have stored : ⟨queue.key, items ++ [⟨id, message⟩]⟩ ∈ new :=
            written.mem_iff.mpr (Shelf.mem_update.mpr (.inr ⟨rfl, items, there, rfl⟩))
          exact .inr (.inr ⟨rfl, _, stored, _,
            List.mem_append_right _ (List.mem_singleton_self _), rfl⟩)
  | shortened =>
      rcases Shelf.mem_update.mp member with ⟨_, there⟩ | ⟨_, items, there, fewer⟩
      · exact .inl ⟨mailbox, there, inside⟩
      · rw [fewer] at inside
        exact .inl ⟨_, there, List.mem_of_mem_drop inside⟩

def AllReadable (shelf : Shelf Bytes Bytes) : Prop :=
  ∀ queue ∈ shelf, ∀ message ∈ queue.items, Readable message

theorem AllReadable.item {disk : Shelf Bytes Item} (all : AllReadable (disk.seen Item.message))
    {mailbox : Mailbox} {item : Item} (member : mailbox ∈ disk) (inside : item ∈ mailbox.items) :
    Readable item.message :=
  all _ (Shelf.mem_seen member) _ (List.mem_map_of_mem inside)

theorem AllReadable.readBack {disk : Shelf Bytes Item} (all : AllReadable (disk.seen Item.message)) :
    disk.map Fifo.readBack = disk := by
  conv_rhs => rw [← List.map_id disk]
  refine List.map_congr_left fun mailbox member => ?_
  exact (readBack_mailbox_eq_iff fun item inside => (all.item member inside).1).mpr
    fun item inside => (all.item member inside).2

/-- Readable messages stay readable when a lasting connection is served. -/
theorem Sends.readable {connection : Connection} {sent : Bytes} (all : AllReadable shelf)
    (lasting : Lasting connection) (asked : connection.request = .ok req)
    (sends : Sends env accepted shelf req sent later) : AllReadable later := by
  cases sends with
  | refused => exact all
  | @answered parsed answer later moment served =>
      intro queue member message inside
      rcases Service.serve_messages served member inside with ⟨old, there, before⟩ | brought
      · exact all old there message before
      · cases given : (brokerRequest parsed.body).data with
        | none =>
            rw [given] at brought
            exact brought ▸ ⟨by simp, by simp⟩
        | some data =>
            rw [given] at brought
            exact brought ▸ ⟨request_plain asked given, lasting.readable parsed data asked given⟩

theorem Transcript.readable {events : List (Event Connection)} {outputs : List (Nat × Option Bytes)}
    (transcript : Transcript env origin events outputs accepted shelf) (all : AllReadable origin)
    (lasting : ∀ index connection, .served index connection ∈ events → Lasting connection) :
    AllReadable shelf := by
  induction transcript with
  | start => exact all
  | admitted _ _ ih =>
      exact ih fun index connection member => lasting index connection (List.mem_append_left _ member)
  | served index _ asked sends ih =>
      exact sends.readable
        (ih fun index connection member => lasting index connection (List.mem_append_left _ member))
        (lasting index _ (List.mem_append_right _ (List.mem_singleton_self _))) asked

/-- What is found between two changes, without the ids. -/
theorem between_cut {parsed : Request} {connection : Connection} {sent : Bytes}
    {disk new stopped : Shelf Bytes Item} (asked : connection.request = .ok (some parsed))
    (sends : Sends env accepted (disk.seen Item.message) (some parsed) sent (new.seen Item.message))
    (between : Between (command (brokerRequest parsed.body) disk) disk new stopped) :
    Cut env accepted (disk.seen Item.message) (some connection) (stopped.seen Item.message) := by
  have decodes := command_decodes (brokerRequest parsed.body) disk
  cases between with
  | before => exact .unchanged _
  | after => exact .finished asked sends
  | unwritten produces =>
      rw [produces] at decodes
      rw [Shelf.seen_push]
      cases decodes with
      | produce typed names => exact .unwritten asked typed names.named
      | read reads => cases reads
  | @shortened queue count removes =>
      rw [removes] at decodes
      rw [Shelf.seen_update fun _ => List.map_drop]
      cases decodes with
      | removeQueue typed names => exact .shortened asked typed names.named count
      | read reads => cases reads

/-- Files that hold what the service holds. -/
structure Remains (env : ServerEnvironment) (served : Nat) (shelf : Shelf Bytes Bytes)
    (tree : FileTree) (disk : Shelf Bytes Item) : Prop where
  holds : DiskHolds tree env.toEnvironment disk
  within : Service.Within served disk
  shown : disk.seen Item.message = shelf
  readable : AllReadable shelf

theorem Steady.remains (steady : Steady env accepted served shelf machine) (all : AllReadable shelf) :
    Remains env served shelf machine.world.system.tree machine.shelf :=
  ⟨steady.synced.holds, steady.within, steady.shown, all⟩

/-- What is left by a request of which only some changes have been made. -/
theorem Changes.remains {connection : Connection} {sent : Bytes} {effects : List Effect}
    {disk new : Shelf Bytes Item} {tree : FileTree}
    (changes : Changes env.toEnvironment disk req effects new)
    (before : Remains env served shelf tree disk) (few : served < 2147483647)
    (asked : connection.request = .ok req) (lasting : Lasting connection)
    (sends : Sends env accepted shelf req sent (new.seen Item.message))
    (within : Service.Within (served + 1) new) (count : Nat) :
    ∃ stopped later, Cut env accepted shelf (some connection) later ∧
      Remains env (served + 1) later (replay (effects.take count) tree) stopped := by
  have more : Service.Within (served + 1) disk := fun mailbox member item inside =>
    Nat.le_succ_of_le (before.within mailbox member item inside)
  cases changes with
  | refused =>
      rw [List.take_nil]
      exact ⟨disk, shelf, .unchanged _, before.holds, more, before.shown, before.readable⟩
  | answered step =>
      obtain ⟨stopped, holds, between⟩ := step.between before.holds (before.within.bounded few) count
      have readable := sends.readable before.readable lasting asked
      have all := before.readable
      rw [← before.shown] at all
      refine ⟨stopped, stopped.seen Item.message, ?_, holds, ?_, rfl, ?_⟩
      · rw [← before.shown] at sends ⊢
        exact between_cut asked sends between
      · intro mailbox member item inside
        rcases between_items between member inside with ⟨_, there, here⟩ | ⟨_, there, here⟩ |
          ⟨_, _, there, whole, here, same⟩
        · exact more _ there _ here
        · exact within _ there _ here
        · exact same ▸ within _ there _ here
      · intro queue member message inside
        obtain ⟨mailbox, stored, rfl⟩ := List.mem_map.mp member
        obtain ⟨item, there, rfl⟩ := List.mem_map.mp inside
        rcases between_items between stored there with ⟨_, old, here⟩ | ⟨_, new, here⟩ | ⟨empty, _⟩
        · exact all.item old here
        · exact readable.item new here
        · exact empty ▸ ⟨by simp, by simp⟩

variable {first : Machine} {events : List (Event Connection)} {process : ServerProcess}
  {tree left : FileTree} {stopped : Option Connection}

/-- What a process leaves that nothing but its end disturbs. -/
theorem killed_remains (json : env.JsonReliable) (reliable : env.Reliable)
    (start : Steady env 0 served origin first) (readable : AllReadable origin)
    (schedule : Schedule env first events process)
    (lasting : ∀ connection, .admitted connection ∈ events → Lasting connection)
    (few : served + process.threads.length < 2147483647) (killed : Killed env process stopped left) :
    ∃ outputs accepted shelf later disk, Transcript env origin events outputs accepted shelf ∧
      (∀ index connection sent, process.threads[index]? = some ⟨connection, .done sent⟩ →
        (index, sent) ∈ outputs) ∧
      Cut env accepted shelf stopped later ∧
      Remains env (served + process.threads.length) later left disk := by
  obtain ⟨outputs, last, accepted, shelf, serialized, transcript, steady⟩ :=
    schedule_transcript json reliable start schedule
      (fun connection member => (lasting connection member).toOrderly) few
  have ended : ∀ index connection sent, process.threads[index]? = some ⟨connection, .done sent⟩ →
      (index, sent) ∈ outputs := by
    intro index connection sent turn
    cases serialized.sound index _ turn with
    | done served => exact served
  have all : AllReadable shelf := by
    refine transcript.readable readable fun index connection event => ?_
    obtain ⟨phase, turn⟩ := serialized.asked index connection event
    exact lasting connection (schedule.admitted _ (List.mem_of_getElem? turn))
  have here := steady.remains all
  have more {count : Nat} {found : Shelf Bytes Bytes} {tree : FileTree} {disk : Shelf Bytes Item}
      (remains : Remains env count found tree disk) (le : count ≤ served + process.threads.length) :
      Remains env (served + process.threads.length) found tree disk :=
    { remains with within := fun mailbox member item inside =>
        (remains.within mailbox member item inside).trans le }
  cases killed with
  | between =>
      have served := serialized.length_le
      exact ⟨outputs, accepted, shelf, shelf, _, transcript, ended, .unchanged _,
        more here (by omega)⟩
  | @within index connection thread effects turn logged count =>
      cases serialized.sound index _ turn with
      | holding unserved prepared =>
          have room := serialized.length_lt turn unserved
          have own := lasting connection (schedule.admitted _ (List.mem_of_getElem? turn))
          obtain ⟨req, parsed⟩ := own.parsed
          have similar := similar_refl steady.synced.keeps
          obtain ⟨ready, began, _⟩ := @prepare_parsed env _ _ json connection req parsed similar
          have same := prepared _ _ similar
          rw [show (serverThread env).prepare connection process.shared = _ from began] at same
          cases same
          have proper : ∀ given ∈ req, Service.Proper (brokerRequest given.body) := by
            rintro given ⟨⟩
            exact own.proper given parsed
          obtain ⟨handled, after, sent, later, ran, _, sends, kept⟩ :=
            responseHandle_sends json reliable steady (by omega) proper
          obtain ⟨made, grown, changes⟩ := responseHandle_changes reliable steady proper ran
          have critical : (serverThread env).critical (req, newResponse req) process.shared =
              .returned (req, handled) after := by
            show (responseHandle env (newResponse req) >>= fun res => pure (req, res)) _ = _
            simp only [run_bind, ran, run_pure]
          rw [critical, Outcome.state_returned, grown] at logged
          obtain rfl := List.append_cancel_left logged
          obtain ⟨disk, found, cut, remains⟩ := changes.remains here (by omega) parsed own
            (kept.shown.symm ▸ sends) kept.within count
          exact ⟨outputs, accepted, shelf, found, disk, transcript, ended, cut,
            more remains (by omega)⟩

end Changes

section Lives

variable {env : ServerEnvironment} {tree left : FileTree} {lives : List Life} {accepted : Nat}
  {disk : Shelf Bytes Item}

theorem appInit_returns (reliable : env.Reliable) (holds : DiskHolds tree env.toEnvironment disk) :
    ∃ first, appInit env (.boot tree) = .returned () first := by
  let prepared := ((Machine.boot tree).setWorld
    ((((Machine.boot tree).world.allocate 1).allocate 1).allocate 1)).setPool .init
  have matching := queuePoolLoad_matches env.toEnvironment (show prepared.pool = .init from rfl)
  obtain ⟨loaded, perm, yields⟩ :=
    loadShelf_disk (show DiskHolds prepared.world.system.tree env.toEnvironment disk from holds)
  rcases yields with ⟨after, ran, _⟩ | ⟨unreliable, _⟩
  · have started : appInit env (.boot tree) = (queuePoolLoad env.toEnvironment >>= fun _ =>
      onWorld (.modify fun world => { world with requestCounter := 0 })) prepared := rfl
    rw [started, run_bind]
    rw [ran] at matching
    generalize queuePoolLoad env.toEnvironment prepared = outcome at matching ⊢
    cases matching with
    | returned kept => exact ⟨_, rfl⟩
  · exact absurd reliable unreliable

/-- Whenever servers are killed, what the last one leaves is what the service makes of the connections
of all of them, but for the requests that have been stopped. -/
theorem lives_remain (empty : EmptyData env.toEnvironment tree)
    (lived : Lives env tree lives accepted left) (few : accepted < 2147483647) :
    ∃ shelf disk, Recounted lives shelf ∧ Remains env accepted shelf left disk := by
  induction lived with
  | start =>
      exact ⟨[], [], .start, empty.holds, Service.Within.nil, rfl, by simp [AllReadable]⟩
  | @killed lives accepted before after life first _ restores json started schedule lasting killed ih =>
      obtain ⟨found, disk, recounted, remains⟩ := ih (by omega)
      have all := remains.readable
      rw [← remains.shown] at all
      have holds : DiskHolds before life.env.toEnvironment disk := remains.holds.of_cwd restores.cwd
      obtain ⟨steady, perm⟩ :=
        appInit_steady holds all.readBack remains.within (by omega) started
      have listed : (first.shelf.seen Item.message).Perm found := remains.shown ▸ perm.map _
      have readable : AllReadable (first.shelf.seen Item.message) :=
        fun queue member => remains.readable queue (listed.mem_iff.mp member)
      obtain ⟨outputs, count, shelf, later, stored, transcript, answered, cut, rest⟩ :=
        killed_remains json restores.reliable steady readable schedule lasting few killed
      exact ⟨later, stored, .killed recounted listed transcript answered cut,
        rest.holds.of_cwd restores.cwd.symm, rest.within, rest.shown, rest.readable⟩

/-- Servers that run under any schedules, are killed at any moment and are started again: every
answer is that of one service for the connections of all of them, one after the other, and no
restart loses anything of it.  Only of a request in whose critical section a server ends can a
part have been done: a message is still empty, or a queue lacks some of its oldest messages.  A new
server always starts and finds what the service holds. -/
theorem kills_recover (empty : EmptyData env.toEnvironment tree)
    (lived : Lives env tree lives accepted left) (few : accepted < 2147483647) :
    ∃ shelf, Recounted lives shelf ∧
      ∀ fresh : ServerEnvironment, Restores env.toEnvironment fresh.toEnvironment →
        ∃ first, appInit fresh (.boot left) = .returned () first ∧ first.Keeps first.shelf ∧
          (first.shelf.seen Item.message).Perm shelf := by
  obtain ⟨shelf, disk, recounted, remains⟩ := lives_remain empty lived few
  refine ⟨shelf, recounted, fun fresh restores => ?_⟩
  have holds : DiskHolds left fresh.toEnvironment disk := remains.holds.of_cwd restores.cwd
  obtain ⟨first, started⟩ := appInit_returns restores.reliable holds
  have all := remains.readable
  rw [← remains.shown] at all
  obtain ⟨steady, perm⟩ := appInit_steady holds all.readBack remains.within few started
  exact ⟨first, started, steady.synced.keeps, remains.shown ▸ perm.map _⟩

theorem adding_lasting : Lasting adding := by
  refine ⟨adding_orderly, fun req data parsed given => ?_⟩
  rw [adding_parsed] at parsed
  rw [← Option.some.inj (Except.ok.inj parsed),
    show (brokerRequest addingRequest.body).data = some (text "a") by decide +kernel] at given
  exact Option.some.inj given ▸ by decide

/-- A server that is killed when the directory of a new queue has been made. -/
def halfAdded : Life where
  env := epoch
  events := [.admitted adding]
  process := ⟨entered epoch emptyTree adding, some 0,
    [⟨adding, .holding (some addingRequest, newResponse (some addingRequest))⟩]⟩
  stopped := some adding

theorem kills_recover_computed : ∃ left shelf first, Lives epoch emptyTree [halfAdded] 1 left ∧
    Recounted [halfAdded] shelf ∧ appInit epoch (.boot left) = .returned () first ∧
    (first.shelf.seen Item.message).Perm shelf := by
  obtain ⟨first, started, schedule⟩ := @entered_schedule epoch emptyTree adding _ (fun _ => rfl)
    (by decide +kernel) adding_parsed
  have restores : Restores epoch.toEnvironment halfAdded.env.toEnvironment := ⟨fun _ _ => rfl, rfl⟩
  have changes : ((serverThread epoch).critical (some addingRequest, newResponse (some addingRequest))
      (entered epoch emptyTree adding)).state.world.system.effects =
        (entered epoch emptyTree adding).world.system.effects ++
          [.mkdir [text "a", text "data"]] := by
    decide +kernel
  have killed : Killed epoch halfAdded.process (some adding)
      (replay (List.take 1 [.mkdir [text "a", text "data"]])
        (entered epoch emptyTree adding).world.system.tree) :=
    @Killed.within epoch halfAdded.process 0 adding _ _ rfl changes 1
  have lasting (connection : Connection) (member : .admitted connection ∈ halfAdded.events) :
      Lasting connection := by
    rw [show connection = adding by simpa [halfAdded] using member]
    exact adding_lasting
  have lived : Lives epoch emptyTree [halfAdded] 1 _ :=
    @Lives.killed epoch emptyTree [] 0 emptyTree _ halfAdded first .start restores (fun _ => rfl)
      started schedule lasting killed
  obtain ⟨shelf, recounted, recovers⟩ := kills_recover emptyTree_empty lived (by omega)
  obtain ⟨again, restarted, _, perm⟩ := recovers epoch restores
  exact ⟨_, shelf, again, lived, recounted, restarted, perm⟩

end Lives

end Server

end Bmb
