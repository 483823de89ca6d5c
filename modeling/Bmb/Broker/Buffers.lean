import Bmb.Broker.Session
import Bmb.Http.Client
import Bmb.Http.Response
import Bmb.Persist.Buffers

namespace Bmb

open Bmb.Base Bmb.Base.Program Bmb.Posix

/-! The arrays for paths along the requests of a run. -/

theorem World.Answered.fits {before after : World} (answered : before.Answered after)
    (fits : Fits before) : Fits after := by
  intro path built
  rw [answered.paths] at built
  exact fits path built

theorem Answering.fits {α : Type} {post : α → Prop} {program : Program World α}
    (answering : Answering post program) : Keeps Fits program := by
  intro world fits
  obtain ⟨value, after, ran, answered, _⟩ := answering world
  rw [ran]
  exact answered.fits fits

variable (env : BrokerEnvironment)

theorem deliver_fits (item : Item) : Keeps Fits (Ledger.deliver env item) := by
  intro world fits
  obtain ⟨res, after, ran, answered, _⟩ := deliver_run env item world
  rw [ran]
  exact answered.fits fits

/-! ## Commands -/

/-- The names and ids from which a command builds paths are short enough. -/
def Command.Short (env : Environment) (tree : FileTree) (time : Nat) (shelf : Shelf Bytes Item) :
    Command → Prop
  | .consume mailbox => ∀ item ∈ mailbox.items.head?,
      NameFits mailbox.key ∧ (item.id ≠ 0 → NodeFits mailbox.key (toInt32 item.id))
  | .produce mailbox _ => NameFits mailbox.key ∧
      ∀ target, CanOpen env (queuePath mailbox.key) tree (time + 1) target →
        CanOpen env (queuePath mailbox.key) tree (time + 3) target →
        nextIdAt env tree (time + 3) target ≠ 0 →
        NodeFits mailbox.key (toInt32 (nextIdAt env tree (time + 3) target))
  | .addQueue name => name ∉ shelf.keys → NameFits name
  | .removeQueue mailbox => DirectoryFits env tree mailbox.key
  | _ => True

namespace Ledger

/-- The paths that have been built from a ledger. -/
abbrev Fits (ledger : Ledger) : Prop := Bmb.Fits ledger.world

variable {env} {tree : FileTree} {time : Nat}

theorem onWorld_fits {α : Type} {program : Program World α} (keeps : Keeps Bmb.Fits program) :
    Keeps Fits (onWorld program) :=
  .zoom (fun _ _ => rfl) keeps

theorem respond_fits (success : Bool) (code : Nat) (message data errorMessage : Option Bytes) :
    Keeps Fits (respond env success code message data errorMessage) :=
  onWorld_fits (createResponse_answering env _ _ _ _ _).fits

theorem onShelf_fits (f : Shelf Bytes Item → Shelf Bytes Item) : Keeps Fits (onShelf f) :=
  .modify fun _ fits => fits

theorem consume_fits {mailbox : Mailbox}
    (short : ∀ item ∈ mailbox.items.head?,
      NameFits mailbox.key ∧ (item.id ≠ 0 → NodeFits mailbox.key (toInt32 item.id))) :
    Keeps Fits (consume env mailbox) := by
  obtain ⟨key, items⟩ := mailbox
  cases items with
  | nil => exact respond_fits _ _ _ _ _
  | cons item rest =>
      obtain ⟨named, node⟩ := short item rfl
      refine .bind (onWorld_fits (queueCall_fits (by decide) named node)) fun pres => ?_
      cases pres.success with
      | true => exact .bind (onShelf_fits _) fun _ => onWorld_fits (deliver_fits env item)
      | false => exact .stop _

theorem addQueue_fits {name : Bytes} {shelf : Shelf Bytes Item}
    (short : name ∉ shelf.keys → NameFits name) :
    Triple (fun ledger => ledger.Fits ∧ ledger.shelf = shelf) (addQueue env name)
      (fun _ => Fits) Fits := by
  rintro ledger ⟨fits, rfl⟩
  by_cases member : name ∈ ledger.shelf.keys
  · have known : addQueue env name ledger = respond env false 200
        (some (text "Failed: Queue with given name already exists.")) none none ledger := by
      simp only [addQueue, run_bind, run_read, if_pos member]
    rw [known]
    exact respond_fits _ _ _ _ _ ledger fits
  · have call : Keeps Fits (onWorld
        (persistDispatch env.toEnvironment ⟨.addQueue, some name, 0, none⟩)) :=
      onWorld_fits (queueCall_fits (by decide) (short member) fun positive => absurd rfl positive)
    have last : Keeps Fits (do
        onShelf (Shelf.create name)
        respond env true 200 (some (text "Queue created.")) none none) :=
      .bind (onShelf_fits _) fun _ => respond_fits _ _ _ _ _
    have rest : Keeps Fits (addFresh env name ledger.shelf) := by
      refine .bind call fun pres => ?_
      cases pres.success with
      | false => exact respond_fits _ _ _ _ _
      | true =>
          rw [if_pos rfl]
          split
          · exact .bind (onWorld_fits memAlloc_fits) fun _ => last
          · exact last
    rw [addQueue_fresh env member]
    exact rest _ fits

/-- A world at a time, with its files. -/
def At (tree : FileTree) (time : Nat) (world : World) : Prop :=
  world.system.tree = tree ∧ world.system.clock = time

theorem getNextId_at (name : Bytes) :
    Triple (At tree time)
      (persistDispatch env.toEnvironment ⟨.getNextId, some name, 0, none⟩)
      (fun res after => At tree (time + 2) after ∧ ∀ nextId, res.data = .nextId nextId →
        ∃ target, CanOpen env.toEnvironment (queuePath name) tree (time + 1) target ∧
          nextId = nextIdAt env.toEnvironment tree (time + 1) target)
      (fun _ => True) := by
  rintro world ⟨rfl, rfl⟩
  rcases getNextId_run env.toEnvironment name world with ⟨target, after, can, ran, asked⟩ |
    ⟨_, message, after, ran, asked⟩ <;> rw [ran]
  · refine ⟨⟨asked.system.tree, asked.system.clock⟩, fun nextId same => ?_⟩
    simp only [persistSuccess, PersistData.nextId.injEq] at same
    exact ⟨target, can, same.symm⟩
  · refine ⟨⟨asked.system.tree, asked.system.clock⟩, fun nextId same => ?_⟩
    contradiction

theorem producedId_fits {name : Bytes} (named : NameFits name) :
    Triple (fun world => Bmb.Fits world ∧ At tree time world) (producedId env name)
      (fun _ after => (Bmb.Fits after ∧ At tree (time + 2) after) ∧
        ∃ target, CanOpen env.toEnvironment (queuePath name) tree (time + 1) target) Bmb.Fits := by
  have call : Keeps Bmb.Fits (persistDispatch env.toEnvironment ⟨.getNextId, some name, 0, none⟩) :=
    queueCall_fits (by decide) named fun positive => absurd rfl positive
  refine .bind (call.and (getNextId_at name)) fun res world holds => ?_
  obtain ⟨fits, here, found⟩ := holds
  cases given : res.data with
  | nextId nextId =>
      obtain ⟨target, can, _⟩ := found nextId given
      simp only [nextIdFrom, run_bind, run_pure, run_memAlloc, run_memFree]
      exact ⟨⟨fits, here⟩, target, can⟩
  | null | queue | queueList | content => exact fits

theorem storeCalls_fits {name : Bytes} {message : Option Bytes} (named : NameFits name)
    (node : ∀ target, CanOpen env.toEnvironment (queuePath name) tree (time + 1) target →
      nextIdAt env.toEnvironment tree (time + 1) target ≠ 0 →
      NodeFits name (toInt32 (nextIdAt env.toEnvironment tree (time + 1) target))) :
    Triple (fun world => Bmb.Fits world ∧ At tree time world)
      (storeCalls env.toEnvironment name message) (fun _ => Bmb.Fits) Bmb.Fits := by
  have call : Keeps Bmb.Fits (persistDispatch env.toEnvironment ⟨.getNextId, some name, 0, none⟩) :=
    queueCall_fits (by decide) named fun positive => absurd rfl positive
  refine .bind (call.and (getNextId_at name)) fun res world holds => ?_
  obtain ⟨fits, here, found⟩ := holds
  cases given : res.data with
  | nextId nextId =>
      obtain ⟨target, can, same⟩ := found nextId given
      have file : nextId ≠ 0 → NodeFits name (toInt32 nextId) := by
        rw [same]
        exact node target can
      have stored : Keeps Bmb.Fits (do
          memFree
          let pres ← persistDispatch env.toEnvironment ⟨.addNode, some name, nextId, message⟩
          pure pres.success) :=
        .bind memFree_fits fun _ => .bind (queueCall_fits (by decide) named file) fun _ => .pure _
      exact stored world fits
  | null | queue | queueList | content => exact fits

theorem produce_fits {mailbox : Mailbox} {data : Bytes} (named : NameFits mailbox.key)
    (node : ∀ target, CanOpen env.toEnvironment (queuePath mailbox.key) tree (time + 1) target →
      CanOpen env.toEnvironment (queuePath mailbox.key) tree (time + 3) target →
      nextIdAt env.toEnvironment tree (time + 3) target ≠ 0 →
      NodeFits mailbox.key (toInt32 (nextIdAt env.toEnvironment tree (time + 3) target))) :
    Triple (fun ledger => ledger.Fits ∧ At tree time ledger.world) (produce env mailbox data)
      (fun _ => Fits) Fits := by
  refine .bind (.zoom (fun _ _ => rfl) (producedId_fits named)) fun newNodeId ledger holds => ?_
  obtain ⟨here, first, opened⟩ := holds
  have store : Triple (fun world => Bmb.Fits world ∧ At tree (time + 2) world)
      (storeCalls env.toEnvironment mailbox.key (some data)) (fun _ => Bmb.Fits) Bmb.Fits := by
    refine storeCalls_fits named fun target can => node target ?_ can
    rw [can.1.path_eq, ← opened.1.path_eq]
    exact opened
  have rest : Triple (fun ledger => ledger.Fits ∧ At tree (time + 2) ledger.world) (do
      if ← onWorld (storeCalls env.toEnvironment mailbox.key (some data)) then
        onShelf (Shelf.push mailbox.key ⟨newNodeId, data⟩)
      else pure ()
      respond env true 200 (some (text "Message produced.")) none none) (fun _ => Fits) Fits := by
    refine .bind (.zoom (fun _ _ => rfl) store) fun stored => ?_
    cases stored with
    | true => exact Keeps.bind (onShelf_fits _) fun _ => respond_fits _ _ _ _ _
    | false => exact respond_fits _ _ _ _ _
  exact rest ledger here

theorem removeQueue_fits {mailbox : Mailbox}
    (short : DirectoryFits env.toEnvironment tree mailbox.key) :
    Triple (fun ledger => ledger.Fits ∧ ledger.world.system.tree = tree) (removeQueue env mailbox)
      (fun _ => Fits) Fits := by
  refine .bind (.zoom (fun _ _ => rfl) (removeQueueCall_fits short)) fun pres => ?_
  cases pres.success with
  | true =>
      refine Keeps.bind (onShelf_fits _) fun _ => Keeps.bind .read fun ledger => ?_
      refine .bind (onWorld_fits (.modify fun _ fits => fits)) fun _ => ?_
      exact respond_fits _ _ _ _ _
  | false =>
      exact Keeps.bind (onWorld_fits (memFreeNullable_fits _)) fun _ => respond_fits _ _ _ _ _

theorem get_fits (mailbox : Mailbox) (index : Nat) : Keeps Fits (get env mailbox index) := by
  unfold get
  split
  · exact onWorld_fits (respondCopied_answering env _).fits
  · exact respond_fits _ _ _ _ _

/-- A command with short names and ids builds no path that is too long, however it ends. -/
theorem execute_fits {command : Command} {ledger : Ledger} (fits : ledger.Fits)
    (short : command.Short env.toEnvironment ledger.world.system.tree ledger.world.system.clock
      ledger.shelf) :
    Fits (execute env command ledger).state := by
  cases command with
  | untyped => exact (Keeps.stop _).state fits
  | rejected message => exact (Keeps.map (respond_fits _ _ _ _ _)).state fits
  | unknown => exact (Keeps.pure _).state fits
  | consume mailbox => exact (Keeps.map (consume_fits short)).state fits
  | produce mailbox data =>
      exact (Triple.map (produce_fits short.1 short.2)).state ⟨fits, rfl, rfl⟩
  | length mailbox => exact (Keeps.map (onWorld_fits (lengthResponse_answering env _).fits)).state fits
  | get mailbox index => exact (Keeps.map (get_fits mailbox index)).state fits
  | getAll mailbox =>
      exact (Keeps.map (onWorld_fits (itemsResponse_answering env _).fits)).state fits
  | addQueue name => exact (Triple.map (addQueue_fits short)).state ⟨fits, rfl⟩
  | getAllQueueNames =>
      have answer : Keeps Fits (getAllQueueNames env) :=
        .bind .read fun ledger => onWorld_fits (listNames_answering env ledger.shelf.keys).fits
      exact (Keeps.map answer).state fits
  | removeQueue mailbox =>
      exact (Triple.map (removeQueue_fits short)).state ⟨fits, rfl⟩

end Ledger

/-! ## Loads -/

/-- The names of all queues that a load finds, and of their files, are short enough. -/
def LoadShort (env : Environment) (tree : FileTree) : Prop :=
  ∀ target, CanOpen env dataPath tree 0 target →
    ∀ name ∈ queueNames (entriesAt env tree 0 target), DirectoryFits env tree name

section Loads

variable {env : Environment} {tree : FileTree} {name : Bytes}

theorem loadItems_fits {ids : List Int} (short : DirectoryFits env tree name) {time : Nat}
    {target : Path} (can : CanOpen env (queuePath name) tree time target)
    (listed : ∀ id ∈ ids, id ∈ nodeIds (entriesAt env tree time target)) :
    Triple (FitsOn tree) (loadItems env name ids) (fun _ => FitsOn tree) Fits := by
  induction ids with
  | nil => exact .pure fun _ fits => fits
  | cons id rest ih =>
      have inside := listed id List.mem_cons_self
      have node : NodeFits name (toInt32 (toUInt32 id)) := by
        rw [nodeId_roundTrip inside]
        exact short.2 time target can id inside
      refine .bind (readNodeCall_fitsOn short.1 node) fun pnres => .under fun _ => ?_
      cases pnres.data with
      | null | nextId | queue | queueList => exact .stop fun _ fits => fits.1
      | content nodeContent =>
          refine .bind memAlloc_fitsOn fun _ => .bind memAlloc_fitsOn fun _ => ?_
          refine .bind memFree_fitsOn fun _ => .bind (ih fun other later => ?_) fun _ => ?_
          · exact listed other (List.mem_cons_of_mem _ later)
          · exact .pure fun _ fits => fits

theorem loadMailbox_fits (first : Bool) (short : DirectoryFits env tree name) :
    Triple (FitsOn tree) (loadMailbox env first name) (fun _ => FitsOn tree) Fits := by
  have finished (items : List Item) : Triple (FitsOn tree) (do
      let pidres ← persistDispatch env ⟨.getNextId, some name, 0, none⟩
      if pidres.success then memFree else pure ()
      memFree
      pure ⟨name, items⟩ : Program World Mailbox) (fun _ => FitsOn tree) Fits := by
    have freed : Triple (FitsOn tree) (do
        memFree
        pure ⟨name, items⟩ : Program World Mailbox) (fun _ => FitsOn tree) Fits :=
      .bind memFree_fitsOn fun _ => .pure fun _ fits => fits
    refine .bind (getNextIdCall_fitsOn short.1) fun pidres => .under fun _ => ?_
    dsimp only
    split
    · exact .bind memFree_fitsOn fun _ => freed
    · exact freed
  refine .bind (readQueueCall_fitsOn short.1) fun pqres => .under fun listed => ?_
  cases given : pqres.data with
  | null | nextId | content | queueList => exact .stop fun _ fits => fits.1
  | queue queueNodes =>
      obtain ⟨time, target, can, ids⟩ := listed queueNodes given
      have inside : ∀ id ∈ queueNodes.tail.take (queueNodes.headD 0).toNat,
          id ∈ nodeIds (entriesAt env tree time target) :=
        fun id member => ids ▸ List.mem_of_mem_take member
      have items := (loadItems_fits short can inside).bind finished
      refine .bind memAlloc_fitsOn fun _ => .bind memAlloc_fitsOn fun _ => ?_
      dsimp only
      split
      · exact .bind memAlloc_fitsOn fun _ => items
      · exact items

theorem loadMailboxes_fits (first : Bool) {names : List Bytes}
    (short : ∀ name ∈ names, DirectoryFits env tree name) :
    Triple (FitsOn tree) (loadMailboxes env first names) (fun _ => FitsOn tree) Fits := by
  induction names generalizing first with
  | nil => exact .pure fun _ fits => fits
  | cons name rest ih =>
      refine .bind (loadMailbox_fits first (short name List.mem_cons_self)) fun _ => ?_
      refine .bind (ih false fun other later => ?_) fun _ => .pure fun _ fits => fits
      exact short other (List.mem_cons_of_mem _ later)

/-- A load of short names builds no path that is too long, whether it returns or not. -/
theorem loadShelf_fits (short : LoadShort env tree) :
    Fits (loadShelf env { system := { tree } }).state := by
  have loads : Triple (fun world => FitsOn tree world ∧ world.system.clock = 0) (loadShelf env)
      (fun _ => Fits) Fits := by
    refine .bind getQueueListCall_fitsOn fun pres => .under fun listed => ?_
    cases given : pres.data with
    | null | nextId | content | queue => exact .stop fun _ fits => fits.1
    | queueList queueList =>
        obtain ⟨target, can, same⟩ := listed queueList given
        refine .bind (loadMailboxes_fits true fun name member => ?_) fun _ => ?_
        · exact short target can name (same ▸ member)
        · exact .bind (.modify fun _ fits => fits.1) fun _ => .pure fun _ fits => fits
  refine loads.state ⟨⟨fun path built => ?_, rfl⟩, rfl⟩
  exact absurd built List.not_mem_nil

end Loads

/-! ## Runs -/

variable {env} {tree : FileTree} {first machine : Machine} {req : BrokerRequest}

/-- The names and ids from which a request builds paths are short enough. -/
def ShortRequest (env : BrokerEnvironment) (before : Machine) (req : BrokerRequest)
    (_after : Machine) : Prop :=
  (command req before.shelf).Short env.toEnvironment before.world.system.tree
    before.world.system.clock before.shelf

theorem queuePoolLoad_fits (short : LoadShort env.toEnvironment tree) :
    Fits (queuePoolLoad env.toEnvironment (.boot tree)).state.world := by
  have read := loadShelf_fits short
  have loading := queuePoolLoad_matches env.toEnvironment (show (Machine.boot tree).pool = .init from rfl)
  rw [show (Machine.boot tree).world = { system := { tree } } from rfl] at loading
  generalize queuePoolLoad env.toEnvironment (.boot tree) = left at loading
  generalize loadShelf env.toEnvironment { system := { tree } } = right at loading read
  cases loading <;> exact read

theorem ShortRequest.fits {after : Machine} (short : ShortRequest env machine req after)
    (keeps : machine.Keeps machine.shelf) (fits : Fits machine.world) :
    Fits (brokerDispatch env req machine).state.world := by
  have same := (brokerDispatch_matches env req
    (show Tracks machine ⟨machine.shelf, machine.world⟩ from ⟨keeps, rfl⟩)).states
  rw [same.world]
  exact Ledger.execute_fits fits short

/-- Along every run of requests with short names and ids no path is too long for its array, not
even in a load or in a last request that does not come to its end. -/
theorem paths_fit (short : LoadShort env.toEnvironment tree) :
    Fits (queuePoolLoad env.toEnvironment (.boot tree)).state.world ∧
      ∀ first, queuePoolLoad env.toEnvironment (.boot tree) = .returned () first →
        ∀ machine, Session env (ShortRequest env) first machine →
          Fits machine.world ∧ ∀ req after, ShortRequest env machine req after →
            Fits (brokerDispatch env req machine).state.world := by
  have start := queuePoolLoad_fits short
  refine ⟨start, fun first loaded machine session => ?_⟩
  rw [loaded] at start
  have run : machine.Keeps machine.shelf ∧ Fits machine.world := by
    refine @Session.invariant _ _ _ _ (fun machine => machine.Keeps machine.shelf ∧ Fits machine.world)
      session ⟨(loaded_keeps rfl loaded).1, start⟩ ?_
    rintro before req response after ⟨keeps, fits⟩ short ran
    obtain ⟨_, _, _, _, _, kept, _⟩ := answered_step keeps ran
    have later := short.fits keeps fits
    rw [ran] at later
    exact ⟨kept, later⟩
  exact ⟨run.2, fun req after short => short.fits run.1 run.2⟩

theorem paths_fit_computed :
    Fits ((loaded faithful emptyTree).asked faithful (request "addQueue" none (some "a"))).world := by
  have short : LoadShort faithful.toEnvironment emptyTree := by
    intro target can name listed
    rw [can.1.path_eq, show queueNames _ = [] by decide +kernel] at listed
    exact absurd listed List.not_mem_nil
  have adds : ShortRequest faithful (loaded faithful emptyTree)
      (request "addQueue" none (some "a"))
      ((loaded faithful emptyTree).asked faithful (request "addQueue" none (some "a"))) := by
    rw [ShortRequest, command_addQueue rfl ⟨rfl, by decide⟩]
    exact fun _ => show (text "a").length ≤ 42 by decide
  exact ((paths_fit short).2 _ (loaded_returned (by decide +kernel)) _
    (Session.start.asked _ (by decide +kernel) adds)).1

/-- A request to add a queue with a name of 43 bytes, as a client sends it. -/
def longMessage : Http.HttpRequest where
  method := text "POST"
  target := text "/"
  version := text "HTTP/1.1"
  headers := [text "Host: localhost:8080"]
  body := text "type=addQueue&data=" ++ List.replicate 43 97

/-- The request that becomes of it. -/
def addLongName : BrokerRequest :=
  ⟨some (text "addQueue"), none, none, 0, some (List.replicate 43 97)⟩

theorem longMessage_complete : longMessage.Complete :=
  ⟨by decide, by decide, by decide +kernel, by decide +kernel⟩

/-- A client can ask for a queue whose path does not fit its array. -/
theorem path_overflows :
    (∀ world, ∃ request after,
      Http.requestParse (longMessage.bytes ++ [0]) world = .returned (some request) after ∧
        Http.brokerRequest request.body = addLongName) ∧
      Reachable faithful ((loaded faithful emptyTree).asked faithful addLongName) ∧
      ¬Fits ((loaded faithful emptyTree).asked faithful addLongName).world := by
  refine ⟨fun world => ?_, ?_, fun fits => ?_⟩
  · obtain ⟨after, ran⟩ := longMessage_complete.requestParse_run [] world
    exact ⟨_, after, ran, by decide +kernel⟩
  · exact (Reachable.loaded (by decide +kernel)).asked _ (by decide +kernel)
  · have built : queuePath (List.replicate 43 97) ∈
        ((loaded faithful emptyTree).asked faithful addLongName).world.paths := by decide +kernel
    exact absurd (fits _ built) (by decide +kernel)

end Bmb
