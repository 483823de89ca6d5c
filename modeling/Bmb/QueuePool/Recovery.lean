import Bmb.Broker.Session
import Bmb.Persist.Disk

namespace Bmb

open Bmb.Base Bmb.Posix

/-! What a load makes of a disk that holds a shelf. -/

/-- The files and their history are as before. -/
structure World.FilesSame (before after : World) : Prop where
  tree : after.system.tree = before.system.tree
  effects : after.system.effects = before.system.effects

namespace World.FilesSame

variable {first second third : World} {calls : List PersistCall}

theorem refl (world : World) : FilesSame world world := ⟨rfl, rfl⟩

theorem trans (left : FilesSame first second) (right : FilesSame second third) :
    FilesSame first third :=
  ⟨right.tree.trans left.tree, right.effects.trans left.effects⟩

theorem of_handled (handled : first.Handled [] calls second) : FilesSame first second :=
  ⟨handled.tree, by rw [handled.effects, List.append_nil]⟩

end World.FilesSame

/-- The item that comes back from the file of an item. -/
def readBack (item : Item) : Item := ⟨item.id, cString (readChars item.message)⟩

def Base.Fifo.readBack (mailbox : Mailbox) : Mailbox := ⟨mailbox.key, mailbox.items.map Bmb.readBack⟩

variable {env : Environment} {shelf : Shelf Bytes Item} {mailbox : Mailbox} {world : World}

theorem nodeFile_small {name : Bytes} {id : Nat} (small : id < 2147483648) :
    nodeFile name id = nodePath (queuePath name) (intToString id) := by
  rw [nodeFile, toInt32_of_range (by omega) (by omega)]

/-- A program of the load comes to a value and leaves the files alone, unless a call fails:
then the process exits. -/
def Yields {α : Type} (env : Environment) (world : World) (program : Program World α) (value : α) :
    Prop :=
  (∃ after, program world = .returned value after ∧ world.FilesSame after) ∨
  (¬env.Reliable ∧ ∃ after, program world = .trapped (.exit exitFailure) after)

namespace Yields

variable {α β : Type} {program : Program World α} {value : α}

theorem bind {next : α → Program World β} {result : β} (first : Yields env world program value)
    (rest : ∀ after, world.FilesSame after → Yields env after (next value) result) :
    Yields env world (program >>= next) result := by
  rcases first with ⟨after, ran, same⟩ | ⟨unreliable, after, ran⟩
  · rcases rest after same with ⟨later, more, follows⟩ | ⟨unreliable, later, more⟩
    · exact .inl ⟨later, by rw [Program.run_bind, ran]; exact more, same.trans follows⟩
    · exact .inr ⟨unreliable, later, by rw [Program.run_bind, ran]; exact more⟩
  · exact .inr ⟨unreliable, after, by rw [Program.run_bind, ran]⟩

theorem optional {condition : Prop} [Decidable condition] {step : Program World Unit}
    {next : Unit → Program World α} (first : Yields env world step ())
    (rest : ∀ after, world.FilesSame after → Yields env after (next ()) value) :
    Yields env world (if condition then step >>= next else next ()) value := by
  split
  · exact first.bind rest
  · exact rest world (.refl _)

theorem pure : Yields env world (Pure.pure value) value := .inl ⟨world, rfl, .refl _⟩

theorem memAlloc : Yields env world Bmb.memAlloc () := .inl ⟨_, rfl, rfl, rfl⟩

theorem memFree : Yields env world Bmb.memFree () := .inl ⟨_, rfl, rfl, rfl⟩

theorem called {req : PersistRequest} {res : PersistResponse} {after : World}
    {calls : List PersistCall} {next : PersistResponse → Program World α}
    (ran : persistDispatch env req world = .returned res after)
    (handled : world.Handled [] calls after)
    (rest : ∀ later, world.FilesSame later → Yields env later (next res) value) :
    Yields env world (persistDispatch env req >>= next) value :=
  bind (.inl ⟨after, ran, .of_handled handled⟩) rest

theorem exited {req : PersistRequest} {message : Bytes} {after : World}
    {next : PersistResponse → Program World α} (unreliable : ¬env.Reliable)
    (ran : persistDispatch env req world =
      .returned { errorMessage := some message, success := false, data := .null } after)
    (stops : next { errorMessage := some message, success := false, data := .null } =
      .stop (.exit exitFailure)) :
    Yields env world (persistDispatch env req >>= next) value :=
  .inr ⟨unreliable, after, by simp only [Program.run_bind, ran, stops, Program.run_stop]⟩

end Yields

theorem loadItems_disk (items : List Item) (holds : DiskHolds world.system.tree env shelf)
    (member : mailbox ∈ shelf) (inside : ∀ item ∈ items, item ∈ mailbox.items) :
    Yields env world (loadItems env mailbox.key (items.map fun item => (item.id : Int)))
      (items.map readBack) := by
  induction items generalizing world with
  | nil => exact .pure
  | cons item items ih =>
      have here := inside item (by simp)
      have range := holds.range mailbox member item here
      have named : toUInt32 (item.id : Int) = item.id := toUInt32_of_nat (by omega)
      have nonzero : item.id ≠ 0 := by omega
      simp only [List.map_cons, loadItems, named]
      rcases readNode_run env mailbox.key world nonzero with
        ⟨content, read, can, ran, asked⟩ | ⟨cannot, message, read, ran, _⟩
      · rw [nodeFile_small range.2] at can
        obtain ⟨_, rfl⟩ := (holds.canRead_iff member here).mp can
        refine .called ran asked.handled fun later same => ?_
        refine Yields.memAlloc.bind fun one first => ?_
        refine Yields.memAlloc.bind fun two second => ?_
        refine Yields.memFree.bind fun three third => ?_
        have kept : DiskHolds three.system.tree env shelf := by
          rw [(((same.trans first).trans second).trans third).tree]
          exact holds
        exact (ih kept fun other old => inside other (by simp [old])).bind fun _ _ => .pure
      · refine .exited (fun reliable => cannot item.message ?_) ran rfl
        rw [nodeFile_small range.2]
        exact (holds.canRead_iff member here).mpr ⟨reliable _ _, rfl⟩

theorem loadMailbox_disk (first : Bool) (holds : DiskHolds world.system.tree env shelf)
    (member : mailbox ∈ shelf) :
    Yields env world (loadMailbox env first mailbox.key) mailbox.readBack := by
  have single := holds.single _ (Shelf.key_mem member)
  have all : ((mailbox.items.map fun item => (item.id : Int)).take
      (mailbox.items.length : Int).toNat) = mailbox.items.map fun item => (item.id : Int) := by
    rw [Int.toNat_natCast]
    exact List.take_of_length_le (by rw [List.length_map])
  unfold loadMailbox
  rcases readQueueCall_run env mailbox.key world with ⟨target, listed, can, ran, asked⟩ |
    ⟨cannot, message, listed, ran, _⟩
  · obtain ⟨_, rfl, _⟩ := (holds.canOpen_iff single).mp can
    rw [holds.nodeList_eq member] at ran
    refine .called ran asked.handled fun later same => ?_
    refine Yields.memAlloc.bind fun one first => ?_
    refine Yields.memAlloc.bind fun two second => ?_
    refine .optional .memAlloc fun three third => ?_
    have kept : DiskHolds three.system.tree env shelf := by
      rw [(((same.trans first).trans second).trans third).tree]
      exact holds
    simp only [List.tail_cons, List.headD_cons, all]
    refine (loadItems_disk mailbox.items kept member fun item inside => inside).bind
      fun read reading => ?_
    rcases getNextId_run env mailbox.key read with ⟨_, numbered, _, asking, asked⟩ |
      ⟨_, message, numbered, asking, asked⟩
    all_goals
      refine .called asking asked.handled fun _ _ => ?_
      exact .optional .memFree fun _ _ => Yields.memFree.bind fun _ _ => .pure
  · exact .exited (fun reliable => cannot _ ((holds.canOpen_iff single).mpr
      ⟨reliable _ _, rfl, Shelf.key_mem member⟩)) ran rfl

theorem loadMailboxes_disk (first : Bool) (mailboxes : List Mailbox)
    (holds : DiskHolds world.system.tree env shelf) (inside : ∀ mailbox ∈ mailboxes, mailbox ∈ shelf) :
    Yields env world (loadMailboxes env first (mailboxes.map Fifo.key))
      (mailboxes.map Fifo.readBack) := by
  induction mailboxes generalizing world first with
  | nil => exact .pure
  | cons mailbox mailboxes ih =>
      refine (loadMailbox_disk first holds (inside mailbox (by simp))).bind fun loaded same => ?_
      have kept : DiskHolds loaded.system.tree env shelf := by rw [same.tree]; exact holds
      exact (ih false kept fun other member => inside other (by simp [member])).bind fun _ _ => .pure

theorem exists_mailboxes {names : List Bytes} (perm : names.Perm shelf.keys) :
    ∃ mailboxes : List Mailbox, mailboxes.Perm shelf ∧ mailboxes.map Fifo.key = names := by
  induction shelf generalizing names with
  | nil => exact ⟨[], .refl _, by simpa using perm.symm.nil_eq⟩
  | cons mailbox shelf ih =>
      obtain ⟨left, right, rfl⟩ := List.append_of_mem (perm.mem_iff.mpr (by simp) :
        mailbox.key ∈ names)
      obtain ⟨mailboxes, same, shown⟩ := ih ((List.perm_middle.symm.trans perm).cons_inv)
      obtain ⟨front, back, rfl, rfl, rfl⟩ := List.map_eq_append_iff.mp shown
      exact ⟨front ++ mailbox :: back, List.perm_middle.trans (same.cons mailbox), by simp⟩

theorem loadShelf_disk (holds : DiskHolds world.system.tree env shelf) :
    ∃ loaded : Shelf Bytes Item, loaded.Perm (shelf.map Fifo.readBack) ∧
      Yields env world (loadShelf env) loaded := by
  unfold loadShelf
  rcases getQueueListCall_run env world with ⟨target, listed, can, ran, asked⟩ |
    ⟨cannot, message, listed, ran, _⟩
  · have reached := can.1.path_eq
    rw [target_dataPath] at reached
    subst reached
    obtain ⟨mailboxes, perm, keys⟩ := exists_mailboxes
      (holds.queueNames_perm world.system.clock)
    refine ⟨mailboxes.map Fifo.readBack, perm.map _, .called ran asked.handled fun later same => ?_⟩
    have kept : DiskHolds later.system.tree env shelf := by rw [same.tree]; exact holds
    rw [← keys]
    refine (loadMailboxes_disk true mailboxes kept
      fun mailbox member => perm.mem_iff.mp member).bind fun loaded _ => ?_
    exact .inl ⟨_, rfl, rfl, rfl⟩
  · have reaches (reliable : env.Reliable) :
        Reaches env .opendir dataPath world.system.tree world.system.clock env.dataDir :=
      ⟨reliable _ _, resolve_dataPath holds.cwd⟩
    exact ⟨_, .refl _, .exited (fun reliable => cannot env.dataDir ⟨reaches reliable, holds.data⟩)
      ran rfl⟩

/-- A load leaves the files alone and yields every queue with what can be read back from its
files, or a call fails and the process exits. -/
theorem queuePoolLoad_disk {tree : FileTree} (holds : DiskHolds tree env shelf) :
    (∃ machine, queuePoolLoad env (.boot tree) = .returned () machine ∧
      machine.Keeps machine.shelf ∧ machine.shelf.Perm (shelf.map Fifo.readBack) ∧
      machine.world.system.tree = tree ∧ machine.world.system.effects = []) ∨
    (¬env.Reliable ∧ ∃ machine, queuePoolLoad env (.boot tree) = .trapped (.exit exitFailure) machine) := by
  obtain ⟨loaded, perm, yields⟩ :=
    loadShelf_disk (show DiskHolds (Machine.boot tree).world.system.tree env shelf from holds)
  have matching := queuePoolLoad_matches env (show (Machine.boot tree).pool = .init from rfl)
  rcases yields with ⟨after, ran, same⟩ | ⟨unreliable, after, ran⟩
  · rw [ran] at matching
    generalize queuePoolLoad env (.boot tree) = outcome at matching
    cases matching with
    | returned kept =>
        have shown := kept.shelf_eq
        exact .inl ⟨_, rfl, shown.symm ▸ kept, shown.symm ▸ perm, same.tree, same.effects⟩
  · rw [ran] at matching
    generalize queuePoolLoad env (.boot tree) = outcome at matching
    cases matching with
    | trapped => exact .inr ⟨unreliable, _, rfl⟩

theorem queuePoolLoad_reliable {tree : FileTree} (reliable : env.Reliable)
    (holds : DiskHolds tree env shelf) :
    ∃ machine, queuePoolLoad env (.boot tree) = .returned () machine ∧
      machine.Keeps machine.shelf ∧ machine.shelf.Perm (shelf.map Fifo.readBack) ∧
      machine.world.system.tree = tree ∧ machine.world.system.effects = [] :=
  (queuePoolLoad_disk holds).resolve_right fun failed => failed.1 reliable

/-! ## What can be read back -/

theorem toChar_eq_EOF {byte : UInt8} : toChar byte = EOF ↔ byte = 255 := by
  have bound := byte.toNat_lt
  rw [← UInt8.toNat_inj]
  simp only [toChar, EOF, UInt8.reduceToNat]
  split <;> omega

/-- Reading stops before the first byte 0xFF. -/
theorem readChars_eq (bytes : Bytes) : readChars bytes = bytes.takeWhile (· ≠ 255) := by
  induction bytes with
  | nil => rfl
  | cons byte rest ih =>
      simp only [readChars, toChar_eq_EOF, ih, List.takeWhile_cons]
      by_cases same : byte = 255 <;> simp [same]

/-- A text comes back from its file if and only if it does not contain the byte 0xFF. -/
theorem readBack_eq_iff {item : Item} (text : 0 ∉ item.message) :
    readBack item = item ↔ 255 ∉ item.message := by
  have part : 0 ∉ readChars item.message := by
    rw [readChars_eq]
    exact fun member => text ((List.takeWhile_prefix _).subset member)
  have unfolded : readBack item = item ↔ readChars item.message = item.message := by
    obtain ⟨id, message⟩ := item
    simp [readBack, cString_of_no_nul part]
  rw [unfolded, readChars_eq, List.takeWhile_eq_self_iff]
  constructor
  · intro all member
    simpa using all 255 member
  · intro absent byte member
    simp only [ne_eq, decide_not, Bool.not_eq_eq_eq_not, Bool.not_true, decide_eq_false_iff_not]
    rintro rfl
    exact absent member

theorem readBack_mailbox_eq_iff (text : ∀ item ∈ mailbox.items, 0 ∉ item.message) :
    mailbox.readBack = mailbox ↔ ∀ item ∈ mailbox.items, 255 ∉ item.message := by
  have unfolded : mailbox.readBack = mailbox ↔ mailbox.items.map readBack = mailbox.items := by
    obtain ⟨key, items⟩ := mailbox
    simp [Fifo.readBack]
  rw [unfolded]
  conv_lhs => rw [← List.map_id mailbox.items, List.map_map, Function.comp_id, List.map_inj_left]
  exact forall₂_congr fun item member => readBack_eq_iff (text item member)

end Bmb
