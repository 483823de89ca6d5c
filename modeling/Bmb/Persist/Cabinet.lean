import Bmb.Base.Lookup
import Bmb.Persist.Removal
import Bmb.Broker.Agreement

namespace Bmb

open Bmb.Base Bmb.Posix

/-! The data directory as a map from names to maps from ids to contents, and `persist_dispatch`
as the way to use it. -/

abbrev Drawer := Nat → Option Bytes

abbrev Cabinet := Bytes → Option Drawer

def drawerOf (items : List Item) : Drawer := lookup Item.id Item.message items

def cabinetOf (shelf : Shelf Bytes Item) : Cabinet :=
  lookup Fifo.key (fun mailbox => drawerOf mailbox.items) shelf

/-- A request to `persist_dispatch`, with what it needs. -/
inductive Chore where
  | addQueue (name : Bytes)
  | removeQueue (name : Bytes)
  | readQueue (name : Bytes)
  | getQueueList
  | addNode (name : Bytes) (id : Nat) (content : Option Bytes)
  | removeNode (name : Bytes) (id : Nat)
  | readNode (name : Bytes) (id : Nat)
  | getNextId (name : Bytes)

namespace Chore

def request : Chore → PersistRequest
  | addQueue name => ⟨.addQueue, some name, 0, none⟩
  | removeQueue name => ⟨.removeQueue, some name, 0, none⟩
  | readQueue name => ⟨.readQueue, some name, 0, none⟩
  | getQueueList => ⟨.getQueueList, none, 0, none⟩
  | addNode name id content => ⟨.addNode, some name, id, content⟩
  | removeNode name id => ⟨.removeNode, some name, id, none⟩
  | readNode name id => ⟨.readNode, some name, id, none⟩
  | getNextId name => ⟨.getNextId, some name, 0, none⟩

/-- The queue that has to be there. -/
def queue : Chore → Option Bytes
  | addQueue _ | getQueueList => none
  | removeQueue name | readQueue name | addNode name _ _ | removeNode name _ | readNode name _
  | getNextId name => some name

/-- Names are single components of a path, and ids are positive and have a successor. -/
def Proper : Chore → Prop
  | addQueue name | removeQueue name | readQueue name | getNextId name => IsComponent name
  | getQueueList => True
  | addNode name id _ | removeNode name id | readNode name id =>
      IsComponent name ∧ 0 < id ∧ id < 2147483647

end Chore

/-- What a chore gives, or `none` if it is refused, and what it leaves. -/
inductive Cabinet.Does (cabinet : Cabinet) : Chore → Option PersistData → Cabinet → Prop where
  | added {name : Bytes} (absent : cabinet name = none) :
      Does cabinet (.addQueue name) (some .null) (Function.update cabinet name (some fun _ => none))
  | stands {name : Bytes} (present : cabinet name ≠ none) :
      Does cabinet (.addQueue name) (some .null) cabinet
  | removed {name : Bytes} (present : cabinet name ≠ none) :
      Does cabinet (.removeQueue name) (some .null) (Function.update cabinet name none)
  | read {name : Bytes} {drawer : Drawer} {ids : List Nat} (present : cabinet name = some drawer)
      (ascending : ids.Pairwise (· < ·)) (all : ∀ id, id ∈ ids ↔ drawer id ≠ none) :
      Does cabinet (.readQueue name)
        (some (.queue ((ids.length : Int) :: ids.map fun id : Nat => (id : Int)))) cabinet
  | listed {names : List Bytes} (distinct : names.Nodup)
      (all : ∀ name, name ∈ names ↔ cabinet name ≠ none) :
      Does cabinet .getQueueList (some (.queueList names)) cabinet
  | stored {name : Bytes} {drawer : Drawer} {id : Nat} {content : Option Bytes}
      (present : cabinet name = some drawer) :
      Does cabinet (.addNode name id content) (some .null)
        (Function.update cabinet name
          (some (Function.update drawer id (some (content.getD (text "(null)"))))))
  | dropped {name : Bytes} {drawer : Drawer} {id : Nat} (present : cabinet name = some drawer)
      (there : drawer id ≠ none) :
      Does cabinet (.removeNode name id) (some .null)
        (Function.update cabinet name (some (Function.update drawer id none)))
  | shown {name content : Bytes} {drawer : Drawer} {id : Nat} (present : cabinet name = some drawer)
      (there : drawer id = some content) :
      Does cabinet (.readNode name id) (some (.content (readChars content))) cabinet
  | follows {name : Bytes} {drawer : Drawer} {next : Nat} (present : cabinet name = some drawer)
      (positive : 0 < next) (above : ∀ id, drawer id ≠ none → id < next)
      (least : next = 1 ∨ drawer (next - 1) ≠ none) :
      Does cabinet (.getNextId name) (some (.nextId next)) cabinet
  | missing {chore : Chore} {name : Bytes} (needs : chore.queue = some name)
      (absent : cabinet name = none) : Does cabinet chore none cabinet
  | unremoved {name : Bytes} {drawer : Drawer} {id : Nat} (present : cabinet name = some drawer)
      (absent : drawer id = none) : Does cabinet (.removeNode name id) none cabinet
  | unshown {name : Bytes} {drawer : Drawer} {id : Nat} (present : cabinet name = some drawer)
      (absent : drawer id = none) : Does cabinet (.readNode name id) none cabinet

/-! ## Shelves as maps -/

section Shelves

variable {shelf : Shelf Bytes Item} {mailbox : Mailbox} {name content : Bytes} {items : List Item}
  {id : Nat} {f : List Item → List Item}

theorem cabinetOf_eq_none : cabinetOf shelf name = none ↔ name ∉ shelf.keys := lookup_eq_none

theorem cabinetOf_ne_none : cabinetOf shelf name ≠ none ↔ name ∈ shelf.keys := by
  rw [ne_eq, cabinetOf_eq_none, not_not]

theorem cabinetOf_mem (distinct : shelf.keys.Nodup) (member : mailbox ∈ shelf) :
    cabinetOf shelf mailbox.key = some (drawerOf mailbox.items) :=
  (lookup_eq_some distinct).mpr ⟨mailbox, member, rfl, rfl⟩

theorem cabinetOf_create (fresh : name ∉ shelf.keys) :
    cabinetOf (shelf.create name) = Function.update (cabinetOf shelf) name (some fun _ => none) :=
  @lookup_append_singleton _ _ _ Fifo.key (fun mailbox : Mailbox => drawerOf mailbox.items) shelf
    ⟨name, []⟩ _ fresh

theorem cabinetOf_remove :
    cabinetOf (shelf.remove name) = Function.update (cabinetOf shelf) name none := lookup_filter name

theorem cabinetOf_update (distinct : shelf.keys.Nodup) (member : mailbox ∈ shelf) :
    cabinetOf (shelf.update mailbox.key f) =
      Function.update (cabinetOf shelf) mailbox.key (some (drawerOf (f mailbox.items))) := by
  funext name
  by_cases same : name = mailbox.key
  · rw [same, Function.update_self]
    have distinct : (shelf.update mailbox.key f).keys.Nodup := by rwa [Shelf.keys_update]
    exact cabinetOf_mem distinct (Shelf.mem_update_self member)
  · rw [Function.update_of_ne same]
    refine lookup_map (fun row => ?_) fun row here => ?_
    · split <;> rfl
    · exact if_neg (here ▸ same)

theorem drawerOf_ne_none : drawerOf items id ≠ none ↔ id ∈ items.map Item.id := by
  rw [ne_eq, drawerOf, lookup_eq_none, not_not]

theorem drawerOf_eq_some (ascending : Ascending items) :
    drawerOf items id = some content ↔ ⟨id, content⟩ ∈ items := by
  rw [drawerOf, lookup_eq_some (ids_nodup ascending)]
  constructor
  · intro there
    obtain ⟨item, member, rfl, rfl⟩ := there
    exact member
  · exact fun member => ⟨_, member, rfl, rfl⟩

end Shelves

/-! ## One request -/

section Chores

variable {env : Environment} {tree : FileTree} {shelf later : Shelf Bytes Item} {mailbox : Mailbox}
  {world after : World} {chore : Chore} {name content : Bytes} {id ticks : Nat} {call : PersistCall}

/-- What a response says. -/
inductive Tells : PersistResponse → Option PersistData → Prop where
  | success (data : PersistData) : Tells (persistSuccess data) (some data)
  | failure (message : Bytes) : Tells ⟨some message, false, .null⟩ none

/-- A request that is answered as the map says, and leaves files that hold what the map says. -/
def Files (env : Environment) (world : World) (shelf : Shelf Bytes Item) (chore : Chore) : Prop :=
  ∃ outcome response after later, persistDispatch env chore.request world = .returned response after ∧
    Tells response outcome ∧ DiskHolds after.system.tree env later ∧
    (cabinetOf shelf).Does chore outcome (cabinetOf later)

theorem Files.answered {effects : List Effect} {data : PersistData}
    (ran : persistDispatch env chore.request world = .returned (persistSuccess data) after)
    (asked : world.Asked ticks effects call after)
    (left : DiskHolds (replay effects world.system.tree) env later)
    (does : (cabinetOf shelf).Does chore (some data) (cabinetOf later)) : Files env world shelf chore := by
  rw [← asked.system.tree] at left
  exact ⟨_, _, after, later, ran, .success data, left, does⟩

theorem Files.refused {message : Bytes}
    (ran : persistDispatch env chore.request world = .returned ⟨some message, false, .null⟩ after)
    (asked : world.Asked ticks [] call after) (holds : DiskHolds world.system.tree env shelf)
    (does : (cabinetOf shelf).Does chore none (cabinetOf shelf)) : Files env world shelf chore := by
  rw [← replay_nil world.system.tree, ← asked.system.tree] at holds
  exact ⟨_, _, after, shelf, ran, .failure message, holds, does⟩

theorem Files.missing {message : Bytes}
    (ran : persistDispatch env chore.request world = .returned ⟨some message, false, .null⟩ after)
    (asked : world.Asked ticks [] call after) (holds : DiskHolds world.system.tree env shelf)
    (needs : chore.queue = some name) (absent : name ∉ shelf.keys) : Files env world shelf chore :=
  .refused ran asked holds (.missing needs (cabinetOf_eq_none.mpr absent))

/-- The file of an item is created or given its content, whatever there was before. -/
theorem DiskHolds.apply_placed {effect : Effect} (holds : DiskHolds tree env shelf)
    (member : mailbox ∈ shelf) (range : 0 < id ∧ id < 2147483648)
    (place : effect.path = decimal id :: mailbox.key :: env.dataDir)
    (there : (effect.apply tree).get (decimal id :: mailbox.key :: env.dataDir) = some (.file content)) :
    DiskHolds (effect.apply tree) env
      (shelf.update mailbox.key (placed Item.id ⟨id, content⟩)) := by
  have ascending := holds.ascending mailbox member
  have sorted : Ascending (placed Item.id ⟨id, content⟩ mailbox.items) := placed_sorted ascending
  refine holds.apply_file member place ?_ ?_ sorted ?_
  · rw [there]
    exact (fileAt_of_mem sorted (mem_placed.mpr (.inl rfl))).symm
  · intro other different
    have unlike : decide (decimal id = other) = false := by simpa using Ne.symm different
    rw [fileAt, find?_placed ascending unlike, fileAt]
    intro item same sameId
    rw [decide_eq_true_eq] at same
    exact different (same ▸ congrArg decimal sameId)
  · intro item inside
    rcases mem_placed.mp inside with rfl | ⟨old, _⟩
    · exact range
    · exact holds.range mailbox member item old

theorem not_reaches_node (holds : DiskHolds tree env shelf) (single : IsComponent name)
    (absent : name ∉ shelf.keys) {value : Int} {kind : Call} {time : Nat} {target : Path} :
    ¬Reaches env kind (nodePath (queuePath name) (intToString value)) tree time target := by
  intro reaches
  have there := resolve_nodePath_inside single reaches.resolved
  rw [holds.queues, if_neg absent] at there
  contradiction

theorem nodeFile_eq (small : id < 2147483648) :
    nodeFile name id = nodePath (queuePath name) (intToString id) := by
  rw [nodeFile, toInt32_of_range (by omega) (by omega)]

/-- All files of a queue are unlinked, and then its directory. -/
theorem DiskHolds.apply_removal {items : List Item} (holds : DiskHolds tree env shelf)
    (member : ⟨name, items⟩ ∈ shelf) :
    DiskHolds (replay (Bmb.unlinkAll env name items ++ [.rmdir (name :: env.dataDir)]) tree) env
      (shelf.remove name) := by
  have all : ⟨name, items ++ []⟩ ∈ shelf := by rwa [List.append_nil]
  have emptied := Shelf.mem_update_self (f := List.drop items.length) member
  have gone := (holds.unlinkAll items all).apply_rmdir emptied List.drop_length
  rw [replay_append]
  rwa [Shelf.remove_update] at gone

theorem exists_mailbox (present : name ∈ shelf.keys) : ∃ items, (⟨name, items⟩ : Mailbox) ∈ shelf := by
  obtain ⟨⟨_, items⟩, member, rfl⟩ := List.mem_map.mp present
  exact ⟨items, member⟩

section Calls

variable (reliable : env.Reliable) (holds : DiskHolds world.system.tree env shelf)
  (single : IsComponent name)

include reliable holds single

theorem addQueue_files : Files env world shelf (.addQueue name) := by
  rcases addQueueCall_run env name world with ⟨ticks, effects, after, ran, asked, why⟩ |
    ⟨ticks, message, after, ran, asked, why⟩
  · rcases why with ⟨rfl, target, can⟩ | ⟨target, rfl, can⟩
    · have present := ((holds.canOpen_iff single).mp can).2.2
      exact .answered ran asked holds (.stands (cabinetOf_ne_none.mpr present))
    · obtain ⟨_, rfl, absent⟩ := (holds.canMake_iff single).mp can
      refine .answered ran asked (holds.apply_mkdir single absent) ?_
      rw [cabinetOf_create absent]
      exact .added (cabinetOf_eq_none.mpr absent)
  · obtain ⟨closed, unmade⟩ := why (name :: env.dataDir)
      ((holds.reaches_queue single).mpr ⟨reliable _ _, rfl⟩)
    have absent : name ∉ shelf.keys := fun present =>
      closed ((holds.canOpen_iff single).mpr ⟨reliable _ _, rfl, present⟩)
    have nothing : world.system.tree.get (name :: env.dataDir) = none := by
      rw [holds.queues, if_neg absent]
    exact absurd ((holds.canMake_iff single).mpr ⟨reliable _ _, rfl, absent⟩) (unmade nothing)

theorem removeQueue_files : Files env world shelf (.removeQueue name) := by
  by_cases present : name ∈ shelf.keys
  · obtain ⟨items, member⟩ := exists_mailbox present
    rcases removeQueueCall_run env name world with ⟨effects, ticks, after, removal, ran, asked⟩ |
      ⟨effects, ticks, message, after, removal, ran, asked⟩ | ⟨removal, _⟩
    · cases removal.disk holds single with
      | nothing unfinished => exact absurd rfl unfinished
      | @whole items member =>
          refine .answered ran asked (holds.apply_removal member) ?_
          rw [cabinetOf_remove]
          exact .removed (cabinetOf_ne_none.mpr present)
    · exact absurd (removal.reliable holds member reliable) (by simp)
    · exact absurd (removal.reliable holds member reliable) (by simp)
  · rcases removeQueueCall_run env name world with ⟨effects, ticks, after, removal, ran, asked⟩ |
      ⟨effects, ticks, message, after, removal, ran, asked⟩ | ⟨removal, _⟩
    · cases removal.disk holds single with
      | nothing unfinished => exact absurd rfl unfinished
      | whole member => exact absurd (Shelf.key_mem member) present
    · cases removal.disk holds single with
      | nothing unfinished => exact .missing ran asked holds rfl present
      | partly member => exact absurd (Shelf.key_mem member) present
    · have opened := (removal.none_iff.mp rfl).1
      exact absurd ((holds.canOpen_iff single).mp opened).2.2 present

theorem readQueue_files : Files env world shelf (.readQueue name) := by
  rcases readQueueCall_run env name world with ⟨target, after, can, ran, asked⟩ |
    ⟨cannot, message, after, ran, asked⟩
  · obtain ⟨_, rfl, present⟩ := (holds.canOpen_iff single).mp can
    obtain ⟨items, member⟩ := exists_mailbox present
    have listed := holds.nodeList_eq member (world.system.clock + 1)
    rw [listed, show items.length = (items.map Item.id).length by rw [List.length_map],
      show (items.map fun item => (item.id : Int)) = (items.map Item.id).map fun id : Nat => (id : Int) by
        rw [List.map_map]; rfl] at ran
    exact .answered ran asked holds (.read (cabinetOf_mem holds.distinct member)
      (List.pairwise_map.mpr (holds.ascending _ member)) fun id => drawerOf_ne_none.symm)
  · have absent : name ∉ shelf.keys := fun present =>
      cannot _ ((holds.canOpen_iff single).mpr ⟨reliable _ _, rfl, present⟩)
    exact .missing ran asked holds rfl absent

theorem getNextId_files : Files env world shelf (.getNextId name) := by
  rcases getNextId_run env name world with ⟨target, after, can, ran, asked⟩ |
    ⟨cannot, message, after, ran, asked⟩
  · obtain ⟨_, rfl, present⟩ := (holds.canOpen_iff single).mp can
    obtain ⟨items, member⟩ := exists_mailbox present
    have ascending := holds.ascending _ member
    rw [holds.nextIdAt_eq member] at ran
    refine .answered ran asked holds (.follows (cabinetOf_mem holds.distinct member)
      (followingId_pos items) (fun id there => ?_) ?_)
    · obtain ⟨item, inside, rfl⟩ := List.mem_map.mp (drawerOf_ne_none.mp there)
      exact lt_followingId ascending inside
    · dsimp only
      unfold followingId
      cases last : items.getLast? with
      | none => exact .inl rfl
      | some item =>
          exact .inr (drawerOf_ne_none.mpr (List.mem_map_of_mem (List.mem_of_getLast? last)))
  · have absent : name ∉ shelf.keys := fun present =>
      cannot _ ((holds.canOpen_iff single).mpr ⟨reliable _ _, rfl, present⟩)
    exact .missing ran asked holds rfl absent

theorem addNode_files {given : Option Bytes} (positive : 0 < id) (small : id < 2147483648) :
    Files env world shelf (.addNode name id given) := by
  have ran := addNode_run env name given world positive.ne'
  rw [nodeFile_eq small] at ran
  by_cases present : name ∈ shelf.keys
  · obtain ⟨items, member⟩ := exists_mailbox present
    rcases ran with ⟨target, after, can, ran, asked⟩ | ⟨cannot, _⟩
    · obtain ⟨_, rfl⟩ := (holds.canCreate_iff member _).mp can
      rw [formatInt_nat, storeEffects, if_neg (by simp [reliable _ _])] at asked
      have created := holds.apply_placed member ⟨positive, small⟩
        (show Effect.path (.create _) = _ from rfl) FileTree.get_set_self
      have emptied := Shelf.mem_update_self (f := placed Item.id ⟨id, []⟩) member
      have written := created.apply_placed emptied ⟨positive, small⟩
        (show Effect.path (.write _ (given.getD (text "(null)"))) = _ from rfl) FileTree.get_set_self
      refine .answered ran asked written ?_
      -- The empty file that is there between the two changes is not seen any more.
      rw [cabinetOf_update created.distinct emptied, cabinetOf_update holds.distinct member,
        Function.update_idem, drawerOf, lookup_placed (placed_sorted (holds.ascending _ member)),
        lookup_placed (holds.ascending _ member), Function.update_idem]
      exact .stored (cabinetOf_mem holds.distinct member)
    · exact absurd ((holds.canCreate_iff member _).mpr ⟨reliable _ _, rfl⟩) (cannot _)
  · rcases ran with ⟨target, after, can, _⟩ | ⟨cannot, message, after, ran, asked⟩
    · exact absurd can.1 (not_reaches_node holds single present)
    · exact .missing ran asked holds rfl present

theorem removeNode_files (positive : 0 < id) (small : id < 2147483648) :
    Files env world shelf (.removeNode name id) := by
  have ran := removeNodeCall_run env name world positive.ne'
  rw [nodeFile_eq small] at ran
  by_cases present : name ∈ shelf.keys
  · obtain ⟨items, member⟩ := exists_mailbox present
    have drawer := cabinetOf_mem holds.distinct member
    rcases ran with ⟨target, after, can, ran, asked⟩ | ⟨cannot, message, after, ran, asked⟩
    · obtain ⟨_, rfl, item, inside, same⟩ := (holds.canUnlink_iff member _).mp can
      rw [formatInt_nat] at same asked
      refine .answered ran asked (holds.apply_unlink id member) ?_
      rw [cabinetOf_update holds.distinct member, drawerOf, lookup_filter id]
      refine .dropped drawer (drawerOf_ne_none.mpr ?_)
      exact decimal_injective same ▸ List.mem_map_of_mem inside
    · refine .refused ran asked holds (.unremoved drawer (lookup_eq_none.mpr fun inside => ?_))
      obtain ⟨item, there, rfl⟩ := List.mem_map.mp inside
      exact cannot _ ((holds.canUnlink_iff member _).mpr ⟨reliable _ _, rfl, item, there,
        (formatInt_nat _).symm⟩)
  · rcases ran with ⟨target, after, can, _⟩ | ⟨cannot, message, after, ran, asked⟩
    · exact absurd can.1 (not_reaches_node holds single present)
    · exact .missing ran asked holds rfl present

theorem readNode_files (positive : 0 < id) (small : id < 2147483648) :
    Files env world shelf (.readNode name id) := by
  have ran := readNode_run env name world positive.ne'
  rw [nodeFile_eq small] at ran
  by_cases present : name ∈ shelf.keys
  · obtain ⟨items, member⟩ := exists_mailbox present
    have drawer := cabinetOf_mem holds.distinct member
    by_cases there : id ∈ items.map Item.id
    · obtain ⟨item, inside, rfl⟩ := List.mem_map.mp there
      rcases ran with ⟨content, after, can, ran, asked⟩ | ⟨cannot, _⟩
      · obtain ⟨_, rfl⟩ := (holds.canRead_iff member inside).mp can
        exact .answered ran asked holds (.shown drawer
          ((drawerOf_eq_some (holds.ascending _ member)).mpr inside))
      · exact absurd ((holds.canRead_iff member inside).mpr ⟨reliable _ _, rfl⟩) (cannot _)
    · rcases ran with ⟨content, after, ⟨path, reaches, found⟩, _⟩ | ⟨cannot, message, after, ran, asked⟩
      · obtain ⟨_, rfl⟩ := (holds.reaches_node member _).mp reaches
        have nothing : fileAt items (decimal id) = none := by
          refine fileAt_eq_none.mpr fun item inside same => there ?_
          exact decimal_injective same ▸ List.mem_map_of_mem inside
        rw [formatInt_nat, holds.files _ member, nothing] at found
        simp at found
      · exact .refused ran asked holds (.unshown drawer (lookup_eq_none.mpr there))
  · rcases ran with ⟨content, after, ⟨path, reaches, _⟩, _⟩ | ⟨cannot, message, after, ran, asked⟩
    · exact absurd reaches (not_reaches_node holds single present)
    · exact .missing ran asked holds rfl present

end Calls

theorem getQueueList_files (reliable : env.Reliable) (holds : DiskHolds world.system.tree env shelf) :
    Files env world shelf .getQueueList := by
  rcases getQueueListCall_run env world with ⟨target, after, can, ran, asked⟩ | ⟨cannot, _⟩
  · have reached := can.1.path_eq
    rw [target_dataPath] at reached
    subst reached
    have names := holds.queueNames_perm world.system.clock
    exact .answered ran asked holds (.listed (names.nodup_iff.mpr holds.distinct)
      fun name => names.mem_iff.trans cabinetOf_ne_none.symm)
  · exact absurd ⟨⟨reliable _ _, resolve_dataPath holds.cwd⟩, holds.data⟩ (cannot env.dataDir)

/-- When nothing fails, a request does with the files what it does with the map. -/
theorem Chore.Proper.files (proper : chore.Proper) (reliable : env.Reliable)
    (holds : DiskHolds world.system.tree env shelf) : Files env world shelf chore := by
  cases chore with
  | addQueue name => exact addQueue_files reliable holds proper
  | removeQueue name => exact removeQueue_files reliable holds proper
  | readQueue name => exact readQueue_files reliable holds proper
  | getQueueList => exact getQueueList_files reliable holds
  | addNode name id content =>
      exact addNode_files reliable holds proper.1 proper.2.1 (by have := proper.2.2; omega)
  | removeNode name id =>
      exact removeNode_files reliable holds proper.1 proper.2.1 (by have := proper.2.2; omega)
  | readNode name id =>
      exact readNode_files reliable holds proper.1 proper.2.1 (by have := proper.2.2; omega)
  | getNextId name => exact getNextId_files reliable holds proper

end Chores

/-! ## Runs -/

/-- Requests to `persist_dispatch`, one after the other, with their responses. -/
inductive Filing (env : Environment) (first : World) : List (Chore × PersistResponse) → World → Prop where
  | start : Filing env first [] first
  | asked {log : List (Chore × PersistResponse)} {before after : World} {chore : Chore}
      {response : PersistResponse} (filing : Filing env first log before) (proper : chore.Proper)
      (ran : persistDispatch env chore.request before = .returned response after) :
      Filing env first (log ++ [(chore, response)]) after

/-- Responses that tell of a map, empty at first, what becomes of it. -/
inductive Cabinet.Record : List (Chore × PersistResponse) → Cabinet → Prop where
  | start : Record [] fun _ => none
  | did {log : List (Chore × PersistResponse)} {before after : Cabinet} {chore : Chore}
      {response : PersistResponse} {outcome : Option PersistData} (record : Record log before)
      (tells : Tells response outcome) (does : before.Does chore outcome after) :
      Record (log ++ [(chore, response)]) after

section Runs

variable {env : Environment} {first last : World} {log : List (Chore × PersistResponse)}

theorem Filing.record (reliable : env.Reliable) (empty : EmptyData env first.system.tree)
    (filing : Filing env first log last) :
    ∃ shelf, DiskHolds last.system.tree env shelf ∧ Cabinet.Record log (cabinetOf shelf) := by
  induction filing with
  | start => exact ⟨[], empty.holds, .start⟩
  | asked filing proper ran ih =>
      obtain ⟨shelf, holds, record⟩ := ih
      obtain ⟨outcome, response, after, later, again, tells, left, does⟩ := proper.files reliable holds
      rw [ran] at again
      cases again
      exact ⟨later, left, .did record tells does⟩

/-- Every list of requests is answered to its end. -/
theorem exists_filing (reliable : env.Reliable) (empty : EmptyData env first.system.tree)
    {chores : List Chore} (proper : ∀ chore ∈ chores, chore.Proper) :
    ∃ log last, Filing env first log last ∧ log.map Prod.fst = chores := by
  induction chores using List.reverseRecOn with
  | nil => exact ⟨[], first, .start, rfl⟩
  | append_singleton chores chore ih =>
      obtain ⟨log, last, filing, same⟩ := ih fun other member => proper other (List.mem_append_left _ member)
      obtain ⟨shelf, holds, _⟩ := filing.record reliable empty
      have here := proper chore (List.mem_append_right _ List.mem_cons_self)
      obtain ⟨_, response, after, _, ran, _⟩ := here.files reliable holds
      exact ⟨log ++ [(chore, response)], after, .asked filing here ran, by rw [List.map_append, same]; rfl⟩

/-- `persist_dispatch` is a store.  From an empty data directory, and when nothing fails, the
responses to any requests are those of a map from names to maps from ids to contents, the files
are those of the map, and every further request is answered. -/
theorem persist_keeps (reliable : env.Reliable) (empty : EmptyData env first.system.tree)
    (filing : Filing env first log last) :
    ∃ shelf, Cabinet.Record log (cabinetOf shelf) ∧ DiskHolds last.system.tree env shelf ∧
      ∀ chore : Chore, chore.Proper → ∃ response after,
        persistDispatch env chore.request last = .returned response after := by
  obtain ⟨shelf, holds, record⟩ := filing.record reliable empty
  refine ⟨shelf, record, holds, fun chore proper => ?_⟩
  obtain ⟨_, response, after, _, ran, _⟩ := proper.files reliable holds
  exact ⟨response, after, ran⟩

/-- Two nodes are stored against the order of their ids, and listed. -/
theorem persist_keeps_computed : ∃ log shelf,
    log.map Prod.fst = [.addQueue (text "a"), .addNode (text "a") 7 (some (text "x")),
      .addNode (text "a") 3 (some (text "y")), .readQueue (text "a")] ∧
    Cabinet.Record log (cabinetOf shelf) := by
  have single : IsComponent (text "a") := by decide
  obtain ⟨log, last, filing, same⟩ := @exists_filing faithful.toEnvironment
    { system := { tree := emptyTree } } (fun _ _ => rfl) emptyTree_empty
    [.addQueue (text "a"), .addNode (text "a") 7 (some (text "x")),
      .addNode (text "a") 3 (some (text "y")), .readQueue (text "a")] (by
      simp only [List.forall_mem_cons]
      exact ⟨single, ⟨single, by decide⟩, ⟨single, by decide⟩, single, by simp⟩)
  obtain ⟨shelf, record, _⟩ := persist_keeps (fun _ _ => rfl) emptyTree_empty filing
  exact ⟨log, shelf, same, record⟩

end Runs

end Bmb
