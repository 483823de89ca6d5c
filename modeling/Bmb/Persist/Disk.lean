import Bmb.Persist.Listing
import Bmb.Persist.Paths
import Bmb.Queue.Holds

namespace Bmb

open Bmb.Base Bmb.Posix

/-! What the data directory holds, as a shelf of queues. -/

/-- The file of a list of items that has a name. -/
def fileAt (items : List Item) (file : Name) : Option Entry :=
  (items.find? fun item => decimal item.id = file).map fun item => .file item.message

/-- The ids of a list of items grow. -/
abbrev Ascending (items : List Item) : Prop := items.Pairwise fun left right => left.id < right.id

/-- The data directory holds exactly the queues of a shelf, each as a directory with
exactly one file for each of its items. -/
structure DiskHolds (tree : FileTree) (env : Environment) (shelf : Shelf Bytes Item) : Prop where
  cwd : tree.get env.cwd = some .directory
  data : tree.get env.dataDir = some .directory
  distinct : shelf.keys.Nodup
  single : ∀ name ∈ shelf.keys, IsComponent name
  queues : ∀ name, tree.get (name :: env.dataDir) =
    if name ∈ shelf.keys then some .directory else none
  files : ∀ mailbox ∈ shelf, ∀ file,
    tree.get (file :: mailbox.key :: env.dataDir) = fileAt mailbox.items file
  others : ∀ name ∉ shelf.keys, ∀ file, tree.get (file :: name :: env.dataDir) = none
  ascending : ∀ mailbox ∈ shelf, Ascending mailbox.items
  range : ∀ mailbox ∈ shelf, ∀ item ∈ mailbox.items, 0 < item.id ∧ item.id < 2147483648

/-! ## Files and listings -/

section Items

variable {items : List Item} {item : Item} {file : Name}

theorem fileAt_eq_some {entry : Entry} (found : fileAt items file = some entry) :
    ∃ item ∈ items, decimal item.id = file ∧ entry = .file item.message := by
  obtain ⟨item, search, shown⟩ := Option.map_eq_some_iff.mp found
  exact ⟨item, List.mem_of_find?_eq_some search, by simpa using List.find?_some search, shown.symm⟩

theorem fileAt_ne_none : fileAt items file ≠ none ↔ ∃ item ∈ items, decimal item.id = file := by
  simp [fileAt]

theorem fileAt_eq_none : fileAt items file = none ↔ ∀ item ∈ items, decimal item.id ≠ file := by
  simp [fileAt]

theorem ids_nodup (ascending : Ascending items) :
    (items.map Item.id).Nodup := by
  rw [List.Nodup, List.pairwise_map]
  exact ascending.imp (fun less => Nat.ne_of_lt less)

theorem fileAt_of_mem (ascending : Ascending items)
    (member : item ∈ items) : fileAt items (decimal item.id) = some (.file item.message) := by
  cases found : fileAt items (decimal item.id) with
  | none => exact absurd rfl (fileAt_eq_none.mp found item member)
  | some entry =>
      obtain ⟨other, inside, same, shown⟩ := fileAt_eq_some found
      rw [shown, List.inj_on_of_nodup_map (ids_nodup ascending) inside member
        (decimal_injective same)]

/-- The id that comes after those of a list of items. -/
def followingId (items : List Item) : Nat :=
  match items.getLast? with
  | none => 1
  | some item => item.id + 1

theorem lt_followingId (ascending : Ascending items)
    (member : item ∈ items) : item.id < followingId items := by
  rcases List.eq_nil_or_concat items with rfl | ⟨front, last, rfl⟩
  · simp at member
  · rw [List.concat_eq_append] at ascending member ⊢
    simp only [followingId, List.getLast?_append_of_ne_nil _ (List.cons_ne_nil last []),
      List.getLast?_singleton]
    rcases List.mem_append.mp member with earlier | same
    · have := (List.pairwise_append.mp ascending).2.2 item earlier last (by simp)
      omega
    · rw [List.mem_singleton.mp same]
      omega

theorem followingId_pos (items : List Item) : 0 < followingId items := by
  unfold followingId
  split <;> omega

end Items

/-! ## What calls find on such a disk -/

namespace DiskHolds

variable {tree : FileTree} {env other : Environment} {shelf after : Shelf Bytes Item}
  {mailbox : Mailbox} {name : Bytes} {time : Nat} {target : Path}

theorem of_cwd (holds : DiskHolds tree env shelf) (same : other.cwd = env.cwd) :
    DiskHolds tree other shelf := by
  have data : other.dataDir = env.dataDir := by rw [Environment.dataDir, same, Environment.dataDir]
  obtain ⟨cwd, dataIs, distinct, single, queues, files, others, ascending, range⟩ := holds
  rw [← same] at cwd
  rw [← data] at dataIs queues files others
  exact ⟨cwd, dataIs, distinct, single, queues, files, others, ascending, range⟩

theorem of_perm (holds : DiskHolds tree env shelf) (perm : shelf.Perm after) :
    DiskHolds tree env after := by
  have keys : shelf.keys.Perm after.keys := perm.map _
  refine ⟨holds.cwd, holds.data, keys.nodup_iff.mp holds.distinct,
    fun name member => holds.single name (keys.mem_iff.mpr member), fun name => ?_,
    fun mailbox member => holds.files mailbox (perm.mem_iff.mpr member),
    fun name absent => holds.others name (fun member => absent (keys.mem_iff.mp member)),
    fun mailbox member => holds.ascending mailbox (perm.mem_iff.mpr member),
    fun mailbox member => holds.range mailbox (perm.mem_iff.mpr member)⟩
  rw [holds.queues]
  simp only [keys.mem_iff]

theorem queue_get (holds : DiskHolds tree env shelf) (member : mailbox ∈ shelf) :
    tree.get (mailbox.key :: env.dataDir) = some .directory := by
  rw [holds.queues, if_pos (Shelf.key_mem member)]

theorem key_of_directory (holds : DiskHolds tree env shelf)
    (found : tree.get (name :: env.dataDir) ≠ none) : ∃ mailbox ∈ shelf, mailbox.key = name := by
  rw [holds.queues] at found
  have inside : name ∈ shelf.keys := by
    by_contra absent
    exact found (if_neg absent)
  exact List.mem_map.mp inside

theorem names_perm (holds : DiskHolds tree env shelf) (member : mailbox ∈ shelf) :
    (tree.names (mailbox.key :: env.dataDir)).Perm
      (mailbox.items.map fun item => decimal item.id) := by
  have distinct : (mailbox.items.map fun item => decimal item.id).Nodup := by
    have ids := (ids_nodup (holds.ascending mailbox member)).map
      (fun _ _ same => decimal_injective same)
    rwa [List.map_map] at ids
  refine (List.perm_ext_iff_of_nodup (tree.names_nodup _) distinct).mpr (fun file => ?_)
  rw [FileTree.mem_names, holds.files mailbox member, fileAt_ne_none, List.mem_map]

theorem listing (holds : DiskHolds tree env shelf) (member : mailbox ∈ shelf) (time : Nat) :
    Listing (entriesAt env tree time (mailbox.key :: env.dataDir)) (mailbox.items.map Item.id) := by
  have names := holds.names_perm member
  rw [← Function.comp_def, ← List.map_map] at names
  refine .of_env env time names (List.pairwise_map.mpr (holds.ascending mailbox member)) ?_
  intro id listed
  obtain ⟨item, inside, rfl⟩ := List.mem_map.mp listed
  exact holds.range mailbox member item inside

theorem nodeIds_eq (holds : DiskHolds tree env shelf) (member : mailbox ∈ shelf) (time : Nat) :
    nodeIds (entriesAt env tree time (mailbox.key :: env.dataDir)) =
      mailbox.items.map fun item => (item.id : Int) := by
  rw [(holds.listing member time).nodeIds_eq, List.map_map]
  rfl

/-- The array that `read_queue` fills: the number of items, then their ids. -/
theorem nodeList_eq (holds : DiskHolds tree env shelf) (member : mailbox ∈ shelf) (time : Nat) :
    nodeList (entriesAt env tree time (mailbox.key :: env.dataDir)) =
      (mailbox.items.length : Int) :: mailbox.items.map fun item => (item.id : Int) := by
  rw [(holds.listing member time).nodeList_eq, List.length_map, List.map_map]
  rfl

theorem nextIdAt_eq (holds : DiskHolds tree env shelf) (member : mailbox ∈ shelf) (time : Nat) :
    nextIdAt env tree time (mailbox.key :: env.dataDir) = followingId mailbox.items := by
  rw [nextIdAt, (holds.listing member time).nextIdOf_eq, List.getLast?_map, followingId]
  cases mailbox.items.getLast? <;> rfl

theorem queueNames_perm (holds : DiskHolds tree env shelf) (time : Nat) :
    (queueNames (entriesAt env tree time env.dataDir)).Perm shelf.keys := by
  refine (List.perm_ext_iff_of_nodup (queueNames_nodup env tree time _) holds.distinct).mpr
    (fun name => ?_)
  have listed : name ∈ entriesAt env tree time env.dataDir ↔
      name = dot ∨ name = dotdot ∨ name ∈ tree.names env.dataDir := by
    rw [entriesAt, (env.order_perm time _).mem_iff, List.mem_cons, List.mem_cons]
  have present : name ∈ tree.names env.dataDir ↔ name ∈ shelf.keys := by
    rw [FileTree.mem_names, holds.queues]
    simp
  simp only [queueNames, List.mem_filter, listed, present, Bool.and_eq_true, bne_iff_ne, ne_eq]
  constructor
  · rintro ⟨rfl | rfl | inside, notDot, notDotdot⟩
    · exact absurd rfl notDot
    · exact absurd rfl notDotdot
    · exact inside
  · intro inside
    have single := holds.single name inside
    exact ⟨.inr (.inr inside), single.not_dot, single.not_dotdot⟩

theorem reaches_queue (holds : DiskHolds tree env shelf) (single : IsComponent name) {call : Call} :
    Reaches env call (queuePath name) tree time target ↔
      env.fails call time = false ∧ target = name :: env.dataDir := by
  have resolved : resolve env (queuePath name) tree = .ok (name :: env.dataDir) :=
    resolve_queuePath single holds.cwd holds.data
  constructor
  · rintro ⟨healthy, reached⟩
    exact ⟨healthy, by simpa [resolved] using reached.symm⟩
  · rintro ⟨healthy, rfl⟩
    exact ⟨healthy, resolved⟩

theorem canOpen_iff (holds : DiskHolds tree env shelf) (single : IsComponent name) :
    CanOpen env (queuePath name) tree time target ↔
      env.fails .opendir time = false ∧ target = name :: env.dataDir ∧ name ∈ shelf.keys := by
  rw [CanOpen, holds.reaches_queue single, and_assoc]
  refine and_congr_right (fun _ => and_congr_right ?_)
  rintro rfl
  rw [holds.queues]
  simp

theorem canMake_iff (holds : DiskHolds tree env shelf) (single : IsComponent name) :
    CanMake env (queuePath name) tree time target ↔
      env.fails .mkdir time = false ∧ target = name :: env.dataDir ∧ name ∉ shelf.keys := by
  rw [CanMake, holds.reaches_queue single, and_assoc]
  refine and_congr_right (fun _ => and_congr_right ?_)
  rintro rfl
  rw [holds.queues]
  simp

theorem reaches_node (holds : DiskHolds tree env shelf) (member : mailbox ∈ shelf) (value : Int)
    {call : Call} :
    Reaches env call (nodePath (queuePath mailbox.key) (intToString value)) tree time target ↔
      env.fails call time = false ∧ target = formatInt value :: mailbox.key :: env.dataDir := by
  have resolved := resolve_nodePath (holds.single _ (Shelf.key_mem member)) value holds.cwd
    holds.data (holds.queue_get member)
  constructor
  · rintro ⟨healthy, reached⟩
    exact ⟨healthy, by simpa [resolved] using reached.symm⟩
  · rintro ⟨healthy, rfl⟩
    exact ⟨healthy, resolved⟩

theorem canUnlink_iff (holds : DiskHolds tree env shelf) (member : mailbox ∈ shelf) (value : Int) :
    CanUnlink env (nodePath (queuePath mailbox.key) (intToString value)) tree time target ↔
      env.fails .unlink time = false ∧ target = formatInt value :: mailbox.key :: env.dataDir ∧
        ∃ item ∈ mailbox.items, decimal item.id = formatInt value := by
  rw [CanUnlink, holds.reaches_node member, and_assoc]
  refine and_congr_right (fun _ => and_congr_right ?_)
  rintro rfl
  rw [holds.files mailbox member, ← fileAt_ne_none]
  constructor
  · rintro ⟨content, found⟩
    simp [found]
  · intro present
    obtain ⟨entry, found⟩ := Option.ne_none_iff_exists'.mp present
    obtain ⟨item, _, _, rfl⟩ := fileAt_eq_some found
    exact ⟨_, found⟩

theorem canCreate_iff (holds : DiskHolds tree env shelf) (member : mailbox ∈ shelf) (value : Int) :
    CanCreate env (nodePath (queuePath mailbox.key) (intToString value)) tree time target ↔
      env.fails .create time = false ∧ target = formatInt value :: mailbox.key :: env.dataDir := by
  rw [CanCreate, holds.reaches_node member, and_iff_left_iff_imp]
  rintro ⟨_, rfl⟩ found
  rw [holds.files mailbox member] at found
  obtain ⟨item, _, _, same⟩ := fileAt_eq_some found
  contradiction

theorem canRead_iff (holds : DiskHolds tree env shelf) (member : mailbox ∈ shelf) {item : Item}
    (inside : item ∈ mailbox.items) {content : Bytes} :
    CanRead env (nodePath (queuePath mailbox.key) (intToString item.id)) tree time content ↔
      env.fails .readFile time = false ∧ content = item.message := by
  have found := holds.files mailbox member (decimal item.id)
  rw [fileAt_of_mem (holds.ascending mailbox member) inside, ← formatInt_nat] at found
  constructor
  · rintro ⟨path, reaches, here⟩
    obtain ⟨healthy, rfl⟩ := (holds.reaches_node member _).mp reaches
    rw [found] at here
    simp only [Option.some.injEq, Entry.file.injEq, reduceCtorEq, false_and, or_false] at here
    exact ⟨healthy, here.symm⟩
  · rintro ⟨healthy, rfl⟩
    exact ⟨_, (holds.reaches_node member _).mpr ⟨healthy, rfl⟩, .inl found⟩

theorem canRemove_iff (holds : DiskHolds tree env shelf) (member : mailbox ∈ shelf) :
    CanRemove env (queuePath mailbox.key) tree time target ↔
      env.fails .rmdir time = false ∧ target = mailbox.key :: env.dataDir ∧ mailbox.items = [] := by
  have single := holds.single _ (Shelf.key_mem member)
  have last : (components (queuePath mailbox.key)).getLast? ≠ some dot := by
    rw [components_queuePath, single.components_eq]
    simpa using single.not_dot
  rw [CanRemove, holds.reaches_queue single, and_assoc]
  refine and_congr_right (fun _ => and_congr_right ?_)
  rintro rfl
  rw [and_iff_right last, and_iff_right (holds.queue_get member)]
  have listed := holds.names_perm member
  constructor
  · intro empty
    rw [empty] at listed
    simpa using listed.length_eq.symm
  · intro empty
    rw [empty] at listed
    simpa using listed.length_eq

/-! ## What changes of the files make of such a disk -/

theorem depth_ne {left right : Path} (different : left.length ≠ right.length) : left ≠ right :=
  fun same => different (congrArg List.length same)

theorem apply_mkdir (holds : DiskHolds tree env shelf) (single : IsComponent name)
    (fresh : name ∉ shelf.keys) :
    DiskHolds ((Effect.mkdir (name :: env.dataDir)).apply tree) env (shelf.create name) := by
  have elsewhere {path : Path} (different : path ≠ name :: env.dataDir) :
      ((Effect.mkdir (name :: env.dataDir)).apply tree).get path = tree.get path :=
    FileTree.get_set_of_ne different
  have inner (file key : Name) : file :: key :: env.dataDir ≠ name :: env.dataDir :=
    depth_ne (by simp only [List.length_cons]; omega)
  have keys : (shelf.create name).keys = shelf.keys ++ [name] := by simp [Shelf.create]
  have cases {mailbox : Mailbox} (member : mailbox ∈ shelf.create name) :
      mailbox ∈ shelf ∨ mailbox = ⟨name, []⟩ := by
    simpa [Shelf.create] using member
  refine ⟨?_, ?_, ?_, ?_, fun other => ?_, fun mailbox member file => ?_,
    fun other absent file => ?_, fun mailbox member => ?_, fun mailbox member => ?_⟩
  · rw [elsewhere]
    · exact holds.cwd
    · exact depth_ne (by simp only [Environment.dataDir, List.length_cons]; omega)
  · rw [elsewhere]
    · exact holds.data
    · exact depth_ne (by simp only [List.length_cons]; omega)
  · rw [keys]
    exact List.Nodup.append holds.distinct (List.nodup_singleton _) (by simpa using fresh)
  · intro other member
    rw [keys] at member
    rcases List.mem_append.mp member with old | new
    · exact holds.single other old
    · rw [List.mem_singleton.mp new]
      exact single
  · by_cases same : other = name
    · rw [same, if_pos (by simp [keys])]
      exact FileTree.get_set_self
    · rw [elsewhere (by simpa using same), holds.queues]
      simp [keys, same]
  · rw [elsewhere (inner _ _)]
    rcases cases member with old | rfl
    · exact holds.files mailbox old file
    · exact holds.others name fresh file
  · rw [elsewhere (inner _ _)]
    exact holds.others other (fun old => absent (by simp [keys, old])) file
  · rcases cases member with old | rfl
    · exact holds.ascending mailbox old
    · exact .nil
  · rcases cases member with old | rfl
    · exact holds.range mailbox old
    · simp

theorem apply_file {effect : Effect} {f : List Item → List Item} {file : Name}
    (holds : DiskHolds tree env shelf) (member : mailbox ∈ shelf)
    (place : effect.path = file :: mailbox.key :: env.dataDir)
    (there : (effect.apply tree).get (file :: mailbox.key :: env.dataDir) =
      fileAt (f mailbox.items) file)
    (elsewhere : ∀ other ≠ file, fileAt (f mailbox.items) other = fileAt mailbox.items other)
    (ascending : Ascending (f mailbox.items))
    (range : ∀ item ∈ f mailbox.items, 0 < item.id ∧ item.id < 2147483648) :
    DiskHolds (effect.apply tree) env (shelf.update mailbox.key f) := by
  have outside {path : Path} (different : path ≠ file :: mailbox.key :: env.dataDir) :
      (effect.apply tree).get path = tree.get path :=
    Effect.get_apply_of_ne (by rw [place]; exact different)
  have cases {changed : Mailbox} (inside : changed ∈ shelf.update mailbox.key f) :
      (changed.key ≠ mailbox.key ∧ changed ∈ shelf) ∨
        changed = ⟨mailbox.key, f mailbox.items⟩ := by
    rcases Shelf.mem_update.mp inside with other | ⟨same, items, old, shown⟩
    · exact .inl other
    · have equal := Shelf.eq_of_key_eq holds.distinct old member rfl
      rw [← equal]
      exact .inr (Fifo.ext same shown)
  refine ⟨?_, ?_, by simpa using holds.distinct, by simpa using holds.single,
    fun other => ?_, fun changed inside other => ?_, fun other absent name => ?_,
    fun changed inside => ?_, fun changed inside => ?_⟩
  · rw [outside]
    · exact holds.cwd
    · exact depth_ne (by simp only [Environment.dataDir, List.length_cons]; omega)
  · rw [outside]
    · exact holds.data
    · exact depth_ne (by simp only [List.length_cons]; omega)
  · rw [outside]
    · simpa using holds.queues other
    · exact depth_ne (by simp only [List.length_cons]; omega)
  · rcases cases inside with ⟨different, old⟩ | rfl
    · rw [outside (by simp [different])]
      exact holds.files changed old other
    · by_cases same : other = file
      · rw [same]
        exact there
      · rw [outside (by simp [same]), elsewhere other same]
        exact holds.files mailbox member other
  · rw [Shelf.keys_update] at absent
    have different : other ≠ mailbox.key := fun same => absent (same ▸ Shelf.key_mem member)
    rw [outside (by simp [different])]
    exact holds.others other absent name
  · rcases cases inside with ⟨_, old⟩ | rfl
    · exact holds.ascending changed old
    · exact ascending
  · rcases cases inside with ⟨_, old⟩ | rfl
    · exact holds.range changed old
    · exact range

theorem apply_rmdir (holds : DiskHolds tree env shelf) (member : mailbox ∈ shelf)
    (empty : mailbox.items = []) :
    DiskHolds ((Effect.rmdir (mailbox.key :: env.dataDir)).apply tree) env
      (shelf.remove mailbox.key) := by
  have elsewhere {path : Path} (different : path ≠ mailbox.key :: env.dataDir) :
      ((Effect.rmdir (mailbox.key :: env.dataDir)).apply tree).get path = tree.get path :=
    FileTree.get_erase_of_ne different
  have inner (file key : Name) : file :: key :: env.dataDir ≠ mailbox.key :: env.dataDir :=
    depth_ne (by simp only [List.length_cons]; omega)
  have inside {other : Mailbox} (kept : other ∈ shelf.remove mailbox.key) : other ∈ shelf :=
    (List.mem_filter.mp kept).1
  refine ⟨?_, ?_, ?_, ?_, fun other => ?_, fun other kept file => ?_, fun other absent file => ?_,
    fun other kept => holds.ascending other (inside kept),
    fun other kept => holds.range other (inside kept)⟩
  · rw [elsewhere]
    · exact holds.cwd
    · exact depth_ne (by simp only [Environment.dataDir, List.length_cons]; omega)
  · rw [elsewhere]
    · exact holds.data
    · exact depth_ne (by simp only [List.length_cons]; omega)
  · rw [Shelf.keys_remove]
    exact holds.distinct.filter _
  · intro other kept
    rw [Shelf.keys_remove] at kept
    exact holds.single other (List.mem_filter.mp kept).1
  · by_cases same : other = mailbox.key
    · rw [same, if_neg (by simp [Shelf.keys_remove])]
      exact FileTree.get_erase_self
    · rw [elsewhere (by simpa using same), holds.queues]
      simp [Shelf.keys_remove, same]
  · rw [elsewhere (inner _ _)]
    exact holds.files other (inside kept) file
  · rw [elsewhere (inner _ _)]
    by_cases same : other = mailbox.key
    · rw [same, holds.files mailbox member, empty]
      rfl
    · exact holds.others other (fun old => absent (by simp [Shelf.keys_remove, old, same])) file

/-- The file of the newest item is created or given its content. -/
theorem apply_newest {effect : Effect} {f : List Item → List Item} {front : List Item} {id : Nat}
    {content : Bytes} (holds : DiskHolds tree env shelf) (member : mailbox ∈ shelf)
    (place : effect.path = decimal id :: mailbox.key :: env.dataDir)
    (there : (effect.apply tree).get (decimal id :: mailbox.key :: env.dataDir) =
      some (.file content))
    (before : mailbox.items = front ∨ ∃ old, mailbox.items = front ++ [⟨id, old⟩])
    (after : f mailbox.items = front ++ [⟨id, content⟩])
    (below : ∀ item ∈ front, item.id < id) (small : 0 < id ∧ id < 2147483648) :
    DiskHolds (effect.apply tree) env (shelf.update mailbox.key f) := by
  have inside : ∀ item ∈ front, item ∈ mailbox.items := by
    rcases before with same | ⟨old, same⟩ <;> rw [same]
    · exact fun item member => member
    · exact fun item member => List.mem_append_left _ member
  have sorted : Ascending front := by
    have whole := holds.ascending mailbox member
    rcases before with same | ⟨old, same⟩ <;> rw [same] at whole
    · exact whole
    · exact (List.pairwise_append.mp whole).1
  have grown : Ascending (front ++ [⟨id, content⟩]) := by
    refine List.pairwise_append.mpr ⟨sorted, List.pairwise_singleton .., ?_⟩
    intro left earlier right last
    rw [List.mem_singleton.mp last]
    exact below left earlier
  refine holds.apply_file member place ?_ ?_ (by rw [after]; exact grown) ?_
  · rw [there, after, show _ = some (Entry.file content) from
      fileAt_of_mem grown (show ⟨id, content⟩ ∈ _ by simp)]
  · intro other different
    rw [after]
    rcases before with same | ⟨old, same⟩ <;> rw [same] <;>
      simp [fileAt, List.find?_append, Ne.symm different]
  · intro item kept
    rw [after] at kept
    rcases List.mem_append.mp kept with old | new
    · exact holds.range mailbox member item (inside item old)
    · rw [List.mem_singleton.mp new]
      exact small

theorem apply_create (holds : DiskHolds tree env shelf) (member : mailbox ∈ shelf)
    (small : followingId mailbox.items < 2147483648) :
    DiskHolds
      ((Effect.create (decimal (followingId mailbox.items) :: mailbox.key :: env.dataDir)).apply tree)
      env (shelf.push mailbox.key ⟨followingId mailbox.items, []⟩) :=
  holds.apply_newest member rfl FileTree.get_set_self (.inl rfl) rfl
    (fun _ inside => lt_followingId (holds.ascending mailbox member) inside)
    ⟨followingId_pos _, small⟩

theorem apply_write {front : List Item} {item : Item} (content : Bytes)
    (holds : DiskHolds tree env shelf) (member : mailbox ∈ shelf)
    (newest : mailbox.items = front ++ [item]) :
    DiskHolds ((Effect.write (decimal item.id :: mailbox.key :: env.dataDir) content).apply tree) env
      (shelf.update mailbox.key fun items => items.dropLast ++ [⟨item.id, content⟩]) := by
  have ascending := holds.ascending mailbox member
  have range := holds.range mailbox member item (by simp [newest])
  rw [newest] at ascending
  have below := (List.pairwise_append.mp ascending).2.2
  exact holds.apply_newest member rfl FileTree.get_set_self (.inr ⟨item.message, newest⟩)
    (by rw [newest, List.dropLast_concat]) (fun other inside => below other inside item (by simp))
    range

theorem apply_unlink (id : Nat) (holds : DiskHolds tree env shelf) (member : mailbox ∈ shelf) :
    DiskHolds ((Effect.unlink (decimal id :: mailbox.key :: env.dataDir)).apply tree) env
      (shelf.update mailbox.key (List.filter fun item => item.id ≠ id)) := by
  refine holds.apply_file member rfl ?_ ?_ ((holds.ascending mailbox member).filter _)
    (fun item inside => holds.range mailbox member item (List.mem_filter.mp inside).1)
  · have gone : fileAt (mailbox.items.filter fun item => item.id ≠ id) (decimal id) = none := by
      rw [fileAt_eq_none]
      intro item inside same
      have different := (List.mem_filter.mp inside).2
      simp [decimal_injective same] at different
    rw [gone]
    exact FileTree.get_erase_self
  · intro other different
    have passed (item : Item) : decimal item.id = other → item.id ≠ id := by
      rintro rfl same
      exact different (by rw [same])
    simp only [fileAt, List.find?_filter]
    congr 2
    funext item
    have := passed item
    simp
    tauto

end DiskHolds

end Bmb
