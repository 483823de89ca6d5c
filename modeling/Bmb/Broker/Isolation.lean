import Bmb.Broker.Failures

namespace Bmb

open Bmb.Base Bmb.Posix

/-! What a request for one queue does to another one. -/

/-! ## The directory of a queue -/

/-- The places to which a path leads one after the other, with the last one. -/
def Posix.Environment.passes (env : Environment) (pathText : Bytes) : List Path :=
  (List.range ((components pathText).length + 1)).map fun passed =>
    lexical (if pathText.head? = some slash then [] else env.cwd) ((components pathText).take passed)

/-- A queue is found in a directory. -/
def Locates (env : Environment) (tree : FileTree) (name : Bytes) (path : Path) : Prop :=
  resolve env (queuePath name) tree = .ok path ∧ tree.get path = some .directory

/-- An id that the next node of a directory with these names can get, in whatever order they
are listed. -/
def CanFollow (names : List Name) (id : Nat) : Prop :=
  ∃ entries : List Name, entries.Perm (dot :: dotdot :: names) ∧ id = nextIdOf (nodeList entries)

/-- The ids that can follow do not depend on an entry. -/
def Irrelevant (entry : Name) (names : List Name) : Prop :=
  ∀ id, CanFollow (names.filter (· ≠ entry)) id ↔ CanFollow names id

/-- An id that the next node of a queue can get. -/
def NextIdOnDisk (env : Environment) (tree : FileTree) (name : Bytes) (id : Nat) : Prop :=
  ∃ path, Locates env tree name path ∧ CanFollow (tree.names path) id

section Directories

variable {env : Environment} {tree later : FileTree} {name other : Bytes} {path near far : Path}

theorem locates_iff : Locates env tree name path ↔
    path = env.target (queuePath name) ∧
      ∀ place ∈ env.passes (queuePath name), tree.get place = some .directory := by
  unfold Locates Environment.passes
  simp only [resolve, walk_eq_ok, List.forall_mem_map, List.mem_range]
  constructor
  · rintro ⟨⟨rfl, passed⟩, last⟩
    refine ⟨rfl, fun count within => ?_⟩
    rcases Nat.lt_or_eq_of_le (Nat.le_of_lt_succ within) with before | rfl
    · exact passed count before
    · rwa [List.take_length]
  · rintro ⟨rfl, passed⟩
    refine ⟨⟨rfl, fun count before => passed count (Nat.lt_succ_of_lt before)⟩, ?_⟩
    have last := passed _ (Nat.lt_succ_self _)
    rwa [List.take_length] at last

theorem Locates.passed (found : Locates env tree name path) : path ∈ env.passes (queuePath name) := by
  rw [(locates_iff.mp found).1]
  refine List.mem_map.mpr ⟨_, List.mem_range.mpr (Nat.lt_succ_self _), ?_⟩
  rw [List.take_length]
  rfl

theorem Locates.nextId_iff (found : Locates env tree name path) {id : Nat} :
    NextIdOnDisk env tree name id ↔ CanFollow (tree.names path) id := by
  constructor
  · rintro ⟨other, there, follows⟩
    rwa [(locates_iff.mp found).1, ← (locates_iff.mp there).1]
  · exact fun follows => ⟨path, found, follows⟩

/-- What the code gives to a new node is one of those ids. -/
theorem getNextId_onDisk {world after : World} {res : PersistResponse} {id : Nat}
    (ran : persistDispatch env ⟨.getNextId, some name, 0, none⟩ world = .returned res after)
    (given : res.data = .nextId id) : NextIdOnDisk env world.system.tree name id := by
  rcases getNextId_run env name world with ⟨path, _, can, same, _⟩ | ⟨_, _, _, same, _⟩
  all_goals
    rw [ran] at same
    cases same
  · simp only [persistSuccess, PersistData.nextId.injEq] at given
    exact ⟨path, ⟨can.1.resolved, can.2⟩, _, env.order_perm _ _, given.symm⟩
  · contradiction

theorem CanFollow.congr {names others : List Name} {id : Nat} (distinct : names.Nodup)
    (othersDistinct : others.Nodup) (same : ∀ name, name ∈ names ↔ name ∈ others) :
    CanFollow names id ↔ CanFollow others id := by
  have perm : names.Perm others := (List.perm_ext_iff_of_nodup distinct othersDistinct).mpr same
  have all := (perm.cons dotdot).cons dot
  exact ⟨fun ⟨entries, listed, next⟩ => ⟨entries, listed.trans all, next⟩,
    fun ⟨entries, listed, next⟩ => ⟨entries, listed.trans all.symm, next⟩⟩

/-! ## Changes of the files -/

/-- The files of a queue and the ids that its next node can get are as before. -/
structure FilesUndisturbed (env : Environment) (name : Bytes) (before after : FileTree) : Prop where
  files : ∀ file content,
    after.get (file :: env.target (queuePath name)) = some (.file content) ↔
      before.get (file :: env.target (queuePath name)) = some (.file content)
  nextId : ∀ id, NextIdOnDisk env after name id ↔ NextIdOnDisk env before name id

/-- Where the directory is found as before, and there are the same entries in it, the same ids can
follow. -/
theorem nextId_congr (found : ∀ path, Locates env later name path ↔ Locates env tree name path)
    (same : ∀ path, Locates env tree name path →
      ∀ entry, later.get (entry :: path) ≠ none ↔ tree.get (entry :: path) ≠ none) (id : Nat) :
    NextIdOnDisk env later name id ↔ NextIdOnDisk env tree name id := by
  by_cases located : ∃ path, Locates env tree name path
  · obtain ⟨path, here⟩ := located
    rw [((found path).mpr here).nextId_iff, here.nextId_iff]
    refine CanFollow.congr (later.names_nodup path) (tree.names_nodup path) fun entry => ?_
    rw [FileTree.mem_names, FileTree.mem_names, same path here]
  · exact iff_of_false (fun ⟨path, there, _⟩ => located ⟨path, (found path).mp there⟩)
      (fun ⟨path, here, _⟩ => located ⟨path, here⟩)

theorem FilesUndisturbed.of_same (same : ∀ place, later.get place = tree.get place) :
    FilesUndisturbed env name tree later where
  files file content := by rw [same]
  nextId := nextId_congr (fun path => by simp only [locates_iff, same]) fun _ _ _ => by rw [same]

/-- Only files that lie directly in a directory have been changed. -/
structure OnlyFilesIn (directory : Path) (before after : FileTree) : Prop where
  elsewhere : ∀ place, (∀ file, place ≠ file :: directory) → after.get place = before.get place
  directories : ∀ place, after.get place = some .directory ↔ before.get place = some .directory

namespace OnlyFilesIn

theorem refl (directory : Path) (tree : FileTree) : OnlyFilesIn directory tree tree :=
  ⟨fun _ _ => rfl, fun _ => .rfl⟩

theorem trans {last : FileTree} (first : OnlyFilesIn path tree later)
    (second : OnlyFilesIn path later last) : OnlyFilesIn path tree last :=
  ⟨fun place outside => (second.elsewhere place outside).trans (first.elsewhere place outside),
    fun place => (second.directories place).trans (first.directories place)⟩

theorem erase {file : Name} {content : Bytes}
    (present : tree.get (file :: path) = some (.file content)) :
    OnlyFilesIn path tree (tree.erase (file :: path)) := by
  refine ⟨fun place outside => FileTree.get_erase_of_ne (outside file), fun place => ?_⟩
  by_cases same : place = file :: path
  · rw [same, FileTree.get_erase_self, present]
    simp
  · rw [FileTree.get_erase_of_ne same]

theorem set {file : Name} {content : Bytes} (plain : tree.get (file :: path) ≠ some .directory) :
    OnlyFilesIn path tree (tree.set (file :: path) (.file content)) := by
  refine ⟨fun place outside => FileTree.get_set_of_ne (outside file), fun place => ?_⟩
  by_cases same : place = file :: path
  · rw [same, FileTree.get_set_self]
    simp [plain]
  · rw [FileTree.get_set_of_ne same]

theorem locates_iff (only : OnlyFilesIn near tree later) :
    Locates env later name path ↔ Locates env tree name path := by
  simp only [Bmb.locates_iff, only.directories]

theorem undisturbed (only : OnlyFilesIn near tree later) (apart : near ≠ env.target (queuePath name)) :
    FilesUndisturbed env name tree later := by
  have same (file : Name) : later.get (file :: env.target (queuePath name)) =
      tree.get (file :: env.target (queuePath name)) := by
    refine only.elsewhere _ fun other equal => apart ?_
    exact (List.cons.inj equal).2.symm
  refine ⟨fun file content => by rw [same], nextId_congr (fun _ => only.locates_iff) ?_⟩
  intro path found entry
  rw [(Bmb.locates_iff.mp found).1, same]

end OnlyFilesIn

theorem Posix.CanUnlink.onlyFiles {time : Nat} {value : Int} {target : Path}
    (can : CanUnlink env (nodePath (queuePath name) (intToString value)) tree time target) :
    OnlyFilesIn (env.target (queuePath name)) tree (tree.erase target) := by
  obtain ⟨content, present⟩ := can.2
  have place := can.1.path_eq
  rw [target_nodePath] at place
  rw [place] at present ⊢
  exact .erase present

theorem Unlinks.onlyFiles {time : Nat} {ids : List Int} {effects : List Effect} {success : Bool}
    (unlinks : Unlinks env (queuePath name) tree time ids effects success) :
    OnlyFilesIn (env.target (queuePath name)) tree (replay effects tree) := by
  generalize located : queuePath name = pathText at unlinks
  induction unlinks with
  | done => exact .refl _ _
  | step can rest ih =>
      subst located
      exact can.onlyFiles.trans ih
  | refused cannot => exact .refl _ _

theorem storeEffects_onlyFiles {file : Name} {data : Bytes} (time : Nat)
    (plain : tree.get (file :: path) ≠ some .directory) :
    OnlyFilesIn path tree (replay (storeEffects env time (file :: path) (some data)) tree) := by
  have created : OnlyFilesIn path tree (tree.set (file :: path) (.file [])) := .set plain
  unfold storeEffects
  cases env.fails .write time with
  | true => exact created
  | false => exact created.trans (.set (by rw [FileTree.get_set_self]; simp))

theorem Unlinks.first_lost {time : Nat} {id : Int} {ids : List Int} {effects : List Effect}
    {success : Bool} {target : Path}
    (unlinks : Unlinks env (queuePath name) tree time (id :: ids) effects success)
    (can : CanUnlink env (nodePath (queuePath name) (intToString id)) tree time target) :
    ∃ file content, tree.get (file :: env.target (queuePath name)) = some (.file content) ∧
      (replay effects tree).get (file :: env.target (queuePath name)) = none := by
  cases unlinks with
  | refused cannot => exact absurd can (cannot _)
  | step first rest =>
      have place := first.1.path_eq
      rw [target_nodePath] at place
      obtain ⟨content, present⟩ := first.2
      rw [place] at present rest ⊢
      exact ⟨_, content, present, rest.gone FileTree.get_erase_self⟩

end Directories

/-! ## Directories that are removed -/

section Erased

variable {env : Environment} {tree emptied : FileTree} {name : Bytes} {near path : Path}

theorem erased_file_iff {file : Path} {content : Bytes} (directory : tree.get near = some .directory) :
    (tree.erase near).get file = some (.file content) ↔ tree.get file = some (.file content) := by
  by_cases same : file = near
  · rw [same, FileTree.get_erase_self, directory]
    simp
  · rw [FileTree.get_erase_of_ne same]

namespace OnlyFilesIn

theorem erased_locates_iff (only : OnlyFilesIn near tree emptied) :
    Locates env (emptied.erase near) name path ↔
      Locates env tree name path ∧ near ∉ env.passes (queuePath name) := by
  have left (place : Path) : (emptied.erase near).get place = some .directory ↔
      tree.get place = some .directory ∧ place ≠ near := by
    by_cases same : place = near
    · rw [same, FileTree.get_erase_self]
      simp
    · rw [FileTree.get_erase_of_ne same, only.directories]
      simp [same]
  simp only [Bmb.locates_iff, left]
  constructor
  · rintro ⟨rfl, passed⟩
    exact ⟨⟨rfl, fun place inside => (passed place inside).1⟩, fun inside => (passed _ inside).2 rfl⟩
  · rintro ⟨⟨rfl, passed⟩, outside⟩
    exact ⟨rfl, fun place inside => ⟨passed place inside, fun same => outside (same ▸ inside)⟩⟩

theorem mem_erased_names (only : OnlyFilesIn near tree emptied) (apart : path ≠ near) {entry : Name} :
    entry ∈ (emptied.erase near).names path ↔ entry ∈ tree.names path ∧ entry :: path ≠ near := by
  have same : emptied.get (entry :: path) = tree.get (entry :: path) :=
    only.elsewhere _ fun file equal => apart (List.cons.inj equal).2
  rw [FileTree.mem_names, FileTree.mem_names]
  by_cases here : entry :: path = near
  · rw [here, FileTree.get_erase_self]
    simp
  · rw [FileTree.get_erase_of_ne here, same]
    simp [here]

/-- The next ids are as before exactly if the directory that is gone is neither on the way nor
relevant. -/
theorem erased_nextId_iff (only : OnlyFilesIn near tree emptied) :
    (∀ id, NextIdOnDisk env (emptied.erase near) name id ↔ NextIdOnDisk env tree name id) ↔
      ∀ path, Locates env tree name path → near ∉ env.passes (queuePath name) ∧
        ∀ entry, near = entry :: path → Irrelevant entry (tree.names path) := by
  -- without the entry that is gone, the names are the same
  have listed {path : Path} {entry : Name} (apart : path ≠ near) (child : near = entry :: path)
      (id : Nat) : CanFollow ((emptied.erase near).names path) id ↔
        CanFollow ((tree.names path).filter (· ≠ entry)) id := by
    refine CanFollow.congr (FileTree.names_nodup _ _) ((tree.names_nodup path).filter _) fun other => ?_
    rw [only.mem_erased_names apart, List.mem_filter, child]
    simp
  constructor
  · intro same path here
    obtain ⟨_, there, _⟩ := (same _).mpr (here.nextId_iff.mpr ⟨_, .refl _, rfl⟩)
    have outside := (only.erased_locates_iff.mp there).2
    refine ⟨outside, fun entry child id => ?_⟩
    have apart : path ≠ near := fun equal => outside (equal ▸ here.passed)
    rw [← listed apart child, ← here.nextId_iff, ← same,
      (only.erased_locates_iff.mpr ⟨here, outside⟩).nextId_iff]
  · intro detached id
    by_cases located : ∃ path, Locates env tree name path
    · obtain ⟨path, here⟩ := located
      obtain ⟨outside, irrelevant⟩ := detached path here
      have apart : path ≠ near := fun equal => outside (equal ▸ here.passed)
      rw [(only.erased_locates_iff.mpr ⟨here, outside⟩).nextId_iff, here.nextId_iff]
      by_cases inside : ∃ entry, near = entry :: path
      · obtain ⟨entry, child⟩ := inside
        rw [listed apart child]
        exact irrelevant entry child id
      · refine CanFollow.congr (FileTree.names_nodup _ _) (tree.names_nodup path) fun entry => ?_
        rw [only.mem_erased_names apart]
        exact and_iff_left fun child => inside ⟨entry, child.symm⟩
    · exact iff_of_false
        (fun ⟨path, there, _⟩ => located ⟨path, (only.erased_locates_iff.mp there).1⟩)
        (fun ⟨path, here, _⟩ => located ⟨path, here⟩)

end OnlyFilesIn

end Erased

/-! ## Commands -/

/-- Two queues in different directories. -/
def Apart (env : Environment) (left right : Bytes) : Prop :=
  env.target (queuePath left) ≠ env.target (queuePath right)

/-- The first file that a removal comes to is unlinked. -/
structure Begins (env : Environment) (path : Bytes) (tree : FileTree) (time : Nat) : Prop where
  opened : ∃ target, CanOpen env path tree time target
  first : ∃ id ids target, RemovalIds env path tree time (id :: ids) ∧
    CanUnlink env (nodePath path (intToString id)) tree (time + 3) target

/-- A removal comes to its end. -/
structure Empties (env : Environment) (path : Bytes) (tree : FileTree) (time : Nat) : Prop where
  opened : ∃ target, CanOpen env path tree time target
  removable : Removable env path tree time

/-- If the second queue is found, it is not by way of the directory of the first one; and where
that is an entry of the second one's directory, it is irrelevant for the next id. -/
def Detached (env : Environment) (tree : FileTree) (left right : Bytes) : Prop :=
  ∀ path, Locates env tree right path →
    env.target (queuePath left) ∉ env.passes (queuePath right) ∧
    ∀ entry, env.target (queuePath left) = entry :: path → Irrelevant entry (tree.names path)

/-- A command that does nothing to the files and the next id of a queue, because it changes no
file or its own queue is kept elsewhere. -/
def Command.Harmless (env : Environment) (tree : FileTree) (time : Nat) (other : Bytes) :
    Command → Prop
  | .consume mailbox => ∀ item ∈ mailbox.items.head?, item.id ≠ 0 →
      (∃ target, CanUnlink env (nodeFile mailbox.key item.id) tree time target) →
        Apart env mailbox.key other
  | .produce mailbox data => ∀ target file,
      CanOpen env (queuePath mailbox.key) tree (time + 1) target →
      CanOpen env (queuePath mailbox.key) tree (time + 3) target →
      nextIdAt env tree (time + 3) target ≠ 0 →
      CanCreate env (nodeFile mailbox.key (nextIdAt env tree (time + 3) target)) tree (time + 4)
        file →
      Apart env mailbox.key other ∨
        tree.get file = some (.file (if env.fails .write (time + 5) then [] else data))
  | .removeQueue mailbox =>
      (Begins env (queuePath mailbox.key) tree time → Apart env mailbox.key other) ∧
      (Empties env (queuePath mailbox.key) tree time → Detached env tree mailbox.key other)
  | _ => True

section Commands

variable {env : Environment} {tree : FileTree} {time : Nat} {key other : Bytes}

theorem FilesUndisturbed.apart_of_lost {later : FileTree} {file : Name} {content : Bytes}
    (same : FilesUndisturbed env other tree later)
    (present : tree.get (file :: env.target (queuePath key)) = some (.file content))
    (lost : later.get (file :: env.target (queuePath key)) = none) : Apart env key other := by
  intro shared
  rw [shared] at present lost
  have kept := (same.files file content).mpr present
  rw [lost] at kept
  contradiction

theorem consumed_undisturbed_iff {id : Nat} {target : Path}
    (can : CanUnlink env (nodeFile key id) tree time target) :
    FilesUndisturbed env other tree (tree.erase target) ↔ Apart env key other := by
  constructor
  · intro same
    have place := can.1.path_eq
    rw [nodeFile, target_nodePath] at place
    obtain ⟨content, present⟩ := can.2
    rw [place] at same present
    exact same.apart_of_lost present FileTree.get_erase_self
  · exact can.onlyFiles.undisturbed

theorem produced_undisturbed_iff {id : Nat} {file : Path} {data : Bytes} {moment : Nat}
    (can : CanCreate env (nodeFile key id) tree time file) :
    FilesUndisturbed env other tree (replay (storeEffects env moment file (some data)) tree) ↔
      Apart env key other ∨
        tree.get file = some (.file (if env.fails .write moment then [] else data)) := by
  have plain := can.2
  have place := can.1.path_eq
  rw [nodeFile, target_nodePath] at place
  rw [place] at plain ⊢
  have only := @storeEffects_onlyFiles env _ _ _ data moment plain
  constructor
  · intro same
    by_cases apart : Apart env key other
    · exact .inl apart
    · have shared : env.target (queuePath key) = env.target (queuePath other) := not_not.mp apart
      rw [shared] at same ⊢
      have written := (same.files (formatInt (toInt32 id))
        (if env.fails .write moment then [] else data)).mp
          (by rw [get_storeEffects, if_pos rfl])
      exact .inr written
  · rintro (apart | present)
    · exact only.undisturbed apart
    · refine .of_same fun other => ?_
      rw [get_storeEffects]
      split
      · rename_i same
        rw [same, present]
      · rfl

/-- A removal loses a file, or it changes nothing before it comes to the directory. -/
theorem begins_or_nothing {ids : List Int} {effects : List Effect} {success : Bool} {target : Path}
    (opened : CanOpen env (queuePath key) tree time target)
    (found : RemovalIds env (queuePath key) tree time ids)
    (unlinks : Unlinks env (queuePath key) tree (time + 3) ids effects success) :
    (Begins env (queuePath key) tree time ∧
      ∃ file content, tree.get (file :: env.target (queuePath key)) = some (.file content) ∧
        (replay effects tree).get (file :: env.target (queuePath key)) = none) ∨
    (¬Begins env (queuePath key) tree time ∧ effects = []) := by
  cases ids with
  | nil =>
      cases unlinks
      refine .inr ⟨fun begins => ?_, rfl⟩
      obtain ⟨_, _, _, listed, _⟩ := begins.first
      exact absurd (found.unique listed) (by simp)
  | cons id ids =>
      by_cases can : ∃ target, CanUnlink env (nodePath (queuePath key) (intToString id)) tree
          (time + 3) target
      · obtain ⟨file, can⟩ := can
        exact .inl ⟨⟨⟨_, opened⟩, _, _, _, found, can⟩, unlinks.first_lost can⟩
      · refine .inr ⟨fun begins => ?_, ?_⟩
        · obtain ⟨_, _, file, listed, first⟩ := begins.first
          obtain ⟨rfl, rfl⟩ := List.cons.inj (found.unique listed)
          exact can ⟨file, first⟩
        · cases unlinks with
          | step first rest => exact absurd ⟨_, first⟩ can
          | refused cannot => rfl

theorem unlinked_undisturbed_iff {ids : List Int} {effects : List Effect} {success : Bool}
    {target : Path} (opened : CanOpen env (queuePath key) tree time target)
    (found : RemovalIds env (queuePath key) tree time ids)
    (unlinks : Unlinks env (queuePath key) tree (time + 3) ids effects success) :
    FilesUndisturbed env other tree (replay effects tree) ↔
      (Begins env (queuePath key) tree time → Apart env key other) := by
  rcases begins_or_nothing opened found unlinks with ⟨begins, file, content, present, lost⟩ |
    ⟨unbegun, rfl⟩
  · exact ⟨fun same _ => same.apart_of_lost present lost,
      fun apart => unlinks.onlyFiles.undisturbed (apart begins)⟩
  · exact iff_of_true (.of_same fun _ => rfl) fun begins => absurd begins unbegun

/-- What is left when the directory is removed that a removal has emptied. -/
theorem removed_undisturbed_iff {ids : List Int} {effects : List Effect} {target last : Path}
    (opened : CanOpen env (queuePath key) tree time target)
    (found : RemovalIds env (queuePath key) tree time ids)
    (unlinks : Unlinks env (queuePath key) tree (time + 3) ids effects true)
    (can : CanRemove env (queuePath key) (replay effects tree) (time + 3 + ids.length) last) :
    FilesUndisturbed env other tree ((replay effects tree).erase last) ↔
      (Begins env (queuePath key) tree time → Apart env key other) ∧
        Detached env tree key other := by
  have only := unlinks.onlyFiles
  obtain rfl := can.1.path_eq
  obtain ⟨_, _, directory, _⟩ := can
  constructor
  · intro same
    refine ⟨fun begins => ?_, only.erased_nextId_iff.mp same.nextId⟩
    rcases begins_or_nothing opened found unlinks with ⟨_, file, content, present, lost⟩ |
      ⟨unbegun, _⟩
    · refine same.apart_of_lost present ?_
      rwa [FileTree.get_erase_of_ne (List.cons_ne_self _ _)]
    · exact absurd begins unbegun
  · rintro ⟨apart, detached⟩
    have unlinked := (unlinked_undisturbed_iff opened found unlinks).mpr apart
    refine ⟨fun file content => ?_, only.erased_nextId_iff.mpr detached⟩
    rw [erased_file_iff directory, unlinked.files]

theorem removal_undisturbed_iff {effects : List Effect} {result : Option Bool}
    (removal : Removal env (queuePath key) tree time effects result) :
    FilesUndisturbed env other tree (replay effects tree) ↔
      (Begins env (queuePath key) tree time → Apart env key other) ∧
        (Empties env (queuePath key) tree time → Detached env tree key other) := by
  cases removal with
  | closed closed =>
      refine iff_of_true (.of_same fun _ => rfl) ⟨fun begins => ?_, fun empties => ?_⟩
      · obtain ⟨target, can⟩ := begins.opened
        exact absurd can (closed _)
      · obtain ⟨target, can⟩ := empties.opened
        exact absurd can (closed _)
  | unread opened unread counted some =>
      have uncertain := (Removal.unread opened unread counted some).none_iff.mp rfl
      refine iff_of_true (.of_same fun _ => rfl) ⟨fun begins => ?_, fun empties => ?_⟩
      · obtain ⟨_, _, _, found, _⟩ := begins.first
        exact absurd uncertain found.certain
      · obtain ⟨_, _, _, found, _⟩ := empties.removable.all
        exact absurd uncertain found.certain
  | refused opened found unlinks =>
      rw [unlinked_undisturbed_iff opened found unlinks]
      refine ⟨fun apart => ⟨apart, fun empties => ?_⟩, fun both => both.1⟩
      obtain ⟨_, _, _, listed, complete, _⟩ := empties.removable.all
      obtain rfl := found.unique listed
      exact absurd (unlinks.unique complete).2 (by simp)
  | kept opened found unlinks cannot =>
      rw [unlinked_undisturbed_iff opened found unlinks]
      refine ⟨fun apart => ⟨apart, fun empties => ?_⟩, fun both => both.1⟩
      obtain ⟨_, _, last, listed, complete, can⟩ := empties.removable.all
      obtain rfl := found.unique listed
      obtain ⟨rfl, _⟩ := unlinks.unique complete
      exact absurd can (cannot last)
  | removed opened found unlinks can =>
      rw [replay_append]
      refine (removed_undisturbed_iff opened found unlinks can).trans (and_congr_right fun _ => ?_)
      have empties : Empties env (queuePath key) tree time :=
        ⟨⟨_, opened⟩, ⟨_, _, _, found, unlinks, can⟩⟩
      exact ⟨fun detached _ => detached, fun detached => detached empties⟩

end Commands

/-! ## Requests -/

/-- The queue that a request is about: one to be added, or else the one in its parameter. -/
def BrokerRequest.about (req : BrokerRequest) : Option Bytes :=
  if req.type = some brokerAddQueue then req.data else req.queueName

/-- What a queue holds in memory, its files and the ids that its next node can get are as before. -/
structure Undisturbed (env : Environment) (name : Bytes) (before after : Machine) : Prop where
  items : findMailbox (some name) after.shelf = findMailbox (some name) before.shelf
  disk : FilesUndisturbed env name before.world.system.tree after.world.system.tree

section Requests

variable {env : BrokerEnvironment} {machine : Machine} {shelf : Shelf Bytes Item}
  {req : BrokerRequest} {key other : Bytes} {decoded : Command} {mailbox : Mailbox}

theorem findMailbox_update (f : List Item → List Item) (different : key ≠ other) :
    findMailbox (some other) (shelf.update key f) = findMailbox (some other) shelf := by
  induction shelf with
  | nil => rfl
  | cons first rest ih =>
      simp only [findMailbox, Option.bind_some, Shelf.update, List.map_cons, List.find?_cons] at ih ⊢
      by_cases named : first.key = key
      · have otherName : first.key ≠ other := fun same => different (named.symm.trans same)
        simp [named, different, ih]
      · simp [named, ih]

theorem findMailbox_remove (different : key ≠ other) :
    findMailbox (some other) (shelf.remove key) = findMailbox (some other) shelf := by
  simp only [findMailbox, Option.bind_some, Shelf.remove, List.find?_filter]
  congr 1
  funext mailbox
  by_cases named : mailbox.key = other <;> simp [named, Ne.symm different]

theorem Decodes.about_eq (decodes : Decodes req shelf decoded) (about : req.about = some key)
    (touched : decoded.touched = some mailbox) : mailbox.key = key := by
  obtain ⟨names, notAdd⟩ := decodes.touched_names touched
  rw [BrokerRequest.about, if_neg notAdd, names.named] at about
  exact Option.some.inj about

/-- What the files of another queue undergo in a step, by its command. -/
theorem Step.harmless_iff {tree : FileTree} {time : Nat} {effects : List Effect}
    {calls : List PersistCall} {ending : Ending} {env : Environment}
    (step : Step env shelf tree time decoded effects calls ending)
    (known : ∀ name, decoded = .addQueue name → name ∈ shelf.keys) :
    FilesUndisturbed env other tree (replay effects tree) ↔ decoded.Harmless env tree time other := by
  have nothing : FilesUndisturbed env other tree (replay [] tree) := .of_same fun _ => rfl
  cases step with
  | untyped | rejected | unknown | known => exact iff_of_true nothing trivial
  | read reads => cases reads <;> exact iff_of_true nothing trivial
  | empty key => exact iff_of_true nothing fun item first => nomatch first
  | unnumbered zero =>
      refine iff_of_true nothing fun item first positive => ?_
      cases first
      exact absurd zero positive
  | unremoved positive cannot =>
      refine iff_of_true nothing fun item first _ can => ?_
      cases first
      obtain ⟨target, can⟩ := can
      exact absurd can (cannot target)
  | consumed positive can =>
      refine (consumed_undisturbed_iff can).trans ⟨fun apart item first _ _ => apart, fun harmless => ?_⟩
      exact harmless _ rfl positive ⟨_, can⟩
  | noNodeId cannot => exact iff_of_true nothing fun target _ first => absurd first (cannot target)
  | noFileId _ cannot => exact iff_of_true nothing fun target _ _ second => absurd second (cannot target)
  | zeroFileId _ second zero =>
      refine iff_of_true nothing fun target file _ opened positive => ?_
      rw [opened.1.unique second.1] at positive
      exact absurd zero positive
  | unsaved _ second _ cannot =>
      refine iff_of_true nothing fun target file _ opened _ can => ?_
      rw [opened.1.unique second.1] at can
      exact absurd can (cannot file)
  | saved first second positive can =>
      refine (produced_undisturbed_iff can).trans ⟨fun either target file _ opened _ created => ?_,
        fun harmless => harmless _ _ first second positive can⟩
      rw [opened.1.unique second.1] at created
      rwa [created.1.unique can.1]
  | adopted fresh | made fresh | unmade fresh => exact absurd (known _ rfl) fresh
  | removed removal | kept removal | unread removal => exact removal_undisturbed_iff removal

theorem Step.items_eq {tree : FileTree} {time : Nat} {effects : List Effect}
    {calls : List PersistCall} {success : Bool} {kept : Shelf Bytes Item} {env : Environment}
    (step : Step env shelf tree time decoded effects calls (.answered success kept))
    (known : ∀ name, decoded = .addQueue name → name ∈ shelf.keys)
    (different : ∀ mailbox, decoded.touched = some mailbox → mailbox.key ≠ other) :
    findMailbox (some other) kept = findMailbox (some other) shelf := by
  cases step with
  | rejected | read | empty | unsaved | known | kept => rfl
  | consumed => exact findMailbox_update _ (different _ rfl)
  | saved => exact findMailbox_update _ (different _ rfl)
  | removed => exact findMailbox_remove (different _ rfl)
  | adopted fresh | made fresh | unmade fresh => exact absurd (known _ rfl) fresh

/-- A request about a queue leaves another one as it is exactly if its command is harmless. -/
theorem queues_isolated_iff (reachable : Reachable env machine) (about : req.about = some key)
    (known : key ∈ machine.shelf.keys) (different : key ≠ other) :
    Undisturbed env.toEnvironment other machine (brokerDispatch env req machine).state ↔
      (command req machine.shelf).Harmless env.toEnvironment machine.world.system.tree
        machine.world.system.clock other := by
  have keeps := reachable.keeps
  have decodes := command_decodes req machine.shelf
  obtain ⟨effects, calls, ending, step, ends⟩ := brokerDispatch_step env req keeps
  have adds : ∀ name, command req machine.shelf = .addQueue name → name ∈ machine.shelf.keys := by
    intro name adding
    rw [adding] at decodes
    cases decodes with
    | read reads => cases reads
    | addQueue typed gives =>
        rw [BrokerRequest.about, if_pos typed, gives.given] at about
        exact Option.some.inj about ▸ known
  have others : ∀ mailbox, (command req machine.shelf).touched = some mailbox → mailbox.key ≠ other :=
    fun mailbox touched => (decodes.about_eq about touched) ▸ different
  rw [← step.harmless_iff adds, ← ends.handled.tree]
  refine ⟨fun undisturbed => undisturbed.disk, fun disk => ⟨?_, disk⟩⟩
  generalize brokerDispatch env req machine = outcome at ends disk ⊢
  cases ends with
  | trapped kept | unassigned kept => rw [Outcome.state, kept.shelf_eq]
  | answered _ kept =>
      rw [Outcome.state, kept.shelf_eq]
      exact step.items_eq adds others

/-- Two queues, the second one with a given name. -/
def twoQueues (second : String) : Machine :=
  ((loaded faithful emptyTree).asked faithful (request "addQueue" none (some "a"))).asked faithful
    (request "addQueue" none (some second))

theorem queues_isolated_iff_computed :
    Undisturbed faithful.toEnvironment (text "b") (twoQueues "b")
      (brokerDispatch faithful (request "produce" (some "a") (some "x")) (twoQueues "b")).state := by
  have reachable : Reachable faithful (twoQueues "b") :=
    ((Reachable.loaded (by decide +kernel)).asked _ (by decide +kernel)).asked _ (by decide +kernel)
  refine (queues_isolated_iff reachable (show _ = some (text "a") by decide) (by decide +kernel)
    (by decide)).mpr ?_
  rw [@command_produce _ _ ⟨text "a", []⟩ _ reachable.keeps.nodup rfl
    ⟨by decide +kernel, rfl, by decide⟩ ⟨rfl, by decide⟩]
  intro target file _ _ _ _
  exact .inl (show faithful.target (queuePath (text "a")) ≠ faithful.target (queuePath (text "b")) by
    decide +kernel)

/-- Two names of one directory are two queues, and each gets the files of the other. -/
theorem aliases_share_files :
    ¬∀ (env : BrokerEnvironment) (machine : Machine) (req : BrokerRequest) (key other : Bytes),
      Reachable env machine → key ∈ machine.shelf.keys → other ∈ machine.shelf.keys →
        key ≠ other → req.about = some key →
          Undisturbed env.toEnvironment other machine (brokerDispatch env req machine).state := by
  intro isolated
  have undisturbed := isolated faithful (twoQueues "./a") (request "produce" (some "a") (some "x"))
    (text "a") (text "./a")
    (((Reachable.loaded (by decide +kernel)).asked _ (by decide +kernel)).asked _ (by decide +kernel))
    (by decide +kernel) (by decide +kernel) (by decide) (by decide)
  have stored := (undisturbed.disk.files (text "1") (text "x")).mp (by decide +kernel)
  exact absurd stored (by decide +kernel)

end Requests

end Bmb
