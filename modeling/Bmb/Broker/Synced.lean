import Bmb.Persist.Removal
import Bmb.QueuePool.Recovery

namespace Bmb

open Bmb.Base Bmb.Posix

/-! The files under the requests of a run: the disk holds a shelf throughout, and this is
the shelf of the pool as long as nothing fails. -/

/-- No id has reached the largest `int`. -/
def Bounded (shelf : Shelf Bytes Item) : Prop :=
  ∀ mailbox ∈ shelf, ∀ item ∈ mailbox.items, item.id < 2147483647

/-- What a request does to the disk. -/
inductive DiskStep (env : Environment) (disk : Shelf Bytes Item) :
    Command → List Effect → Shelf Bytes Item → Prop where
  | nothing {command : Command} : DiskStep env disk command [] disk
  | consumed {mailbox : Mailbox} {items : List Item} {id : Nat}
      (member : ⟨mailbox.key, items⟩ ∈ disk) :
      DiskStep env disk (.consume mailbox) [.unlink (decimal id :: mailbox.key :: env.dataDir)]
        (disk.update mailbox.key (List.filter fun item => item.id ≠ id))
  | created {mailbox : Mailbox} {data : Bytes} {items : List Item}
      (member : ⟨mailbox.key, items⟩ ∈ disk) :
      DiskStep env disk (.produce mailbox data)
        [.create (decimal (followingId items) :: mailbox.key :: env.dataDir)]
        (disk.push mailbox.key ⟨followingId items, []⟩)
  | stored {mailbox : Mailbox} {data : Bytes} {items : List Item}
      (member : ⟨mailbox.key, items⟩ ∈ disk) :
      DiskStep env disk (.produce mailbox data)
        [.create (decimal (followingId items) :: mailbox.key :: env.dataDir),
          .write (decimal (followingId items) :: mailbox.key :: env.dataDir) data]
        (disk.push mailbox.key ⟨followingId items, data⟩)
  | made {name : Bytes} (single : IsComponent name) (fresh : name ∉ disk.keys) :
      DiskStep env disk (.addQueue name) [.mkdir (name :: env.dataDir)] (disk.create name)
  | unlinked {mailbox : Mailbox} {front rest : List Item}
      (member : ⟨mailbox.key, front ++ rest⟩ ∈ disk) :
      DiskStep env disk (.removeQueue mailbox) (unlinkAll env mailbox.key front)
        (disk.update mailbox.key (List.drop front.length))
  | removed {mailbox : Mailbox} {items : List Item} (member : ⟨mailbox.key, items⟩ ∈ disk) :
      DiskStep env disk (.removeQueue mailbox)
        (unlinkAll env mailbox.key items ++ [.rmdir (mailbox.key :: env.dataDir)])
        (disk.remove mailbox.key)

section OnDisk

variable {env : Environment} {tree : FileTree} {shelf disk after : Shelf Bytes Item}
  {command : Command} {effects : List Effect}

theorem Bounded.following {mailbox : Mailbox} (bounded : Bounded disk) (member : mailbox ∈ disk) :
    followingId mailbox.items < 2147483648 := by
  unfold followingId
  cases last : mailbox.items.getLast? with
  | none => simp
  | some item =>
      have := bounded mailbox member item (List.mem_of_getLast? last)
      dsimp only
      omega

theorem DiskHolds.store {mailbox : Mailbox} (content : Bytes) (holds : DiskHolds tree env disk)
    (bounded : Bounded disk) (member : mailbox ∈ disk) :
    DiskHolds (replay
      [.create (decimal (followingId mailbox.items) :: mailbox.key :: env.dataDir),
        .write (decimal (followingId mailbox.items) :: mailbox.key :: env.dataDir) content] tree)
      env (disk.push mailbox.key ⟨followingId mailbox.items, content⟩) := by
  have created := holds.apply_create member (bounded.following member)
  let item : Item := ⟨followingId mailbox.items, []⟩
  have newest : mailbox.items ++ [item] = mailbox.items ++ [⟨item.id, item.message⟩] := rfl
  have written := created.apply_write content
    (Shelf.mem_update_self (f := (· ++ [item])) member) newest
  have same : (disk.push mailbox.key ⟨followingId mailbox.items, []⟩).update mailbox.key
      (fun items => items.dropLast ++ [⟨followingId mailbox.items, content⟩]) =
        disk.push mailbox.key ⟨followingId mailbox.items, content⟩ := by
    rw [Shelf.push, Shelf.update_update]
    simp only [List.dropLast_concat]
    rfl
  rw [same] at written
  exact written

theorem DiskStep.holds (step : DiskStep env disk command effects after)
    (holds : DiskHolds tree env disk) (bounded : Bounded disk) :
    DiskHolds (replay effects tree) env after := by
  cases step with
  | nothing => exact holds
  | @consumed mailbox items id member =>
      have unlinked := holds.apply_unlink id member
      exact unlinked
  | created member => exact holds.apply_create member (bounded.following member)
  | stored member => exact holds.store _ bounded member
  | made single fresh => exact holds.apply_mkdir single fresh
  | unlinked member => exact holds.unlinkAll _ member
  | @removed mailbox items member =>
      have all : ⟨mailbox.key, items ++ []⟩ ∈ disk := by rwa [List.append_nil]
      have left := holds.unlinkAll items all
      have emptied := Shelf.mem_update_self (f := List.drop items.length) member
      have gone := left.apply_rmdir emptied (List.drop_length)
      rw [replay_append]
      rwa [Shelf.remove_update] at gone

/-! ## The steps of the broker on a disk -/

variable {req : BrokerRequest} {time : Nat} {calls : List PersistCall} {ending : Ending}

theorem DiskHolds.items_of_directory {key : Bytes} (holds : DiskHolds tree env disk)
    (there : tree.get (key :: env.dataDir) = some .directory) : ∃ items, ⟨key, items⟩ ∈ disk := by
  obtain ⟨⟨_, items⟩, member, rfl⟩ := holds.key_of_directory (by rw [there]; simp)
  exact ⟨items, member⟩

/-- What follows on the disk, and on the pool when it keeps the same. -/
def Follows (env : Environment) (shelf disk : Shelf Bytes Item) (command : Command)
    (effects : List Effect) (ending : Ending) : Prop :=
  ∃ later, DiskStep env disk command effects later ∧
    (env.Reliable → shelf = disk →
      ∀ success kept, ending = .answered success kept → kept = later)

theorem Follows.nothing (same : ∀ success kept, ending = .answered success kept → kept = shelf) :
    Follows env shelf disk command [] ending :=
  ⟨disk, .nothing, fun _ agree success kept ended => (same success kept ended).trans agree⟩

theorem consumed_follows {key : Bytes} {item : Item} {rest : List Item} {target : Path}
    (holds : DiskHolds tree env disk) (single : IsComponent key)
    (member : ⟨key, item :: rest⟩ ∈ shelf)
    (can : CanUnlink env (nodeFile key item.id) tree time target) :
    Follows env shelf disk (.consume ⟨key, item :: rest⟩) [.unlink target]
      (.answered true (shelf.pop key)) := by
  obtain ⟨items, stored⟩ :=
    holds.items_of_directory (resolve_nodePath_inside single can.1.resolved)
  obtain ⟨_, rfl, old, inside, named⟩ := (holds.canUnlink_iff stored _).mp can
  rw [← named]
  refine ⟨_, .consumed stored, ?_⟩
  rintro - rfl success kept ⟨⟩
  have only := Shelf.eq_of_key_eq holds.distinct stored member rfl
  simp only [Fifo.mk.injEq, true_and] at only
  subst only
  have range := holds.range _ member item (by simp)
  rw [toInt32_of_range (by omega) (by omega), formatInt_nat] at named
  rw [decimal_injective named]
  apply Shelf.update_congr
  intro queue here same
  rw [Shelf.eq_of_key_eq holds.distinct here member same]
  exact (ascending_filter (holds.ascending _ member)).symm

theorem saved_follows {mailbox : Mailbox} {data : Bytes} {first second file : Path}
    (holds : DiskHolds tree env disk) (bounded : Bounded disk) (single : IsComponent mailbox.key)
    (counted : CanOpen env (queuePath mailbox.key) tree (time + 1) first)
    (opened : CanOpen env (queuePath mailbox.key) tree (time + 3) second)
    (can : CanCreate env (nodeFile mailbox.key (nextIdAt env tree (time + 3) second)) tree
      (time + 4) file) :
    Follows env shelf disk (.produce mailbox data) (storeEffects env (time + 5) file (some data))
      (.answered true (shelf.push mailbox.key ⟨nextIdAt env tree (time + 1) first, data⟩)) := by
  obtain ⟨_, rfl, _⟩ := (holds.canOpen_iff single).mp counted
  obtain ⟨_, rfl, _⟩ := (holds.canOpen_iff single).mp opened
  obtain ⟨items, stored⟩ := holds.items_of_directory opened.2
  have id (moment : Nat) : nextIdAt env tree moment (mailbox.key :: env.dataDir) =
      followingId items := holds.nextIdAt_eq stored moment
  have small := bounded.following stored
  rw [id] at can ⊢
  rw [nodeFile_small small] at can
  obtain ⟨_, rfl⟩ := (holds.canCreate_iff stored _).mp can
  rw [formatInt_nat]
  unfold storeEffects
  cases fails : env.fails .write (time + 5) with
  | true =>
      refine ⟨_, .created stored, fun reliable => ?_⟩
      rw [reliable] at fails
      contradiction
  | false =>
      refine ⟨_, .stored stored, ?_⟩
      rintro - rfl success kept ⟨⟩
      rfl

theorem removal_follows {mailbox : Mailbox} {success : Bool}
    (holds : DiskHolds tree env disk) (single : IsComponent mailbox.key) (member : mailbox ∈ shelf)
    (removal : Removal env (queuePath mailbox.key) tree time effects (some success)) :
    Follows env shelf disk (.removeQueue mailbox) effects
      (.answered success (if success then shelf.remove mailbox.key else shelf)) := by
  have complete : env.Reliable → shelf = disk → success = true := by
    rintro reliable rfl
    exact Option.some.inj (removal.reliable holds member reliable)
  obtain ⟨key, own⟩ := mailbox
  generalize result : some success = outcome at removal
  have shape : DiskRemoval env disk key effects outcome := removal.disk holds single
  cases shape with
  | nothing unfinished =>
      refine ⟨disk, .nothing, fun reliable agree => ?_⟩
      rw [complete reliable agree] at result
      exact absurd result.symm unfinished
  | partly stored =>
      refine ⟨_, .unlinked stored, fun reliable agree => ?_⟩
      rw [complete reliable agree] at result
      contradiction
  | whole stored =>
      obtain rfl := Option.some.inj result
      refine ⟨_, .removed stored, ?_⟩
      rintro - rfl success kept ⟨⟩
      rfl

/-- Every step does something to the disk that has been described, and the same to the pool if
nothing fails and both have been the same. -/
theorem Step.follows (step : Step env shelf tree time command effects calls ending)
    (holds : DiskHolds tree env disk) (bounded : Bounded disk) (decodes : Decodes req shelf command)
    (single : ∀ name ∈ shelf.keys, IsComponent name)
    (adds : ∀ name, command = .addQueue name → IsComponent name) :
    Follows env shelf disk command effects ending := by
  cases step with
  | untyped | unknown | unnumbered | unremoved | noNodeId | noFileId | zeroFileId | unread =>
      exact .nothing (by rintro _ _ ⟨⟩)
  | rejected | read | empty | known | unmade => exact .nothing (by rintro _ _ ⟨⟩; rfl)
  | consumed positive can =>
      cases decodes with
      | consume typed names =>
          exact consumed_follows holds (single _ (Shelf.key_mem names.member)) names.member can
      | read reads => cases reads
  | @unsaved mailbox data target counted opened positive cannot =>
      refine ⟨disk, .nothing, fun reliable agree => ?_⟩
      cases decodes with
      | produce typed names gives =>
          have component := single _ (Shelf.key_mem names.member)
          obtain ⟨items, stored⟩ := holds.items_of_directory
            (((holds.canOpen_iff component).mp opened).2.1 ▸ opened.2)
          exact absurd ((holds.canCreate_iff stored _).mpr ⟨reliable _ _, rfl⟩) (cannot _)
      | read reads => cases reads
  | saved counted opened positive can =>
      cases decodes with
      | produce typed names gives =>
          exact saved_follows holds bounded (single _ (Shelf.key_mem names.member)) counted opened can
      | read reads => cases reads
  | adopted fresh can =>
      refine ⟨disk, .nothing, fun _ agree => ?_⟩
      subst agree
      exact absurd ((holds.canOpen_iff (adds _ rfl)).mp can).2.2 fresh
  | made fresh can =>
      obtain ⟨_, rfl, absent⟩ := (holds.canMake_iff (adds _ rfl)).mp can
      refine ⟨_, .made (adds _ rfl) absent, ?_⟩
      rintro - rfl success kept ⟨⟩
      rfl
  | removed removal =>
      cases decodes with
      | removeQueue typed names =>
          exact removal_follows holds (single _ (Shelf.key_mem names.member)) names.member removal
      | read reads => cases reads
  | kept removal =>
      cases decodes with
      | removeQueue typed names =>
          exact removal_follows holds (single _ (Shelf.key_mem names.member)) names.member removal
      | read reads => cases reads

theorem Step.keys {success : Bool} {kept : Shelf Bytes Item} {name : Bytes}
    (step : Step env shelf tree time command effects calls (.answered success kept))
    (member : name ∈ kept.keys) : name ∈ shelf.keys ∨ command = .addQueue name := by
  have created {other : Bytes} (inside : name ∈ (shelf.create other).keys) :
      name ∈ shelf.keys ∨ Command.addQueue other = .addQueue name := by
    rw [Shelf.create, Shelf.keys_append] at inside
    rcases List.mem_append.mp inside with old | new
    · exact .inl old
    · exact .inr (by rw [List.mem_singleton.mp new])
  cases step with
  | rejected | read | empty | unsaved | known | unmade | kept => exact .inl member
  | consumed => exact .inl (by simpa [Shelf.pop] using member)
  | saved => exact .inl (by simpa [Shelf.push] using member)
  | adopted | made => exact created member
  | removed =>
      rw [Shelf.keys_remove] at member
      exact .inl (List.mem_of_mem_filter member)

end OnDisk

/-! ## Sessions on a disk -/

/-- A request in which a queue to be added is a single path component, and after which no file
is named by the largest `int`. -/
structure Modest (env : BrokerEnvironment) (before : Machine) (req : BrokerRequest)
    (after : Machine) : Prop where
  single : ∀ name, req.type = some brokerAddQueue → req.data = some name → name ≠ [] →
    IsComponent name
  below : ∀ name, after.world.system.tree.get (decimal 2147483647 :: name :: env.dataDir) = none

/-- The disk under a machine holds a shelf, and the pool has usable names. -/
structure Synced (env : BrokerEnvironment) (machine : Machine) (disk : Shelf Bytes Item) :
    Prop where
  keeps : machine.Keeps machine.shelf
  holds : DiskHolds machine.world.system.tree env.toEnvironment disk
  bounded : Bounded disk
  single : ∀ name ∈ machine.shelf.keys, IsComponent name

namespace Synced

variable {env : BrokerEnvironment} {machine after : Machine} {disk : Shelf Bytes Item}
  {req : BrokerRequest} {response : BrokerResponse}

theorem bounded_of_free {tree : FileTree} (holds : DiskHolds tree env.toEnvironment disk)
    (free : ∀ name, tree.get (decimal 2147483647 :: name :: env.dataDir) = none) :
    Bounded disk := by
  intro mailbox member item inside
  have range := holds.range mailbox member item inside
  have file := holds.files mailbox member (decimal item.id)
  rw [fileAt_of_mem (holds.ascending mailbox member) inside] at file
  have different : item.id ≠ 2147483647 := by
    intro same
    rw [same, free] at file
    contradiction
  omega

theorem command_single
    (single : ∀ name, req.type = some brokerAddQueue → req.data = some name → name ≠ [] →
      IsComponent name) (shelf : Shelf Bytes Item) :
    ∀ name, command req shelf = .addQueue name → IsComponent name := by
  intro name added
  have decodes := command_decodes req shelf
  rw [added] at decodes
  cases decodes with
  | addQueue typed gives => exact single name typed gives.given gives.nonempty
  | read reads => cases reads

/-- Whatever becomes of a request, the disk follows its step. -/
theorem follows (synced : Synced env machine disk)
    (single : ∀ name, req.type = some brokerAddQueue → req.data = some name → name ≠ [] →
      IsComponent name) :
    ∃ effects calls ending,
      Step env.toEnvironment machine.shelf machine.world.system.tree machine.world.system.clock
        (command req machine.shelf) effects calls ending ∧
      Ends env Machine.world (fun shelf after => after.Keeps shelf) machine.shelf machine effects
        calls ending (brokerDispatch env req machine) ∧
      Follows env.toEnvironment machine.shelf disk (command req machine.shelf) effects ending ∧
      ∀ name, command req machine.shelf = .addQueue name → IsComponent name := by
  obtain ⟨effects, calls, ending, step, ends⟩ := brokerDispatch_step env req synced.keeps
  have decodes := command_decodes req machine.shelf
  have adds := command_single single machine.shelf
  exact ⟨effects, calls, ending, step, ends,
    step.follows synced.holds synced.bounded decodes synced.single adds, adds⟩

/-- An answered request takes a step in memory and one on the disk, after which the disk holds a
shelf again if its ids are still bounded. -/
theorem carried (synced : Synced env machine disk)
    (single : ∀ name, req.type = some brokerAddQueue → req.data = some name → name ≠ [] →
      IsComponent name)
    (ran : brokerDispatch env req machine = .returned (some response) after) :
    ∃ effects calls success later,
      Step env.toEnvironment machine.shelf machine.world.system.tree machine.world.system.clock
        (command req machine.shelf) effects calls (.answered success after.shelf) ∧
      DiskStep env.toEnvironment disk (command req machine.shelf) effects later ∧
      DiskHolds after.world.system.tree env.toEnvironment later ∧
      (Bounded later → Synced env after later) ∧
      (env.Reliable → machine.shelf = disk → after.shelf = later) := by
  obtain ⟨effects, calls, ending, step, ends, ⟨later, onDisk, agree⟩, adds⟩ := synced.follows single
  rw [ran] at ends
  have holds := onDisk.holds synced.holds synced.bounded
  cases ends with
  | answered _ keeps handled =>
      rw [← handled.tree] at holds
      have shown := keeps.shelf_eq
      refine ⟨effects, calls, _, later, shown.symm ▸ step, onDisk, holds,
        fun bounded => ⟨shown.symm ▸ keeps, holds, bounded, ?_⟩,
        fun reliable same => shown.trans (agree reliable same _ _ rfl)⟩
      intro name member
      rw [shown] at member
      rcases step.keys member with old | added
      · exact synced.single name old
      · exact adds name added

theorem asked (synced : Synced env machine disk) (modest : Modest env machine req after)
    (ran : brokerDispatch env req machine = .returned (some response) after) :
    ∃ later, Synced env after later ∧
      (env.Reliable → machine.shelf = disk → after.shelf = later) := by
  obtain ⟨_, _, _, later, _, _, holds, bounded, agree⟩ := synced.carried modest.single ran
  exact ⟨later, bounded (bounded_of_free holds modest.below), agree⟩

/-- Along a session some shelf stays on the disk, the one of the pool if it has been so. -/
theorem session (synced : Synced env machine disk) (session : Session env (Modest env) machine after) :
    ∃ later, Synced env after later ∧ (env.Reliable → machine.shelf = disk → after.shelf = later) := by
  induction session with
  | start => exact ⟨disk, synced, fun _ same => same⟩
  | handled session modest ran ih =>
      obtain ⟨middle, reached, agreed⟩ := ih
      obtain ⟨later, kept, agrees⟩ := reached.asked modest ran
      exact ⟨later, kept, fun reliable same => agrees reliable (agreed reliable same)⟩

theorem started {tree : FileTree} {first : Machine}
    (holds : DiskHolds tree env.toEnvironment disk) (bounded : Bounded disk)
    (ran : queuePoolLoad env.toEnvironment (.boot tree) = .returned () first) :
    Synced env first disk ∧ first.shelf.Perm (disk.map Fifo.readBack) := by
  rcases queuePoolLoad_disk holds with ⟨machine, loaded, keeps, perm, same, _⟩ | ⟨_, _, failed⟩
  · rw [ran] at loaded
    cases loaded
    refine ⟨⟨keeps, same ▸ holds, bounded, fun name member => ?_⟩, perm⟩
    have named : name ∈ Shelf.keys (disk.map Fifo.readBack) := (perm.map Fifo.key).mem_iff.mp member
    obtain ⟨_, inside, rfl⟩ := List.mem_map.mp named
    obtain ⟨mailbox, stored, rfl⟩ := List.mem_map.mp inside
    exact holds.single mailbox.key (Shelf.key_mem stored)
  · rw [ran] at failed
    contradiction

theorem of_perm {other : Shelf Bytes Item} (synced : Synced env machine disk)
    (perm : disk.Perm other) : Synced env machine other where
  keeps := synced.keeps
  holds := synced.holds.of_perm perm
  bounded := fun mailbox member => synced.bounded mailbox (perm.mem_iff.mpr member)
  single := synced.single

end Synced

end Bmb
