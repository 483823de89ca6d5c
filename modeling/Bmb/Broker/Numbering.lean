import Bmb.Broker.Agreement

namespace Bmb

open Bmb.Base Bmb.Posix

/-! The ids of nodes over runs of any length. -/

/-- The id that the next node of a queue gets from `get_next_node_id`, as it should be. -/
structure NextId (env : Environment) (mailbox : Mailbox) (world : World) (next : Nat) : Prop where
  computed : ∃ after, persistDispatch env ⟨.getNextId, some mailbox.key, 0, none⟩ world =
    .returned (persistSuccess (.nextId next)) after
  noOverflow : ∀ queue after, readQueue env (queuePath mailbox.key) world =
    .returned (some queue) after → 0 < queue.headD 0 →
    -2147483648 ≤ queue.getD (queue.headD 0).toNat 0 + 1 ∧
      queue.getD (queue.headD 0).toNat 0 + 1 ≤ 2147483647
  positive : 1 ≤ next
  small : next ≤ 2147483647
  greater : ∀ item ∈ mailbox.items, item.id < next
  written : intToString (toInt32 next) = decimal next
  readBack : atoi (intToString (toInt32 next)) = next

section Holding

variable {env : Environment} {tree : FileTree} {shelf disk after : Shelf Bytes Item}
  {mailbox : Mailbox} {command : Command} {effects : List Effect}

theorem followingId_le {items : List Item} {bound : Nat} (positive : 0 < bound)
    (below : ∀ item ∈ items, item.id < bound) : followingId items ≤ bound := by
  unfold followingId
  cases last : items.getLast? with
  | none => exact positive
  | some item => exact below item (List.mem_of_getLast? last)

/-- The last entry of the array of ids and one more, as `get_next_node_id` computes it. -/
theorem nodeList_last (items : List Item) (some_ : 0 < (items.length : Int)) :
    ((items.length : Int) :: items.map fun item => (item.id : Int)).getD (items.length : Int).toNat 0
      + 1 = (followingId items : Int) := by
  rcases List.eq_nil_or_concat items with rfl | ⟨front, last, rfl⟩
  · simp at some_
  · rw [List.concat_eq_append]
    simp [followingId, List.getD]

theorem nextId_computed (holds : DiskHolds tree env shelf) (reliable : env.Reliable)
    (member : mailbox ∈ shelf) {world : World} (same : world.system.tree = tree) :
    ∃ after, persistDispatch env ⟨.getNextId, some mailbox.key, 0, none⟩ world =
      .returned (persistSuccess (.nextId (followingId mailbox.items))) after := by
  have single := holds.single _ (Shelf.key_mem member)
  have opened (time : Nat) : CanOpen env (queuePath mailbox.key) tree time
      (mailbox.key :: env.dataDir) :=
    (holds.canOpen_iff single).mpr ⟨reliable _ _, rfl, Shelf.key_mem member⟩
  subst same
  rcases getNextId_run env mailbox.key world with ⟨target, after, can, ran, _⟩ | ⟨cannot, _⟩
  · rw [can.1.unique (opened _).1, holds.nextIdAt_eq member] at ran
    exact ⟨after, ran⟩
  · exact absurd (opened _) (cannot _)

theorem readQueue_reads (holds : DiskHolds tree env shelf) (member : mailbox ∈ shelf)
    {world last : World} (same : world.system.tree = tree) {queue : List Int}
    (ran : readQueue env (queuePath mailbox.key) world = .returned (some queue) last) :
    queue = (mailbox.items.length : Int) :: mailbox.items.map fun item => (item.id : Int) := by
  have single := holds.single _ (Shelf.key_mem member)
  subst same
  rcases readQueue_run env (queuePath mailbox.key) world with ⟨target, after, can, read, _⟩ |
    ⟨_, after, read, _⟩
  · rw [read] at ran
    obtain ⟨_, rfl, _⟩ := (holds.canOpen_iff single).mp can
    rw [holds.nodeList_eq member] at ran
    cases ran
    rfl
  · rw [read] at ran
    cases ran

/-- On a disk that holds the queues, the next id is as it should be unless the newest one is the
largest `int`. -/
theorem nextId_iff (holds : DiskHolds tree env shelf) (reliable : env.Reliable)
    (member : mailbox ∈ shelf) {world : World} (same : world.system.tree = tree) :
    (∃ next, NextId env mailbox world next) ↔ ∀ item ∈ mailbox.items, item.id < 2147483647 := by
  obtain ⟨last, given⟩ := nextId_computed holds reliable member same
  have ascending := holds.ascending mailbox member
  constructor
  · intro sound item inside
    obtain ⟨next, sound⟩ := sound
    have small := sound.small
    have greater := sound.greater item inside
    omega
  · intro below
    have bound : followingId mailbox.items ≤ 2147483647 := followingId_le (by decide) below
    have positive := followingId_pos mailbox.items
    have named : intToString (toInt32 (followingId mailbox.items)) =
        decimal (followingId mailbox.items) := by
      rw [toInt32_of_range (by omega) (by omega), intToString, formatInt_nat]
    refine ⟨followingId mailbox.items, ⟨last, given⟩, ?_, positive, bound,
      fun item inside => lt_followingId ascending inside, named, ?_⟩
    · intro queue after ran some_
      rw [readQueue_reads holds member same ran, List.headD_cons] at some_ ⊢
      rw [nodeList_last _ some_]
      omega
    · rw [named, atoi_decimal (by omega)]

/-- Ids stay below the largest `int` unless the one before it has been given out. -/
theorem DiskStep.bounded {later : Shelf Bytes Item}
    (step : DiskStep env disk command effects later) (bounded : Bounded disk)
    (room : ∀ mailbox data, command = .produce mailbox data →
      ∀ items, ⟨mailbox.key, items⟩ ∈ disk → followingId items < 2147483647) : Bounded later := by
  have updated {key : Bytes} {f : List Item → List Item}
      (inside : ∀ items, ⟨key, items⟩ ∈ disk → ∀ item ∈ f items, item.id < 2147483647) :
      Bounded (disk.update key f) := by
    intro mailbox member item itemIn
    rcases Shelf.mem_update.mp member with ⟨_, old⟩ | ⟨_, items, old, changed⟩
    · exact bounded mailbox old item itemIn
    · rw [changed] at itemIn
      exact inside items old item itemIn
  have pushed {mailbox : Mailbox} {data message : Bytes} {items : List Item}
      (produces : command = .produce mailbox data)
      (member : ⟨mailbox.key, items⟩ ∈ disk) :
      Bounded (disk.push mailbox.key ⟨followingId items, message⟩) := by
    refine updated fun others old item itemIn => ?_
    rcases List.mem_append.mp itemIn with inside | last
    · exact bounded _ old item inside
    · rw [List.mem_singleton.mp last]
      exact room mailbox data produces items member
  cases step with
  | nothing => exact bounded
  | consumed member =>
      exact updated fun items old item inside => bounded _ old item (List.mem_of_mem_filter inside)
  | created member => exact pushed rfl member
  | stored member => exact pushed rfl member
  | made =>
      intro mailbox member item inside
      rcases List.mem_append.mp member with old | new
      · exact bounded mailbox old item inside
      · rw [List.mem_singleton.mp new] at inside
        simp at inside
  | unlinked member =>
      exact updated fun items old item inside => bounded _ old item (List.mem_of_mem_drop inside)
  | removed member =>
      intro mailbox kept item inside
      exact bounded mailbox (List.mem_of_mem_filter kept) item inside

end Holding

/-! ## Runs -/

theorem followingId_congr {items others : List Item}
    (same : items.map Item.id = others.map Item.id) : followingId items = followingId others := by
  have last := congrArg List.getLast? same
  rw [List.getLast?_map, List.getLast?_map] at last
  unfold followingId
  cases left : items.getLast? <;> cases right : others.getLast? <;>
    simp_all

/-- The queues have the same ids in memory and on the disk, whatever has become of the messages. -/
structure Aligned (shelf disk : Shelf Bytes Item) : Prop where
  known : ∀ name ∈ disk.keys, name ∈ shelf.keys
  stored : ∀ mailbox ∈ shelf, ∃ items, ⟨mailbox.key, items⟩ ∈ disk ∧
    items.map Item.id = mailbox.items.map Item.id

namespace Aligned

variable {env : Environment} {tree : FileTree} {shelf disk kept later : Shelf Bytes Item}
  {req : BrokerRequest} {command : Command} {effects : List Effect} {calls : List PersistCall}
  {success : Bool} {time : Nat} {key : Bytes}

theorem items {mailbox : Mailbox} {items : List Item} (aligned : Aligned shelf disk)
    (distinct : disk.keys.Nodup) (member : mailbox ∈ shelf) (stored : ⟨mailbox.key, items⟩ ∈ disk) :
    items.map Item.id = mailbox.items.map Item.id := by
  obtain ⟨others, other, same⟩ := aligned.stored mailbox member
  have equal := Shelf.eq_of_key_eq distinct stored other rfl
  simp only [Fifo.mk.injEq, true_and] at equal
  rwa [equal]

protected theorem refl (shelf : Shelf Bytes Item) : Aligned shelf shelf :=
  ⟨fun _ member => member, fun mailbox member => ⟨mailbox.items, member, rfl⟩⟩

theorem update {f g : List Item → List Item} (aligned : Aligned shelf disk)
    (same : ∀ own items, ⟨key, own⟩ ∈ shelf → ⟨key, items⟩ ∈ disk →
      items.map Item.id = own.map Item.id → (g items).map Item.id = (f own).map Item.id) :
    Aligned (shelf.update key f) (disk.update key g) := by
  refine ⟨by simpa using aligned.known, fun mailbox member => ?_⟩
  rcases Shelf.mem_update.mp member with ⟨different, old⟩ | ⟨named, own, old, changed⟩
  · obtain ⟨items, stored, ids⟩ := aligned.stored mailbox old
    exact ⟨items, Shelf.mem_update.mpr (.inl ⟨different, stored⟩), ids⟩
  · obtain ⟨items, stored, ids⟩ := aligned.stored _ old
    refine ⟨g items, Shelf.mem_update.mpr (.inr ⟨named, items, stored, rfl⟩), ?_⟩
    rw [changed]
    exact same own items old stored ids

theorem create {name : Bytes} (aligned : Aligned shelf disk) :
    Aligned (shelf.create name) (disk.create name) := by
  refine ⟨fun other member => ?_, fun mailbox member => ?_⟩
  · simp only [Shelf.create, Shelf.keys_append, List.mem_append] at member ⊢
    exact member.imp_left (aligned.known other)
  · rcases List.mem_append.mp member with old | new
    · obtain ⟨items, stored, ids⟩ := aligned.stored mailbox old
      exact ⟨items, List.mem_append_left _ stored, ids⟩
    · rw [List.mem_singleton.mp new]
      exact ⟨[], List.mem_append_right _ (List.mem_singleton.mpr rfl), rfl⟩

theorem remove (aligned : Aligned shelf disk) :
    Aligned (shelf.remove key) (disk.remove key) := by
  refine ⟨fun other member => ?_, fun mailbox member => ?_⟩
  · rw [Shelf.keys_remove, List.mem_filter] at member ⊢
    exact member.imp_left (aligned.known other)
  · obtain ⟨old, different⟩ := List.mem_filter.mp member
    obtain ⟨items, stored, ids⟩ := aligned.stored mailbox old
    exact ⟨items, List.mem_filter.mpr ⟨stored, different⟩, ids⟩

theorem consumed {item : Item} {rest : List Item} {id : Nat} (aligned : Aligned shelf disk)
    (holds : DiskHolds tree env disk) (distinct : shelf.keys.Nodup)
    (member : ⟨key, item :: rest⟩ ∈ shelf) (named : formatInt (toInt32 item.id) = decimal id) :
    Aligned (shelf.pop key) (disk.update key (List.filter fun other => other.id ≠ id)) := by
  refine aligned.update fun own items old stored ids => ?_
  have only := Shelf.eq_of_key_eq distinct old member rfl
  simp only [Fifo.mk.injEq, true_and] at only
  subst only
  cases items with
  | nil => simp at ids
  | cons oldest others =>
      simp only [List.map_cons, List.cons.injEq] at ids
      obtain ⟨first, ids⟩ := ids
      have range := holds.range _ stored oldest List.mem_cons_self
      rw [← first, toInt32_of_range (by omega) (by omega), formatInt_nat] at named
      rw [← decimal_injective named, ascending_filter (holds.ascending _ stored)]
      exact ids

theorem produced {mailbox : Mailbox} {data : Bytes} {target file : Path}
    (aligned : Aligned shelf disk) (reliable : env.Reliable) (holds : DiskHolds tree env disk)
    (member : mailbox ∈ shelf)
    (counted : CanOpen env (queuePath mailbox.key) tree (time + 1) target)
    (onDisk : DiskStep env disk (.produce mailbox data)
      (storeEffects env (time + 5) file (some data)) later) :
    Aligned (shelf.push mailbox.key ⟨nextIdAt env tree (time + 1) target, data⟩) later := by
  obtain ⟨items, stored, _⟩ := aligned.stored mailbox member
  have inside : mailbox.key ∈ disk.keys := List.mem_map.mpr ⟨_, stored, rfl⟩
  have single := holds.single _ inside
  obtain ⟨_, rfl, _⟩ := (holds.canOpen_iff single).mp counted
  rw [holds.nextIdAt_eq stored]
  rw [storeEffects, reliable, if_neg Bool.false_ne_true] at onDisk
  cases onDisk with
  | stored here =>
      rw [Shelf.eq_of_key_eq holds.distinct stored here rfl]
      refine aligned.update fun own items old stored ids => ?_
      rw [List.map_append, List.map_append, ids]

theorem removed {mailbox : Mailbox} (aligned : Aligned shelf disk)
    (holds : DiskHolds tree env disk) (member : mailbox ∈ shelf)
    (removal : Removal env (queuePath mailbox.key) tree time effects (some true))
    (onDisk : DiskStep env disk (.removeQueue mailbox) effects later) :
    Aligned (shelf.remove mailbox.key) later := by
  obtain ⟨items, stored, _⟩ := aligned.stored mailbox member
  have inside : mailbox.key ∈ disk.keys := List.mem_map.mpr ⟨_, stored, rfl⟩
  have single := holds.single _ inside
  have shape := removal.disk holds single
  cases onDisk with
  | removed => exact aligned.remove
  | nothing =>
      generalize changed : ([] : List Effect) = effects at shape
      cases shape with
      | nothing unfinished => exact absurd rfl unfinished
      | whole => simp at changed
  | unlinked =>
      generalize changed : unlinkAll _ _ _ = effects at shape
      cases shape with
      | nothing unfinished => exact absurd rfl unfinished
      | whole =>
          have last := congrArg List.getLast? changed
          rw [List.getLast?_concat] at last
          have inside := List.mem_of_getLast? last
          simp [unlinkAll] at inside

/-- When nothing fails, every answered request keeps the ids in memory and on the disk alike. -/
theorem step (aligned : Aligned shelf disk) (reliable : env.Reliable)
    (holds : DiskHolds tree env disk) (distinct : shelf.keys.Nodup)
    (decodes : Decodes req shelf command)
    (adds : ∀ name, command = .addQueue name → IsComponent name)
    (step : Step env shelf tree time command effects calls (.answered success kept))
    (onDisk : DiskStep env disk command effects later) : Aligned kept later := by
  cases step with
  | rejected | empty | known | unmade =>
      cases onDisk
      exact aligned
  | unsaved =>
      cases onDisk
      exact aligned
  | read reads =>
      cases reads <;> cases onDisk <;> exact aligned
  | consumed positive can =>
      cases decodes with
      | consume typed names =>
          obtain ⟨items, stored, _⟩ := aligned.stored _ names.member
          obtain ⟨_, rfl, _⟩ := (holds.canUnlink_iff stored _).mp can
          generalize named : formatInt (toInt32 _) = file at onDisk
          cases onDisk with
          | consumed => exact aligned.consumed holds distinct names.member named
      | read reads => cases reads
  | saved counted opened positive can =>
      cases decodes with
      | produce typed names gives =>
          exact aligned.produced reliable holds names.member counted onDisk
      | read reads => cases reads
  | adopted fresh can =>
      obtain ⟨_, _, present⟩ := (holds.canOpen_iff (adds _ rfl)).mp can
      exact absurd (aligned.known _ present) fresh
  | made =>
      cases onDisk
      exact aligned.create
  | removed removal =>
      cases decodes with
      | removeQueue typed names => exact aligned.removed holds names.member removal onDisk
      | read reads => cases reads
  | kept removal =>
      cases decodes with
      | removeQueue typed names =>
          obtain ⟨items, stored, _⟩ := aligned.stored _ names.member
          exact absurd (removal.reliable holds stored reliable) (by simp)
      | read reads => cases reads

end Aligned

variable {env : BrokerEnvironment} {first machine after : Machine} {req : BrokerRequest}
  {response : BrokerResponse} {disk : Shelf Bytes Item}

/-- A request in which a queue to be added is a single path component, and which does not produce
behind the last but one `int`. -/
structure Roomy (before : Machine) (req : BrokerRequest) (_after : Machine) : Prop where
  single : ∀ name, req.type = some brokerAddQueue → req.data = some name → name ≠ [] →
    IsComponent name
  room : ∀ mailbox data, command req before.shelf = .produce mailbox data →
    ∀ item ∈ mailbox.items, item.id < 2147483646

/-- A disk that has the ids of the pool keeps them, and stays bounded. -/
theorem Synced.roomy (synced : Synced env machine disk) (aligned : Aligned machine.shelf disk)
    (reliable : env.Reliable) (roomy : Roomy machine req after)
    (ran : brokerDispatch env req machine = .returned (some response) after) :
    ∃ later, Synced env after later ∧ Aligned after.shelf later ∧
      (machine.shelf = disk → after.shelf = later) := by
  obtain ⟨effects, calls, success, later, step, onDisk, _, bounded, agree⟩ :=
    synced.carried roomy.single ran
  have decodes := command_decodes req machine.shelf
  have room : ∀ mailbox data, command req machine.shelf = .produce mailbox data →
      ∀ items, ⟨mailbox.key, items⟩ ∈ disk → followingId items < 2147483647 := by
    intro mailbox data produces items stored
    have member : mailbox ∈ machine.shelf := by
      rw [produces] at decodes
      cases decodes with
      | produce typed names => exact names.member
      | read reads => cases reads
    have bound := followingId_le (by decide) (roomy.room mailbox data produces)
    rw [followingId_congr (aligned.items synced.holds.distinct member stored)]
    omega
  exact ⟨later, bounded (onDisk.bounded synced.bounded room),
    aligned.step reliable synced.holds synced.keeps.nodup decodes
      (Synced.command_single roomy.single machine.shelf) step onDisk,
    agree reliable⟩

theorem Aligned.loaded {shelf : Shelf Bytes Item} (perm : shelf.Perm (disk.map Fifo.readBack)) :
    Aligned shelf disk := by
  refine ⟨fun name member => ?_, fun mailbox member => ?_⟩
  · obtain ⟨mailbox, stored, rfl⟩ := List.mem_map.mp member
    have read : mailbox.readBack ∈ disk.map Fifo.readBack := List.mem_map_of_mem stored
    exact @Shelf.key_mem _ _ _ mailbox.readBack (perm.mem_iff.mpr read)
  · obtain ⟨mailbox, stored, rfl⟩ := List.mem_map.mp (perm.mem_iff.mp member)
    exact ⟨mailbox.items, stored, by simp [Fifo.readBack, readBack]⟩

/-- A queue to which a message has been produced a number of times. -/
def filled : Nat → Machine
  | 0 => (loaded faithful emptyTree).asked faithful (request "addQueue" none (some "a"))
  | count + 1 => (filled count).asked faithful (request "produce" (some "a") (some "x"))

end Bmb
