import Bmb.Persist.Disk

namespace Bmb

open Bmb.Base Bmb.Posix

/-! How the removal of a queue goes on a disk that holds a shelf. -/

/-- The unlinking of the files of some items of a queue. -/
def unlinkAll (env : Environment) (key : Bytes) (items : List Item) : List Effect :=
  items.map fun item => .unlink (decimal item.id :: key :: env.dataDir)

/-- How a removal can go: nothing happens, the files of the oldest items are unlinked,
or all files are unlinked and the directory is removed. -/
inductive DiskRemoval (env : Environment) (shelf : Shelf Bytes Item) (key : Bytes) :
    List Effect → Option Bool → Prop where
  | nothing {result : Option Bool} (unfinished : result ≠ some true) :
      DiskRemoval env shelf key [] result
  | partly {front rest : List Item} (member : ⟨key, front ++ rest⟩ ∈ shelf) :
      DiskRemoval env shelf key (unlinkAll env key front) (some false)
  | whole {items : List Item} (member : ⟨key, items⟩ ∈ shelf) :
      DiskRemoval env shelf key (unlinkAll env key items ++ [.rmdir (key :: env.dataDir)])
        (some true)

variable {env : Environment} {tree : FileTree} {shelf : Shelf Bytes Item} {key : Bytes}
  {front rest items : List Item} {time : Nat} {effects : List Effect} {result : Option Bool}

theorem ascending_filter {item : Item} (ascending : Ascending (item :: items)) :
    (item :: items).filter (fun other => other.id ≠ item.id) = items := by
  rw [List.filter_cons_of_neg (by simp)]
  apply List.filter_eq_self.mpr
  intro other member
  have := (List.pairwise_cons.mp ascending).1 other member
  simp
  omega

theorem DiskHolds.unlink_oldest {item : Item} (holds : DiskHolds tree env shelf)
    (member : ⟨key, item :: items⟩ ∈ shelf) :
    DiskHolds ((Effect.unlink (decimal item.id :: key :: env.dataDir)).apply tree) env
      (shelf.update key List.tail) := by
  have dropped := holds.apply_unlink item.id member
  have same : shelf.update key (List.filter fun other => other.id ≠ item.id) =
      shelf.update key List.tail := by
    apply Shelf.update_congr
    intro queue inside named
    have only : queue = ⟨key, item :: items⟩ := Shelf.eq_of_key_eq holds.distinct inside member named
    rw [only]
    exact ascending_filter (holds.ascending _ member)
  rwa [same] at dropped

theorem DiskHolds.unlinkAll (front : List Item) (holds : DiskHolds tree env shelf)
    (member : ⟨key, front ++ rest⟩ ∈ shelf) :
    DiskHolds (replay (unlinkAll env key front) tree) env
      (shelf.update key (List.drop front.length)) := by
  induction front generalizing tree shelf with
  | nil =>
      have same : shelf.update key (List.drop 0) = shelf :=
        Shelf.update_self (fun _ _ _ => List.drop_zero)
      rw [List.length_nil, same]
      exact holds
  | cons item front ih =>
      have next := holds.unlink_oldest member
      have later := ih next (Shelf.mem_update_self member)
      rw [Shelf.update_update] at later
      have same : (fun items : List Item => items.tail.drop front.length) =
          List.drop (item :: front).length := by
        funext items
        rw [List.drop_tail, List.length_cons]
      rwa [same] at later

theorem Unlinks.disk {ids : List Int} {success : Bool}
    (unlinks : Unlinks env (queuePath key) tree time ids effects success)
    (holds : DiskHolds tree env shelf) (member : ⟨key, items⟩ ∈ shelf)
    (listed : ids = items.map fun item => (item.id : Int)) :
    ∃ front rest, items = front ++ rest ∧ effects = unlinkAll env key front ∧
      (success = true → rest = []) ∧ (success = false → ¬env.Reliable) := by
  generalize located : queuePath key = path at unlinks
  induction unlinks generalizing shelf items with
  | done =>
      cases items with
      | nil => exact ⟨[], [], rfl, rfl, fun _ => rfl, by simp⟩
      | cons item items => simp at listed
  | step can later ih =>
      subst located
      cases items with
      | nil => simp at listed
      | cons item items =>
          simp only [List.map_cons, List.cons.injEq] at listed
          obtain ⟨rfl, listed⟩ := listed
          obtain ⟨_, rfl, _⟩ := (holds.canUnlink_iff member _).mp can
          rw [formatInt_nat] at ih ⊢
          obtain ⟨front, rest, rfl, rfl, all, unreliable⟩ := ih (holds.unlink_oldest member)
            (Shelf.mem_update_self member) listed
          exact ⟨item :: front, rest, rfl, rfl, all, unreliable⟩
  | refused cannot =>
      subst located
      refine ⟨[], items, rfl, rfl, by simp, fun _ reliable => ?_⟩
      cases items with
      | nil => simp at listed
      | cons item items =>
          simp only [List.map_cons, List.cons.injEq] at listed
          obtain ⟨rfl, _⟩ := listed
          exact cannot _ ((holds.canUnlink_iff member _).mpr ⟨reliable _ _, rfl,
            item, by simp, (formatInt_nat _).symm⟩)

/-- A removal lists all items, or none because there are none or because the counting fails. -/
theorem RemovalIds.disk {ids : List Int} (found : RemovalIds env (queuePath key) tree time ids)
    (holds : DiskHolds tree env shelf) (member : ⟨key, items⟩ ∈ shelf) :
    ids = items.map (fun item => (item.id : Int)) ∨ ids = [] ∧ ¬env.Reliable := by
  have single := holds.single key (Shelf.key_mem member)
  cases found with
  | uncounted closed =>
      refine .inr ⟨rfl, fun reliable => closed (key :: env.dataDir) ?_⟩
      exact (holds.canOpen_iff single).mpr ⟨reliable _ _, rfl, Shelf.key_mem member⟩
  | empty counted none =>
      obtain ⟨_, rfl, _⟩ := (holds.canOpen_iff single).mp counted
      rw [(holds.listing member _).countNodes_eq, List.length_map] at none
      obtain rfl : items = [] := List.length_eq_zero_iff.mp none
      exact .inl rfl
  | listed opened counted =>
      obtain ⟨_, rfl, _⟩ := (holds.canOpen_iff single).mp opened
      exact .inl (holds.nodeIds_eq member _)

theorem RemovalIds.unlinks {ids : List Int} {success : Bool}
    (found : RemovalIds env (queuePath key) tree time ids)
    (unlinks : Unlinks env (queuePath key) tree (time + 3) ids effects success)
    (holds : DiskHolds tree env shelf) (member : ⟨key, items⟩ ∈ shelf) :
    ∃ front rest, items = front ++ rest ∧ effects = unlinkAll env key front ∧
      (env.Reliable → success = true ∧ rest = []) := by
  rcases found.disk holds member with listed | ⟨rfl, unreliable⟩
  · obtain ⟨front, rest, split, shown, all, refused⟩ := unlinks.disk holds member listed
    refine ⟨front, rest, split, shown, fun reliable => ?_⟩
    cases success with
    | true => exact ⟨rfl, all rfl⟩
    | false => exact absurd reliable (refused rfl)
  · cases unlinks
    exact ⟨[], items, rfl, rfl, fun reliable => absurd reliable unreliable⟩

theorem Removal.disk (removal : Removal env (queuePath key) tree time effects result)
    (holds : DiskHolds tree env shelf) (single : IsComponent key) :
    DiskRemoval env shelf key effects result := by
  have known {target : Path} {at_ : Nat} (opened : CanOpen env (queuePath key) tree at_ target) :
      ∃ items, ⟨key, items⟩ ∈ shelf := by
    obtain ⟨_, _, inside⟩ := (holds.canOpen_iff single).mp opened
    obtain ⟨⟨_, items⟩, member, rfl⟩ := List.mem_map.mp inside
    exact ⟨items, member⟩
  cases removal with
  | closed closed => exact .nothing (by simp)
  | unread opened unread counted some => exact .nothing (by simp)
  | refused opened found unlinks =>
      obtain ⟨items, member⟩ := known opened
      obtain ⟨front, rest, rfl, rfl, _⟩ := found.unlinks unlinks holds member
      exact .partly member
  | kept opened found unlinks cannot =>
      obtain ⟨items, member⟩ := known opened
      obtain ⟨front, rest, rfl, rfl, _⟩ := found.unlinks unlinks holds member
      exact .partly member
  | removed opened found unlinks can =>
      obtain ⟨items, member⟩ := known opened
      obtain ⟨front, rest, rfl, rfl, _⟩ := found.unlinks unlinks holds member
      have left := holds.unlinkAll front member
      obtain ⟨_, rfl, empty⟩ := (left.canRemove_iff (Shelf.mem_update_self member)).mp can
      have same : rest = [] := by simpa using empty
      subst same
      rw [List.append_nil] at member
      exact .whole member

/-- When nothing fails, a removal of a stored queue is complete. -/
theorem Removal.reliable (removal : Removal env (queuePath key) tree time effects result)
    (holds : DiskHolds tree env shelf) (member : ⟨key, items⟩ ∈ shelf) (reliable : env.Reliable) :
    result = some true := by
  have single := holds.single key (Shelf.key_mem member)
  have open_ (moment : Nat) : CanOpen env (queuePath key) tree moment (key :: env.dataDir) :=
    (holds.canOpen_iff single).mpr ⟨reliable _ _, rfl, Shelf.key_mem member⟩
  cases removal with
  | closed closed => exact absurd (open_ _) (closed _)
  | unread opened unread counted some => exact absurd (open_ _) (unread _)
  | refused opened found unlinks =>
      obtain ⟨front, rest, rfl, rfl, all⟩ := found.unlinks unlinks holds member
      exact absurd (all reliable).1 (by simp)
  | kept opened found unlinks cannot =>
      obtain ⟨front, rest, rfl, rfl, all⟩ := found.unlinks unlinks holds member
      have left := holds.unlinkAll front member
      obtain rfl := (all reliable).2
      exact absurd ((left.canRemove_iff (Shelf.mem_update_self member)).mpr
        ⟨reliable _ _, rfl, by simp⟩) (cannot _)
  | removed opened found unlinks can => rfl

end Bmb
