import Mathlib.Data.List.Range
import Bmb.Persist.Queues

namespace Bmb

open Bmb.Base Bmb.Posix

/-! What is read from a directory whose files are named by ids, in whatever order it is listed. -/

/-- The entries of a directory with a file for each id; the ids are ascending, the entries are
listed in any order. -/
structure Listing (entries : List Name) (ids : List Nat) : Prop where
  perm : entries.Perm (dot :: dotdot :: ids.map decimal)
  ascending : ids.Pairwise (· < ·)
  range : ∀ id ∈ ids, 0 < id ∧ id < 2147483648

theorem isNodeName_decimal {id : Nat} (positive : 0 < id) (small : id < 2147483648) :
    isNodeName (decimal id) = true := by
  simp only [isNodeName, atoi_decimal small, bne_iff_ne, ne_eq]
  omega

namespace Listing

variable {entries : List Name} {ids : List Nat}

theorem of_env {names : List Name} (env : Environment) (time : Nat)
    (perm : names.Perm (ids.map decimal)) (ascending : ids.Pairwise (· < ·))
    (range : ∀ id ∈ ids, 0 < id ∧ id < 2147483648) :
    Listing (env.order time (dot :: dotdot :: names)) ids :=
  ⟨(env.order_perm time _).trans ((perm.cons dotdot).cons dot), ascending, range⟩

theorem read_perm (listing : Listing entries ids) :
    ((entries.filter isNodeName).map atoi).Perm (ids.map fun id : Nat => (id : Int)) := by
  have nodes : (dot :: dotdot :: ids.map decimal).filter isNodeName = ids.map decimal := by
    rw [List.filter_cons_of_neg (by decide), List.filter_cons_of_neg (by decide)]
    apply List.filter_eq_self.mpr
    intro name member
    obtain ⟨id, inside, rfl⟩ := List.mem_map.mp member
    exact isNodeName_decimal (listing.range id inside).1 (listing.range id inside).2
  have read : (ids.map decimal).map atoi = ids.map fun id : Nat => (id : Int) := by
    rw [List.map_map]
    apply List.map_congr_left
    intro id inside
    exact atoi_decimal (listing.range id inside).2
  have found := (listing.perm.filter isNodeName).map atoi
  rwa [nodes, read] at found

theorem nodeIds_eq (listing : Listing entries ids) : nodeIds entries = ids.map fun id : Nat => (id : Int) := by
  have bounds : ∀ value ∈ (entries.filter isNodeName).map atoi, 0 ≤ value ∧ value < 2147483648 := by
    intro value member
    obtain ⟨id, inside, rfl⟩ := List.mem_map.mp (listing.read_perm.mem_iff.mp member)
    have := listing.range id inside
    omega
  have sorted : (ids.map fun id : Nat => (id : Int)).Pairwise (· ≤ ·) := by
    rw [List.pairwise_map]
    exact listing.ascending.imp (fun less => by omega)
  rw [nodeIds, sortIntArrayAsc_eq bounds]
  exact ((List.perm_insertionSort _ _).trans listing.read_perm).eq_of_pairwise'
    (List.pairwise_insertionSort _ _) sorted

theorem countNodes_eq (listing : Listing entries ids) : countNodes entries = ids.length := by
  rw [← nodeIds_length, listing.nodeIds_eq, List.length_map]

theorem length_lt (listing : Listing entries ids) : ids.length < 2147483648 := by
  have inside : ids ⊆ List.range' 1 2147483647 := by
    intro id member
    have := listing.range id member
    rw [List.mem_range'_1]
    omega
  have distinct : ids.Nodup := listing.ascending.imp fun less => Nat.ne_of_lt less
  have bound := (distinct.subperm inside).length_le
  rw [List.length_range'] at bound
  omega

/-- The array that `read_queue` fills: the number of ids, then the ids. -/
theorem nodeList_eq (listing : Listing entries ids) :
    nodeList entries = (ids.length : Int) :: ids.map fun id : Nat => (id : Int) := by
  have read := listing.nodeIds_eq
  have count := listing.countNodes_eq
  have small := listing.length_lt
  rw [countNodes, List.countP_eq_length_filter] at count
  unfold nodeIds at read
  simp only [nodeList, read, List.length_map, count]
  rw [toInt32_of_range (by omega) (by omega)]

theorem nextIdOf_eq (listing : Listing entries ids) :
    nextIdOf (nodeList entries) = match ids.getLast? with
      | none => 1
      | some greatest => greatest + 1 := by
  rw [listing.nodeList_eq]
  rcases List.eq_nil_or_concat ids with rfl | ⟨front, last, rfl⟩
  · rfl
  · rw [List.concat_eq_append] at listing ⊢
    have lastRange := listing.range last (by simp)
    have size : ((front ++ [last]).length : Int) > 0 := by simp
    have position : ((front ++ [last]).length : Int).toNat = front.length + 1 := by simp
    simp only [nextIdOf, List.headD_cons, size, if_true, position,
      List.getLast?_append_of_ne_nil _ (List.cons_ne_nil last []), List.getLast?_singleton]
    have found : (((front ++ [last]).length : Int) ::
        (front ++ [last]).map fun id : Nat => (id : Int)).getD (front.length + 1) 0 = last := by
      simp [List.getD]
    rw [found, ← Nat.cast_succ, toUInt32_of_nat (by omega)]

end Listing

/-! ## Reading the directory -/

/-- An id that may be given to a new node: 1 for the first one, one more than the greatest
otherwise. -/
structure FollowsAll (ids : List Nat) (next : Nat) : Prop where
  unused : next ∉ ids
  first : ids = [] → next = 1
  greatest : ids ≠ [] → ∃ greatest ∈ ids, (∀ id ∈ ids, id ≤ greatest) ∧ next = greatest + 1

/-- Where the directory can be opened, an array is read from it, the same length is counted,
and an id is found for the next node. -/
structure ReadsExactly (env : Environment) (path : Bytes) (world : World) (target : Path)
    (ids : List Nat) (sorted : List Int) : Prop where
  queue : CanOpen env path world.system.tree world.system.clock target →
    ∃ after, readQueue env path world = .returned (some ((ids.length : Int) :: sorted)) after
  length : CanOpen env path world.system.tree world.system.clock target →
    ∃ after, getQueueLength env path world = .returned ids.length after
  nextId : CanOpen env path world.system.tree (world.system.clock + 1) target →
    (∀ id ∈ ids, id ≠ 2147483647) →
    ∃ next after, getNextNodeId env path world = .returned (some next) after ∧ FollowsAll ids next

theorem exists_ascending {ids : List Nat} (distinct : ids.Nodup) :
    ∃ ordered : List Nat, ordered.Perm ids ∧ ordered.Pairwise (· < ·) := by
  have perm := List.perm_insertionSort (· ≤ ·) ids
  have sorted : (ids.insertionSort (· ≤ ·)).Pairwise (· ≤ ·) := List.pairwise_insertionSort _ _
  refine ⟨_, perm, ?_⟩
  exact (sorted.and (perm.nodup_iff.mpr distinct)).imp fun both => Nat.lt_of_le_of_ne both.1 both.2

theorem followsAll_of_ascending {ids ordered : List Nat} (perm : ordered.Perm ids)
    (ascending : ordered.Pairwise (· < ·)) :
    FollowsAll ids (match ordered.getLast? with
      | none => 1
      | some greatest => greatest + 1) := by
  rcases List.eq_nil_or_concat ordered with rfl | ⟨front, last, rfl⟩
  · have empty : ids = [] := perm.symm.eq_nil
    exact ⟨by simp [empty], fun _ => rfl, fun some_ => absurd empty some_⟩
  · rw [List.concat_eq_append] at perm ascending ⊢
    simp only [List.getLast?_append_of_ne_nil _ (List.cons_ne_nil last []), List.getLast?_singleton]
    have member : last ∈ ids := perm.mem_iff.mp (by simp)
    have greatest : ∀ id ∈ ids, id ≤ last := by
      intro id inside
      rcases List.mem_append.mp (perm.mem_iff.mpr inside) with earlier | same
      · exact Nat.le_of_lt ((List.pairwise_append.mp ascending).2.2 id earlier last (by simp))
      · exact Nat.le_of_eq (List.mem_singleton.mp same)
    refine ⟨fun used => ?_, fun empty => ?_, fun _ => ⟨last, member, greatest, rfl⟩⟩
    · have := greatest _ used
      omega
    · rw [empty] at member
      contradiction

/-- A directory of files named by distinct positive ids is read exactly, whatever the order in
which it is listed. -/
theorem directory_read_exactly {ids : List Nat} (distinct : ids.Nodup)
    (range : ∀ id ∈ ids, 0 < id ∧ id < 2147483648) :
    ∃ sorted : List Int, sorted.Pairwise (· < ·) ∧
      (∀ id, id ∈ sorted ↔ ∃ stored ∈ ids, id = (stored : Int)) ∧
      ∀ env path world target, (world.system.tree.names target).Perm (ids.map decimal) →
        ReadsExactly env path world target ids sorted := by
  obtain ⟨ordered, perm, ascending⟩ := exists_ascending distinct
  refine ⟨ordered.map fun id : Nat => (id : Int), ?_, fun id => ?_, fun env path world target named => ?_⟩
  · rw [List.pairwise_map]
    exact ascending.imp fun less => by omega
  · simp only [List.mem_map, perm.mem_iff, eq_comm]
  have inRange : ∀ id ∈ ordered, 0 < id ∧ id < 2147483648 :=
    fun id member => range id (perm.mem_iff.mp member)
  have listing (time : Nat) : Listing (entriesAt env world.system.tree time target) ordered :=
    .of_env env time (named.trans (perm.symm.map decimal)) ascending inRange
  have lengths := perm.length_eq
  refine ⟨fun can => ?_, fun can => ?_, fun can _ => ?_⟩
  · rcases readQueue_run env path world with ⟨found, after, opened, ran, _⟩ | ⟨cannot, _⟩
    · rw [opened.1.unique can.1, (listing _).nodeList_eq, lengths] at ran
      exact ⟨after, ran⟩
    · exact absurd can (cannot _)
  · rcases getQueueLength_run env path world with ⟨found, after, opened, ran, _⟩ | ⟨cannot, _⟩
    · rw [opened.1.unique can.1, (listing _).countNodes_eq, lengths] at ran
      exact ⟨after, ran⟩
    · exact absurd can (cannot _)
  · rcases getNextNodeId_run env path world with ⟨found, after, opened, ran, _⟩ | ⟨cannot, _⟩
    · rw [opened.1.unique can.1, nextIdAt, (listing _).nextIdOf_eq] at ran
      exact ⟨_, after, ran, followsAll_of_ascending perm ascending⟩
    · exact absurd can (cannot _)

theorem directory_read_exactly_computed :
    ∃ sorted : List Int, sorted.Pairwise (· < ·) ∧
      (∀ id, id ∈ sorted ↔ ∃ stored ∈ [10, 9, 2], id = ((stored : Nat) : Int)) ∧
      ∀ env path world target, (world.system.tree.names target).Perm ([10, 9, 2].map decimal) →
        ReadsExactly env path world target [10, 9, 2] sorted :=
  directory_read_exactly (by decide) (by decide)

end Bmb
