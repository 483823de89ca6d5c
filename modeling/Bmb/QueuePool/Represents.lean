import Bmb.Queue.Operations
import Bmb.QueuePool

namespace Bmb

open Bmb.Base Bmb.Posix

/-! What the pool array refers to, as a list of mailboxes, and how the operations on
the array find and change its entries. -/

/-- A queue of the pool: where it lives and what it holds. -/
structure Holding where
  address : Address
  cells : List Address
  persist : Bool
  mailbox : Mailbox

/-- Two queues that share neither object, nor node, nor name. -/
structure Holding.Apart (left right : Holding) : Prop where
  address : left.address ≠ right.address
  cells : left.cells.Disjoint right.cells
  name : left.mailbox.key ≠ right.mailbox.key

theorem Holding.Apart.symm {left right : Holding} (apart : left.Apart right) : right.Apart left :=
  ⟨apart.address.symm, apart.cells.symm, apart.name.symm⟩

/-- The entries of the array; there are none unless it is allocated. -/
def PoolBlock.slots : PoolBlock → List Pointer
  | .live slots => slots
  | .null | .freed => []

theorem PoolBlock.eq_live {block : PoolBlock} {slot : Pointer} {rest : List Pointer}
    (entries : block.slots = slot :: rest) : block = .live (slot :: rest) := by
  cases block with
  | live entered => exact congrArg PoolBlock.live entries
  | null | freed => simp [slots] at entries

structure Represents (machine : Machine) (holdings : List Holding) : Prop where
  length : machine.pool.length = holdings.length
  slots : machine.pool.pool.slots = holdings.map fun holding => some holding.address
  holds : ∀ holding ∈ holdings,
    QueueHolds machine holding.address holding.cells holding.persist holding.mailbox
  apart : holdings.Pairwise Holding.Apart

namespace Represents

variable {machine later : Machine} {holdings before after : List Holding} {holding : Holding}

theorem init (empty : machine.pool = .init) : Represents machine [] where
  length := by rw [empty]; rfl
  slots := by rw [empty]; rfl
  holds := by simp
  apart := .nil

theorem names_nodup (represents : Represents machine holdings) :
    (holdings.map fun holding => holding.mailbox.key).Nodup :=
  (List.pairwise_map).mpr (represents.apart.imp fun apart => apart.name)

/-- Only the nodes and queue objects that the pool refers to matter. -/
theorem frame (represents : Represents machine holdings)
    (nodes : ∀ cell < machine.nodes.frontier, later.nodes.get cell = machine.nodes.get cell)
    (queues : ∀ address < machine.queues.frontier,
      later.queues.get address = machine.queues.get address)
    (pool : later.pool = machine.pool) : Represents later holdings where
  length := by rw [pool, represents.length]
  slots := by rw [pool, represents.slots]
  holds holding member := by
    have holds := represents.holds holding member
    exact holds.frame (fun cell inside => nodes cell (holds.chain.bounded inside))
      (queues _ (Store.get_bounded holds.header))
  apart := represents.apart

theorem setWorld (represents : Represents machine holdings) (world : World) :
    Represents (machine.setWorld world) holdings :=
  represents.frame (fun _ _ => rfl) (fun _ _ => rfl) rfl

theorem apart_of_middle (represents : Represents machine (before ++ holding :: after)) :
    ∀ other ∈ before ++ after, other.Apart holding := by
  have apart := represents.apart
  rw [List.pairwise_append, List.pairwise_cons] at apart
  intro other member
  rcases List.mem_append.mp member with left | right
  · exact apart.2.2 other left holding (by simp)
  · exact (apart.2.1.1 other right).symm

/-- A change that stays within one queue and fresh nodes leaves the others alone. -/
theorem replace {touched : List Address} (new : Holding)
    (represents : Represents machine (before ++ holding :: after))
    (holds : QueueHolds later new.address new.cells new.persist new.mailbox)
    (same : OutsideSame touched holding.address machine later)
    (address : new.address = holding.address) (name : new.mailbox.key = holding.mailbox.key)
    (own : ∀ cell ∈ new.cells ++ touched, cell ∈ holding.cells ∨ machine.nodes.frontier ≤ cell) :
    Represents later (before ++ new :: after) := by
  have separate := represents.apart_of_middle
  have old : ∀ other ∈ before ++ after,
      QueueHolds machine other.address other.cells other.persist other.mailbox := by
    intro other member
    exact represents.holds other (by
      rcases List.mem_append.mp member with left | right <;> simp [*])
  have untouched : ∀ other ∈ before ++ after, ∀ cell ∈ other.cells,
      cell ∉ new.cells ++ touched := by
    intro other member cell inside again
    rcases own cell again with mine | fresh
    · exact (separate other member).cells inside mine
    · exact Nat.not_le_of_lt ((old other member).chain.bounded inside) fresh
  have apart : ∀ other ∈ before ++ after, other.Apart new := by
    intro other member
    refine ⟨address ▸ (separate other member).address, ?_, name ▸ (separate other member).name⟩
    intro cell inside again
    exact untouched other member cell inside (List.mem_append_left _ again)
  refine ⟨?_, ?_, ?_, ?_⟩
  · rw [same.pool, represents.length]
    simp
  · rw [same.pool, represents.slots]
    simp [address]
  · intro other member
    rcases List.mem_append.mp member with left | right
    · have inside : other ∈ before ++ after := List.mem_append_left _ left
      exact (old other inside).frame
        (fun cell mine => same.nodes cell fun again =>
          untouched other inside cell mine (List.mem_append_right _ again))
        (same.queues _ (separate other inside).address)
    · rcases List.mem_cons.mp right with rfl | right
      · exact holds
      · have inside : other ∈ before ++ after := List.mem_append_right _ right
        exact (old other inside).frame
          (fun cell mine => same.nodes cell fun again =>
            untouched other inside cell mine (List.mem_append_right _ again))
          (same.queues _ (separate other inside).address)
  · have pairs := represents.apart
    rw [List.pairwise_append, List.pairwise_cons] at pairs ⊢
    refine ⟨pairs.1, ⟨fun other member => (apart other (by simp [member])).symm, pairs.2.1.2⟩, ?_⟩
    intro left member right inside
    rcases List.mem_cons.mp inside with rfl | inside
    · exact apart left (by simp [member])
    · exact pairs.2.2 left member right (by simp [inside])

theorem append {new : Holding} (represents : Represents machine holdings)
    (nodes : ∀ cell < machine.nodes.frontier, later.nodes.get cell = machine.nodes.get cell)
    (queues : ∀ address < machine.queues.frontier,
      later.queues.get address = machine.queues.get address)
    (pool : later.pool = machine.pool.append (some new.address))
    (holds : QueueHolds later new.address new.cells new.persist new.mailbox)
    (fresh : machine.queues.frontier ≤ new.address) (empty : new.cells = [])
    (name : ∀ holding ∈ holdings, holding.mailbox.key ≠ new.mailbox.key) :
    Represents later (holdings ++ [new]) := by
  have entries := represents.slots
  refine ⟨?_, ?_, ?_, ?_⟩
  · rw [pool, QueuePool.append]
    split
    · rename_i none
      rw [represents.length] at none
      simp [List.eq_nil_of_length_eq_zero none]
    · split <;> simp [represents.length]
  · rw [pool, QueuePool.append]
    split
    · rename_i none
      rw [represents.length] at none
      simp [List.eq_nil_of_length_eq_zero none, PoolBlock.slots]
    · rename_i some
      cases holdings with
      | nil => exact absurd represents.length some
      | cons first rest =>
          rw [PoolBlock.eq_live entries]
          simp [PoolBlock.slots, represents.length]
  · intro other member
    rcases List.mem_append.mp member with old | new
    · have holds := represents.holds other old
      exact holds.frame (fun cell inside => nodes cell (holds.chain.bounded inside))
        (queues _ (Store.get_bounded holds.header))
    · rw [List.mem_singleton.mp new]
      exact holds
  · rw [List.pairwise_append]
    refine ⟨represents.apart, List.pairwise_singleton _ _, ?_⟩
    intro other member added isNew
    rw [List.mem_singleton.mp isNew]
    have bound := Store.get_bounded (represents.holds other member).header
    exact ⟨Nat.ne_of_lt (Nat.lt_of_lt_of_le bound fresh), by simp [empty, List.Disjoint],
      name other member⟩

end Represents

section Lookup

variable {machine : Machine} {holdings before after : List Holding} {holding : Holding}

theorem slotAt_of_slots {index : Nat}
    (entries : machine.pool.pool.slots = holdings.map fun holding => some holding.address)
    (position : holdings[index]? = some holding) :
    slotAt index machine = .returned (some holding.address) machine := by
  cases holdings with
  | nil => simp at position
  | cons first rest =>
      have live := PoolBlock.eq_live entries
      have slot : ((first :: rest).map fun holding => some holding.address)[index]? =
          some (some holding.address) := by
        rw [List.getElem?_map, position]
        rfl
      rw [List.map_cons] at slot
      simp only [slotAt, live, slot]

theorem slotAt_run {index : Nat} (represents : Represents machine holdings)
    (position : holdings[index]? = some holding) :
    slotAt index machine = .returned (some holding.address) machine :=
  slotAt_of_slots represents.slots position

theorem findFrom_absent {name : Bytes} (before : List Holding)
    (represents : Represents machine (before ++ after))
    (absent : ∀ other ∈ after, other.mailbox.key ≠ name) :
    findFrom name before.length after.length machine = .returned none machine := by
  induction after generalizing before with
  | nil => rfl
  | cons first rest ih =>
      have slot := slotAt_run represents
        (show (before ++ first :: rest)[before.length]? = some first by simp)
      have header := (represents.holds first (by simp)).header
      have later := ih (before ++ [first])
        (by rw [List.append_assoc]; exact represents)
        (fun other member => absent other (by simp [member]))
      rw [List.length_append, List.length_singleton] at later
      simp only [List.length_cons, findFrom, Program.run_bind, slot, run_queueAt header,
        absent first (by simp), if_false, later]

theorem findFrom_present (passed : List Holding)
    (represents : Represents machine (passed ++ (before ++ holding :: after))) :
    findFrom holding.mailbox.key passed.length (before ++ holding :: after).length machine =
      .returned (some (passed.length + before.length, some holding.address)) machine := by
  induction before generalizing passed with
  | nil =>
      have slot := slotAt_run represents
        (show (passed ++ ([] ++ holding :: after))[passed.length]? = some holding by simp)
      have header := (represents.holds holding (by simp)).header
      simp only [List.nil_append, List.length_cons, findFrom, Program.run_bind, slot,
        run_queueAt header, if_true, Program.run_pure, List.length_nil, Nat.add_zero]
  | cons first rest ih =>
      have slot := slotAt_run represents
        (show (passed ++ (first :: rest ++ holding :: after))[passed.length]? = some first by simp)
      have header := (represents.holds first (by simp)).header
      have different : first.mailbox.key ≠ holding.mailbox.key := by
        have pairs := (List.pairwise_append.mp represents.apart).2.1
        rw [List.cons_append, List.pairwise_cons] at pairs
        exact (pairs.1 holding (by simp)).name
      have later := ih (passed ++ [first]) (by simpa using represents)
      rw [List.length_append, List.length_singleton] at later
      simp only [List.cons_append, List.length_cons, findFrom, Program.run_bind, slot,
        run_queueAt header, different, if_false, later]
      congr 3
      omega

theorem queuePoolGetByName_absent {name : Bytes} (represents : Represents machine holdings)
    (absent : ∀ other ∈ holdings, other.mailbox.key ≠ name) :
    queuePoolGetByName (some name) machine = .returned none machine := by
  have searched := findFrom_absent [] represents absent
  simp only [List.length_nil] at searched
  simp only [queuePoolGetByName, Program.run_bind, Program.run_read, represents.length, searched,
    Program.run_pure]

theorem queuePoolGetByName_present
    (represents : Represents machine (before ++ holding :: after)) :
    queuePoolGetByName (some holding.mailbox.key) machine =
      .returned (some holding.address) machine := by
  have searched := findFrom_present [] represents
  simp only [List.length_nil] at searched
  simp only [queuePoolGetByName, Program.run_bind, Program.run_read, represents.length, searched,
    Program.run_pure]

theorem namesFrom_run (before : List Holding) (represents : Represents machine (before ++ after)) :
    namesFrom before.length after.length machine =
      .returned (after.map fun holding => holding.mailbox.key) machine := by
  induction after generalizing before with
  | nil => rfl
  | cons first rest ih =>
      have slot := slotAt_run represents
        (show (before ++ first :: rest)[before.length]? = some first by simp)
      have header := (represents.holds first (by simp)).header
      have later := ih (before ++ [first]) (by rw [List.append_assoc]; exact represents)
      rw [List.length_append, List.length_singleton] at later
      simp only [List.length_cons, namesFrom, Program.run_bind, slot, run_queueAt header, later,
        Program.run_pure, List.map_cons]

end Lookup

section Nodes

variable (machine : Machine) (id : Nat) (message : Bytes)

/-- A machine with one more node, filled with a message and on no chain. -/
def Machine.withNode : Machine :=
  machine.setNodes ((machine.nodes.alloc { id, message := none, next := none }).modify
    machine.nodes.frontier (Node.setMessageField message))

theorem withNode_found : (machine.withNode id message).nodes.get machine.nodes.frontier =
    some { id, message := some message, next := none } :=
  Store.get_modify_self (Node.setMessageField message) Store.get_alloc_self

theorem withNode_same (address : Address) :
    OutsideSame [machine.nodes.frontier] address machine (machine.withNode id message) := by
  refine ⟨fun cell outside => ?_, fun _ _ => rfl, rfl⟩
  have different : cell ≠ machine.nodes.frontier := by simpa using outside
  exact (Store.get_modify_of_ne _ different).trans (Store.get_alloc_of_ne different)

theorem Represents.withNode {machine : Machine} {holdings : List Holding}
    (represents : Represents machine holdings) :
    Represents (machine.withNode id message) holdings :=
  represents.frame (fun _ below => (withNode_same machine id message 0).nodes _
    (by simpa using Nat.ne_of_lt below)) (fun _ _ => rfl) rfl

theorem linked_own {cells : List Address} :
    ∀ cell ∈ machine.nodes.frontier :: cells ++ [machine.nodes.frontier],
      cell ∈ cells ∨ machine.nodes.frontier ≤ cell := by
  intro cell member
  simp only [List.cons_append, List.mem_cons, List.mem_append, List.not_mem_nil, or_false] at member
  rcases member with rfl | old | rfl
  · exact .inr (Nat.le_refl _)
  · exact .inl old
  · exact .inr (Nat.le_refl _)

end Nodes

section Addition

variable {machine made : Machine} {holdings : List Holding} {name : Bytes}

theorem NewQueue.setWorld (fresh : NewQueue machine made name) (world : World) :
    NewQueue machine (made.setWorld world) name :=
  ⟨fresh.holds.setWorld world, fresh.nodes, fresh.queues, fresh.pool⟩

/-- A new queue object that is not stored in the pool is of no consequence. -/
theorem NewQueue.represents (fresh : NewQueue machine made name)
    (represents : Represents machine holdings) : Represents made holdings :=
  represents.frame (fun _ _ => by rw [fresh.nodes])
    (fun _ below => fresh.queues _ (Nat.ne_of_lt below)) fresh.pool

theorem queuePoolStore_run (machine : Machine) (slot : Pointer) :
    queuePoolStore slot machine =
      .returned () ((machine.setWorld (if machine.pool.length = 0 then machine.world.allocate 1
        else machine.world)).setPool (machine.pool.append slot)) := by
  unfold queuePoolStore
  rw [Program.run_bind, Program.run_read]
  dsimp only
  rw [Program.run_ite]
  split <;> rfl

theorem NewQueue.stored (fresh : NewQueue machine made name)
    (represents : Represents machine holdings)
    (unknown : ∀ holding ∈ holdings, holding.mailbox.key ≠ name) (world : World) :
    Represents ((made.setWorld world).setPool (made.pool.append (some machine.queues.frontier)))
      (holdings ++ [⟨machine.queues.frontier, [], true, ⟨name, []⟩⟩]) := by
  apply represents.append
  · intro cell _
    exact congrArg (·.get cell) fresh.nodes
  · exact fun address below => fresh.queues address (Nat.ne_of_lt below)
  · rw [Machine.setPool_pool, fresh.pool]
  · exact ⟨fresh.holds.header, fresh.holds.chain⟩
  · exact Nat.le_refl _
  · rfl
  · exact unknown

end Addition

section Removal

variable {machine : Machine} {before after : List Holding} {holding : Holding}

theorem filter_isSome_map (holdings : List Holding) :
    (holdings.map fun holding => some holding.address).filter Option.isSome =
      holdings.map fun holding => some holding.address := by
  simp

theorem clearNulls_removed (represents : Represents machine (before ++ holding :: after)) :
    ∃ block, machine.pool.pool = .live ((before ++ holding :: after).map fun holding =>
        some holding.address) ∧
      QueuePool.clearNulls { machine.pool with
        pool := .live (((before ++ holding :: after).map fun holding =>
          some holding.address).set before.length none) } =
        { length := (before ++ after).length, pool := block } ∧
      block.slots = (before ++ after).map fun holding => some holding.address := by
  have entries := represents.slots
  have removed : ((before ++ holding :: after).map fun holding =>
      some holding.address).set before.length none =
        before.map (fun holding => some holding.address) ++
          none :: after.map fun holding => some holding.address := by
    simp
  have kept : ((before.map (fun holding => some holding.address) ++
      none :: after.map fun holding => some holding.address).take
        machine.pool.length).filter Option.isSome =
          (before ++ after).map fun holding => some holding.address := by
    rw [List.take_of_length_le (by simp [represents.length]), List.filter_append,
      List.filter_cons_of_neg (by simp), filter_isSome_map, filter_isSome_map, List.map_append]
  have live : machine.pool.pool = .live ((before ++ holding :: after).map fun holding =>
      some holding.address) := by
    cases shape : (before ++ holding :: after).map fun holding => some holding.address with
    | nil => simp at shape
    | cons first rest => exact PoolBlock.eq_live (entries.trans shape)
  unfold QueuePool.clearNulls
  rw [removed]
  simp only [kept]
  split
  · rename_i none
    refine ⟨.freed, live, ?_, by rw [none]; rfl⟩
    have noneLeft : before ++ after = [] := by simpa using none
    rw [noneLeft]
    rfl
  · exact ⟨_, live, by rw [List.length_map], rfl⟩

theorem queuePoolClearNulls_run (machine : Machine) :
    queuePoolClearNulls machine =
      .returned () ((machine.setPool machine.pool.clearNulls).setWorld
        (if machine.pool.clearNulls.length = 0 then machine.world.release 1 else machine.world)) := by
  unfold queuePoolClearNulls
  rw [Program.run_bind, Program.run_modify]
  dsimp only
  rw [Program.run_bind, Program.run_read]
  dsimp only
  rw [Machine.setPool_pool, Program.run_ite, run_onWorld]
  split <;> rfl

/-- `removeAt` destroys the queue with its nodes and closes the gap in the array. -/
theorem removeAt_run (represents : Represents machine (before ++ holding :: after)) :
    ∃ later, removeAt before.length (some holding.address) machine = .returned () later ∧
      Represents later (before ++ after) ∧
      later.world = machine.world.release
        (2 * holding.mailbox.items.length + 2 + if before ++ after = [] then 1 else 0) := by
  have holds := represents.holds holding (by simp)
  have separate := represents.apart_of_middle
  obtain ⟨cleared, clearRan, nodes, queues, pool, world⟩ := Queue.clear_run holds
  have header : cleared.queues.get holding.address = some
      { name := holding.mailbox.key, root := holding.cells.head?,
        tail := holding.cells.getLast?, persist := holding.persist } := by
    rw [queues]
    exact holds.header
  have destructRan := Queue.destruct_run header
  obtain ⟨block, live, compacted, slots⟩ := clearNulls_removed represents
  rw [← pool] at live compacted
  have represented : ∀ later : Machine, later.nodes = cleared.nodes →
      later.queues = cleared.queues.free holding.address →
      later.pool = { length := (before ++ after).length, pool := block } →
      Represents later (before ++ after) := by
    intro later laterNodes laterQueues laterPool
    refine ⟨by rw [laterPool], by rw [laterPool, slots], ?_, ?_⟩
    · intro other member
      have old := represents.holds other (by
        rcases List.mem_append.mp member with left | right <;> simp [*])
      apply old.frame
      · intro cell inside
        rw [laterNodes]
        exact nodes cell ((separate other member).cells inside)
      · rw [laterQueues, Store.get_free_of_ne (separate other member).address, queues]
    · have pairs := represents.apart
      rw [List.pairwise_append, List.pairwise_cons] at pairs
      rw [List.pairwise_append]
      exact ⟨pairs.1, pairs.2.1.2,
        fun left member right inside => pairs.2.2 left member right (by simp [inside])⟩
  have freed : (if (before ++ after).length = 0 then (cleared.world.release 2).release 1
      else cleared.world.release 2) =
        cleared.world.release (2 + if before ++ after = [] then 1 else 0) := by
    simp only [List.length_eq_zero_iff]
    split <;> simp
  refine ⟨_, ?_, represented ((((cleared.setWorld (cleared.world.release 2)).setQueues
    (cleared.queues.free holding.address)).setPool
      { length := (before ++ after).length, pool := block }).setWorld
        (cleared.world.release (2 + if before ++ after = [] then 1 else 0))) rfl rfl rfl, ?_⟩
  · simp only [removeAt, Program.run_bind, clearRan, destructRan, Program.run_modify,
      Machine.setQueues_pool, Machine.setWorld_pool, live, queuePoolClearNulls_run,
      Machine.setPool_pool, Machine.setPool_world, Machine.setQueues_world, Machine.setWorld_world,
      compacted, freed]
    rfl
  · rw [Machine.setWorld_world, world, World.release_release, Nat.add_assoc]

end Removal

end Bmb
