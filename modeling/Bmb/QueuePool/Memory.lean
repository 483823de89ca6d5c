import Bmb.Persist.Memory
import Bmb.QueuePool.Load

namespace Bmb

open Bmb.Base Bmb.Base.Program Bmb.Posix

/-! The blocks of the queues, from the load to the destruction of the pool. -/

/-- The object of a queue, its name, and every node with its message. -/
def mailboxBlocks (mailbox : Mailbox) : Int := 2 * mailbox.items.length + 2

/-- The blocks of all queues, and the array unless there is none. -/
def shelfBlocks (shelf : Shelf Bytes Item) : Int :=
  (shelf.map mailboxBlocks).sum + if shelf = [] then 0 else 1

section Blocks

variable {shelf : Shelf Bytes Item} {mailbox : Mailbox} {name : Bytes}

theorem shelfBlocks_create :
    shelfBlocks (shelf.create name) = shelfBlocks shelf + 2 + if shelf = [] then 1 else 0 := by
  have some_ : shelf.create name ≠ [] := by simp [Shelf.create]
  have sum : ((shelf.create name).map mailboxBlocks).sum = (shelf.map mailboxBlocks).sum + 2 := by
    simp [Shelf.create, mailboxBlocks]
  rw [shelfBlocks, shelfBlocks, if_neg some_, sum]
  split <;> omega

theorem shelfBlocks_update {f : List Item → List Item} (distinct : shelf.keys.Nodup)
    (member : mailbox ∈ shelf) :
    shelfBlocks (shelf.update mailbox.key f) =
      shelfBlocks shelf + 2 * ((f mailbox.items).length - mailbox.items.length) := by
  obtain ⟨before, after, rfl⟩ := List.append_of_mem member
  rw [Shelf.update_middle distinct]
  simp [shelfBlocks, mailboxBlocks]
  omega

theorem shelfBlocks_remove (distinct : shelf.keys.Nodup) (member : mailbox ∈ shelf) :
    shelfBlocks (shelf.remove mailbox.key) = shelfBlocks shelf - mailboxBlocks mailbox -
      if shelf.remove mailbox.key = [] then 1 else 0 := by
  obtain ⟨before, after, rfl⟩ := List.append_of_mem member
  rw [Shelf.remove_middle distinct]
  have some_ : before ++ mailbox :: after ≠ [] := by simp
  simp only [shelfBlocks, if_neg some_, List.map_append, List.sum_append, List.map_cons,
    List.sum_cons]
  split <;> omega

end Blocks

/-! ## Loads -/

/-- A world at a time, with its files and so many blocks allocated. -/
structure World.Stands (tree : FileTree) (time : Nat) (blocks : Int) (world : World) : Prop where
  tree : world.system.tree = tree
  clock : world.system.clock = time
  balance : world.balance = blocks

/-- The ids of the files that a load reads, as it found them in a directory. -/
def loadedIds (queueNodes : List Int) : List Int := queueNodes.tail.take (queueNodes.headD 0).toNat

/-- The directories can be opened again for the next ids that a load asks for. -/
def LoadNumbered (env : Environment) (tree : FileTree) : Nat → List Bytes → Prop
  | _, [] => True
  | time, name :: rest => ∀ target, CanOpen env (queuePath name) tree (time + 1) target →
      let read := time + 2 + (loadedIds (nodeList (entriesAt env tree (time + 1) target))).length
      (∃ again, CanOpen env (queuePath name) tree (read + 1) again) ∧
        LoadNumbered env tree (read + 2) rest

/-- No lookup of a next id fails in a load. -/
def LoadTidy (env : Environment) (tree : FileTree) : Prop :=
  ∀ target, CanOpen env dataPath tree 0 target →
    LoadNumbered env tree 1 (queueNames (entriesAt env tree 0 target))

section Loads

variable {env : Environment} {tree : FileTree} {time : Nat} {blocks : Int} {name : Bytes}

namespace World.Stands

variable {world : World}

theorem allocate (stands : world.Stands tree time blocks) (count : Nat) :
    (world.allocate count).Stands tree time (blocks + count) :=
  ⟨stands.tree, stands.clock, by rw [World.balance_allocate, stands.balance]⟩

theorem release (stands : world.Stands tree time blocks) (count : Nat) :
    (world.release count).Stands tree time (blocks - count) :=
  ⟨stands.tree, stands.clock, by rw [World.balance_release, stands.balance]⟩

theorem asked {ticks : Nat} {call : PersistCall} {after : World} {more : Int}
    (stands : world.Stands tree time blocks) (asked : world.Asked ticks [] call after)
    (leaves : after.balance = world.balance + more) :
    after.Stands tree (time + ticks) (blocks + more) :=
  ⟨asked.system.tree.trans stands.tree, by rw [asked.system.clock, stands.clock],
    by rw [leaves, stands.balance]⟩

end World.Stands

theorem memAlloc_stands : Triple (World.Stands tree time blocks) memAlloc
    (fun _ => World.Stands tree time (blocks + 1)) (fun _ => True) :=
  .modify fun _ stands => stands.allocate 1

theorem memFree_stands : Triple (World.Stands tree time blocks) memFree
    (fun _ => World.Stands tree time (blocks - 1)) (fun _ => True) :=
  .modify fun _ stands => stands.release 1

theorem readQueueCall_stands :
    Triple (World.Stands tree time blocks)
      (persistDispatch env ⟨.readQueue, some name, 0, none⟩)
      (fun res after => after.Stands tree (time + 2) (blocks + 1) ∧
        ∀ queueNodes, res.data = .queue queueNodes →
          ∃ target, CanOpen env (queuePath name) tree (time + 1) target ∧
            queueNodes = nodeList (entriesAt env tree (time + 1) target))
      (fun _ => True) := by
  intro world stands
  rcases readQueueCall_run env name world with ⟨target, after, can, ran, asked⟩ |
    ⟨_, message, after, ran, asked⟩
  all_goals
    have later := stands.asked asked (readQueueCall_leaves _ _ _ ran)
    rw [ran]
    refine ⟨later, fun queueNodes given => ?_⟩
  · rw [stands.tree, stands.clock] at can given
    simp only [persistSuccess, PersistData.queue.injEq] at given
    exact ⟨target, can, given.symm⟩
  · cases given

theorem readNodeCall_stands (id : Nat) :
    Triple (World.Stands tree time blocks) (persistDispatch env ⟨.readNode, some name, id, none⟩)
      (fun _ after => after.Stands tree (time + 1) (blocks + 1)) (fun _ => True) := by
  intro world stands
  by_cases zero : id = 0
  · subst zero
    rw [persistDispatch_trapped (show persistAction env _ _ _ _ = _ from rfl)]
    trivial
  · rcases readNode_run env name world zero with ⟨_, after, _, ran, asked⟩ | ⟨_, _, after, ran, asked⟩
    all_goals
      have later := stands.asked asked (readNodeCall_leaves _ _ _ ran)
      rw [ran]
      exact later

theorem getNextIdCall_stands
    (again : ∃ target, CanOpen env (queuePath name) tree (time + 1) target) :
    Triple (World.Stands tree time blocks)
      (persistDispatch env ⟨.getNextId, some name, 0, none⟩)
      (fun res after => after.Stands tree (time + 2) (blocks + 1) ∧ res.success = true)
      (fun _ => True) := by
  intro world stands
  rcases getNextId_run env name world with ⟨target, after, _, ran, asked⟩ |
    ⟨cannot, message, after, ran, asked⟩
  · have later := stands.asked asked (getNextIdCall_leaves _ _ _ ran)
    rw [ran]
    exact ⟨later, rfl⟩
  · obtain ⟨target, can⟩ := again
    rw [stands.tree, stands.clock] at cannot
    exact absurd can (cannot target)

theorem loadItems_stands (ids : List Int) :
    Triple (World.Stands tree time blocks) (loadItems env name ids)
      (fun items after => after.Stands tree (time + ids.length) (blocks + 2 * ids.length) ∧
        items.length = ids.length)
      (fun _ => True) := by
  induction ids generalizing time blocks with
  | nil => exact .pure fun world stands => ⟨by simpa using stands, rfl⟩
  | cons id rest ih =>
      refine .bind (readNodeCall_stands _) fun pnres => ?_
      cases pnres.data with
      | null | nextId | queue | queueList => exact .stop fun _ _ => trivial
      | content nodeContent =>
          refine .bind memAlloc_stands fun _ => .bind memAlloc_stands fun _ => ?_
          refine .bind memFree_stands fun _ => .bind ih fun items => .pure fun world read => ?_
          obtain ⟨stands, length⟩ := read
          refine ⟨⟨stands.tree, ?_, ?_⟩, by rw [List.length_cons, List.length_cons, length]⟩
          · rw [stands.clock, List.length_cons]
            omega
          · rw [stands.balance, List.length_cons]
            push_cast
            omega

/-- A queue is read in so many calls, and nothing but its blocks and perhaps the array stay. -/
theorem loadMailbox_stands (first : Bool)
    (numbered : ∀ target, CanOpen env (queuePath name) tree (time + 1) target →
      ∃ again, CanOpen env (queuePath name) tree
        (time + 2 + (loadedIds (nodeList (entriesAt env tree (time + 1) target))).length + 1) again) :
    Triple (World.Stands tree time blocks) (loadMailbox env first name)
      (fun mailbox after => ∃ target, CanOpen env (queuePath name) tree (time + 1) target ∧
        after.Stands tree
          (time + 2 + (loadedIds (nodeList (entriesAt env tree (time + 1) target))).length + 2)
          (blocks + mailboxBlocks mailbox + if first then 1 else 0))
      (fun _ => True) := by
  refine .bind readQueueCall_stands fun pqres => .under fun listed => ?_
  cases given : pqres.data with
  | null | nextId | content | queueList => exact .stop fun _ _ => trivial
  | queue queueNodes =>
      obtain ⟨target, can, same⟩ := listed queueNodes given
      have again := numbered target can
      rw [← same] at again
      have rest (array : Int) : Triple (World.Stands tree (time + 2) (blocks + 1 + 1 + 1 + array)) (do
          let items ← loadItems env name (loadedIds queueNodes)
          let pidres ← persistDispatch env ⟨.getNextId, some name, 0, none⟩
          if pidres.success then memFree else pure ()
          memFree
          pure ⟨name, items⟩)
          (fun mailbox after => after.Stands tree (time + 2 + (loadedIds queueNodes).length + 2)
            (blocks + mailboxBlocks mailbox + array))
          (fun _ => True) := by
        refine .bind (loadItems_stands _) fun items => .under fun length => ?_
        refine .bind (getNextIdCall_stands again) fun pidres => .under fun success => ?_
        rw [success, if_pos rfl]
        refine .bind memFree_stands fun _ => .bind memFree_stands fun _ => .pure fun world stands => ?_
        refine ⟨stands.tree, stands.clock, ?_⟩
        rw [stands.balance, mailboxBlocks, length]
        omega
      have found (mailbox : Mailbox) (array : Int) (world : World)
          (stands : world.Stands tree (time + 2 + (loadedIds queueNodes).length + 2)
            (blocks + mailboxBlocks mailbox + array)) :
          ∃ target, CanOpen env (queuePath name) tree (time + 1) target ∧ world.Stands tree
            (time + 2 + (loadedIds (nodeList (entriesAt env tree (time + 1) target))).length + 2)
            (blocks + mailboxBlocks mailbox + array) :=
        ⟨target, can, by rwa [← same]⟩
      refine .bind memAlloc_stands fun _ => .bind memAlloc_stands fun _ => ?_
      cases first with
      | true =>
          refine .bind memAlloc_stands fun _ => ?_
          exact (rest 1).weaken (fun _ stands => stands) fun mailbox => found mailbox 1
      | false =>
          refine (rest 0).weaken (fun _ stands => ?_) fun mailbox => found mailbox 0
          rwa [Int.add_zero]

theorem loadMailboxes_stands (first : Bool) (names : List Bytes)
    (numbered : LoadNumbered env tree time names) :
    Triple (World.Stands tree time blocks) (loadMailboxes env first names)
      (fun shelf after => after.balance = blocks + (shelf.map mailboxBlocks).sum +
        if first = true ∧ shelf ≠ [] then 1 else 0)
      (fun _ => True) := by
  induction names generalizing first time blocks with
  | nil => exact .pure fun world stands => by simp [stands.balance]
  | cons name rest ih =>
      refine .bind (loadMailbox_stands first fun target can => (numbered target can).1)
        fun mailbox world loaded => ?_
      obtain ⟨target, can, stands⟩ := loaded
      refine Triple.bind (ih false (numbered target can).2) (fun shelf => .pure fun after balance => ?_)
        world stands
      rw [balance]
      simp only [List.map_cons, List.sum_cons, Bool.false_eq_true, false_and, if_false, ne_eq,
        reduceCtorEq, not_false_eq_true, and_true]
      omega

/-- A load leaves the blocks of the queues that it has read. -/
theorem loadShelf_balance {world after : World} {shelf : Shelf Bytes Item}
    (tidy : LoadTidy env world.system.tree) (start : world.system.clock = 0)
    (ran : loadShelf env world = .returned shelf after) :
    after.balance = world.balance + shelfBlocks shelf := by
  obtain ⟨pres, listed, called, rest⟩ := bind_eq_returned.mp ran
  have blocks := getQueueListCall_leaves _ _ _ called
  rcases getQueueListCall_run env world with ⟨target, _, can, same, asked⟩ | ⟨_, _, _, same, _⟩
  all_goals
    rw [called] at same
    cases same
  · obtain ⟨shelf, read, loaded, last⟩ := bind_eq_returned.mp rest
    have stands : listed.Stands world.system.tree 1 listed.balance :=
      ⟨asked.system.tree, by rw [asked.system.clock, start], rfl⟩
    rw [start] at can loaded
    have balance := (loadMailboxes_stands true _ (tidy target can)).returned stands loaded
    cases last
    rw [World.balance_release, balance, blocks, shelfBlocks]
    simp only [listBlocks, persistSuccess, namesBlocks, true_and, ne_eq, ite_not]
    push_cast
    omega
  · cases rest

end Loads

/-! ## Destruction -/

section Destruction

variable {machine : Machine}

/-- The loop frees every queue once; the array keeps its entries. -/
theorem destructQueues_run (passed : List Holding) {remaining : List Holding}
    (entries : machine.pool.pool.slots = (passed ++ remaining).map fun holding => some holding.address)
    (holds : ∀ holding ∈ remaining,
      QueueHolds machine holding.address holding.cells holding.persist holding.mailbox)
    (apart : remaining.Pairwise Holding.Apart) :
    ∃ later, destructQueues passed.length remaining.length machine = .returned () later ∧
      later.pool = machine.pool ∧
      later.world.balance = machine.world.balance -
        (remaining.map fun holding => mailboxBlocks holding.mailbox).sum := by
  induction remaining generalizing machine passed with
  | nil => exact ⟨machine, rfl, rfl, by simp⟩
  | cons first rest ih =>
      have slot := slotAt_of_slots entries
        (show (passed ++ first :: rest)[passed.length]? = some first by simp)
      have here := holds first (by simp)
      rw [List.pairwise_cons] at apart
      obtain ⟨cleared, clearRan, nodes, queues, pool, world⟩ := Queue.clear_run here
      have destructRan := Queue.destruct_run (by rw [queues]; exact here.header)
      let freed := (cleared.setWorld (cleared.world.release 2)).setQueues
        (cleared.queues.free first.address)
      have others : ∀ holding ∈ rest,
          QueueHolds freed holding.address holding.cells holding.persist holding.mailbox := by
        intro holding member
        have separate := apart.1 holding member
        refine (holds holding (by simp [member])).frame (fun cell inside => ?_) ?_
        · exact nodes cell fun other => separate.cells other inside
        · rw [Machine.setQueues_queues, Store.get_free_of_ne separate.address.symm, queues]
      obtain ⟨later, looped, laterPool, balance⟩ := @ih freed (passed ++ [first])
        (by simpa [freed, pool] using entries) others apart.2
      rw [List.length_append, List.length_singleton] at looped
      refine ⟨later, ?_, laterPool.trans pool, ?_⟩
      · simp only [List.length_cons, destructQueues, Program.run_bind, slot, clearRan, destructRan]
        exact looped
      · simp only [freed, Machine.setQueues_world, Machine.setWorld_world, World.balance_release, world]
          at balance
        rw [balance, List.map_cons, List.sum_cons, mailboxBlocks]
        push_cast
        omega

/-- Unless its array has been freed before, a pool can be destroyed and leaves nothing. -/
theorem queuePoolDestruct_run {shelf : Shelf Bytes Item} (keeps : machine.Keeps shelf)
    (whole : machine.pool.pool = .null ∨ shelf ≠ []) :
    ∃ later, queuePoolDestruct machine = .returned () later ∧
      later.world.balance = machine.world.balance - shelfBlocks shelf - 1 := by
  obtain ⟨holdings, represents, _, rfl⟩ := keeps
  obtain ⟨destroyed, ran, pool, balance⟩ := @destructQueues_run machine [] holdings represents.slots
    represents.holds represents.apart
  rw [List.length_nil, ← represents.length] at ran
  have sum : (holdings.map fun holding => mailboxBlocks holding.mailbox).sum =
      ((holdings.map Holding.mailbox).map mailboxBlocks).sum := by simp [Function.comp_def]
  rw [sum] at balance
  cases holdings with
  | nil =>
      have none : machine.pool.pool = .null := by simpa using whole
      refine ⟨destroyed.setWorld (destroyed.world.release 1), ?_, ?_⟩
      · simp only [queuePoolDestruct, Program.run_bind, Program.run_read, ran, none, freePoolArray,
          Program.run_pure, run_onWorld, run_memFree]
      · rw [Machine.setWorld_world, World.balance_release, balance]
        simp [shelfBlocks]
  | cons first rest =>
      have live := PoolBlock.eq_live represents.slots
      refine ⟨destroyed.setWorld (destroyed.world.release 2), ?_, ?_⟩
      · simp only [queuePoolDestruct, Program.run_bind, Program.run_read, ran, live, freePoolArray,
          run_onWorld, run_memFree, Machine.setWorld_world, Machine.setWorld_setWorld,
          World.release_release]
      · rw [Machine.setWorld_world, World.balance_release, balance, shelfBlocks, if_neg (by simp)]
        push_cast
        omega

end Destruction

end Bmb
