import Bmb.Broker.Agreement

namespace Bmb

open Bmb.Base Bmb.Posix

/-! What a new process finds after an old one has ended. -/

section Items

variable {env : Environment} {shelf kept : Shelf Bytes Item} {tree : FileTree} {time : Nat}
  {command : Command} {effects : List Effect} {calls : List PersistCall} {success : Bool}

/-- After an answer there are only the old items and the one that has been produced. -/
theorem Step.items {mailbox : Mailbox} {item : Item}
    (step : Step env shelf tree time command effects calls (.answered success kept))
    (member : mailbox ∈ kept) (inside : item ∈ mailbox.items) :
    (∃ old ∈ shelf, item ∈ old.items) ∨ ∃ other, command = .produce other item.message := by
  have created {name : Bytes} (here : mailbox ∈ shelf.create name) :
      ∃ old ∈ shelf, item ∈ old.items := by
    rcases List.mem_append.mp here with old | new
    · exact ⟨mailbox, old, inside⟩
    · rw [List.mem_singleton.mp new] at inside
      simp at inside
  cases step with
  | rejected | read | empty | unsaved | known | unmade | kept => exact .inl ⟨mailbox, member, inside⟩
  | consumed =>
      rcases Shelf.mem_update.mp member with ⟨_, old⟩ | ⟨_, items, old, rest⟩
      · exact .inl ⟨mailbox, old, inside⟩
      · rw [rest] at inside
        exact .inl ⟨_, old, List.mem_of_mem_tail inside⟩
  | saved =>
      rcases Shelf.mem_update.mp member with ⟨_, old⟩ | ⟨_, items, old, more⟩
      · exact .inl ⟨mailbox, old, inside⟩
      · rw [more] at inside
        rcases List.mem_append.mp inside with before | new
        · exact .inl ⟨_, old, before⟩
        · rw [List.mem_singleton.mp new]
          exact .inr ⟨_, rfl⟩
  | adopted | made => exact .inl (created member)
  | removed => exact .inl ⟨mailbox, List.mem_of_mem_filter member, inside⟩

end Items

/-! ## A restart between two requests -/

/-- A load of the files finishes, leaves them alone and yields the queues of the pool. -/
def Restarts (loader : Environment) (machine : Machine) : Prop :=
  ∃ restarted, queuePoolLoad loader (.boot machine.world.system.tree) = .returned () restarted ∧
    restarted.Keeps restarted.shelf ∧
    restarted.world.system.tree = machine.world.system.tree ∧
    restarted.world.system.effects = [] ∧
    restarted.shelf.Perm machine.shelf

/-- A modest request whose data are a text. -/
def Textual (env : BrokerEnvironment) (before : Machine) (req : BrokerRequest) (after : Machine) :
    Prop :=
  Modest env before req after ∧ ∀ data, req.data = some data → 0 ∉ data

variable {env : BrokerEnvironment} {tree : FileTree} {first machine : Machine}

theorem Session.weaken {allowed others : Machine → BrokerRequest → Machine → Prop}
    (session : Session env allowed first machine)
    (more : ∀ before req after, allowed before req after → others before req after) :
    Session env others first machine := by
  induction session with
  | start => exact .start
  | handled _ fits ran ih => exact .handled ih (more _ _ _ fits) ran

theorem Session.texts (session : Session env (Textual env) first machine)
    (start : first.Keeps first.shelf) (empty : first.shelf = []) :
    machine.Keeps machine.shelf ∧
      ∀ mailbox ∈ machine.shelf, ∀ item ∈ mailbox.items, 0 ∉ item.message := by
  refine @Session.invariant _ _ _ _ (fun machine => machine.Keeps machine.shelf ∧
    ∀ mailbox ∈ machine.shelf, ∀ item ∈ mailbox.items, 0 ∉ item.message) session
    ⟨start, by simp [empty]⟩ ?_
  rintro before req response after ⟨keeps, texts⟩ ⟨_, clean⟩ ran
  obtain ⟨effects, calls, success, step, _, kept, _⟩ := answered_step keeps ran
  refine ⟨kept, fun mailbox member item inside => ?_⟩
  have decodes := command_decodes req before.shelf
  rcases step.items member inside with ⟨old, stored, there⟩ | ⟨other, produced⟩
  · exact texts old stored item there
  · rw [produced] at decodes
    cases decodes with
    | produce typed names gives => exact clean _ gives.given
    | read reads => cases reads

/-- The queues that can be read back are those that were there if no message contains 0xFF. -/
theorem readBack_shelf_perm_iff {shelf : Shelf Bytes Item} (distinct : shelf.keys.Nodup)
    (texts : ∀ mailbox ∈ shelf, ∀ item ∈ mailbox.items, 0 ∉ item.message) :
    List.Perm (shelf.map Fifo.readBack) shelf ↔
      ∀ mailbox ∈ shelf, ∀ item ∈ mailbox.items, 255 ∉ item.message := by
  constructor
  · intro perm mailbox member
    obtain ⟨other, inside, back⟩ := List.mem_map.mp (perm.mem_iff.mpr member)
    have named : mailbox.key = other.key := by rw [← back]; rfl
    rw [← Shelf.eq_of_key_eq distinct member inside named] at back
    exact (readBack_mailbox_eq_iff (texts mailbox member)).mp back
  · intro clean
    have same : shelf.map Fifo.readBack = shelf := by
      conv_rhs => rw [← List.map_id shelf]
      exact List.map_congr_left fun mailbox member =>
        (readBack_mailbox_eq_iff (texts mailbox member)).mpr (clean mailbox member)
    rw [same]

/-- Whatever the order of the listings, a restart brings back every queue with its items if
and only if no stored message contains the byte 0xFF. -/
theorem restarts_iff (env : BrokerEnvironment) (reliable : env.Reliable)
    (empty : EmptyData env.toEnvironment tree)
    (started : queuePoolLoad env.toEnvironment (.boot tree) = .returned () first)
    (session : Session env (Textual env) first machine)
    {loader : Environment} (healthy : loader.Reliable) (same : loader.cwd = env.cwd) :
    Restarts loader machine ↔
      ∀ mailbox ∈ machine.shelf, ∀ item ∈ mailbox.items, 255 ∉ item.message := by
  have synced := Synced.empty_session reliable empty started
    (session.weaken fun _ _ _ textual => textual.1)
  obtain ⟨beginning, perm⟩ := Synced.started empty.holds (by simp [Bounded]) started
  obtain ⟨_, texts⟩ := session.texts beginning.keeps (List.perm_nil.mp perm)
  rw [← readBack_shelf_perm_iff synced.holds.distinct texts]
  obtain ⟨restarted, ran, keeps, shown, tree, effects⟩ :=
    queuePoolLoad_reliable healthy (synced.holds.of_cwd same)
  constructor
  · rintro ⟨other, again, _, _, _, back⟩
    rw [ran] at again
    cases again
    exact shown.symm.trans back
  · intro back
    exact ⟨restarted, ran, keeps, tree, effects, shown.trans back⟩

/-! ## Two computed runs -/

theorem Textual.computed {before after : Machine} {req : BrokerRequest}
    (modest : Modest env before req after) (clean : 0 ∉ req.data.getD []) :
    Textual env before req after := by
  refine ⟨modest, fun data given => ?_⟩
  rwa [given] at clean

/-- A message put into a queue of its own. -/
def stocked (message : Bytes) : Machine :=
  ((loaded faithful emptyTree).asked faithful (request "addQueue" none (some "a"))).asked faithful
    ⟨some brokerProduce, none, some (text "a"), 0, some message⟩

theorem stocked_plain : Session faithful (Textual faithful) (loaded faithful emptyTree)
    (stocked (text "x")) :=
  (Session.start.asked (request "addQueue" none (some "a")) (by decide +kernel)
    (.computed (.computed (.inr (by decide +kernel)) (by decide +kernel)) (by decide))).asked
  ⟨some brokerProduce, none, some (text "a"), 0, some (text "x")⟩ (by decide +kernel)
    (.computed (.computed (.inl (by decide)) (by decide +kernel)) (by decide))

theorem restarts_iff_computed : Restarts faithful.toEnvironment (stocked (text "x")) :=
  (restarts_iff faithful (fun _ _ => rfl) emptyTree_empty (loaded_returned (by decide +kernel))
    stocked_plain (fun _ _ => rfl) rfl).mpr (by decide +kernel)

/-- A message that is the byte 0xFF comes back empty. -/
theorem restart_truncates :
    Session faithful (Textual faithful) (loaded faithful emptyTree) (stocked [255]) ∧
      (stocked [255]).shelf = [⟨text "a", [⟨1, [255]⟩]⟩] ∧
      ¬Restarts faithful.toEnvironment (stocked [255]) := by
  have session : Session faithful (Textual faithful) (loaded faithful emptyTree) (stocked [255]) :=
    (Session.start.asked (request "addQueue" none (some "a")) (by decide +kernel)
      (.computed (.computed (.inr (by decide +kernel)) (by decide +kernel)) (by decide))).asked
    ⟨some brokerProduce, none, some (text "a"), 0, some [255]⟩ (by decide +kernel)
      (.computed (.computed (.inl (by decide)) (by decide +kernel)) (by decide))
  have stored : (stocked [255]).shelf = [⟨text "a", [⟨1, [255]⟩]⟩] := by decide +kernel
  refine ⟨session, stored, ?_⟩
  rintro ⟨restarted, ran, _, _, _, perm⟩
  have back : (loaded faithful (stocked [255]).world.system.tree).shelf =
      [⟨text "a", [⟨1, []⟩]⟩] := by decide +kernel
  have same : loaded faithful (stocked [255]).world.system.tree = restarted := by
    rw [loaded, ran]
    rfl
  rw [← same, back, stored] at perm
  exact absurd perm (by decide)

end Bmb
