import Bmb.Broker.Session
import Bmb.Http.Response
import Bmb.Persist.Paths

namespace Bmb

open Bmb.Base Bmb.Posix

/-! What requests come to when the storage fails. -/

/-- A response says that the request has been carried out. -/
def BrokerResponse.succeeds (response : BrokerResponse) : Prop :=
  response.success = some (.bool true)

theorem Answers.succeeds_iff {env : BrokerEnvironment} {success : Bool} {response : BrokerResponse}
    (shown : Answers env success response) (json : env.JsonReliable) :
    response.succeeds ↔ success = true := by
  rw [BrokerResponse.succeeds, shown json]
  simp

theorem saysTrue_succeeds {env : BrokerEnvironment} {req : BrokerRequest} {machine after : Machine}
    {response : BrokerResponse} (ran : brokerDispatch env req machine = .returned (some response) after)
    (told : saysTrue env req machine = true) : response.succeeds := by
  unfold saysTrue at told
  rw [ran] at told
  split at told
  · rename_i same
    cases same
    rfl
  · contradiction

/-- Pool and files are as before. -/
structure Untouched (before after : Machine) : Prop where
  shelf : after.shelf = before.shelf
  tree : after.world.system.tree = before.world.system.tree

variable {env : BrokerEnvironment} {machine : Machine} {req : BrokerRequest} {mailbox : Mailbox}

/-! ## Consuming -/

/-- The file of the oldest item can be unlinked. -/
def CanTake (env : BrokerEnvironment) (machine : Machine) (key : Bytes) (item : Item) : Prop :=
  item.id ≠ 0 ∧ ∃ target, CanUnlink env.toEnvironment (nodeFile key item.id)
    machine.world.system.tree machine.world.system.clock target

/-- The oldest item has been detached and its file has been removed. -/
structure Taken (env : BrokerEnvironment) (before after : Machine) (key : Bytes) (item : Item) :
    Prop where
  shelf : after.shelf = before.shelf.pop key
  present : before.world.system.tree.get (env.target (nodeFile key item.id)) ≠ none
  gone : after.world.system.tree.get (env.target (nodeFile key item.id)) = none

/-- Consuming answers, says whether the oldest item has been taken, and else changes nothing. -/
def ConsumeHonest (env : BrokerEnvironment) (machine : Machine) (req : BrokerRequest)
    (key : Bytes) (item : Item) : Prop :=
  ∃ response after, brokerDispatch env req machine = .returned (some response) after ∧
    (response.succeeds ↔ Taken env machine after key item) ∧
    (¬response.succeeds → Untouched machine after)

theorem consume_honest_iff {key : Bytes} {item : Item} {rest : List Item}
    (reachable : Reachable env machine) (json : env.JsonReliable)
    (typed : req.type = some brokerConsume) (names : Names req machine.shelf ⟨key, item :: rest⟩) :
    ConsumeHonest env machine req key item ↔ CanTake env machine key item := by
  have keeps := reachable.keeps
  obtain ⟨effects, calls, ending, step, ends⟩ := brokerDispatch_step env req keeps
  rw [command_consume keeps.nodup typed names] at step
  constructor
  · intro honest
    obtain ⟨response, after, ran, _, _⟩ := honest
    rw [ran] at ends
    cases ends with
    | answered shown kept handled =>
        cases step with
        | read reads => cases reads
        | consumed positive can => exact ⟨positive, _, can⟩
  · intro can
    obtain ⟨positive, target, can⟩ := can
    generalize shape : brokerDispatch env req machine = outcome at ends
    cases step with
    | read reads => cases reads
    | unnumbered zero => exact absurd zero positive
    | unremoved _ cannot => exact absurd can (cannot target)
    | consumed _ unlinked =>
        cases ends with
        | answered shown kept handled =>
            have place := can.1.path_eq
            have same := unlinked.1.path_eq
            obtain ⟨content, present⟩ := can.2
            have success := (shown.succeeds_iff json).mpr rfl
            refine ⟨_, _, shape, iff_of_true success ⟨kept.shelf_eq, ?_, ?_⟩, absurd success⟩
            · rw [← place, present]
              simp
            · rw [handled.tree, same]
              exact FileTree.get_erase_self

/-- A queue with one item. -/
def oneItem (env : BrokerEnvironment) : Machine :=
  ((loaded env emptyTree).asked env (request "addQueue" none (some "a"))).asked env
    (request "produce" (some "a") (some "x"))

theorem oneItem_reachable : Reachable faithful (oneItem faithful) :=
  ((Reachable.loaded (by decide +kernel)).asked _ (by decide +kernel)).asked _ (by decide +kernel)

theorem consume_honest_iff_computed :
    ConsumeHonest faithful (oneItem faithful) (request "consume" (some "a") none) (text "a")
      ⟨1, text "x"⟩ :=
  (@consume_honest_iff _ _ _ (text "a") ⟨1, text "x"⟩ [] oneItem_reachable (fun _ => rfl)
    (by decide +kernel) ⟨by decide +kernel, by decide +kernel, by decide⟩).mpr
    ⟨by decide, [text "1", text "a", text "data"],
      ⟨⟨rfl, by decide +kernel⟩, text "x", by decide +kernel⟩⟩

/-- When the file cannot be removed, the `NULL` node is used. -/
theorem consume_uses_null :
    Reachable (failing .unlink) (oneItem (failing .unlink)) ∧
      (oneItem (failing .unlink)).shelf = [⟨text "a", [⟨1, text "x"⟩]⟩] ∧
      ¬ConsumeHonest (failing .unlink) (oneItem (failing .unlink))
        (request "consume" (some "a") none) (text "a") ⟨1, text "x"⟩ := by
  refine ⟨((Reachable.loaded (by decide +kernel)).asked _ (by decide +kernel)).asked _
    (by decide +kernel), by decide +kernel, ?_⟩
  intro honest
  obtain ⟨response, after, ran, _⟩ := honest
  have stuck : isAnswered (failing .unlink) (request "consume" (some "a") none)
      (oneItem (failing .unlink)) = false := by decide +kernel
  rw [isAnswered, ran] at stuck
  contradiction

/-! ## Answering at all -/

/-- The directory of a queue can be listed for both ids of a new node, and the second is usable. -/
structure CanNumber (env : BrokerEnvironment) (machine : Machine) (key : Bytes) : Prop where
  counted : CanOpen env.toEnvironment (queuePath key) machine.world.system.tree
    (machine.world.system.clock + 1) (env.target (queuePath key))
  opened : CanOpen env.toEnvironment (queuePath key) machine.world.system.tree
    (machine.world.system.clock + 3) (env.target (queuePath key))
  positive : nextIdAt env.toEnvironment machine.world.system.tree (machine.world.system.clock + 3)
    (env.target (queuePath key)) ≠ 0

/-- A command whose calls let it come to an answer. -/
def Answerable (env : BrokerEnvironment) (machine : Machine) : Command → Prop
  | .untyped | .unknown => False
  | .consume ⟨key, item :: _⟩ => CanTake env machine key item
  | .produce mailbox _ => CanNumber env machine mailbox.key
  | .removeQueue mailbox => ¬Uncertain env.toEnvironment (queuePath mailbox.key)
      machine.world.system.tree machine.world.system.clock
  | _ => True

theorem Command.Reads.answerable {command : Command} (reads : command.Reads) :
    Answerable env machine command := by
  cases reads <;> trivial

/-- A request is answered, with all fields of the response assigned, if and only if its type is
given and known and its calls do not run into one of the unguarded pointers. -/
theorem brokerDispatch_answers_iff (keeps : machine.Keeps machine.shelf) :
    (∃ response after, brokerDispatch env req machine = .returned (some response) after) ↔
      Answerable env machine (command req machine.shelf) := by
  obtain ⟨effects, calls, ending, step, ends⟩ := brokerDispatch_step env req keeps
  generalize command req machine.shelf = decoded at step
  constructor
  · intro answered
    obtain ⟨response, after, ran⟩ := answered
    rw [ran] at ends
    cases ends with
    | answered shown kept handled =>
        cases step with
        | rejected | known | adopted | made | unmade | empty => trivial
        | read reads => exact reads.answerable
        | consumed positive can => exact ⟨positive, _, can⟩
        | unsaved first second positive cannot =>
            rw [second.1.path_eq] at positive
            exact ⟨first.at_target, second.at_target, positive⟩
        | saved first second positive can =>
            rw [second.1.path_eq] at positive
            exact ⟨first.at_target, second.at_target, positive⟩
        | removed removal => exact fun uncertain => absurd (removal.none_iff.mpr uncertain) (by simp)
        | kept removal => exact fun uncertain => absurd (removal.none_iff.mpr uncertain) (by simp)
  · intro answerable
    generalize brokerDispatch env req machine = outcome at ends
    cases ends with
    | answered shown kept handled => exact ⟨_, _, rfl⟩
    | unassigned =>
        cases step with
        | unknown => exact answerable.elim
    | trapped =>
        cases step with
        | untyped => exact answerable.elim
        | unnumbered zero => exact absurd zero answerable.1
        | unremoved positive cannot =>
            obtain ⟨_, target, can⟩ := answerable
            exact absurd can (cannot target)
        | noNodeId cannot => exact absurd answerable.counted (cannot _)
        | noFileId can cannot => exact absurd answerable.opened (cannot _)
        | zeroFileId first second zero =>
            rw [second.1.path_eq] at zero
            exact absurd zero answerable.positive
        | unread removal => exact absurd (removal.none_iff.mp rfl) answerable

/-- The id that the file of a new node gets. -/
def fileId (env : BrokerEnvironment) (machine : Machine) (key : Bytes) : Nat :=
  nextIdAt env.toEnvironment machine.world.system.tree (machine.world.system.clock + 3)
    (env.target (queuePath key))

/-- The file of a new node has a name of its own, and it can be created and written. -/
structure CanStore (env : BrokerEnvironment) (machine : Machine) (key : Bytes) : Prop extends
    CanNumber env machine key where
  created : CanCreate env.toEnvironment (nodeFile key (fileId env machine key))
    machine.world.system.tree (machine.world.system.clock + 4)
    (env.target (nodeFile key (fileId env machine key)))
  fresh : machine.world.system.tree.get (env.target (nodeFile key (fileId env machine key))) = none
  written : env.fails .write (machine.world.system.clock + 5) = false

/-- A message has been put behind the items of a queue and into a new file of its directory. -/
structure Stored (env : BrokerEnvironment) (before after : Machine) (key data : Bytes) : Prop where
  shelf : ∃ id, after.shelf = before.shelf.push key ⟨id, data⟩
  file : ∃ file : Name,
    before.world.system.tree.get (file :: env.target (queuePath key)) = none ∧
    after.world.system.tree.get (file :: env.target (queuePath key)) = some (.file data)

/-- Producing answers, says whether the message has been stored, and else changes nothing. -/
def ProduceHonest (env : BrokerEnvironment) (machine : Machine) (req : BrokerRequest)
    (key data : Bytes) : Prop :=
  ∃ response after, brokerDispatch env req machine = .returned (some response) after ∧
    (response.succeeds ↔ Stored env machine after key data) ∧
    (¬response.succeeds → Untouched machine after)

theorem push_ne {shelf : Shelf Bytes Item} {item : Item} (distinct : shelf.keys.Nodup)
    (member : mailbox ∈ shelf) : shelf.push mailbox.key item ≠ shelf := by
  intro same
  have grown : ⟨mailbox.key, mailbox.items ++ [item]⟩ ∈ shelf.push mailbox.key item :=
    Shelf.mem_update_self member
  rw [same] at grown
  have both := Shelf.eq_of_key_eq distinct grown member rfl
  have lengths := congrArg (fun queue : Mailbox => queue.items.length) both
  simp at lengths

theorem produce_honest_iff {data : Bytes} (reachable : Reachable env machine)
    (json : env.JsonReliable) (typed : req.type = some brokerProduce)
    (names : Names req machine.shelf mailbox) (gives : Gives req data) :
    ProduceHonest env machine req mailbox.key data ↔ CanStore env machine mailbox.key := by
  have keeps := reachable.keeps
  obtain ⟨effects, calls, ending, step, ends⟩ := brokerDispatch_step env req keeps
  rw [command_produce keeps.nodup typed names gives] at step
  constructor
  · intro honest
    obtain ⟨response, after, ran, told, _⟩ := honest
    rw [ran] at ends
    cases ends with
    | answered shown kept handled =>
        have stored (success : response.succeeds) := told.mp success
        cases step with
        | read reads => cases reads
        | unsaved first second positive cannot =>
            obtain ⟨id, pushed⟩ := (stored ((shown.succeeds_iff json).mpr rfl)).shelf
            rw [kept.shelf_eq] at pushed
            exact absurd pushed.symm (push_ne keeps.nodup names.member)
        | @saved _ _ target file first second positive can =>
            obtain ⟨name, absent, present⟩ := (stored ((shown.succeeds_iff json).mpr rfl)).file
            have located := second.1.path_eq
            subst located
            have placed := can.1.path_eq
            rw [handled.tree, get_storeEffects] at present
            by_cases same : name :: env.target (queuePath mailbox.key) = file
            · rw [if_pos same] at present
              cases fails : env.fails .write (machine.world.system.clock + 5) with
              | true =>
                  rw [fails, if_pos rfl] at present
                  cases present
                  exact absurd rfl gives.nonempty
              | false =>
                  refine ⟨⟨first.at_target, second, positive⟩, placed ▸ can, ?_, fails⟩
                  rw [fileId, ← placed, ← same]
                  exact absent
            · rw [if_neg same, absent] at present
              contradiction
  · intro can
    generalize shape : brokerDispatch env req machine = outcome at ends
    cases step with
    | read reads => cases reads
    | noNodeId cannot => exact absurd can.counted (cannot _)
    | noFileId _ cannot => exact absurd can.opened (cannot _)
    | zeroFileId first second zero =>
        rw [second.1.path_eq] at zero
        exact absurd zero can.positive
    | unsaved first second positive cannot =>
        rw [second.1.path_eq] at cannot
        exact absurd can.created (cannot _)
    | @saved _ _ target file first second positive created =>
        have located := second.1.path_eq
        subst located
        have placed := created.1.path_eq
        cases ends with
        | answered shown kept handled =>
            have success := (shown.succeeds_iff json).mpr rfl
            refine ⟨_, _, shape, iff_of_true success ⟨⟨_, kept.shelf_eq⟩, ?_⟩, absurd success⟩
            have path := target_nodePath env.toEnvironment mailbox.key
              (toInt32 (fileId env machine mailbox.key))
            refine ⟨_, path ▸ can.fresh, ?_⟩
            rw [handled.tree, get_storeEffects, if_pos (path.symm.trans placed.symm), can.written]
            rfl

/-- A queue without items. -/
def noItem (env : BrokerEnvironment) : Machine :=
  (loaded env emptyTree).asked env (request "addQueue" none (some "a"))

theorem produce_honest_iff_computed :
    ProduceHonest faithful (noItem faithful) (request "produce" (some "a") (some "x"))
      (text "a") (text "x") :=
  (@produce_honest_iff _ _ _ ⟨text "a", []⟩ _
    ((Reachable.loaded (by decide +kernel)).asked _ (by decide +kernel)) (fun _ => rfl)
    (by decide +kernel) ⟨by decide +kernel, by decide +kernel, by decide⟩
    ⟨by decide +kernel, by decide⟩).mpr
    ⟨⟨⟨⟨rfl, by decide +kernel⟩, by decide +kernel⟩, ⟨⟨rfl, by decide +kernel⟩, by decide +kernel⟩,
      by decide +kernel⟩, ⟨⟨rfl, by decide +kernel⟩, by decide +kernel⟩, by decide +kernel, rfl⟩

/-- When the file cannot be created, the message is lost and the answer says that it is stored. -/
theorem produce_acknowledges_lost_message :
    Reachable (failing .create) (noItem (failing .create)) ∧
      (noItem (failing .create)).shelf = [⟨text "a", []⟩] ∧
      ¬ProduceHonest (failing .create) (noItem (failing .create))
        (request "produce" (some "a") (some "x")) (text "a") (text "x") := by
  refine ⟨(Reachable.loaded (by decide +kernel)).asked _ (by decide +kernel), by decide +kernel, ?_⟩
  intro honest
  obtain ⟨response, after, ran, told, _⟩ := honest
  have state : after = (noItem (failing .create)).asked (failing .create)
      (request "produce" (some "a") (some "x")) := by
    rw [Machine.asked, ran]
    rfl
  have success : response.succeeds := saysTrue_succeeds ran (by decide +kernel)
  obtain ⟨id, grown⟩ := (told.mp success).shelf
  have same : after.shelf = [⟨text "a", []⟩] := by
    rw [state]
    decide +kernel
  have before : (noItem (failing .create)).shelf = [⟨text "a", []⟩] := by decide +kernel
  rw [same, before] at grown
  simp [Shelf.push, Shelf.update] at grown

/-! ## Removing a queue -/

/-- A removal stops before it unlinks a file: the directory cannot be opened, there is no file
to unlink, or the first one is refused. -/
inductive Unbegun (env : Environment) (path : Bytes) (tree : FileTree) (time : Nat) : Prop where
  | closed (closed : ∀ target, ¬CanOpen env path tree time target)
  | refused {ids : List Int} (found : RemovalIds env path tree time ids)
      (first : ∀ id ∈ ids.head?, ∀ target,
        ¬CanUnlink env (nodePath path (intToString id)) tree (time + 3) target)

/-- All files of a directory and then the directory itself can be removed. -/
structure Removable (env : Environment) (path : Bytes) (tree : FileTree) (time : Nat) : Prop where
  all : ∃ ids effects last, RemovalIds env path tree time ids ∧
    Unlinks env path tree (time + 3) ids effects true ∧
    CanRemove env path (replay effects tree) (time + 3 + ids.length) last

/-- Removing a queue answers; it is gone from the pool and the disk, or all of it is as before. -/
def RemoveHonest (env : BrokerEnvironment) (machine : Machine) (req : BrokerRequest)
    (key : Bytes) : Prop :=
  ∃ response after, brokerDispatch env req machine = .returned (some response) after ∧
    (response.succeeds →
      key ∉ after.shelf.keys ∧ after.world.system.tree.get (env.target (queuePath key)) = none) ∧
    (¬response.succeeds → after.shelf = machine.shelf ∧
      after.world.system.tree.get (env.target (queuePath key)) =
        machine.world.system.tree.get (env.target (queuePath key)) ∧
      ∀ file, after.world.system.tree.get (file :: env.target (queuePath key)) =
        machine.world.system.tree.get (file :: env.target (queuePath key)))

theorem Removal.unbegun_or_lost {env : Environment} {key : Bytes} {tree : FileTree} {time : Nat}
    {effects : List Effect}
    (removal : Removal env (queuePath key) tree time effects (some false)) :
    Unbegun env (queuePath key) tree time ∨
    ∃ file : Name, tree.get (file :: env.target (queuePath key)) ≠ none ∧
      (replay effects tree).get (file :: env.target (queuePath key)) = none := by
  cases removal with
  | closed closed => exact .inl (.closed closed)
  | refused opened found unlinks =>
      rcases unlinks.nothing_or_lost with ⟨_, first⟩ | lost
      · exact .inl (.refused found first)
      · exact .inr lost
  | kept opened found unlinks cannot =>
      rcases unlinks.nothing_or_lost with ⟨_, first⟩ | lost
      · exact .inl (.refused found first)
      · exact .inr lost

theorem Removal.nothing_of_clean {env : Environment} {key : Bytes} {tree : FileTree} {time : Nat}
    {effects : List Effect}
    (removal : Removal env (queuePath key) tree time effects (some false))
    (clean : Unbegun env (queuePath key) tree time ∨ Removable env (queuePath key) tree time) :
    effects = [] := by
  cases removal with
  | closed closed => rfl
  | refused opened found unlinks =>
      cases clean with
      | inl unbegun =>
          cases unbegun with
          | closed closed => exact absurd opened (closed _)
          | refused listed first =>
              obtain rfl := found.unique listed
              exact unlinks.nothing_of_refused first
      | inr removable =>
          obtain ⟨ids, others, last, listed, complete, _⟩ := removable.all
          obtain rfl := found.unique listed
          exact absurd (unlinks.unique complete).2 (by simp)
  | kept opened found unlinks cannot =>
      cases clean with
      | inl unbegun =>
          cases unbegun with
          | closed closed => exact absurd opened (closed _)
          | refused listed first =>
              obtain rfl := found.unique listed
              exact unlinks.nothing_of_refused first
      | inr removable =>
          obtain ⟨ids, others, last, listed, complete, can⟩ := removable.all
          obtain rfl := found.unique listed
          obtain ⟨rfl, _⟩ := unlinks.unique complete
          exact absurd can (cannot last)

theorem remove_honest_iff (reachable : Reachable env machine) (json : env.JsonReliable)
    (typed : req.type = some brokerRemoveQueue) (names : Names req machine.shelf mailbox) :
    RemoveHonest env machine req mailbox.key ↔
      Unbegun env.toEnvironment (queuePath mailbox.key) machine.world.system.tree
        machine.world.system.clock ∨
      Removable env.toEnvironment (queuePath mailbox.key) machine.world.system.tree
        machine.world.system.clock := by
  have keeps := reachable.keeps
  obtain ⟨effects, calls, ending, step, ends⟩ := brokerDispatch_step env req keeps
  rw [command_removeQueue keeps.nodup typed names] at step
  constructor
  · intro honest
    obtain ⟨response, after, ran, _, failed⟩ := honest
    rw [ran] at ends
    cases ends with
    | answered shown kept handled =>
        cases step with
        | read reads => cases reads
        | removed removal =>
            cases removal with
            | removed opened found unlinks can => exact .inr ⟨_, _, _, found, unlinks, can⟩
        | kept removal =>
            rcases removal.unbegun_or_lost with unbegun | ⟨file, present, lost⟩
            · exact .inl unbegun
            · have refused : ¬response.succeeds := by simp [shown.succeeds_iff json]
              obtain ⟨_, _, same⟩ := failed refused
              rw [← same file, handled.tree] at present
              exact absurd lost present
  · intro clean
    generalize shape : brokerDispatch env req machine = outcome at ends
    cases step with
    | read reads => cases reads
    | unread removal =>
        have uncertain := removal.none_iff.mp rfl
        rcases clean with unbegun | removable
        · cases unbegun with
          | closed closed => exact absurd uncertain.1 (closed _)
          | refused found first => exact absurd uncertain found.certain
        · obtain ⟨_, _, _, found, _⟩ := removable.all
          exact absurd uncertain found.certain
    | kept removal =>
        obtain rfl := removal.nothing_of_clean clean
        cases ends with
        | answered shown kept handled =>
            have failed := (shown.succeeds_iff json).not.mpr (by simp)
            refine ⟨_, _, shape, fun success => absurd success failed, fun _ => ⟨kept.shelf_eq, ?_⟩⟩
            rw [handled.tree]
            exact ⟨rfl, fun _ => rfl⟩
    | removed removal =>
        cases ends with
        | answered shown kept handled =>
            have success := (shown.succeeds_iff json).mpr rfl
            refine ⟨_, _, shape, fun _ => ⟨?_, ?_⟩, absurd success⟩
            · rw [kept.shelf_eq, Shelf.keys_remove]
              simp
            · rw [handled.tree]
              cases removal with
              | removed opened found unlinks can =>
                  rw [replay_append, can.1.path_eq]
                  exact FileTree.get_erase_self

/-- Two queues of which the directory of the second lies in that of the first. -/
def nested : Machine :=
  (((loaded faithful emptyTree).asked faithful (request "addQueue" none (some "a"))).asked faithful
    (request "addQueue" none (some "a/b"))).asked faithful
    (request "produce" (some "a") (some "x"))

theorem nested_reachable : Reachable faithful nested :=
  (((Reachable.loaded (by decide +kernel)).asked _ (by decide +kernel)).asked _
    (by decide +kernel)).asked _ (by decide +kernel)

theorem remove_honest_iff_computed :
    RemoveHonest faithful (noItem faithful) (request "removeQueue" (some "a") none) (text "a") :=
  (@remove_honest_iff _ _ _ ⟨text "a", []⟩
    ((Reachable.loaded (by decide +kernel)).asked _ (by decide +kernel)) (fun _ => rfl)
    (by decide +kernel) ⟨by decide +kernel, by decide +kernel, by decide⟩).mpr
    (.inl (.refused (@RemovalIds.empty _ _ _ _ [text "a", text "data"]
      ⟨⟨rfl, by decide +kernel⟩, by decide +kernel⟩ (by decide +kernel)) (by simp)))

/-- The removal of a queue with another one inside is refused after the files have been lost. -/
theorem remove_loses_files :
    Reachable faithful nested ∧
      nested.shelf = [⟨text "a", [⟨1, text "x"⟩]⟩, ⟨text "a/b", []⟩] ∧
      ¬RemoveHonest faithful nested (request "removeQueue" (some "a") none) (text "a") := by
  refine ⟨nested_reachable, by decide +kernel, ?_⟩
  intro honest
  obtain ⟨response, after, ran, success, failure⟩ := honest
  have state : after = nested.asked faithful (request "removeQueue" (some "a") none) := by
    rw [Machine.asked, ran]
    rfl
  have kept : text "a" ∈ after.shelf.keys := by
    rw [state]
    decide +kernel
  obtain ⟨_, _, same⟩ := failure fun told => (success told).1 kept
  have lost := same (text "1")
  rw [state] at lost
  exact absurd lost (by decide +kernel)

end Bmb
