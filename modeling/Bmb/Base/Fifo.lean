import Mathlib.Data.List.Nodup

namespace Bmb.Base

/-! Named first-in-first-out queues: what a broker keeps, without pointers and files. -/

/-- A named queue; the oldest item comes first. -/
@[ext] structure Fifo (κ α : Type) where
  key : κ
  items : List α
deriving DecidableEq

/-- The queues of a broker, in the order of their creation. -/
abbrev Shelf (κ α : Type) := List (Fifo κ α)

namespace Shelf

variable {κ α β : Type}

def keys (shelf : Shelf κ α) : List κ := shelf.map Fifo.key

instance [DecidableEq κ] (key : κ) (shelf : Shelf κ α) : Decidable (key ∈ shelf.keys) :=
  inferInstanceAs (Decidable (key ∈ shelf.map Fifo.key))

def create (key : κ) (shelf : Shelf κ α) : Shelf κ α := shelf ++ [⟨key, []⟩]

variable {shelf after : Shelf κ α} {key : κ} {queue : Fifo κ α} {f : List α → List α}

@[simp] theorem keys_nil : keys ([] : Shelf κ α) = [] := rfl

@[simp] theorem keys_cons : keys (queue :: shelf) = queue.key :: keys shelf := rfl

@[simp] theorem keys_append : keys (shelf ++ after) = keys shelf ++ keys after := List.map_append

theorem key_mem (member : queue ∈ shelf) : queue.key ∈ shelf.keys :=
  List.mem_map.mpr ⟨queue, member, rfl⟩

theorem eq_of_key_eq {left right : Fifo κ α} (distinct : shelf.keys.Nodup)
    (leftIn : left ∈ shelf) (rightIn : right ∈ shelf) (same : left.key = right.key) :
    left = right :=
  List.inj_on_of_nodup_map distinct leftIn rightIn same

theorem create_ne_self : shelf.create key ≠ shelf := by
  intro same
  have lengths := congrArg List.length same
  simp [create] at lengths

/-- A shelf with its items seen through a view. -/
def seen (view : α → β) (shelf : Shelf κ α) : Shelf κ β :=
  shelf.map fun queue => ⟨queue.key, queue.items.map view⟩

@[simp] theorem keys_seen (view : α → β) : (shelf.seen view).keys = shelf.keys := by
  simp [keys, seen, Function.comp_def]

theorem seen_create (view : α → β) : (shelf.create key).seen view = (shelf.seen view).create key := by
  simp [seen, create]

theorem mem_seen {view : α → β} (member : queue ∈ shelf) :
    ⟨queue.key, queue.items.map view⟩ ∈ shelf.seen view :=
  List.mem_map.mpr ⟨queue, member, rfl⟩

variable [DecidableEq κ]

def update (key : κ) (f : List α → List α) (shelf : Shelf κ α) : Shelf κ α :=
  shelf.map fun queue => if queue.key = key then ⟨queue.key, f queue.items⟩ else queue

def push (key : κ) (item : α) (shelf : Shelf κ α) : Shelf κ α :=
  shelf.update key (· ++ [item])

def pop (key : κ) (shelf : Shelf κ α) : Shelf κ α := shelf.update key List.tail

def remove (key : κ) (shelf : Shelf κ α) : Shelf κ α := shelf.filter fun queue => queue.key ≠ key

@[simp] theorem keys_update : (shelf.update key f).keys = shelf.keys := by
  simp only [keys, update, List.map_map]
  apply List.map_congr_left
  intro queue _
  simp only [Function.comp_apply]
  split <;> rfl

theorem keys_remove : (shelf.remove key).keys = shelf.keys.filter (· ≠ key) := by
  simp [keys, remove, List.filter_map, Function.comp_def]

theorem mem_update :
    queue ∈ shelf.update key f ↔
      (queue.key ≠ key ∧ queue ∈ shelf) ∨
        (queue.key = key ∧ ∃ items, ⟨key, items⟩ ∈ shelf ∧ queue.items = f items) := by
  simp only [update, List.mem_map]
  constructor
  · rintro ⟨old, member, rfl⟩
    split
    · rename_i same
      exact .inr ⟨same, old.items, same ▸ member, rfl⟩
    · rename_i different
      exact .inl ⟨different, member⟩
  · rintro (⟨different, member⟩ | ⟨rfl, items, member, changed⟩)
    · exact ⟨queue, member, if_neg different⟩
    · refine ⟨_, member, ?_⟩
      rw [if_pos rfl, ← changed]

theorem update_congr {g : List α → List α}
    (same : ∀ queue ∈ shelf, queue.key = key → f queue.items = g queue.items) :
    shelf.update key f = shelf.update key g := by
  apply List.map_congr_left
  intro queue member
  by_cases named : queue.key = key
  · rw [if_pos named, if_pos named, same queue member named]
  · rw [if_neg named, if_neg named]

theorem update_update (g : List α → List α) :
    (shelf.update key f).update key g = shelf.update key (fun items => g (f items)) := by
  unfold update
  rw [List.map_map]
  apply List.map_congr_left
  intro queue _
  by_cases named : queue.key = key <;> simp [named]

theorem update_self (same : ∀ queue ∈ shelf, queue.key = key → f queue.items = queue.items) :
    shelf.update key f = shelf := by
  have plain : shelf.update key (fun items => items) = shelf := by
    unfold update
    apply List.map_id''
    intro queue
    split <;> rfl
  rw [update_congr (g := fun items => items) same, plain]

theorem remove_update : (shelf.update key f).remove key = shelf.remove key := by
  induction shelf with
  | nil => rfl
  | cons queue shelf ih =>
      unfold remove update at ih ⊢
      by_cases named : queue.key = key <;> simp [named] at ih ⊢ <;> exact ih

theorem mem_update_self (member : queue ∈ shelf) :
    ⟨queue.key, f queue.items⟩ ∈ shelf.update queue.key f :=
  mem_update.mpr (.inr ⟨rfl, queue.items, member, rfl⟩)

theorem update_of_not_mem (absent : key ∉ shelf.keys) : shelf.update key f = shelf :=
  update_self (fun _ member named => absurd (named ▸ key_mem member) absent)

theorem remove_of_not_mem (absent : key ∉ shelf.keys) : shelf.remove key = shelf := by
  apply List.filter_eq_self.mpr
  intro queue member
  have different : queue.key ≠ key := fun same => absent (same ▸ key_mem member)
  simpa using different

theorem remove_ne_self (known : key ∈ shelf.keys) : shelf.remove key ≠ shelf := by
  intro same
  rw [← same, keys_remove] at known
  simp at known

theorem create_ne_remove {other : κ} : shelf.create key ≠ shelf.remove other := by
  intro same
  have bound : (shelf.remove other).length ≤ shelf.length := List.length_filter_le _ _
  rw [← same, create, List.length_append, List.length_singleton] at bound
  omega

theorem update_middle (distinct : (keys (shelf ++ queue :: after)).Nodup) :
    update queue.key f (shelf ++ queue :: after) =
      shelf ++ ⟨queue.key, f queue.items⟩ :: after := by
  simp only [keys_append, keys_cons, List.nodup_append, List.nodup_cons, List.mem_cons] at distinct
  obtain ⟨_, ⟨absentAfter, _⟩, separate⟩ := distinct
  have absentBefore : queue.key ∉ shelf.keys := fun member => separate _ member _ (.inl rfl) rfl
  have left := update_of_not_mem (f := f) absentBefore
  have right := update_of_not_mem (f := f) absentAfter
  unfold update at left right ⊢
  rw [List.map_append, List.map_cons, left, right, if_pos rfl]

theorem remove_middle (distinct : (keys (shelf ++ queue :: after)).Nodup) :
    remove queue.key (shelf ++ queue :: after) = shelf ++ after := by
  simp only [keys_append, keys_cons, List.nodup_append, List.nodup_cons, List.mem_cons] at distinct
  obtain ⟨_, ⟨absentAfter, _⟩, separate⟩ := distinct
  have absentBefore : queue.key ∉ shelf.keys := fun member => separate _ member _ (.inl rfl) rfl
  have left := remove_of_not_mem absentBefore
  have right := remove_of_not_mem absentAfter
  unfold remove at left right ⊢
  rw [List.filter_append, List.filter_cons_of_neg (by simp), left, right]

theorem seen_update {view : α → β} {g : List β → List β}
    (commutes : ∀ items, (f items).map view = g (items.map view)) :
    (shelf.update key f).seen view = (shelf.seen view).update key g := by
  unfold seen update
  rw [List.map_map, List.map_map]
  apply List.map_congr_left
  intro queue _
  by_cases named : queue.key = key <;> simp [named, commutes]

theorem seen_push (view : α → β) (item : α) :
    (shelf.push key item).seen view = (shelf.seen view).push key (view item) :=
  seen_update fun _ => by simp

theorem seen_pop (view : α → β) : (shelf.pop key).seen view = (shelf.seen view).pop key :=
  seen_update fun _ => List.map_tail

theorem seen_remove (view : α → β) : (shelf.remove key).seen view = (shelf.seen view).remove key := by
  simp [seen, remove, List.filter_map, Function.comp_def]

/-! ## One queue of a shelf -/

section Only

variable {other : κ}

/-- A shelf without its other queues. -/
def only (key : κ) (shelf : Shelf κ α) : Shelf κ α := shelf.filter fun queue => queue.key = key

theorem mem_only : queue ∈ shelf.only key ↔ queue ∈ shelf ∧ queue.key = key := by
  simp [only]

theorem key_mem_only : key ∈ (shelf.only key).keys ↔ key ∈ shelf.keys := by
  simp [keys, only]

theorem only_create : (shelf.create key).only key = (shelf.only key).create key := by
  simp [only, create]

theorem only_create_other (different : other ≠ key) :
    (shelf.create other).only key = shelf.only key := by
  simp [only, create, different]

theorem only_update : (shelf.update key f).only key = (shelf.only key).update key f := by
  unfold only update
  rw [List.filter_map]
  congr 1
  apply List.filter_congr
  intro queue _
  by_cases named : queue.key = key <;> simp [named]

theorem only_push (item : α) : (shelf.push key item).only key = (shelf.only key).push key item :=
  only_update

theorem only_pop : (shelf.pop key).only key = (shelf.only key).pop key := only_update

theorem only_update_other (different : other ≠ key) :
    (shelf.update other f).only key = shelf.only key := by
  induction shelf with
  | nil => rfl
  | cons queue shelf ih =>
      unfold only update at ih ⊢
      by_cases changed : queue.key = other <;> simp [changed, different, ih, List.filter_cons]

theorem only_push_other (different : other ≠ key) (item : α) :
    (shelf.push other item).only key = shelf.only key := only_update_other different

theorem only_pop_other (different : other ≠ key) :
    (shelf.pop other).only key = shelf.only key := only_update_other different

theorem only_remove : (shelf.remove key).only key = (shelf.only key).remove key := by
  unfold only remove
  rw [List.filter_comm]

theorem only_remove_other (different : other ≠ key) :
    (shelf.remove other).only key = shelf.only key := by
  unfold only remove
  rw [List.filter_filter]
  apply List.filter_congr
  intro queue _
  by_cases named : queue.key = key <;> simp [named, Ne.symm different]

end Only

/-- What happens to a shelf, with the items seen through a view. -/
inductive Event (κ β : Type) where
  | created (key : κ)
  | removed (key : κ)
  | pushed (key : κ) (shown : β)
  | popped (key : κ) (shown : β)
  | idle
deriving DecidableEq

inductive Transition (view : α → β) : Shelf κ α → Event κ β → Shelf κ α → Prop where
  | created {shelf : Shelf κ α} {key : κ} (fresh : key ∉ shelf.keys) :
      Transition view shelf (.created key) (shelf.create key)
  | removed {shelf : Shelf κ α} {key : κ} :
      Transition view shelf (.removed key) (shelf.remove key)
  | pushed {shelf : Shelf κ α} {key : κ} (item : α) :
      Transition view shelf (.pushed key (view item)) (shelf.push key item)
  | popped {shelf : Shelf κ α} {key : κ} {item : α} {rest : List α}
      (oldest : ⟨key, item :: rest⟩ ∈ shelf) :
      Transition view shelf (.popped key (view item)) (shelf.pop key)
  | idle {shelf : Shelf κ α} : Transition view shelf .idle shelf

inductive Run (view : α → β) : Shelf κ α → List (Event κ β) → Shelf κ α → Prop where
  | done {shelf : Shelf κ α} : Run view shelf [] shelf
  | step {first middle last : Shelf κ α} {event : Event κ β} {events : List (Event κ β)}
      (transition : Transition view first event middle) (rest : Run view middle events last) :
      Run view first (event :: events) last

/-- What a queue has been given, from `loaded` on; a creation starts afresh. -/
def given (key : κ) (loaded : List β) : List (Event κ β) → List β
  | [] => loaded
  | .created other :: rest => given key (if other = key then [] else loaded) rest
  | .pushed other shown :: rest =>
      given key (if other = key then loaded ++ [shown] else loaded) rest
  | _ :: rest => given key loaded rest

/-- What has been taken from a queue, from `before` on. -/
def taken (key : κ) (before : List β) : List (Event κ β) → List β
  | [] => before
  | .created other :: rest => taken key (if other = key then [] else before) rest
  | .popped other shown :: rest =>
      taken key (if other = key then before ++ [shown] else before) rest
  | _ :: rest => taken key before rest

/-- The shown items of the queue with a key, none if there is no such queue. -/
def contents (view : α → β) (key : κ) (shelf : Shelf κ α) : List β :=
  match shelf.find? fun queue => queue.key = key with
  | none => []
  | some queue => queue.items.map view

theorem contents_of_mem {view : α → β} (distinct : shelf.keys.Nodup) (member : queue ∈ shelf) :
    contents view queue.key shelf = queue.items.map view := by
  cases found : shelf.find? (fun other => other.key = queue.key) with
  | none =>
      have absent := List.find?_eq_none.mp found queue member
      simp at absent
  | some other =>
      have same : other.key = queue.key := by simpa using List.find?_some found
      have equal := eq_of_key_eq distinct (List.mem_of_find?_eq_some found) member same
      simp only [contents, found, equal]

theorem contents_only (view : α → β) : contents view key (shelf.only key) = contents view key shelf := by
  simp only [contents, only, List.find?_filter, and_self, decide_eq_true_eq]

theorem contents_map (view : α → β) : contents view key shelf = (contents id key shelf).map view := by
  unfold contents
  cases shelf.find? (fun queue => queue.key = key) with
  | none => rfl
  | some queue => exact (congrArg (List.map view) (List.map_id queue.items)).symm

theorem contents_seen (view : α → β) :
    contents id key (shelf.seen view) = contents view key shelf := by
  unfold contents seen
  rw [List.find?_map]
  simp only [Function.comp_def]
  cases shelf.find? (fun queue => queue.key = key) with
  | none => rfl
  | some queue => exact List.map_id _

theorem exists_of_contents {view : α → β} {shown : β} {others : List β}
    (some : contents view key shelf = shown :: others) :
    ∃ item rest, (⟨key, item :: rest⟩ : Fifo κ α) ∈ shelf ∧ view item = shown := by
  cases found : shelf.find? (fun queue => queue.key = key) with
  | none => simp [contents, found] at some
  | some queue =>
      obtain ⟨here, items⟩ := queue
      have same : here = key := by simpa using List.find?_some found
      have member := List.mem_of_find?_eq_some found
      subst same
      cases items with
      | nil => simp [contents, found] at some
      | cons item rest =>
          simp only [contents, found, List.map_cons, List.cons.injEq] at some
          exact ⟨item, rest, member, some.1⟩

theorem Transition.nodup {view : α → β} {event : Event κ β} (distinct : shelf.keys.Nodup)
    (transition : Transition view shelf event after) : after.keys.Nodup := by
  cases transition with
  | created fresh =>
      unfold create
      simp only [keys_append, keys_cons, keys_nil]
      exact List.Nodup.append distinct (List.nodup_singleton _) (by simpa using fresh)
  | removed =>
      rw [keys_remove]
      exact distinct.filter _
  | pushed item =>
      rw [push, keys_update]
      exact distinct
  | popped oldest =>
      rw [pop, keys_update]
      exact distinct
  | idle => exact distinct

/-- A relation between two lists that both can be extended is kept by every step, between what a
queue has been given and what has been taken from it followed by what it holds. -/
theorem Transition.relates {view : α → β} {event : Event κ β} {into out : κ → List β}
    {related : List β → List β → Prop} (nothing : related [] [])
    (more : ∀ left right shown, related left right → related (left ++ [shown]) (right ++ [shown]))
    (distinct : shelf.keys.Nodup) (transition : Transition view shelf event after)
    (before : ∀ queue ∈ shelf, related (into queue.key) (out queue.key ++ queue.items.map view)) :
    ∀ queue ∈ after, related (given queue.key (into queue.key) [event])
      (taken queue.key (out queue.key) [event] ++ queue.items.map view) := by
  intro queue member
  cases transition with
  | created fresh =>
      rename_i key
      unfold create at member
      rcases List.mem_append.mp member with old | new
      · have different : key ≠ queue.key := fun same => fresh (same ▸ key_mem old)
        simpa [given, taken, different] using before queue old
      · cases List.mem_singleton.mp new
        simpa [given, taken] using nothing
  | removed => exact before queue (List.mem_filter.mp member).1
  | pushed item =>
      rename_i key
      rcases mem_update.mp member with ⟨different, old⟩ | ⟨same, items, old, changed⟩
      · simpa [given, taken, Ne.symm different] using before queue old
      · have here := more _ _ (view item) (before _ old)
        simp only [given, taken, same, if_true, changed, List.map_append, List.map_cons,
          List.map_nil]
        rwa [List.append_assoc] at here
  | popped oldest =>
      rename_i key item rest
      rcases mem_update.mp member with ⟨different, old⟩ | ⟨same, items, old, changed⟩
      · simpa [given, taken, Ne.symm different] using before queue old
      · have unchanged := eq_of_key_eq distinct old oldest rfl
        simp only [Fifo.mk.injEq, true_and] at unchanged
        have here := before _ oldest
        simp only [given, taken, same, if_true, changed, unchanged, List.tail_cons]
        rwa [List.map_cons, List.append_cons] at here
  | idle => exact before queue member

/-- One step keeps the balance of every queue: given = taken followed by kept. -/
theorem Transition.balance {view : α → β} {event : Event κ β} {into out : κ → List β}
    (distinct : shelf.keys.Nodup) (transition : Transition view shelf event after)
    (balanced : ∀ queue ∈ shelf, into queue.key = out queue.key ++ queue.items.map view) :
    ∀ queue ∈ after, given queue.key (into queue.key) [event] =
      taken queue.key (out queue.key) [event] ++ queue.items.map view :=
  transition.relates rfl (fun _ _ shown same => congrArg (· ++ [shown]) same) distinct balanced

/-- A step in which what is given to a queue may get lost. -/
inductive Lossy (view : α → β) (shelf : Shelf κ α) : Event κ β → Shelf κ α → Prop where
  | moved {event : Event κ β} {after : Shelf κ α} (transition : Transition view shelf event after) :
      Lossy view shelf event after
  | lost (key : κ) (shown : β) : Lossy view shelf (.pushed key shown) shelf

/-- What has been taken from a queue and what it holds stay a part of what it has been given, in
the same order. -/
theorem Lossy.thinned {view : α → β} {event : Event κ β} {into out : κ → List β}
    (distinct : shelf.keys.Nodup) (lossy : Lossy view shelf event after)
    (thinned : ∀ queue ∈ shelf, (out queue.key ++ queue.items.map view).Sublist (into queue.key)) :
    ∀ queue ∈ after, (taken queue.key (out queue.key) [event] ++ queue.items.map view).Sublist
      (given queue.key (into queue.key) [event]) := by
  cases lossy with
  | moved transition =>
      exact @Transition.relates _ _ _ _ _ _ _ _ _ _ (fun left right => right.Sublist left) (.refl _)
        (fun _ _ shown less => less.append (.refl [shown])) distinct transition thinned
  | lost key shown =>
      intro queue member
      by_cases same : key = queue.key
      · simpa [given, taken, same] using (thinned queue member).trans (List.sublist_append_left _ [shown])
      · simpa [given, taken, same] using thinned queue member

theorem given_cons (key : κ) (loaded : List β) (event : Event κ β) (rest : List (Event κ β)) :
    given key loaded (event :: rest) = given key (given key loaded [event]) rest := by
  cases event <;> rfl

theorem taken_cons (key : κ) (before : List β) (event : Event κ β) (rest : List (Event κ β)) :
    taken key before (event :: rest) = taken key (taken key before [event]) rest := by
  cases event <;> rfl

theorem given_append (key : κ) (loaded : List β) (events rest : List (Event κ β)) :
    given key loaded (events ++ rest) = given key (given key loaded events) rest := by
  induction events generalizing loaded with
  | nil => rfl
  | cons event events ih => rw [List.cons_append, given_cons, ih, ← given_cons]

theorem taken_append (key : κ) (before : List β) (events rest : List (Event κ β)) :
    taken key before (events ++ rest) = taken key (taken key before events) rest := by
  induction events generalizing before with
  | nil => rfl
  | cons event events ih => rw [List.cons_append, taken_cons, ih, ← taken_cons]

theorem Run.balance {view : α → β} {events : List (Event κ β)} (into out : κ → List β)
    (distinct : shelf.keys.Nodup) (run : Run view shelf events after)
    (balanced : ∀ queue ∈ shelf, into queue.key = out queue.key ++ queue.items.map view) :
    ∀ queue ∈ after, given queue.key (into queue.key) events =
      taken queue.key (out queue.key) events ++ queue.items.map view := by
  induction run generalizing into out with
  | done => exact balanced
  | step transition rest ih =>
      rename_i event events
      intro queue member
      rw [given_cons, taken_cons]
      exact ih (fun key => given key (into key) [event])
        (fun key => taken key (out key) [event]) (transition.nodup distinct)
        (transition.balance distinct balanced) queue member

theorem Run.append {view : α → β} {events : List (Event κ β)} {event : Event κ β}
    {last : Shelf κ α} (run : Run view shelf events after)
    (transition : Transition view after event last) : Run view shelf (events ++ [event]) last := by
  induction run with
  | done => exact .step transition .done
  | step first rest ih => exact .step first (ih transition)

/-- Conservation over a whole run: what a queue held at the start, followed by what
it was given, is what was taken from it followed by what it still holds. -/
theorem Run.conservation {view : α → β} {events : List (Event κ β)} (distinct : shelf.keys.Nodup)
    (run : Run view shelf events after) (member : queue ∈ after) :
    given queue.key (contents view queue.key shelf) events =
      taken queue.key [] events ++ queue.items.map view := by
  refine run.balance (fun key => contents view key shelf) (fun _ => []) distinct ?_ queue member
  intro other inside
  exact contents_of_mem distinct inside

end Shelf

end Bmb.Base
