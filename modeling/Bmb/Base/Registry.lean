import Mathlib.Data.List.Induction
import Mathlib.Data.List.Nodup

namespace Bmb.Base

/-! Registries: objects under keys, each key given out to one object at a time. -/

/-- Objects with their keys, in the order of their addition. -/
abbrev Registry (ω κ : Type) := List (ω × κ)

namespace Registry

variable {ω κ : Type}

def objects (registry : Registry ω κ) : List ω := registry.map Prod.fst

def keys (registry : Registry ω κ) : List κ := registry.map Prod.snd

/-- What a request to a registry has come to. -/
inductive Event (κ : Type) where
  | added (key : κ)
  | removed (key : κ)
  | refused
deriving DecidableEq

/-- A key has been added and not been removed since. -/
def Stands (key : κ) (history : List (Event κ)) : Prop :=
  ∃ before later, history = before ++ .added key :: later ∧ .removed key ∉ later

variable {registry after : Registry ω κ} {event : Event κ} {history : List (Event κ)} {key : κ}

theorem stands_concat : Stands key (history ++ [event]) ↔
    event = .added key ∨ event ≠ .removed key ∧ Stands key history := by
  constructor
  · rintro ⟨before, later, whole, kept⟩
    rcases List.eq_nil_or_concat later with rfl | ⟨front, last, rfl⟩
    · rw [List.append_inj_right' whole rfl |> List.singleton_inj.mp]
      exact .inl rfl
    · rw [List.concat_eq_append, ← List.cons_append, ← List.append_assoc] at whole
      obtain ⟨split, same⟩ := List.append_inj' whole rfl
      rw [List.singleton_inj.mp same]
      rw [List.concat_eq_append, List.mem_append, not_or, List.mem_singleton] at kept
      exact .inr ⟨Ne.symm kept.2, before, front, split, kept.1⟩
  · rintro (rfl | ⟨other, before, later, rfl, kept⟩)
    · exact ⟨history, [], rfl, List.not_mem_nil⟩
    · refine ⟨before, later ++ [event], by rw [List.append_assoc, List.cons_append], ?_⟩
      rw [List.mem_append, List.mem_singleton]
      rintro (inside | same)
      · exact kept inside
      · exact other same.symm

variable [DecidableEq κ]

/-- The keys after an event. -/
def Event.apply (keys : List κ) : Event κ → List κ
  | .added key => keys ++ [key]
  | .removed key => keys.filter (· ≠ key)
  | .refused => keys

/-- The keys added and not removed since, in the order of their addition. -/
def standing (history : List (Event κ)) : List κ := history.foldl Event.apply []

inductive Transition : Registry ω κ → Event κ → Registry ω κ → Prop where
  | added {registry : Registry ω κ} {object : ω} {key : κ} (freshObject : object ∉ registry.objects)
      (freshKey : key ∉ registry.keys) :
      Transition registry (.added key) (registry ++ [(object, key)])
  | removed {registry : Registry ω κ} {key : κ} (known : key ∈ registry.keys) :
      Transition registry (.removed key) (registry.filter fun entry => entry.2 ≠ key)
  | refused {registry : Registry ω κ} : Transition registry .refused registry

theorem Transition.keys_eq (transition : Transition registry event after) :
    after.keys = event.apply registry.keys := by
  cases transition with
  | added => exact List.map_append
  | removed => simp [keys, Event.apply, List.filter_map, Function.comp_def]
  | refused => rfl

theorem standing_concat : standing (history ++ [event]) = event.apply (standing history) := by
  rw [standing, List.foldl_append]
  rfl

theorem standing_added (keys : List κ) : standing (keys.map Event.added) = keys := by
  induction keys using List.reverseRecOn with
  | nil => rfl
  | append_singleton front last ih =>
      rw [List.map_append, List.map_singleton, standing_concat, ih]
      rfl

theorem mem_standing : key ∈ standing history ↔ Stands key history := by
  induction history using List.reverseRecOn with
  | nil =>
      refine iff_of_false List.not_mem_nil ?_
      rintro ⟨before, later, whole, _⟩
      simp at whole
  | append_singleton front event ih =>
      rw [standing_concat, stands_concat, ← ih]
      cases event with
      | added other =>
          have named : Event.added other = .added key ↔ key = other := by simp [eq_comm]
          simp [Event.apply, named, or_comm]
      | removed other =>
          have named : Event.removed other = .removed key ↔ key = other := by simp [eq_comm]
          simp [Event.apply, named, and_comm]
      | refused => simp [Event.apply]

end Registry

end Bmb.Base
