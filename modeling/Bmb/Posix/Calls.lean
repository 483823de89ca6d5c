import Bmb.Posix.System

namespace Bmb.Posix

open Bmb.Base

/-! When a call succeeds, and what it leaves behind in either case. -/

/-- Time has passed, and some changes have been made to the files. -/
structure System.Passed (ticks : Nat) (effects : List Effect) (before after : System) : Prop where
  tree : after.tree = replay effects before.tree
  effects : after.effects = before.effects ++ effects
  clock : after.clock = before.clock + ticks

namespace System

variable {first second third : System} {effects others : List Effect} {more ticks : Nat}

theorem Passed.refl (system : System) : Passed 0 [] system system :=
  ⟨rfl, (List.append_nil _).symm, rfl⟩

theorem Passed.trans (left : Passed ticks effects first second)
    (right : Passed more others second third) :
    Passed (ticks + more) (effects ++ others) first third where
  tree := by rw [right.tree, left.tree, replay_append]
  effects := by rw [right.effects, left.effects, List.append_assoc]
  clock := by rw [right.clock, left.clock, Nat.add_assoc]

@[simp] theorem failed_errno (system : System) (errno : Errno) :
    (system.failed errno).errno = errno := rfl

theorem failed_passed (system : System) (errno : Errno) :
    Passed 1 [] system (system.failed errno) :=
  ⟨rfl, (List.append_nil _).symm, rfl⟩

theorem opened_passed (system : System) : Passed 1 [] system system.opened :=
  ⟨rfl, (List.append_nil _).symm, rfl⟩

theorem closed_passed (system : System) : Passed 0 [] system system.closed :=
  ⟨rfl, (List.append_nil _).symm, rfl⟩

theorem performed_passed (system : System) (effect : Effect) :
    Passed 1 [effect] system (system.performed effect) :=
  ⟨rfl, rfl, rfl⟩

end System

/-- Where a path text leads from the working directory. -/
def Environment.target (env : Environment) (pathText : Bytes) : Path :=
  lexical (if pathText.head? = some slash then [] else env.cwd) (components pathText)

theorem resolve_target {env : Environment} {pathText : Bytes} {tree : FileTree} {path : Path}
    (resolved : resolve env pathText tree = .ok path) : path = env.target pathText :=
  (walk_eq_ok.mp resolved).1

section Calls

variable {env : Environment} {pathText : Bytes} {tree : FileTree} {time : Nat} {path : Path}

/-- Nothing outside the tree keeps a call from getting to the end of its path. -/
structure Reaches (env : Environment) (call : Call) (pathText : Bytes) (tree : FileTree)
    (time : Nat) (path : Path) : Prop where
  healthy : env.fails call time = false
  resolved : resolve env pathText tree = .ok path

def CanOpen (env : Environment) (pathText : Bytes) (tree : FileTree) (time : Nat) (path : Path) :
    Prop :=
  Reaches env .opendir pathText tree time path ∧ tree.get path = some .directory

def CanMake (env : Environment) (pathText : Bytes) (tree : FileTree) (time : Nat) (path : Path) :
    Prop :=
  Reaches env .mkdir pathText tree time path ∧ tree.get path = none

def CanRemove (env : Environment) (pathText : Bytes) (tree : FileTree) (time : Nat) (path : Path) :
    Prop :=
  Reaches env .rmdir pathText tree time path ∧ (components pathText).getLast? ≠ some dot ∧
    tree.get path = some .directory ∧ tree.names path = []

def CanUnlink (env : Environment) (pathText : Bytes) (tree : FileTree) (time : Nat) (path : Path) :
    Prop :=
  Reaches env .unlink pathText tree time path ∧ ∃ content, tree.get path = some (.file content)

def CanCreate (env : Environment) (pathText : Bytes) (tree : FileTree) (time : Nat) (path : Path) :
    Prop :=
  Reaches env .create pathText tree time path ∧ tree.get path ≠ some .directory

/-- What a file or directory opened for reading has to offer. -/
def CanRead (env : Environment) (pathText : Bytes) (tree : FileTree) (time : Nat)
    (content : Bytes) : Prop :=
  ∃ path, Reaches env .readFile pathText tree time path ∧
    (tree.get path = some (.file content) ∨ tree.get path = some .directory ∧ content = [])

/-- The entries of a directory, in the order in which they are listed at a time. -/
def entriesAt (env : Environment) (tree : FileTree) (time : Nat) (path : Path) : List Name :=
  env.order time (dot :: dotdot :: tree.names path)

theorem Reaches.unique {call : Call} {other : Path} (left : Reaches env call pathText tree time path)
    (right : Reaches env call pathText tree time other) : path = other := by
  simpa [left.resolved] using right.resolved

theorem Reaches.path_eq {call : Call} (reaches : Reaches env call pathText tree time path) :
    path = env.target pathText :=
  resolve_target reaches.resolved

theorem CanOpen.at_target (can : CanOpen env pathText tree time path) :
    CanOpen env pathText tree time (env.target pathText) := by
  rwa [← can.1.path_eq]

/-- A call either gets to the end of its path or fails there. -/
theorem viaPath_cases {α : Type} (env : Environment) (call : Call) (pathText : Bytes)
    (system : System) (failure : α) (act : Path → α × System) :
    (∃ path, Reaches env call pathText system.tree system.clock path ∧
      viaPath env pathText system call failure act = act path) ∨
    ((∀ path, ¬Reaches env call pathText system.tree system.clock path) ∧
      ∃ errno, viaPath env pathText system call failure act = (failure, system.failed errno)) := by
  cases faulty : env.fails call system.clock with
  | true =>
      refine .inr ⟨fun path reaches => ?_, .eio, by simp only [viaPath, faulty, if_true]⟩
      simp [reaches.healthy] at faulty
  | false =>
      cases resolved : resolve env pathText system.tree with
      | ok path =>
          exact .inl ⟨path, ⟨faulty, resolved⟩, by
            simp only [viaPath, faulty, resolved, Bool.false_eq_true, if_false]⟩
      | error errno =>
          refine .inr ⟨fun path reaches => ?_, errno, by
            simp only [viaPath, faulty, resolved, Bool.false_eq_true, if_false]⟩
          simp [reaches.resolved] at resolved

theorem opendir_cases (env : Environment) (pathText : Bytes) (system : System) :
    (∃ path, CanOpen env pathText system.tree system.clock path ∧ opendir env pathText system =
      (some (entriesAt env system.tree system.clock path), system.opened)) ∨
    ((∀ path, ¬CanOpen env pathText system.tree system.clock path) ∧
      ∃ errno, opendir env pathText system = (none, system.failed errno)) := by
  unfold opendir
  rcases viaPath_cases env .opendir pathText system _ _ with ⟨path, reaches, ran⟩ | ⟨none, failed⟩
  · rw [ran]
    have only : ∀ other, CanOpen env pathText system.tree system.clock other →
        system.tree.get path = some .directory :=
      fun other can => (can.1.unique reaches) ▸ can.2
    cases found : system.tree.get path with
    | none => exact .inr ⟨fun other can => by simp [only other can] at found, _, rfl⟩
    | some entry =>
        cases entry with
        | directory => exact .inl ⟨path, ⟨reaches, found⟩, rfl⟩
        | file content => exact .inr ⟨fun other can => by simp [only other can] at found, _, rfl⟩
  · exact .inr ⟨fun path can => none path can.1, failed⟩

theorem mkdir_cases (env : Environment) (pathText : Bytes) (system : System) :
    (∃ path, CanMake env pathText system.tree system.clock path ∧
      mkdir env pathText system = (true, system.performed (.mkdir path))) ∨
    ((∀ path, ¬CanMake env pathText system.tree system.clock path) ∧
      ∃ errno, mkdir env pathText system = (false, system.failed errno)) := by
  unfold mkdir
  rcases viaPath_cases env .mkdir pathText system _ _ with ⟨path, reaches, ran⟩ | ⟨none, failed⟩
  · rw [ran]
    cases found : system.tree.get path with
    | none => exact .inl ⟨path, ⟨reaches, found⟩, rfl⟩
    | some entry =>
        refine .inr ⟨fun other can => ?_, _, rfl⟩
        rw [← can.1.unique reaches, can.2] at found
        contradiction
  · exact .inr ⟨fun path can => none path can.1, failed⟩

theorem rmdir_cases (env : Environment) (pathText : Bytes) (system : System) :
    (∃ path, CanRemove env pathText system.tree system.clock path ∧
      rmdir env pathText system = (true, system.performed (.rmdir path))) ∨
    ((∀ path, ¬CanRemove env pathText system.tree system.clock path) ∧
      ∃ errno, rmdir env pathText system = (false, system.failed errno)) := by
  unfold rmdir
  rcases viaPath_cases env .rmdir pathText system _ _ with ⟨path, reaches, ran⟩ | ⟨none, failed⟩
  · rw [ran]
    have only : ∀ other, CanRemove env pathText system.tree system.clock other →
        system.tree.get path = some .directory ∧ system.tree.names path = [] :=
      fun other can => (can.1.unique reaches) ▸ can.2.2
    by_cases ends : (components pathText).getLast? = some dot
    · exact .inr ⟨fun other can => can.2.1 ends, _, by rw [if_pos ends]⟩
    · rw [if_neg ends]
      cases found : system.tree.get path with
      | none => exact .inr ⟨fun other can => by simp [(only other can).1] at found, _, rfl⟩
      | some entry =>
          cases entry with
          | file content =>
              exact .inr ⟨fun other can => by simp [(only other can).1] at found, _, rfl⟩
          | directory =>
              by_cases empty : system.tree.names path = []
              · exact .inl ⟨path, ⟨reaches, ends, found, empty⟩, by simp only [empty, if_true]⟩
              · exact .inr ⟨fun other can => empty (only other can).2, .enotempty, by
                  simp only [empty, if_false]⟩
  · exact .inr ⟨fun path can => none path can.1, failed⟩

theorem unlink_cases (env : Environment) (pathText : Bytes) (system : System) :
    (∃ path, CanUnlink env pathText system.tree system.clock path ∧
      unlink env pathText system = (true, system.performed (.unlink path))) ∨
    ((∀ path, ¬CanUnlink env pathText system.tree system.clock path) ∧
      ∃ errno, unlink env pathText system = (false, system.failed errno)) := by
  unfold unlink
  rcases viaPath_cases env .unlink pathText system _ _ with ⟨path, reaches, ran⟩ | ⟨none, failed⟩
  · rw [ran]
    have only : ∀ other, CanUnlink env pathText system.tree system.clock other →
        ∃ content, system.tree.get path = some (.file content) :=
      fun other can => (can.1.unique reaches) ▸ can.2
    cases found : system.tree.get path with
    | none =>
        refine .inr ⟨fun other can => ?_, _, rfl⟩
        obtain ⟨content, isFile⟩ := only other can
        simp [found] at isFile
    | some entry =>
        cases entry with
        | file content => exact .inl ⟨path, ⟨reaches, content, found⟩, rfl⟩
        | directory =>
            refine .inr ⟨fun other can => ?_, _, rfl⟩
            obtain ⟨content, isFile⟩ := only other can
            simp [found] at isFile
  · exact .inr ⟨fun path can => none path can.1, failed⟩

theorem fopenWrite_cases (env : Environment) (pathText : Bytes) (system : System) :
    (∃ path created, CanCreate env pathText system.tree system.clock path ∧
      fopenWrite env pathText system = (some path, created) ∧
      system.Passed 1 [.create path] created) ∨
    ((∀ path, ¬CanCreate env pathText system.tree system.clock path) ∧
      ∃ errno, fopenWrite env pathText system = (none, system.failed errno)) := by
  unfold fopenWrite
  rcases viaPath_cases env .create pathText system _ _ with ⟨path, reaches, ran⟩ | ⟨none, failed⟩
  · rw [ran]
    cases found : system.tree.get path with
    | none => exact .inl ⟨path, _, ⟨reaches, by simp [found]⟩, rfl, ⟨rfl, rfl, rfl⟩⟩
    | some entry =>
        cases entry with
        | file content => exact .inl ⟨path, _, ⟨reaches, by simp [found]⟩, rfl, ⟨rfl, rfl, rfl⟩⟩
        | directory =>
            refine .inr ⟨fun other can => ?_, _, rfl⟩
            rw [← can.1.unique reaches] at found
            exact can.2 found
  · exact .inr ⟨fun path can => none path can.1, failed⟩

theorem fopenRead_cases (env : Environment) (pathText : Bytes) (system : System) :
    (∃ content, CanRead env pathText system.tree system.clock content ∧
      fopenRead env pathText system = (some content, system.opened)) ∨
    ((∀ content, ¬CanRead env pathText system.tree system.clock content) ∧
      ∃ errno, fopenRead env pathText system = (none, system.failed errno)) := by
  unfold fopenRead
  rcases viaPath_cases env .readFile pathText system _ _ with ⟨path, reaches, ran⟩ | ⟨none, failed⟩
  · rw [ran]
    cases found : system.tree.get path with
    | none =>
        refine .inr ⟨fun content can => ?_, _, rfl⟩
        obtain ⟨other, otherReaches, here⟩ := can
        rw [← reaches.unique otherReaches, found] at here
        simp at here
    | some entry =>
        cases entry with
        | file content => exact .inl ⟨content, ⟨path, reaches, .inl found⟩, rfl⟩
        | directory => exact .inl ⟨[], ⟨path, reaches, .inr ⟨found, rfl⟩⟩, rfl⟩
  · refine .inr ⟨fun content can => ?_, failed⟩
    obtain ⟨path, reaches, _⟩ := can
    exact none path reaches

theorem opendir_missing {system : System}
    (reaches : Reaches env .opendir pathText system.tree system.clock path)
    (missing : system.tree.get path = none) :
    opendir env pathText system = (none, system.failed .enoent) := by
  simp only [opendir, viaPath, reaches.healthy, reaches.resolved, Bool.false_eq_true, if_false,
    missing]

end Calls

end Bmb.Posix
