import Bmb.Posix.FileTree

namespace Bmb.Posix

open Bmb.Base

/-! File-system calls of a single process.

Whether a call is made to fail for reasons outside the tree, and in which order
a directory is listed, is decided by the environment.  Changes of the tree are
recorded one by one, so that the trees between two changes can be recovered.
-/

inductive Call where
  | opendir
  | mkdir
  | rmdir
  | unlink
  | create
  | write
  | readFile
deriving DecidableEq, Repr

/-- A change of the file tree. -/
inductive Effect where
  | mkdir (path : Path)
  | create (path : Path)
  | write (path : Path) (content : Bytes)
  | unlink (path : Path)
  | rmdir (path : Path)
deriving DecidableEq

namespace Effect

def path : Effect → Path
  | mkdir path | create path | write path _ | unlink path | rmdir path => path

def apply : Effect → FileTree → FileTree
  | mkdir path, tree => tree.set path .directory
  | create path, tree => tree.set path (.file [])
  | write path content, tree => tree.set path (.file content)
  | unlink path, tree => tree.erase path
  | rmdir path, tree => tree.erase path

theorem get_apply_of_ne {effect : Effect} {tree : FileTree} {other : Path}
    (different : other ≠ effect.path) : (effect.apply tree).get other = tree.get other := by
  cases effect with
  | mkdir | create | write => exact FileTree.get_set_of_ne different
  | unlink | rmdir => exact FileTree.get_erase_of_ne different

end Effect

/-- The tree after a list of changes. -/
def replay (effects : List Effect) (tree : FileTree) : FileTree :=
  effects.foldl (fun current effect => effect.apply current) tree

@[simp] theorem replay_nil (tree : FileTree) : replay [] tree = tree := rfl

@[simp] theorem replay_cons (effect : Effect) (effects : List Effect) (tree : FileTree) :
    replay (effect :: effects) tree = replay effects (effect.apply tree) := rfl

theorem replay_append (left right : List Effect) (tree : FileTree) :
    replay (left ++ right) tree = replay right (replay left tree) := by
  simp [replay]

theorem get_replay_of_ne {effects : List Effect} {tree : FileTree} {other : Path}
    (different : ∀ effect ∈ effects, other ≠ effect.path) :
    (replay effects tree).get other = tree.get other := by
  induction effects generalizing tree with
  | nil => rfl
  | cons effect rest ih =>
      rw [replay_cons, ih (fun later member => different later (by simp [member])),
        Effect.get_apply_of_ne (different effect (by simp))]

structure Environment where
  cwd : Path
  fails : Call → Nat → Bool
  order : Nat → List Name → List Name
  order_perm : ∀ time names, (order time names).Perm names

/-- No call fails for a reason outside the tree. -/
def Environment.Reliable (env : Environment) : Prop := ∀ call time, env.fails call time = false

structure System where
  tree : FileTree
  effects : List Effect := []
  streams : Nat := 0
  clock : Nat := 0
  errno : Errno := .success

namespace System

def tick (system : System) : System := { system with clock := system.clock + 1 }

def failed (system : System) (errno : Errno) : System := { system.tick with errno := errno }

def opened (system : System) : System := { system.tick with streams := system.streams + 1 }

def closed (system : System) : System := { system with streams := system.streams - 1 }

def performed (system : System) (effect : Effect) : System :=
  { system.tick with
    tree := effect.apply system.tree
    effects := system.effects ++ [effect] }

end System

variable (env : Environment) (pathText : Bytes) (system : System)

def resolve (tree : FileTree) : Except Errno Path :=
  walk tree (if pathText.head? = some slash then [] else env.cwd) (components pathText)

/-- A call on a path fails outright, or because the path leads nowhere, or does what
it does at the end of the path. -/
def viaPath {α : Type} (call : Call) (failure : α) (act : Path → α × System) : α × System :=
  if env.fails call system.clock then (failure, system.failed .eio)
  else
    match resolve env pathText system.tree with
    | .error errno => (failure, system.failed errno)
    | .ok path => act path

/-- `opendir`, and the entries the stream will deliver to `readdir`. -/
def opendir : Option (List Name) × System :=
  viaPath env pathText system .opendir none fun path =>
    match system.tree.get path with
    | some .directory =>
        (some (env.order system.clock (dot :: dotdot :: system.tree.names path)), system.opened)
    | some (.file _) => (none, system.failed .enotdir)
    | none => (none, system.failed .enoent)

def mkdir : Bool × System :=
  viaPath env pathText system .mkdir false fun path =>
    match system.tree.get path with
    | some _ => (false, system.failed .eexist)
    | none => (true, system.performed (.mkdir path))

/-- `rmdir` refuses a path that ends in `.` and a directory with entries. -/
def rmdir : Bool × System :=
  viaPath env pathText system .rmdir false fun path =>
    if (components pathText).getLast? = some dot then (false, system.failed .einval)
    else
      match system.tree.get path with
      | some .directory =>
          if system.tree.names path = [] then (true, system.performed (.rmdir path))
          else (false, system.failed .enotempty)
      | some (.file _) => (false, system.failed .enotdir)
      | none => (false, system.failed .enoent)

def unlink : Bool × System :=
  viaPath env pathText system .unlink false fun path =>
    match system.tree.get path with
    | some (.file _) => (true, system.performed (.unlink path))
    | some .directory => (false, system.failed .eisdir)
    | none => (false, system.failed .enoent)

/-- `fopen` for writing: the file is created, or emptied if it exists. -/
def fopenWrite : Option Path × System :=
  viaPath env pathText system .create none fun path =>
    match system.tree.get path with
    | some .directory => (none, system.failed .eisdir)
    | some (.file _) | none =>
        let created := system.performed (.create path)
        (some path, { created with streams := created.streams + 1 })

/-- The content written to a fresh stream reaches the file, unless the write fails. -/
def writeContent (path : Path) (content : Bytes) : System :=
  if env.fails .write system.clock then system.failed .eio
  else system.performed (.write path content)

/-- `fopen` for reading, and the bytes the stream will deliver.  A directory can
be opened, but no byte can be read from it. -/
def fopenRead : Option Bytes × System :=
  viaPath env pathText system .readFile none fun path =>
    match system.tree.get path with
    | some (.file content) => (some content, system.opened)
    | some .directory => (some [], system.opened)
    | none => (none, system.failed .enoent)

end Bmb.Posix
