import Mathlib.Data.List.AList
import Bmb.Base.Decimal

namespace Bmb.Posix

open Bmb.Base

/-! Directory trees without symbolic links, and the resolution of path texts in
them. -/

abbrev Name := Bytes

/-- An absolute path, innermost component first; the root directory is `[]`. -/
abbrev Path := List Name

def slash : UInt8 := 47

def dot : Name := text "."

def dotdot : Name := text ".."

def splitSlash : Bytes → List Bytes
  | [] => [[]]
  | byte :: rest =>
      if byte = slash then [] :: splitSlash rest
      else
        match splitSlash rest with
        | [] => [[byte]]
        | word :: words => (byte :: word) :: words

/-- The components of a path text; repeated and trailing slashes are ignored. -/
def components (pathText : Bytes) : List Name := (splitSlash pathText).filter (· ≠ [])

/-- Names that a directory entry can have. -/
structure IsComponent (name : Name) : Prop where
  nonempty : name ≠ []
  no_slash : slash ∉ name
  not_dot : name ≠ dot
  not_dotdot : name ≠ dotdot

instance (name : Name) : Decidable (IsComponent name) :=
  decidable_of_iff (name ≠ [] ∧ slash ∉ name ∧ name ≠ dot ∧ name ≠ dotdot)
    ⟨fun ⟨a, b, c, d⟩ => ⟨a, b, c, d⟩, fun ⟨a, b, c, d⟩ => ⟨a, b, c, d⟩⟩

theorem splitSlash_ne_nil (bytes : Bytes) : splitSlash bytes ≠ [] := by
  cases bytes with
  | nil => simp [splitSlash]
  | cons byte rest =>
      simp only [splitSlash]
      split
      · simp
      · split <;> simp

theorem splitSlash_append (left right : Bytes) :
    splitSlash (left ++ slash :: right) = splitSlash left ++ splitSlash right := by
  induction left with
  | nil => simp [splitSlash]
  | cons byte rest ih =>
      simp only [List.cons_append, splitSlash, ih]
      split
      · rfl
      · cases words : splitSlash rest with
        | nil => exact absurd words (splitSlash_ne_nil rest)
        | cons word words => rfl

theorem components_append (left right : Bytes) :
    components (left ++ slash :: right) = components left ++ components right := by
  simp [components, splitSlash_append]

theorem splitSlash_of_no_slash {name : Bytes} (clean : slash ∉ name) : splitSlash name = [name] := by
  induction name with
  | nil => rfl
  | cons byte rest ih =>
      simp only [List.mem_cons, not_or] at clean
      simp [splitSlash, Ne.symm clean.1, ih clean.2]

theorem IsComponent.components_eq {name : Name} (single : IsComponent name) :
    components name = [name] := by
  simp [components, splitSlash_of_no_slash single.no_slash, single.nonempty]

theorem isComponent_formatInt (value : Int) : IsComponent (formatInt value) where
  nonempty := formatInt_ne_nil value
  no_slash member := by
    rcases formatInt_bytes member with same | digit
    · exact absurd same (by decide)
    · exact absurd digit (by decide)
  not_dot same := by
    have member : (46 : UInt8) ∈ formatInt value := by rw [same]; decide
    rcases formatInt_bytes member with dash | digit
    · exact absurd dash (by decide)
    · exact absurd digit (by decide)
  not_dotdot same := by
    have member : (46 : UInt8) ∈ formatInt value := by rw [same]; decide
    rcases formatInt_bytes member with dash | digit
    · exact absurd dash (by decide)
    · exact absurd digit (by decide)

inductive Entry where
  | directory
  | file (content : Bytes)
deriving DecidableEq

structure FileTree where
  entries : AList (fun _ : Path => Entry)

namespace FileTree

variable {tree : FileTree} {path other : Path} {entry : Entry} {name : Name}

def get (tree : FileTree) (path : Path) : Option Entry := tree.entries.lookup path

def set (tree : FileTree) (path : Path) (entry : Entry) : FileTree :=
  ⟨tree.entries.insert path entry⟩

def erase (tree : FileTree) (path : Path) : FileTree := ⟨tree.entries.erase path⟩

def childOf (directory : Path) : Path → Option Name
  | [] => none
  | name :: parent => if parent = directory then some name else none

/-- The names in a directory. -/
def names (tree : FileTree) (directory : Path) : List Name :=
  tree.entries.keys.filterMap (childOf directory)

@[simp] theorem get_set_self : (tree.set path entry).get path = some entry :=
  AList.lookup_insert _

theorem get_set_of_ne (different : other ≠ path) : (tree.set path entry).get other = tree.get other :=
  AList.lookup_insert_ne different

@[simp] theorem get_erase_self : (tree.erase path).get path = none := AList.lookup_erase _ _

theorem get_erase_of_ne (different : other ≠ path) : (tree.erase path).get other = tree.get other :=
  AList.lookup_erase_ne different

theorem childOf_eq_some {directory candidate : Path} :
    childOf directory candidate = some name ↔ candidate = name :: directory := by
  cases candidate with
  | nil => simp [childOf]
  | cons head parent =>
      simp only [childOf, Option.ite_none_right_eq_some, Option.some.injEq, List.cons.injEq]
      exact And.comm

theorem mem_names {directory : Path} :
    name ∈ tree.names directory ↔ tree.get (name :: directory) ≠ none := by
  have present : name :: directory ∈ tree.entries.keys ↔ tree.get (name :: directory) ≠ none := by
    rw [← AList.mem_keys, get, ne_eq, AList.lookup_eq_none, not_not]
  rw [← present]
  simp [names, List.mem_filterMap, childOf_eq_some]

theorem get_eq_none (absent : path ∉ tree.entries.keys) : tree.get path = none :=
  AList.lookup_eq_none.mpr (fun member => absent (AList.mem_keys.mp member))

theorem names_nodup (tree : FileTree) (directory : Path) : (tree.names directory).Nodup := by
  apply List.Nodup.filterMap ?_ tree.entries.keys_nodup
  intro left right name leftName rightName
  rw [Option.mem_def, childOf_eq_some] at leftName rightName
  rw [leftName, rightName]

end FileTree

inductive Errno where
  | success
  | enoent
  | enotdir
  | eexist
  | eisdir
  | enotempty
  | einval
  | eio
deriving DecidableEq, Repr

/-- Where one component leads from a directory. -/
def stepInto (current : Path) (component : Name) : Path :=
  if component = dot then current
  else if component = dotdot then current.tail
  else component :: current

/-- Where a list of components leads if every directory on the way exists. -/
def lexical (start : Path) (names : List Name) : Path := names.foldl stepInto start

@[simp] theorem lexical_nil (start : Path) : lexical start [] = start := rfl

@[simp] theorem lexical_cons (start : Path) (name : Name) (names : List Name) :
    lexical start (name :: names) = lexical (stepInto start name) names := rfl

theorem lexical_append (start : Path) (left right : List Name) :
    lexical start (left ++ right) = lexical (lexical start left) right := by
  simp [lexical]

theorem IsComponent.stepInto_eq (single : IsComponent name) (current : Path) :
    stepInto current name = name :: current := by
  simp [stepInto, single.not_dot, single.not_dotdot]

/-- Path resolution: every component but the last result must be a directory. -/
def walk (tree : FileTree) : Path → List Name → Except Errno Path
  | current, [] => .ok current
  | current, name :: rest =>
      match tree.get current with
      | some .directory => walk tree (stepInto current name) rest
      | some (.file _) => .error .enotdir
      | none => .error .enoent

/-- A walk succeeds when every directory it passes exists, and then ends where
the components lead lexically. -/
theorem walk_eq_ok {tree : FileTree} {start target : Path} {names : List Name} :
    walk tree start names = .ok target ↔
      target = lexical start names ∧
        ∀ passed < names.length,
          tree.get (lexical start (names.take passed)) = some .directory := by
  induction names generalizing start with
  | nil => simp [walk, eq_comm]
  | cons name rest ih =>
      have split : (∀ passed < (name :: rest).length,
          tree.get (lexical start ((name :: rest).take passed)) = some .directory) ↔
          tree.get start = some .directory ∧ ∀ passed < rest.length,
            tree.get (lexical (stepInto start name) (rest.take passed)) = some .directory := by
        constructor
        · intro all
          refine ⟨all 0 (by simp), fun passed below => ?_⟩
          simpa using all (passed + 1) (by simpa using below)
        · rintro ⟨first, later⟩ passed below
          cases passed with
          | zero => simpa using first
          | succ passed => simpa using later passed (by simpa using below)
      rw [split]
      cases found : tree.get start with
      | none => simp [walk, found]
      | some entry =>
          cases entry with
          | file content => simp [walk, found]
          | directory => simp [walk, found, ih]

theorem walk_append {tree : FileTree} {start target : Path} {left right : List Name} :
    walk tree start (left ++ right) = .ok target ↔
      ∃ middle, walk tree start left = .ok middle ∧ walk tree middle right = .ok target := by
  induction left generalizing start with
  | nil => simp [walk]
  | cons name rest ih =>
      simp only [List.cons_append, walk]
      cases tree.get start with
      | none => simp
      | some entry => cases entry <;> simp [ih]

end Bmb.Posix
