import Mathlib.Data.List.Sort
import Mathlib.Data.Nat.Log
import Bmb.Base.Program
import Bmb.Posix.System

namespace Bmb

open Bmb.Base Bmb.Posix

/-! `util.c` and `mem.c`, over the part of the process state that the persistence
code works on. -/

/-- Request types of `persist.h`; `other` is any number without a meaning there. -/
inductive PersistType where
  | addQueue
  | removeQueue
  | readQueue
  | getQueueList
  | addNode
  | removeNode
  | readNode
  | getNextId
  | other (code : Nat)
deriving DecidableEq, Repr

/-- A finished call of `persist_dispatch`. -/
structure PersistCall where
  type : PersistType
  success : Bool
deriving DecidableEq

/-- Everything outside the queues.  `calls` and `paths`, the texts written to the arrays `path`
and `filePath`, are logs kept for stating properties; no code reads them. -/
structure World where
  system : System
  memAllocated : Nat := 0
  memFreed : Nat := 0
  jsonCalls : Nat := 0
  requestCounter : Nat := 0
  calls : List PersistCall := []
  paths : List Bytes := []

namespace World

def allocate (world : World) (blocks : Nat) : World :=
  { world with memAllocated := world.memAllocated + blocks }

def release (world : World) (blocks : Nat) : World :=
  { world with memFreed := world.memFreed + blocks }

def record (world : World) (call : PersistCall) : World :=
  { world with calls := world.calls ++ [call] }

def build (world : World) (path : Bytes) : World := { world with paths := world.paths ++ [path] }

@[simp] theorem release_release (world : World) (first second : Nat) :
    (world.release first).release second = world.release (first + second) := by
  simp only [release, Nat.add_assoc]

@[simp] theorem allocate_allocate (world : World) (first second : Nat) :
    (world.allocate first).allocate second = world.allocate (first + second) := by
  simp only [allocate, Nat.add_assoc]

@[simp] theorem build_system (world : World) (path : Bytes) :
    (world.build path).system = world.system := rfl

@[simp] theorem release_zero (world : World) : world.release 0 = world := rfl

end World

/-- `mem_alloc`; memory never runs out. -/
def memAlloc : Program World Unit := .modify (·.allocate 1)

/-- `mem_free` of a pointer that is not `NULL`. -/
def memFree : Program World Unit := .modify (·.release 1)

/-- `mem_free` of a pointer that may be `NULL`. -/
def memFreeNullable {α : Type} : Option α → Program World Unit
  | none => pure ()
  | some _ => memFree

/-- A system call. -/
def system {α : Type} (call : System → α × System) : Program World α := fun world =>
  .returned (call world.system).1 { world with system := (call world.system).2 }

def closeStream : Program World Unit := system fun current => ((), current.closed)

@[simp] theorem run_memAlloc (world : World) :
    memAlloc world = .returned () (world.allocate 1) := rfl

@[simp] theorem run_memFree (world : World) :
    memFree world = .returned () (world.release 1) := rfl

@[simp] theorem run_system {α : Type} (call : System → α × System) (world : World) :
    system call world =
      .returned (call world.system).1 { world with system := (call world.system).2 } := rfl

/-- `strcmp(left, right) == 0`, where `left` may be `NULL`. -/
def strEqual {σ : Type} (left : Option Bytes) (right : Bytes) : Program σ Bool :=
  match left with
  | none => .stop .nullPointer
  | some bytes => pure (bytes == right)

def inStrArray {σ : Type} (needle : Option Bytes) : List Bytes → Program σ Bool
  | [] => pure false
  | entry :: haystack => do
      if ← strEqual needle entry then pure true else inStrArray needle haystack

@[simp] theorem run_strEqual {σ : Type} (left right : Bytes) (state : σ) :
    strEqual (some left) right state = .returned (left == right) state := rfl

@[simp] theorem run_inStrArray {σ : Type} (needle : Bytes) (haystack : List Bytes) (state : σ) :
    inStrArray (some needle) haystack state = .returned (haystack.contains needle) state := by
  induction haystack with
  | nil => rfl
  | cons entry haystack ih =>
      simp only [inStrArray, Program.run_bind, run_strEqual, Program.run_ite, ih,
        Program.run_pure, List.contains_cons]
      split
      · rename_i same
        rw [same, Bool.true_or]
      · rename_i different
        rw [Bool.eq_false_iff.mpr different, Bool.false_or]

/-- The text `int_to_string` prints into its buffer. -/
def intToString (value : Int) : Bytes := formatInt value

/-- The block that `int_to_string` allocates for its buffer.  `Nat.clog` is the logarithm
rounded up. -/
def intToStringSize (value : Int) : Nat :=
  let queueSizeStrLength := if value > 0 then Nat.clog 10 value.toNat + 1 else 2
  queueSizeStrLength + 1

def isHexadecimal (byte : UInt8) : Bool :=
  (48 ≤ byte && byte ≤ 57) || (97 ≤ byte && byte ≤ 102) || (65 ≤ byte && byte ≤ 70)

def hexValue (byte : UInt8) : Nat :=
  if byte ≤ 57 then byte.toNat - 48 else if byte ≤ 70 then byte.toNat - 55 else byte.toNat - 87

def sortCmpFunc (left right : Int) : Int := toInt32 (left - right)

/-- `qsort` with `sort_cmp_func`. -/
def sortIntArrayAsc (values : List Int) : List Int :=
  values.insertionSort fun left right => sortCmpFunc left right ≤ 0

/-- `url_decode` of a string: the bytes written to `decoded`, and whether it got
past the terminating NUL (it returns the length then, and -1 otherwise).  The
terminator is decoded like any other character. -/
def urlDecode : Bytes → Bytes × Bool
  | [] => ([0], true)
  | byte :: rest =>
      if byte = 43 then
        let decoded := urlDecode rest
        (32 :: decoded.1, decoded.2)
      else if byte = 37 then
        match rest with
        | high :: low :: rest =>
            if isHexadecimal high && isHexadecimal low then
              let decoded := urlDecode rest
              (UInt8.ofNat (16 * hexValue high + hexValue low) :: decoded.1, decoded.2)
            else ([], false)
        | _ => ([], false)
      else
        let decoded := urlDecode rest
        (byte :: decoded.1, decoded.2)

/-- The comparator orders the integers whose differences fit an `int`. -/
theorem sortCmpFunc_le {left right : Int}
    (lower : -2147483648 ≤ left - right) (upper : left - right < 2147483648) :
    sortCmpFunc left right ≤ 0 ↔ left ≤ right := by
  rw [sortCmpFunc, toInt32_of_range lower upper]
  omega

theorem sortIntArrayAsc_perm (values : List Int) : (sortIntArrayAsc values).Perm values :=
  List.perm_insertionSort _ values

theorem orderedInsert_congr {r s : Int → Int → Prop} [DecidableRel r] [DecidableRel s]
    {value : Int} {values : List Int} (same : ∀ other ∈ values, (r value other ↔ s value other)) :
    values.orderedInsert r value = values.orderedInsert s value := by
  induction values with
  | nil => rfl
  | cons first rest ih =>
      have tail := ih (fun other member => same other (by simp [member]))
      simp [List.orderedInsert, tail, same first (by simp)]

theorem insertionSort_congr {r s : Int → Int → Prop} [DecidableRel r] [DecidableRel s]
    {values : List Int} (same : ∀ left ∈ values, ∀ right ∈ values, (r left right ↔ s left right)) :
    values.insertionSort r = values.insertionSort s := by
  induction values with
  | nil => rfl
  | cons first rest ih =>
      have tail := ih (fun left leftIn right rightIn =>
        same left (by simp [leftIn]) right (by simp [rightIn]))
      simp only [List.insertionSort_cons, tail]
      apply orderedInsert_congr
      intro other member
      have inside := (List.mem_insertionSort s).mp member
      exact same first (by simp) other (by simp [inside])

/-- On non-negative ints `qsort` sorts. -/
theorem sortIntArrayAsc_eq {values : List Int}
    (range : ∀ value ∈ values, 0 ≤ value ∧ value < 2147483648) :
    sortIntArrayAsc values = values.insertionSort (· ≤ ·) := by
  apply insertionSort_congr
  intro left leftIn right rightIn
  have leftRange := range left leftIn
  have rightRange := range right rightIn
  exact sortCmpFunc_le (by omega) (by omega)

end Bmb
