import Bmb.Persist.Calls

namespace Bmb

open Bmb.Base Bmb.Posix

/-! Where the path texts of `persist_dispatch` lead. -/

/-- The directory below which queues are stored. -/
def Posix.Environment.dataDir (env : Environment) : Path := text "data" :: env.cwd

variable {env : Environment} {name : Bytes}

theorem target_dataPath (env : Environment) : env.target dataPath = env.dataDir := by
  have relative : dataPath.head? ≠ some slash := by decide
  have names : components dataPath = [dot, text "data"] := by decide
  rw [Environment.target, if_neg relative, names]
  rfl

theorem queuePath_relative (name : Bytes) : (queuePath name).head? ≠ some slash := by
  have head : (queuePath name).head? = some 46 := rfl
  rw [head]
  decide

theorem nodePath_relative (name value : Bytes) :
    (nodePath (queuePath name) value).head? ≠ some slash := by
  have head : (nodePath (queuePath name) value).head? = some 46 := rfl
  rw [head]
  decide

theorem components_queuePath (name : Bytes) :
    components (queuePath name) = dot :: text "data" :: components name := by
  rw [queuePath, components_append]
  rfl

theorem target_queuePath (env : Environment) (name : Bytes) :
    env.target (queuePath name) = lexical env.dataDir (components name) := by
  rw [Environment.target, if_neg (queuePath_relative name), components_queuePath]
  rfl

theorem target_nodePath (env : Environment) (name : Bytes) (value : Int) :
    env.target (nodePath (queuePath name) (intToString value)) =
      formatInt value :: env.target (queuePath name) := by
  rw [Environment.target, Environment.target, if_neg (nodePath_relative name _),
    if_neg (queuePath_relative name), nodePath, components_append, lexical_append, intToString,
    (isComponent_formatInt value).components_eq]
  exact (isComponent_formatInt value).stepInto_eq _

theorem target_queue (env : Environment) (single : IsComponent name) :
    env.target (queuePath name) = name :: env.dataDir := by
  rw [target_queuePath, single.components_eq]
  exact single.stepInto_eq _

/-- A queue directory is reached through the working and the data directory. -/
theorem resolve_queuePath {tree : FileTree} (single : IsComponent name)
    (cwd : tree.get env.cwd = some .directory) (data : tree.get env.dataDir = some .directory) :
    resolve env (queuePath name) tree = .ok (name :: env.dataDir) := by
  have plain : text "data" ≠ dot ∧ text "data" ≠ dotdot := by decide
  have named : stepInto (text "data" :: env.cwd) name = name :: text "data" :: env.cwd :=
    single.stepInto_eq _
  unfold Environment.dataDir at data ⊢
  rw [resolve, if_neg (queuePath_relative name), components_queuePath, single.components_eq]
  simp only [walk, cwd, stepInto, if_true, plain.1, plain.2, if_false, data]
  rw [← stepInto, named]

theorem resolve_dataPath {tree : FileTree} (cwd : tree.get env.cwd = some .directory) :
    resolve env dataPath tree = .ok env.dataDir := by
  have relative : dataPath.head? ≠ some slash := by decide
  have names : components dataPath = [dot, text "data"] := by decide
  have plain : text "data" ≠ dot ∧ text "data" ≠ dotdot := by decide
  rw [resolve, if_neg relative, names]
  simp only [walk, cwd, stepInto, if_true, plain.1, plain.2, if_false]
  rfl

theorem resolve_nodePath {tree : FileTree} (single : IsComponent name) (value : Int)
    (cwd : tree.get env.cwd = some .directory) (data : tree.get env.dataDir = some .directory)
    (queue : tree.get (name :: env.dataDir) = some .directory) :
    resolve env (nodePath (queuePath name) (intToString value)) tree =
      .ok (formatInt value :: name :: env.dataDir) := by
  have outer := resolve_queuePath single cwd data
  rw [resolve, if_neg (queuePath_relative name)] at outer
  rw [resolve, if_neg (nodePath_relative name _), nodePath, components_append, walk_append]
  refine ⟨_, outer, ?_⟩
  rw [intToString, (isComponent_formatInt value).components_eq]
  simp only [walk, queue]
  rw [(isComponent_formatInt value).stepInto_eq]

theorem resolve_nodePath_inside {tree : FileTree} {target : Path} {value : Int}
    (single : IsComponent name)
    (resolved : resolve env (nodePath (queuePath name) (intToString value)) tree = .ok target) :
    tree.get (name :: env.dataDir) = some .directory := by
  rw [resolve, if_neg (nodePath_relative name _), nodePath, components_append, walk_append,
    intToString, (isComponent_formatInt value).components_eq] at resolved
  obtain ⟨middle, outer, inner⟩ := resolved
  have place : middle = name :: env.dataDir := by
    rw [(walk_eq_ok.mp outer).1, ← target_queue env single, Environment.target,
      if_neg (queuePath_relative name)]
  have passed := (walk_eq_ok.mp inner).2 0 (by simp)
  rw [place] at passed
  exact passed

end Bmb
