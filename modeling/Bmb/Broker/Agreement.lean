import Bmb.Broker.Synced

namespace Bmb

open Bmb.Base Bmb.Posix

/-! Memory and disk agree in every state of a run that starts without queues and in which
no call fails. -/

/-- The data directory exists and there is nothing in it. -/
structure EmptyData (env : Environment) (tree : FileTree) : Prop where
  cwd : tree.get env.cwd = some .directory
  data : tree.get env.dataDir = some .directory
  nothing : ∀ below : Path, below ≠ [] → tree.get (below ++ env.dataDir) = none

theorem EmptyData.holds {env : Environment} {tree : FileTree} (empty : EmptyData env tree) :
    DiskHolds tree env [] where
  cwd := empty.cwd
  data := empty.data
  distinct := .nil
  single := by simp [Shelf.keys]
  queues := fun name => empty.nothing [name] (by simp)
  files := by simp
  others := fun name _ file => empty.nothing [file, name] (by simp)
  ascending := by simp
  range := by simp

/-- What producing does when nothing fails: the node in memory and the file get the same id. -/
theorem Step.produced {env : Environment} {shelf kept : Shelf Bytes Item} {tree : FileTree}
    {time : Nat} {mailbox : Mailbox} {data : Bytes} {effects : List Effect}
    {calls : List PersistCall} {success : Bool}
    (step : Step env shelf tree time (.produce mailbox data) effects calls (.answered success kept))
    (reliable : env.Reliable) (holds : DiskHolds tree env shelf) (bounded : Bounded shelf)
    (member : mailbox ∈ shelf) :
    kept = shelf.push mailbox.key ⟨followingId mailbox.items, data⟩ ∧
      effects = [.create (decimal (followingId mailbox.items) :: mailbox.key :: env.dataDir),
        .write (decimal (followingId mailbox.items) :: mailbox.key :: env.dataDir) data] := by
  have single := holds.single _ (Shelf.key_mem member)
  have small := bounded.following member
  have place {moment : Nat} {target : Path}
      (opened : CanOpen env (queuePath mailbox.key) tree moment target) :
      target = mailbox.key :: env.dataDir := ((holds.canOpen_iff single).mp opened).2.1
  cases step with
  | read reads => cases reads
  | unsaved counted opened positive cannot =>
      exact absurd ((holds.canCreate_iff member _).mpr ⟨reliable _ _, rfl⟩) (cannot _)
  | saved counted opened positive can =>
      rw [place counted]
      rw [place opened, holds.nextIdAt_eq member, nodeFile_small small] at can
      rw [holds.nextIdAt_eq member]
      obtain ⟨_, rfl⟩ := (holds.canCreate_iff member _).mp can
      rw [formatInt_nat]
      refine ⟨rfl, ?_⟩
      simp only [storeEffects, reliable _ _, Bool.false_eq_true, if_false, Option.getD_some]
      rfl

theorem Step.consumed_oldest {env : Environment} {shelf kept : Shelf Bytes Item} {tree : FileTree}
    {time : Nat} {key : Bytes} {item : Item} {rest : List Item} {effects : List Effect}
    {calls : List PersistCall} {success : Bool}
    (step : Step env shelf tree time (.consume ⟨key, item :: rest⟩) effects calls
      (.answered success kept))
    (holds : DiskHolds tree env shelf) (member : ⟨key, item :: rest⟩ ∈ shelf) :
    kept = shelf.pop key ∧ effects = [.unlink (decimal item.id :: key :: env.dataDir)] := by
  have range := holds.range _ member item (by simp)
  cases step with
  | read reads => cases reads
  | consumed positive can =>
      rw [nodeFile_small range.2] at can
      obtain ⟨_, rfl, _⟩ := (holds.canUnlink_iff member _).mp can
      rw [formatInt_nat]
      exact ⟨rfl, rfl⟩

namespace Synced

variable {env : BrokerEnvironment} {machine : Machine} {req : BrokerRequest}

theorem empty_session {tree : FileTree} {first : Machine} (reliable : env.Reliable)
    (empty : EmptyData env.toEnvironment tree)
    (ran : queuePoolLoad env.toEnvironment (.boot tree) = .returned () first)
    (session : Session env (Modest env) first machine) : Synced env machine machine.shelf := by
  obtain ⟨synced, perm⟩ := started empty.holds (by simp [Bounded]) ran
  obtain ⟨disk, reached, agree⟩ := synced.session session
  rw [agree reliable (List.perm_nil.mp perm)]
  exact reached

/-- When nothing fails, memory and disk being the same, every recognised request is answered. -/
theorem answered {type : Bytes} (synced : Synced env machine machine.shelf)
    (reliable : env.Reliable) (typed : req.type = some type) (known : type ∈ recognised) :
    ∃ response after, brokerDispatch env req machine = .returned (some response) after := by
  have holds := synced.holds
  obtain ⟨effects, calls, ending, step, ends⟩ := brokerDispatch_step env req synced.keeps
  have decodes := command_decodes req machine.shelf
  generalize command req machine.shelf = decoded at step decodes
  have stored {mailbox : Mailbox} (names : Names req machine.shelf mailbox) (time : Nat) :
      CanOpen env.toEnvironment (queuePath mailbox.key) machine.world.system.tree time
        (mailbox.key :: env.dataDir) :=
    (holds.canOpen_iff (synced.single _ (Shelf.key_mem names.member))).mpr
      ⟨reliable _ _, rfl, Shelf.key_mem names.member⟩
  cases ending with
  | answered success kept =>
      generalize brokerDispatch env req machine = outcome at ends
      cases ends
      exact ⟨_, _, rfl⟩
  | unassigned =>
      cases step
      cases decodes with
      | unknown shown other =>
          rw [typed] at shown
          cases shown
          exact absurd known other
      | read reads => cases reads
  | trapped =>
      exfalso
      cases step with
      | untyped =>
          cases decodes with
          | untyped missing => simp [typed] at missing
          | read reads => cases reads
      | unnumbered zero =>
          cases decodes with
          | consume _ names =>
              have := (holds.range _ names.member _ (List.mem_cons_self ..)).1
              omega
          | read reads => cases reads
      | @unremoved key item rest positive cannot =>
          cases decodes with
          | consume _ names =>
              have range := holds.range _ names.member item (by simp)
              rw [nodeFile_small range.2] at cannot
              exact cannot _ ((holds.canUnlink_iff names.member _).mpr
                ⟨reliable _ _, rfl, item, by simp, (formatInt_nat _).symm⟩)
          | read reads => cases reads
      | noNodeId cannot =>
          cases decodes with
          | produce _ names => exact cannot _ (stored names _)
          | read reads => cases reads
      | noFileId can cannot =>
          cases decodes with
          | produce _ names => exact cannot _ (stored names _)
          | read reads => cases reads
      | zeroFileId first second zero =>
          cases decodes with
          | produce _ names =>
              rw [second.1.unique (stored names _).1, holds.nextIdAt_eq names.member] at zero
              exact (followingId_pos _).ne' zero
          | read reads => cases reads
      | unread removal =>
          cases decodes with
          | removeQueue _ names =>
              have := removal.reliable holds names.member reliable
              contradiction
          | read reads => cases reads

end Synced

/-- In every state of a run that starts without queues and in which no call fails, the disk
holds exactly the queues of the pool, and the next request is answered: a message goes to the
file with the id of its node, and the file of the node that is taken goes away. -/
theorem memory_and_disk_agree (env : BrokerEnvironment) (reliable : env.Reliable)
    {tree : FileTree} {first machine : Machine} (empty : EmptyData env.toEnvironment tree)
    (started : queuePoolLoad env.toEnvironment (.boot tree) = .returned () first)
    (session : Session env (Modest env) first machine) :
    machine.Keeps machine.shelf ∧
    DiskHolds machine.world.system.tree env.toEnvironment machine.shelf ∧
    ∀ req type, req.type = some type → type ∈ recognised →
      ∃ response after, brokerDispatch env req machine = .returned (some response) after ∧
      (∀ mailbox data, command req machine.shelf = .produce mailbox data →
        ∃ id, after.shelf = machine.shelf.push mailbox.key ⟨id, data⟩ ∧
          after.world.system.effects = machine.world.system.effects ++
            [.create (decimal id :: mailbox.key :: env.dataDir),
              .write (decimal id :: mailbox.key :: env.dataDir) data]) ∧
      (∀ key item rest, command req machine.shelf = .consume ⟨key, item :: rest⟩ →
        after.shelf = machine.shelf.pop key ∧
          after.world.system.effects = machine.world.system.effects ++
            [.unlink (decimal item.id :: key :: env.dataDir)]) := by
  have synced := Synced.empty_session reliable empty started session
  refine ⟨synced.keeps, synced.holds, fun req type typed known => ?_⟩
  obtain ⟨response, after, ran⟩ := synced.answered reliable typed known
  obtain ⟨effects, calls, success, step, _, _, handled⟩ := answered_step synced.keeps ran
  have decodes := command_decodes req machine.shelf
  refine ⟨response, after, ran, ?_, ?_⟩
  · intro mailbox data produces
    rw [produces] at step decodes
    cases decodes with
    | read reads => cases reads
    | produce _ names =>
        obtain ⟨kept, changes⟩ :=
          step.produced reliable synced.holds synced.bounded names.member
        exact ⟨_, kept, by rw [handled.effects, changes]⟩
  · intro key item rest consumes
    rw [consumes] at step decodes
    cases decodes with
    | read reads => cases reads
    | consume _ names =>
        obtain ⟨kept, changes⟩ := step.consumed_oldest synced.holds names.member
        exact ⟨kept, by rw [handled.effects, changes]⟩

/-! ## A run -/

theorem emptyTree_empty : EmptyData faithful.toEnvironment emptyTree where
  cwd := by decide +kernel
  data := by decide +kernel
  nothing := by
    intro below nonempty
    apply FileTree.get_eq_none
    have keys : emptyTree.entries.keys = [[text "data"], []] := by decide +kernel
    have place : faithful.dataDir = [text "data"] := rfl
    rw [keys, place]
    simpa using nonempty

theorem Modest.computed {env : BrokerEnvironment} {before after : Machine} {req : BrokerRequest}
    (single : req.type ≠ some brokerAddQueue ∨ IsComponent (req.data.getD []))
    (below : ∀ path ∈ after.world.system.tree.entries.keys,
      path.head? ≠ some (decimal 2147483647)) : Modest env before req after where
  single := by
    intro name typed given _
    rcases single with other | component
    · exact absurd typed other
    · rwa [given] at component
  below := fun name => FileTree.get_eq_none (fun member => below _ member rfl)

theorem memory_and_disk_agree_computed :
    ∃ machine, Session faithful (Modest faithful) (loaded faithful emptyTree) machine ∧
      machine.shelf = [⟨text "a", [⟨1, text "x"⟩]⟩] ∧
      DiskHolds machine.world.system.tree faithful.toEnvironment machine.shelf := by
  have session : Session faithful (Modest faithful) (loaded faithful emptyTree) _ :=
    (Session.start.asked (request "addQueue" none (some "a")) (by decide +kernel)
      (.computed (.inr (by decide +kernel)) (by decide +kernel))).asked
    (request "produce" (some "a") (some "x")) (by decide +kernel)
      (.computed (.inl (by decide)) (by decide +kernel))
  exact ⟨_, session, by decide +kernel,
    (memory_and_disk_agree faithful (fun _ _ => rfl) emptyTree_empty
      (loaded_returned (by decide +kernel)) session).2.1⟩

end Bmb
