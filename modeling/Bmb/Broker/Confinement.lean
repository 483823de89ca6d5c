import Bmb.Broker.Synced

namespace Bmb

open Bmb.Base Bmb.Posix

/-! Where the files lie that the requests of a run change. -/

/-- A queue directory directly in the data directory, or a node file directly in one. -/
inductive Confined (env : Environment) : Path → Prop where
  | queue {component : Name} (single : IsComponent component) :
      Confined env (component :: env.dataDir)
  | node {component : Name} (single : IsComponent component) (id : Int) :
      Confined env (formatInt id :: component :: env.dataDir)

/-- The path that is made of a queue's name leads to an entry of the data directory. -/
def LeadsInside (env : Environment) (name : Bytes) : Prop :=
  ∃ component, IsComponent component ∧ env.target (queuePath name) = component :: env.dataDir

section Steps

variable {env : Environment} {shelf : Shelf Bytes Item} {tree : FileTree} {time : Nat}
  {command : Command} {effects : List Effect} {calls : List PersistCall} {ending : Ending}
  {name : Bytes} {path : Path}

theorem LeadsInside.queue (inside : LeadsInside env name) :
    Confined env (env.target (queuePath name)) := by
  obtain ⟨component, single, place⟩ := inside
  rw [place]
  exact .queue single

theorem LeadsInside.node (inside : LeadsInside env name) (id : Int) :
    Confined env (env.target (nodePath (queuePath name) (intToString id))) := by
  obtain ⟨component, single, place⟩ := inside
  rw [target_nodePath, place]
  exact .node single id

theorem Unlinks.confined {ids : List Int} {success : Bool}
    (unlinks : Unlinks env (queuePath name) tree time ids effects success)
    (inside : LeadsInside env name) : ∀ effect ∈ effects, Confined env effect.path := by
  generalize located : queuePath name = text at unlinks
  induction unlinks with
  | done | refused _ => simp
  | @step tree time id ids target effects success can rest ih =>
      subst located
      intro effect member
      rcases List.mem_cons.mp member with same | later
      · rw [same]
        show Confined env target
        rw [can.1.path_eq]
        exact inside.node id
      · exact ih effect later

theorem Removal.confined {result : Option Bool}
    (removal : Removal env (queuePath name) tree time effects result)
    (inside : LeadsInside env name) : ∀ effect ∈ effects, Confined env effect.path := by
  cases removal with
  | closed _ | unread _ _ _ _ => simp
  | refused _ _ unlinks => exact unlinks.confined inside
  | kept _ _ unlinks _ => exact unlinks.confined inside
  | removed _ _ unlinks can =>
      intro effect member
      rcases List.mem_append.mp member with earlier | last
      · exact unlinks.confined inside effect earlier
      · rw [List.mem_singleton.mp last]
        show Confined env _
        rw [can.1.path_eq]
        exact inside.queue

theorem Step.confined {req : BrokerRequest}
    (step : Step env shelf tree time command effects calls ending) (decodes : Decodes req shelf command)
    (pool : ∀ name ∈ shelf.keys, LeadsInside env name)
    (adds : ∀ name, command = .addQueue name → LeadsInside env name) :
    ∀ effect ∈ effects, Confined env effect.path := by
  cases step with
  | untyped | rejected | unknown | read | empty | unnumbered | unremoved | noNodeId | noFileId
  | zeroFileId | unsaved | known | adopted | unmade | unread => simp
  | @consumed key item rest target positive can =>
      cases decodes with
      | read reads => cases reads
      | consume typed names =>
          intro effect member
          rw [List.mem_singleton.mp member]
          show Confined env target
          rw [can.1.path_eq]
          exact (pool key (Shelf.key_mem names.member)).node _
  | @saved mailbox data target file first second positive can =>
      cases decodes with
      | read reads => cases reads
      | produce typed names gives =>
          have placed : Confined env file := by
            rw [can.1.path_eq]
            exact (pool _ (Shelf.key_mem names.member)).node _
          intro effect member
          rcases List.mem_append.mp member with created | written
          · rw [List.mem_singleton.mp created]
            exact placed
          · split at written
            · simp at written
            · rw [List.mem_singleton.mp written]
              exact placed
  | made fresh can =>
      intro effect member
      rw [List.mem_singleton.mp member]
      show Confined env _
      rw [can.1.path_eq]
      exact (adds _ rfl).queue
  | removed removal =>
      cases decodes with
      | read reads => cases reads
      | removeQueue typed names => exact removal.confined (pool _ (Shelf.key_mem names.member))
  | kept removal =>
      cases decodes with
      | read reads => cases reads
      | removeQueue typed names => exact removal.confined (pool _ (Shelf.key_mem names.member))

end Steps

variable {env : BrokerEnvironment}

/-- A request in which the name of a queue to be added leads into the data directory. -/
def Inside (env : BrokerEnvironment) (req : BrokerRequest) : Prop :=
  ∀ name, req.type = some brokerAddQueue → req.data = some name → name ≠ [] →
    LeadsInside env.toEnvironment name

theorem Inside.adds {req : BrokerRequest} {shelf : Shelf Bytes Item} (inside : Inside env req) :
    ∀ name, command req shelf = .addQueue name → LeadsInside env.toEnvironment name := by
  intro name added
  have decodes := command_decodes req shelf
  rw [added] at decodes
  cases decodes with
  | addQueue typed gives => exact inside name typed gives.given gives.nonempty
  | read reads => cases reads

/-- Whatever becomes of a request, it changes files only inside the data directory. -/
theorem Inside.confined {machine : Machine} {req : BrokerRequest} (inside : Inside env req)
    (keeps : machine.Keeps machine.shelf)
    (pool : ∀ name ∈ machine.shelf.keys, LeadsInside env.toEnvironment name) :
    ∃ effects, (brokerDispatch env req machine).state.world.system.effects =
        machine.world.system.effects ++ effects ∧
      ∀ effect ∈ effects, Confined env.toEnvironment effect.path := by
  obtain ⟨effects, calls, ending, step, ends⟩ := brokerDispatch_step env req keeps
  exact ⟨effects, ends.handled.effects,
    step.confined (command_decodes req machine.shelf) pool inside.adds⟩

theorem Confined.below {env : Environment} {path : Path} (confined : Confined env path) :
    env.dataDir.length < path.length := by
  cases confined with
  | queue | node => simp only [List.length_cons]; omega

end Bmb
