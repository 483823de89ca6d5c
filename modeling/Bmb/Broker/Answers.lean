import Bmb.Broker.Ledger
import Bmb.Persist.Calls

namespace Bmb

open Bmb.Base Bmb.Posix

/-! Responses: what answering does to the world, and what an answer shows. -/

namespace World

/-- Changes have been made to the files and calls have been logged. -/
structure Handled (effects : List Effect) (calls : List PersistCall) (before after : World) :
    Prop where
  tree : after.system.tree = replay effects before.system.tree
  effects : after.system.effects = before.system.effects ++ effects
  calls : after.calls = before.calls ++ calls

variable {first second third : World} {effects others : List Effect}
  {calls later : List PersistCall} {ticks : Nat} {call : PersistCall}

theorem Handled.trans (left : Handled effects calls first second)
    (right : Handled others later second third) :
    Handled (effects ++ others) (calls ++ later) first third where
  tree := by rw [right.tree, left.tree, replay_append]
  effects := by rw [right.effects, left.effects, List.append_assoc]
  calls := by rw [right.calls, left.calls, List.append_assoc]

theorem Handled.refl (world : World) : Handled [] [] world world :=
  ⟨rfl, (List.append_nil _).symm, (List.append_nil _).symm⟩

instance : Std.Refl (Handled [] []) := ⟨Handled.refl⟩

instance : IsTrans World (Handled [] []) := ⟨fun _ _ _ left right => left.trans right⟩

/-- What neither changes files nor asks for it can follow unnoticed. -/
theorem Handled.followed (handled : Handled effects calls first second)
    (quiet : Handled [] [] second third) : Handled effects calls first third := by
  simpa using handled.trans quiet

theorem Handled.preceded (quiet : Handled [] [] first second)
    (handled : Handled effects calls second third) : Handled effects calls first third :=
  quiet.trans handled

theorem Asked.handled (asked : first.Asked ticks effects call second) :
    first.Handled effects [call] second :=
  ⟨asked.system.tree, asked.system.effects, asked.calls⟩

theorem Passed.handled (passed : first.Passed ticks effects second) :
    first.Handled effects [] second :=
  ⟨passed.system.tree, passed.system.effects, by rw [passed.calls, List.append_nil]⟩

theorem allocate_handled (world : World) (blocks : Nat) :
    world.Handled [] [] (world.allocate blocks) :=
  ⟨rfl, (List.append_nil _).symm, (List.append_nil _).symm⟩

theorem release_handled (world : World) (blocks : Nat) :
    world.Handled [] [] (world.release blocks) :=
  ⟨rfl, (List.append_nil _).symm, (List.append_nil _).symm⟩

end World

/-- As many blocks have been allocated as freed, and cJSON may have been called. -/
def World.Answered (before after : World) : Prop :=
  ∃ blocks calls, after = { (before.allocate blocks).release blocks with jsonCalls := calls }

namespace World.Answered

variable {first second third : World}

theorem refl (world : World) : Answered world world := ⟨0, world.jsonCalls, rfl⟩

theorem trans (left : Answered first second) (right : Answered second third) :
    Answered first third := by
  obtain ⟨blocks, calls, rfl⟩ := left
  obtain ⟨more, later, rfl⟩ := right
  refine ⟨blocks + more, later, ?_⟩
  simp only [allocate, release, Nat.add_assoc]

instance : Std.Refl Answered := ⟨refl⟩

instance : IsTrans World Answered := ⟨fun _ _ _ left right => left.trans right⟩

theorem called (world : World) (calls : Nat) : Answered world { world with jsonCalls := calls } :=
  ⟨0, calls, rfl⟩

/-- A block around what has been allocated and freed. -/
theorem around (inner : Answered (first.allocate 1) second) : Answered first (second.release 1) := by
  obtain ⟨blocks, calls, rfl⟩ := inner
  refine ⟨1 + blocks, calls, ?_⟩
  simp only [allocate, release, Nat.add_assoc, Nat.add_comm 1 blocks]

theorem system (answered : Answered first second) : second.system = first.system := by
  obtain ⟨_, _, rfl⟩ := answered
  rfl

theorem paths (answered : Answered first second) : second.paths = first.paths := by
  obtain ⟨_, _, rfl⟩ := answered
  rfl

theorem handled (answered : Answered first second) : first.Handled [] [] second := by
  obtain ⟨_, _, rfl⟩ := answered
  exact ⟨rfl, (List.append_nil _).symm, (List.append_nil _).symm⟩

end World.Answered

/-! ## Answers -/

/-- A program that returns without changing files or asking for it. -/
abbrev Quiet {α : Type} (post : α → Prop) (program : Program World α) : Prop :=
  program.Returns (World.Handled [] []) post

/-- A program that returns and leaves no block behind. -/
abbrev Answering {α : Type} (post : α → Prop) (program : Program World α) : Prop :=
  program.Returns World.Answered post

theorem Answering.quiet {α : Type} {post : α → Prop} {program : Program World α}
    (answering : Answering post program) : Quiet post program := by
  intro world
  obtain ⟨value, after, ran, answered, kind⟩ := answering world
  exact ⟨value, after, ran, answered.handled, kind⟩

/-- A copy of the data that is freed when the response has been created. -/
theorem Answering.copied {α : Type} {post : α → Prop} {answer : Program World α}
    (answering : Answering post answer) :
    Answering post (do
      memAlloc
      let res ← answer
      memFree
      pure res) := by
  intro world
  obtain ⟨value, after, ran, answered, kind⟩ := answering (world.allocate 1)
  refine ⟨value, after.release 1, ?_, answered.around, kind⟩
  simp only [Program.run_bind, run_memAlloc, ran, run_memFree, Program.run_pure]

section Answers

variable (env : BrokerEnvironment)

/-- As long as cJSON has memory, a response shows whether the request succeeded. -/
def Answers (success : Bool) (response : BrokerResponse) : Prop :=
  env.JsonReliable → response.success = some (.bool success)

/-- A response that shows some result. -/
def AnswersAny (response : BrokerResponse) : Prop := ∃ success, Answers env success response

theorem cJSONCreate_answering (item : Json) :
    Answering (fun made => env.JsonReliable → made = some item) (cJSONCreate env item) := by
  intro world
  refine ⟨_, _, rfl, .called world _, fun reliable => ?_⟩
  simp [reliable world.jsonCalls]

theorem cJSONPrint_answering (item : Json) : Answering (fun _ => True) (cJSONPrint env item) :=
  fun world => ⟨_, _, rfl, .called world _, trivial⟩

theorem addPayloadString_answering (payload : Option Json) (key : Bytes) (value : Option Bytes) :
    Answering (fun added => env.JsonReliable → added ≠ none)
      (addPayloadString env payload key value) := by
  cases value with
  | none => exact .pure (by simp)
  | some value =>
      refine (cJSONCreate_answering env _).bind (fun made kind => ?_)
      cases made with
      | none => exact .pure (fun reliable => by simp at kind; exact absurd reliable kind)
      | some item => exact .pure (by simp)

theorem createResponse_answering (success : Bool) (code : Nat)
    (message data errorMessage : Option Bytes) :
    Answering (Answers env success)
      (createResponse env success code message data errorMessage) := by
  refine (cJSONCreate_answering env _).bind (fun made kind => ?_)
  cases made with
  | none => exact .pure (fun reliable => by simp at kind; exact absurd reliable kind)
  | some jsonSuccess =>
      have shown (reliable : env.JsonReliable) : some jsonSuccess = some (Json.bool success) :=
        kind reliable
      refine (cJSONCreate_answering env _).bind (fun payload _ => ?_)
      refine (addPayloadString_answering env _ _ _).bind (fun withMessage _ => ?_)
      cases withMessage with
      | none => exact .pure shown
      | some withMessage =>
          refine (addPayloadString_answering env _ _ _).bind (fun withData _ => ?_)
          cases withData with
          | none => exact .pure shown
          | some withData => exact .pure shown

theorem createResponse_quiet (success : Bool) (code : Nat) (message data errorMessage : Option Bytes) :
    Quiet (Answers env success) (createResponse env success code message data errorMessage) :=
  (createResponse_answering env success code message data errorMessage).quiet

theorem failure_answering (errMsg : Bytes) : Answering (AnswersAny env)
    (createResponse env false 500 none none (some errMsg)) :=
  (createResponse_answering env _ _ _ _ _).weaken (fun _ shown => ⟨false, shown⟩)

theorem entryObject_answering (index : Nat) (key : Bytes) (value : Option Bytes)
    (indexError valueError : Bytes) :
    Answering (fun _ => True) (entryObject env index key value indexError valueError) := by
  refine (cJSONCreate_answering env _).bind (fun made _ => ?_)
  cases made with
  | none => exact .pure trivial
  | some object =>
      refine (cJSONCreate_answering env _).bind (fun number _ => ?_)
      cases number with
      | none => exact .pure trivial
      | some number =>
          cases value with
          | none => exact .pure trivial
          | some value =>
              refine (cJSONCreate_answering env _).bind (fun string _ => ?_)
              cases string with
              | none => exact .pure trivial
              | some string => exact .pure trivial

theorem printArray_answering (key printError : Bytes) (objects : Except Bytes (List Json)) :
    Answering (AnswersAny env) (Broker.printArray env key printError objects) := by
  cases objects with
  | error errMsg => exact failure_answering env errMsg
  | ok objects =>
      refine (cJSONPrint_answering env _).bind (fun printed _ => ?_)
      cases printed with
      | none => exact failure_answering env printError
      | some string =>
          exact (createResponse_answering env _ _ _ _ _).copied.weaken
            (fun _ shown => ⟨true, shown⟩)

theorem messageObjects_answering (index : Nat) (items : List Item) :
    Answering (fun _ => True) (Ledger.messageObjects env index items) := by
  induction items generalizing index with
  | nil => exact .pure trivial
  | cons item rest ih =>
      refine (entryObject_answering env _ _ _ _ _).bind (fun object _ => ?_)
      cases object with
      | error errMsg => exact .pure trivial
      | ok object =>
          refine (ih (index + 1)).bind (fun objects _ => ?_)
          cases objects with
          | error errMsg => exact .pure trivial
          | ok objects => exact .pure trivial

theorem nameObjects_answering (index : Nat) (names : List Bytes) :
    Answering (fun _ => True) (Broker.nameObjects env index names) := by
  induction names generalizing index with
  | nil => exact .pure trivial
  | cons name rest ih =>
      refine (entryObject_answering env _ _ _ _ _).bind (fun object _ => ?_)
      cases object with
      | error errMsg => exact .pure trivial
      | ok object =>
          refine (ih (index + 1)).bind (fun objects _ => ?_)
          cases objects with
          | error errMsg => exact .pure trivial
          | ok objects => exact .pure trivial

/-- The two responses that list entries begin with the same two allocations. -/
theorem listResponse_answering {response : Program World BrokerResponse}
    (listed : Answering (AnswersAny env) response) :
    Answering (AnswersAny env) (do
      match ← cJSONCreate env (.object []) with
      | none =>
          createResponse env false 500 none none
            (some (text "Failed to add an array to JSON node list."))
      | some _ => do
          match ← cJSONCreate env (.array []) with
          | none =>
              createResponse env false 500 none none
                (some (text "Failed to add an array to JSON node list."))
          | some _ => response) := by
  refine (cJSONCreate_answering env _).bind (fun object _ => ?_)
  cases object with
  | none => exact failure_answering env _
  | some object =>
      refine (cJSONCreate_answering env _).bind (fun array _ => ?_)
      cases array with
      | none => exact failure_answering env _
      | some array => exact listed

theorem itemsResponse_answering (items : List Item) :
    Answering (AnswersAny env) (Ledger.itemsResponse env items) :=
  listResponse_answering env ((messageObjects_answering env 0 items).bind
    (fun objects _ => printArray_answering env _ _ objects))

theorem listNames_answering (names : List Bytes) :
    Answering (AnswersAny env) (Ledger.listNames env names) :=
  (listResponse_answering env ((nameObjects_answering env 0 names).bind
    (fun objects _ => printArray_answering env _ _ objects))).copied

theorem respondCopied_answering (data : Bytes) :
    Answering (Answers env true) (Ledger.respondCopied env data) :=
  (createResponse_answering env _ _ _ _ _).copied

/-- The text of a length is copied before it is freed. -/
theorem lengthResponse_answering (data : Bytes) :
    Answering (Answers env true) (do
      memAlloc
      memAlloc
      memFree
      let res ← createResponse env true 200 none (some data) none
      memFree
      pure res) := by
  have copied : Answering (fun _ => True) (do
      memAlloc
      memFree) := fun world => ⟨(), _, rfl, (World.Answered.refl (world.allocate 1)).around, trivial⟩
  have rest : Answering (Answers env true) (do
      memAlloc
      memFree
      createResponse env true 200 none (some data) none) := fun world =>
    copied.bind (fun _ _ => createResponse_answering env true 200 none (some data) none) world
  exact fun world => rest.copied world

/-- What is delivered is copied, its node is freed with the message, and then the copy. -/
theorem deliver_run (item : Item) (world : World) :
    ∃ res after, Ledger.deliver env item world = .returned res after ∧
      (world.release 2).Answered after ∧ Answers env true res := by
  obtain ⟨res, middle, ran, answered, shown⟩ := createResponse_answering env true 200 none
    (some (Broker.decodedMessage item.message (env.residue world.system.clock))) none
    ((world.allocate 1).release 2)
  refine ⟨res, middle.release 1, ?_, World.Answered.around answered, shown⟩
  simp only [Ledger.deliver, Program.run_bind, Program.run_read, run_memAlloc, Program.run_modify,
    ran, run_memFree, Program.run_pure]

theorem deliver_quiet (item : Item) : Quiet (Answers env true) (Ledger.deliver env item) := by
  intro world
  obtain ⟨res, after, ran, answered, shown⟩ := deliver_run env item world
  exact ⟨res, after, ran, (world.release_handled 2).followed answered.handled, shown⟩

end Answers

end Bmb
