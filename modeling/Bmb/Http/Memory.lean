import Bmb.Broker.Memory
import Bmb.Broker.Responses
import Bmb.Http.Parsing
import Bmb.Http.Response

namespace Bmb.Http

open Bmb.Base Bmb.Base.Program Bmb.Posix

/-! The blocks that belong to requests and responses. -/

section Requests

variable {tree : FileTree} {time : Nat} {blocks : Int}

/-- The blocks of the parameters and of their array. -/
def pairBlocks (body : RequestBody) : Int :=
  2 * body.pairs.length + if body.pairs = [] then 0 else 1

/-- The blocks that belong to the outcome of parsing. -/
def requestBlocks : Option Request → Int
  | none => 0
  | some req => pairBlocks req.body + 3

theorem requestExtractData_stands (request key : Bytes) :
    Triple (World.Stands tree time blocks) (requestExtractData request key)
      (fun pair => World.Stands tree time (blocks + 2 * blockOf pair)) (fun _ => True) := by
  refine .bind memAlloc_stands fun _ => .bind memFree_stands fun _ => ?_
  cases extractedValue request key with
  | none =>
      refine .pure fun world stands => ?_
      simpa using stands
  | some data =>
      refine .bind memAlloc_stands fun _ => .bind memAlloc_stands fun _ => .pure fun world stands => ?_
      refine ⟨stands.tree, stands.clock, ?_⟩
      rw [stands.balance, blockOf_some]
      omega

theorem addExtractedPair_stands (body : RequestBody) (pair : Option RequestPair) :
    Triple (World.Stands tree time (blocks + pairBlocks body + 2 * blockOf pair))
      (addExtractedPair body pair)
      (fun extended => World.Stands tree time (blocks + pairBlocks extended)) (fun _ => True) := by
  cases pair with
  | none =>
      refine .pure fun world stands => ?_
      simpa using stands
  | some pair =>
      have added : pairBlocks (body.add pair) =
          pairBlocks body + 2 + if body.pairs = [] then 1 else 0 := by
        rw [pairBlocks, pairBlocks, RequestBody.add, if_neg (by simp), List.length_append]
        push_cast
        split <;> simp <;> omega
      intro world stands
      rw [addExtractedPair, requestBodyAdd]
      by_cases empty : body.pairs = []
      · rw [if_pos empty] at added ⊢
        have later := stands.allocate 1
        refine ⟨later.tree, later.clock, ?_⟩
        rw [later.balance, added, blockOf_some]
        omega
      · rw [if_neg empty] at added ⊢
        refine ⟨stands.tree, stands.clock, ?_⟩
        rw [stands.balance, added, blockOf_some]
        omega

theorem extractAndAdd_stands {α : Type} {body : RequestBody} {request key : Bytes}
    {next : RequestBody → Program World α} {post : α → World → Prop}
    (rest : ∀ extended, Triple (World.Stands tree time (blocks + pairBlocks extended)) (next extended)
      post (fun _ => True)) :
    Triple (World.Stands tree time (blocks + pairBlocks body)) (do
        let pair ← requestExtractData request key
        let extended ← addExtractedPair body pair
        next extended) post (fun _ => True) :=
  .bind (requestExtractData_stands request key) fun pair =>
    .bind (addExtractedPair_stands body pair) rest

theorem requestParse_stands (memory : Bytes) :
    Triple (World.Stands tree time blocks) (requestParse memory)
      (fun req => World.Stands tree time (blocks + requestBlocks req)) (fun _ => True) := by
  have parsed (method : Bytes) (body : RequestBody) :
      Triple (World.Stands tree time (blocks + 3 + pairBlocks body)) (pure (some ⟨method, body⟩))
        (fun req => World.Stands tree time (blocks + requestBlocks req)) (fun _ => True) := by
    refine .pure fun world stands => ⟨stands.tree, stands.clock, ?_⟩
    rw [stands.balance, requestBlocks]
    dsimp only
    omega
  have ended (method request : Bytes) (body : RequestBody) :
      Triple (World.Stands tree time (blocks + 3 + pairBlocks body))
        (parameterByMethod method request body)
        (fun req => World.Stands tree time (blocks + requestBlocks req)) (fun _ => True) := by
    unfold parameterByMethod
    split
    · exact extractAndAdd_stands (parsed method)
    split
    · exact extractAndAdd_stands (parsed method)
    · exact parsed method body
  refine .bind memAlloc_stands fun _ => .bind memAlloc_stands fun _ => ?_
  unfold requestExtractMethod
  cases extractedMethod memory with
  | error trap => exact fun _ _ => trivial
  | ok found =>
      cases found with
      | none =>
          intro world stands
          have later := stands.release 2
          refine ⟨later.tree, later.clock, ?_⟩
          show (world.release 2).balance = blocks + 0
          rw [later.balance]
          omega
      | some method =>
          have extracted : Triple (World.Stands tree time (blocks + 3 + pairBlocks .new)) (do
              let body ← addExtractedPair .new (← requestExtractData (cString memory) (text "type"))
              let body ← addExtractedPair body (← requestExtractData (cString memory) (text "queue"))
              parameterByMethod method (cString memory) body)
              (fun req => World.Stands tree time (blocks + requestBlocks req)) (fun _ => True) :=
            extractAndAdd_stands fun _ => extractAndAdd_stands (ended method (cString memory))
          intro world stands
          have named := stands.allocate 1
          refine extracted (world.allocate 1) ⟨named.tree, named.clock, ?_⟩
          rw [named.balance]
          show blocks + 1 + 1 + 1 = blocks + 3 + 0
          omega

theorem requestDestruct_leaves (req : Request) :
    Leaves (fun _ => -requestBlocks (some req)) (requestDestruct req) := by
  have body : Leaves (fun _ => -(pairBlocks req.body + 1)) (requestBodyDestruct req.body) := by
    refine .modify fun world => ?_
    rw [World.balance_release, pairBlocks]
    push_cast
    split <;> omega
  refine .bind body fun _ => .bind memFree_leaves fun _ => memFree_leaves.congr fun _ => ?_
  rw [requestBlocks]
  omega

end Requests

section Responses

variable {env : ServerEnvironment} {this : Response} {world : World}

/-- The blocks that belong to a response. -/
def responseBlocks (this : Response) : Int :=
  blockOf this.status + this.headers.length + (if this.headers = [] then 0 else 1) +
    blockOf this.body + blockOf this.resString + 1

theorem responseNew_run (json : env.JsonReliable) (req : Option Request) (world : World) :
    ∃ jsonBody after, responseNew env req world =
        .returned ⟨none, [], some jsonBody, none, req, none⟩ after ∧
      after.system = world.system ∧ after.balance = world.balance + 1 := by
  obtain ⟨made, after, ran, answered, kind⟩ := cJSONCreate_answering env.toBrokerEnvironment
    (.object []) (world.allocate 1)
  refine ⟨.object [], after, ?_, answered.system, ?_⟩
  · simp only [responseNew, Program.run_bind, run_memAlloc, ran, kind json, Program.run_pure]
  · rw [answered.balance, World.balance_allocate]
    rfl

theorem responseSetHeaders_blocks (env : ServerEnvironment) (this : Response) (world : World) :
    ∃ headers after, responseSetHeaders env this world = .returned { this with headers } after ∧
      headers.length = 5 ∧ after.system = world.system ∧ after.balance = world.balance + 6 := by
  refine ⟨_, _, rfl, rfl, rfl, ?_⟩
  simp only [World.balance_release, World.balance_allocate]
  omega

theorem responseSetStatus_blocks (code : Nat) (this : Response) (world : World) :
    ∃ status after, responseSetStatus code this world =
        .returned { this with status := some status } after ∧
      after.balance = world.balance + 1 :=
  ⟨_, _, rfl, world.balance_allocate 1⟩

theorem cJSONAddNullable_some (key : Bytes) (item : Option Json) (object : Json) :
    ∃ extended, cJSONAddNullable key item (some object) = some extended := by
  cases item with
  | none => exact ⟨object, rfl⟩
  | some item =>
      cases object with
      | object fields => exact ⟨_, rfl⟩
      | bool | number | string | array => exact ⟨_, rfl⟩

theorem responseFill_blocks (json : env.JsonReliable) (brokerRes : BrokerResponse) (this : Response)
    {jsonBody : Json} (given : this.jsonBody = some jsonBody) (world : World) :
    ∃ status jsonBody body after, responseFill env brokerRes this world = .returned
        { this with status := some status, jsonBody, body := some body } after ∧
      after.balance = world.balance + 2 := by
  obtain ⟨status, stated, ran, more⟩ := responseSetStatus_blocks brokerRes.code this world
  obtain ⟨first, shown⟩ := cJSONAddNullable_some (text "success") brokerRes.success jsonBody
  obtain ⟨second, filled⟩ := cJSONAddNullable_some (text "payload") brokerRes.payload first
  obtain ⟨printed, after, printRan, answered, _⟩ := cJSONPrint_answering env.toBrokerEnvironment
    second stated
  have whole := cJSONPrint_ensures json second _ _ _ printRan
  subst whole
  refine ⟨status, some second, ⟨(env.jsonPrint second).length + 1, env.jsonPrint second⟩,
    after.allocate 1, ?_, ?_⟩
  · simp only [responseFill, Program.run_bind, ran, given, shown, filled, cJSONPrintNullable, printRan,
      newBuffer, run_memAlloc, Program.run_pure]
  · rw [World.balance_allocate, answered.balance, more]
    omega

theorem responseSetError_blocks (errorMessage : Bytes) (this : Response) (empty : this.body = none)
    (world : World) :
    ∃ body after, responseSetError errorMessage this world =
        .returned { this with body := some body } after ∧
      after.balance = world.balance + 1 := by
  refine ⟨⟨errorMessage.length + 1, errorMessage⟩, world.allocate 1, ?_, world.balance_allocate 1⟩
  simp only [responseSetError, empty, memFreeNullable, newBuffer, Program.run_bind, Program.run_pure,
    run_memAlloc]

theorem responseAssemble_blocks (this : Response) {status body : Buffer}
    (stated : this.status = some status) (filled : this.body = some body) (world : World) :
    ∃ resString after, responseAssemble this world =
        .returned { this with resString := some resString } after ∧
      after.balance = world.balance + 1 := by
  unfold responseAssemble
  rw [stated, filled]
  exact ⟨_, _, rfl, world.balance_allocate 1⟩

theorem responseDestruct_leaves (this : Response) :
    Leaves (fun _ => -responseBlocks this) (responseDestruct this) := by
  have headers : Leaves (fun _ => -(this.headers.length + if this.headers = [] then 0 else 1))
      (.modify (·.release (this.headers.length + if this.headers = [] then 0 else 1))) := by
    refine .modify fun world => ?_
    rw [World.balance_release]
    push_cast
    rfl
  refine .bind (memFreeNullable_leaves _) fun _ => .bind headers fun _ => ?_
  refine .bind (memFreeNullable_leaves _) fun _ => .bind (memFreeNullable_leaves _) fun _ => ?_
  refine memFree_leaves.congr fun _ => ?_
  rw [responseBlocks]
  omega

end Responses

end Bmb.Http
