import Bmb.Http.Parsing

namespace Bmb.Http

open Bmb.Base

/-! What clients send, and what parsing recovers of it. -/

structure HttpRequest where
  method : Bytes
  target : Bytes
  version : Bytes
  headers : List Bytes
  body : Bytes

def crlf : Bytes := [13, 10]

/-- The bytes behind the method and its blank. -/
def HttpRequest.rest (message : HttpRequest) : Bytes :=
  message.target ++ 32 :: message.version ++ crlf ++ message.headers.flatMap (· ++ crlf) ++ crlf ++
    message.body

def HttpRequest.bytes (message : HttpRequest) : Bytes := message.method ++ 32 :: message.rest

/-- A request that fits the buffer of the server. -/
structure HttpRequest.Complete (message : HttpRequest) : Prop where
  named : message.method ≠ []
  token : 32 ∉ message.method
  plain : 0 ∉ message.bytes
  short : message.bytes.length < 2000

namespace HttpRequest.Complete

variable {message : HttpRequest}

theorem method_plain (complete : message.Complete) : 0 ∉ message.method :=
  fun member => complete.plain (List.mem_append_left _ member)

theorem extractedMethod (complete : message.Complete) {behind : Bytes} (ended : 0 ∈ behind)
    (near : (cString behind).length < 60000) :
    extractedMethod (message.bytes ++ behind) = .ok (some message.method) := by
  have shown : message.bytes ++ behind = message.method ++ 32 :: (message.rest ++ behind) := by
    simp [HttpRequest.bytes]
  have visible : ∀ byte ∈ message.method.head?, byte ≠ 0 := by
    rintro byte head rfl
    exact complete.method_plain (List.mem_of_head? head)
  have short := complete.short
  have early : message.method.length < 65536 := by
    simp only [HttpRequest.bytes, List.length_append] at short
    omega
  have length : (cString (message.bytes ++ behind)).length < 65536 := by
    rw [cString_append complete.plain, List.length_append]
    omega
  rw [shown] at length ⊢
  rw [extractedMethod_of_blank (by simp [ended]) visible complete.named complete.token early length,
    cString_of_no_nul complete.method_plain]

/-- What parsing gives when the request is followed by a NUL. -/
theorem requestParse_run (complete : message.Complete) (behind : Bytes) (world : World) :
    ∃ after, requestParse (message.bytes ++ 0 :: behind) world =
      .returned (some ⟨message.method, bodyOf message.method message.bytes⟩) after := by
  have parsed := requestParse_result (message.bytes ++ 0 :: behind) world
  rw [complete.extractedMethod (by simp) (by simp [cString]), cString_append_nul complete.plain]
    at parsed
  generalize requestParse (message.bytes ++ 0 :: behind) world = outcome at parsed ⊢
  cases outcome with
  | returned value after =>
      cases parsed
      exact ⟨after, rfl⟩
  | trapped trap after => cases parsed

end HttpRequest.Complete

/-! ## Parameters -/

inductive Method where
  | get
  | post
deriving DecidableEq

namespace Method

def name : Method → Bytes
  | get => text "GET"
  | post => text "POST"

/-- The parameters that are looked for with a method. -/
def keys : Method → List Bytes
  | get => [text "type", text "queue", text "index"]
  | post => [text "type", text "queue", text "data"]

end Method

/-- Parameters as a query string. -/
def queryString : List RequestPair → Bytes
  | [] => []
  | [pair] => keyWord pair.key ++ pair.value
  | pair :: rest => keyWord pair.key ++ pair.value ++ 38 :: queryString rest

/-- What a client says with a request. -/
structure Form where
  method : Method
  path : Bytes
  version : Bytes
  headers : List Bytes
  parameters : List RequestPair

namespace Form

/-- With `GET` the parameters stand in the request target, with `POST` in the body. -/
def message (form : Form) : HttpRequest where
  method := form.method.name
  target :=
    match form.method with
    | .get => form.path ++ 63 :: queryString form.parameters
    | .post => form.path
  version := form.version
  headers := form.headers
  body :=
    match form.method with
    | .get => []
    | .post => queryString form.parameters

/-- The value given for a key, unless it is empty. -/
def given (form : Form) (key : Bytes) : Option Bytes :=
  ((form.parameters.find? fun pair => pair.key = key).map RequestPair.value).filter (· ≠ [])

theorem given_ne_empty (form : Form) (key : Bytes) : form.given key ≠ some [] := by
  intro empty
  rw [given, Option.filter_eq_some_iff] at empty
  simp at empty

end Form

/-- A request with parameters. -/
structure ClientRequest extends Form where
  distinct : (parameters.map RequestPair.key).Nodup
  keys : ∀ pair ∈ parameters, pair.key ≠ [] ∧ ∀ byte ∈ pair.key, byte ≠ 61 ∧ isDelimiter byte = false
  values : ∀ pair ∈ parameters, ∀ byte ∈ pair.value, isDelimiter byte = false
  plain : 0 ∉ toForm.message.bytes
  short : toForm.message.bytes.length < 2000

namespace ClientRequest

def bytes (client : ClientRequest) : Bytes := client.message.bytes

theorem complete (client : ClientRequest) : client.message.Complete where
  named := by
    rw [show client.message.method = client.method.name from rfl]
    cases client.method <;> decide
  token := by
    rw [show client.message.method = client.method.name from rfl]
    cases client.method <;> decide
  plain := client.plain
  short := client.short

/-- The parameters that parsing looks for are those that the client has given. -/
def Recovered (client : ClientRequest) (request : Request) : Prop :=
  ∀ key ∈ client.method.keys, request.body.get key = client.given key

/-- No other `key=` stands in front of the parameters that are looked for. -/
def Undisturbed (client : ClientRequest) : Prop :=
  ∀ key ∈ client.method.keys, Shows key client.bytes (client.given key)

theorem bodyOf_get_of_mem (method : Method) (request : Bytes) {key : Bytes} (member : key ∈ method.keys) :
    (bodyOf method.name request).get key = extractedValue request key := by
  obtain ⟨type, queue, data, index⟩ := bodyOf_get method.name request
  cases method with
  | get =>
      simp only [Method.keys, List.mem_cons, List.not_mem_nil, or_false] at member
      rcases member with rfl | rfl | rfl
      · exact type
      · exact queue
      · exact index.trans (if_pos rfl)
  | post =>
      simp only [Method.keys, List.mem_cons, List.not_mem_nil, or_false] at member
      rcases member with rfl | rfl | rfl
      · exact type
      · exact queue
      · exact data.trans (if_pos rfl)

theorem recovered_iff (client : ClientRequest) :
    client.Recovered ⟨client.method.name, bodyOf client.method.name client.bytes⟩ ↔
      client.Undisturbed := by
  have short : client.bytes.length < 65536 := client.short.trans (by decide)
  constructor
  · intro recovered key member
    refine (extractedValue_eq short (client.given_ne_empty key)).mp ?_
    rw [← bodyOf_get_of_mem client.method client.bytes member]
    exact recovered key member
  · intro undisturbed key member
    refine (bodyOf_get_of_mem client.method client.bytes member).trans ?_
    exact (extractedValue_eq short (client.given_ne_empty key)).mpr (undisturbed key member)

/-- Parsing recovers the parameters of a client exactly when nothing that looks like one of
them stands in front of it. -/
theorem parse_recovers_iff (client : ClientRequest) (behind : Bytes) (world : World) :
    (∃ request after, requestParse (client.bytes ++ 0 :: behind) world =
        .returned (some request) after ∧ client.Recovered request) ↔ client.Undisturbed := by
  obtain ⟨last, parsed⟩ := client.complete.requestParse_run behind world
  rw [← recovered_iff]
  constructor
  · intro recovers
    obtain ⟨request, after, ran, recovered⟩ := recovers
    cases parsed.symm.trans ran
    exact recovered
  · intro recovered
    exact ⟨_, last, parsed, recovered⟩

/-- A request to consume with a parameter that is not the server's. -/
def subtyped : ClientRequest where
  method := .get
  path := text "/"
  version := text "HTTP/1.1"
  headers := [text "Host: localhost:8080"]
  parameters := [⟨text "subtype", text "produce"⟩, ⟨text "type", text "consume"⟩,
    ⟨text "queue", text "a"⟩]
  distinct := by decide +kernel
  keys := by decide +kernel
  values := by decide +kernel
  plain := by decide +kernel
  short := by decide +kernel

/-- The value of another parameter is taken for the type of the request. -/
theorem parse_takes_another_parameter :
    ¬∃ request after, requestParse (subtyped.bytes ++ [0]) { system := { tree := ⟨∅⟩ } } =
      .returned (some request) after ∧ subtyped.Recovered request := by
  intro recovers
  obtain ⟨request, after, ran, recovered⟩ := recovers
  obtain ⟨last, parsed⟩ := subtyped.complete.requestParse_run [] { system := { tree := ⟨∅⟩ } }
  cases parsed.symm.trans ran
  have typed := recovered (text "type") (by decide)
  exact absurd typed (by decide +kernel)

end ClientRequest

end Bmb.Http
