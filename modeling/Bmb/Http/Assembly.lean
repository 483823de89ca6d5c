import Bmb.Broker.Session
import Bmb.Http.Response

namespace Bmb.Http

open Bmb.Base

/-! What the assembled response consists of, and which of its buffers are long enough. -/

/-! ## Lines -/

/-- The lines of a text up to its first empty line, and what stands behind that line; `line` is
what has been seen of the line the text goes on with. -/
def splitHead (line : Bytes) : Bytes → Option (List Bytes × Bytes)
  | [] => none
  | byte :: rest =>
      if byte = newline then
        if line = [] then some ([], rest)
        else (splitHead [] rest).map fun split => (line :: split.1, split.2)
      else splitHead (line ++ [byte]) rest

/-- Some bytes of a single line. -/
structure Line (line : Bytes) : Prop where
  nonempty : line ≠ []
  single : newline ∉ line

theorem splitHead_line {line : Bytes} (seen rest : Bytes) (single : newline ∉ line) :
    splitHead seen (line ++ rest) = splitHead (seen ++ line) rest := by
  induction line generalizing seen with
  | nil => rw [List.nil_append, List.append_nil]
  | cons byte line ih =>
      have here : byte ≠ newline := fun same => single (by simp [same])
      rw [List.cons_append, splitHead, if_neg here, ih _ (fun later => single (by simp [later])),
        List.append_assoc]
      rfl

theorem splitHead_newline {line : Bytes} (rest : Bytes) (nonempty : line ≠ []) :
    splitHead line (newline :: rest) =
      (splitHead [] rest).map fun split => (line :: split.1, split.2) := by
  rw [splitHead, if_pos rfl, if_neg nonempty]

/-- Lines are recovered one by one, and then what stands behind the empty line. -/
theorem splitHead_lines {lines : List Bytes} (body : Bytes) (all : ∀ line ∈ lines, Line line) :
    splitHead [] (lines.flatMap (· ++ [newline]) ++ newline :: body) = some (lines, body) := by
  induction lines with
  | nil => rfl
  | cons line lines ih =>
      have here := all line (by simp)
      have later := ih fun other member => all other (by simp [member])
      simp only [List.flatMap_cons, List.append_assoc, List.cons_append, List.nil_append]
      rw [splitHead_line [] _ here.single, List.nil_append, splitHead_newline _ here.nonempty, later]
      rfl

/-! ## Headers and status -/

def statusLine (code : Nat) : Bytes := protocol ++ text " " ++ statusText code

/-- What `asctime` gives: one line that ends in its only newline.  The text has 25 bytes; it is
only used that the lengths of the headers fit 16 bits. -/
structure AsctimeLine (time : Bytes) : Prop where
  line : ∃ shown, time = shown ++ [newline] ∧ newline ∉ shown
  short : time.length < 65419

def dateHeader (time : Bytes) : Bytes := text "Date: " ++ time

/-- The headers that `Response_set_headers` makes when `asctime` gives a text. -/
def responseHeaders (time : Bytes) : List Buffer :=
  [⟨headerAllowOrigin.length + 1, headerAllowOrigin⟩,
    ⟨headerConnectionClose.tail.length, headerConnectionClose⟩,
    ⟨headerContentType.length + 1, headerContentType⟩, ⟨headerHost.length + 1, headerHost⟩,
    ⟨(dateHeader time).length + 1, dateHeader time⟩]

variable (env : ServerEnvironment) (this : Response) (world : World)

theorem responseSetHeaders_run : ∃ after, responseSetHeaders env this world =
    .returned { this with headers := responseHeaders (env.asctime world.requestCounter) } after :=
  ⟨_, rfl⟩

theorem responseSetStatus_run (code : Nat) : ∃ after, responseSetStatus code this world =
    .returned { this with status := some ⟨(statusLine code).length + 1, statusLine code⟩ } after := by
  refine ⟨world.allocate 1, ?_⟩
  have size : protocol.length + (statusText code).length + 2 = (statusLine code).length + 1 := by
    simp only [statusLine, List.length_append]
    rw [show (text " ").length = 1 from rfl]
    omega
  simp only [responseSetStatus, newBuffer, Program.run_bind, run_memAlloc, Program.run_pure, size]
  rfl

theorem statusLine_line (code : Nat) : Line (statusLine code) := by
  refine ⟨by simp [statusLine, protocol, text], ?_⟩
  unfold statusLine statusText
  split
  · decide
  split
  · decide
  split
  · decide
  split <;> decide

theorem responseHeaders_length {time : Bytes} :
    ((responseHeaders time).map fun header => header.text.length + 1).sum = time.length + 117 := by
  have date : (dateHeader time).length = time.length + 6 := by
    rw [dateHeader, List.length_append, Nat.add_comm]
    rfl
  have fixed : headerAllowOrigin.length = 30 ∧ headerConnectionClose.length = 17 ∧
      headerContentType.length = 39 ∧ headerHost.length = 20 := by decide
  simp only [responseHeaders, List.map_cons, List.map_nil, List.sum_cons, List.sum_nil, date, fixed]
  omega

theorem length_flatMap_headers (headers : List Buffer) :
    (headers.flatMap (·.text ++ [newline])).length =
      (headers.map fun header => header.text.length + 1).sum := by
  simp [List.length_flatMap]

/-! ## The assembled text -/

/-- `Response_handle` up to a body, and then `Response_assemble`. -/
def assembleWith (code : Nat) (body : Buffer) : Program World Response := do
  let this ← responseSetHeaders env this
  let this ← responseSetStatus code this
  responseAssemble { this with body := some body }

/-- The lines in front of the body. -/
def headLines (code : Nat) (shown : Bytes) : List Bytes :=
  [statusLine code, headerAllowOrigin, headerConnectionClose, headerContentType, headerHost,
    text "Date: " ++ shown]

theorem headLines_lines (code : Nat) {shown : Bytes} (single : newline ∉ shown) :
    ∀ line ∈ headLines code shown, Line line := by
  have date : Line (text "Date: " ++ shown) := by
    refine ⟨by simp [text], fun member => ?_⟩
    rcases List.mem_append.mp member with inside | inside
    · exact absurd inside (by decide)
    · exact single inside
  have fixed (line : Bytes) (shape : line ≠ [] ∧ newline ∉ line) : Line line := ⟨shape.1, shape.2⟩
  simp only [headLines, List.forall_mem_cons]
  exact ⟨statusLine_line code, fixed _ (by decide), fixed _ (by decide), fixed _ (by decide),
    fixed _ (by decide), date, by simp⟩

/-- What is put together of a status, the headers and a body. -/
def assembledText (code : Nat) (time body : Bytes) : Bytes :=
  statusLine code ++ newline :: (responseHeaders time).flatMap (·.text ++ [newline]) ++ body

/-- The buffer of a response whose headers are short. -/
theorem assembleWith_run (code : Nat) (body : Buffer) (short : (env.asctime world.requestCounter).length < 65419) :
    ∃ after, assembleWith env this code body world = .returned
      { this with
        headers := responseHeaders (env.asctime world.requestCounter)
        status := some ⟨(statusLine code).length + 1, statusLine code⟩
        body := some body
        resString := some ⟨(assembledText code (env.asctime world.requestCounter) body.text).length + 1,
          assembledText code (env.asctime world.requestCounter) body.text⟩ } after := by
  obtain ⟨headed, headers⟩ := responseSetHeaders_run env this world
  obtain ⟨stated, status⟩ := responseSetStatus_run
    { this with headers := responseHeaders (env.asctime world.requestCounter) } headed code
  generalize env.asctime world.requestCounter = time at headers status short ⊢
  have count : toUInt16 (((responseHeaders time).map fun header => header.text.length + 1).sum : Nat) =
      time.length + 117 := by
    rw [responseHeaders_length, toUInt16]
    omega
  have size : (statusLine code).length + 1 + (time.length + 117) + body.text.length + 1 =
      (assembledText code time body.text).length + 1 := by
    simp only [assembledText, List.length_append, List.length_cons, length_flatMap_headers,
      responseHeaders_length]
    omega
  refine ⟨stated.allocate 1, ?_⟩
  simp only [assembleWith, Program.run_bind, headers, status, responseAssemble, newBuffer,
    run_memAlloc, Program.run_pure, count, size]
  rfl

/-- The assembled response is split at its first empty line into the status, the headers and
the body, and fills its buffer. -/
theorem assembled_splits (code : Nat) (body : Buffer)
    (asctime : AsctimeLine (env.asctime world.requestCounter)) :
    ∃ shown assembled after buffer,
      env.asctime world.requestCounter = shown ++ [newline] ∧
      assembleWith env this code body world = .returned assembled after ∧
      assembled.resString = some buffer ∧
      splitHead [] buffer.text = some (headLines code shown, body.text) ∧
      buffer.text.length + 1 = buffer.size := by
  obtain ⟨shown, same, single⟩ := asctime.line
  obtain ⟨after, ran⟩ := assembleWith_run env this world code body asctime.short
  have whole : assembledText code (env.asctime world.requestCounter) body.text =
      (headLines code shown).flatMap (· ++ [newline]) ++ newline :: body.text := by
    simp [assembledText, responseHeaders, headLines, dateHeader, same]
  refine ⟨shown, _, after, _, same, ran, rfl, ?_, rfl⟩
  dsimp only
  rw [whole]
  exact splitHead_lines body.text (headLines_lines code single)

/-- An environment in which nothing fails and no time passes. -/
def epoch : ServerEnvironment :=
  { faithful with asctime := fun _ => text "Thu Jan  1 00:00:00 1970\n" }

/-- A response in which nothing has been set. -/
def blankResponse (req : Option Request) : Response where
  status := none
  headers := []
  jsonBody := none
  body := none
  req
  resString := none

theorem assembled_splits_computed :
    let body : Buffer := ⟨10, text "one\n\ntwo\n"⟩
    let world : World := { system := { tree := emptyTree } }
    ∃ shown assembled after buffer,
      epoch.asctime world.requestCounter = shown ++ [newline] ∧
      assembleWith epoch (blankResponse none) 400 body world = .returned assembled after ∧
      assembled.resString = some buffer ∧
      splitHead [] buffer.text = some (headLines 400 shown, body.text) ∧
      buffer.text.length + 1 = buffer.size :=
  assembled_splits epoch (blankResponse none) { system := { tree := emptyTree } } 400
    ⟨10, text "one\n\ntwo\n"⟩ ⟨⟨text "Thu Jan  1 00:00:00 1970", rfl, by decide⟩, by decide⟩

/-! ## Buffers -/

/-- The buffer has room for its text and a NUL. -/
def Buffer.Fits (buffer : Buffer) : Prop := buffer.text.length + 1 ≤ buffer.size

/-- The buffers of a response. -/
def Response.buffers (this : Response) : List Buffer :=
  this.status.toList ++ this.headers ++ this.body.toList ++ this.resString.toList

/-- Every buffer that is filled on the way to an assembled response has room for what is
written to it. -/
structure BuildsSafely (env : ServerEnvironment) (this : Response) (machine : Machine) : Prop where
  headed : ∀ headed after, responseSetHeaders env this machine.world = .returned headed after →
    ∀ buffer ∈ headed.buffers, buffer.Fits
  handled : ∀ handled after, responseHandle env this machine = .returned handled after →
    ∀ buffer ∈ handled.buffers, buffer.Fits
  assembled : ∀ handled after assembled last,
    responseHandle env this machine = .returned handled after →
    responseAssemble handled after.world = .returned assembled last →
    ∀ buffer ∈ assembled.buffers, buffer.Fits

/-- The block of the header that closes the connection is measured from its second character. -/
theorem connectionClose_overruns : ¬Buffer.Fits ⟨headerConnectionClose.tail.length, headerConnectionClose⟩ := by
  unfold Buffer.Fits
  decide

/-- No response is built safely, whatever the request, the broker's answer and the time are. -/
theorem never_builds_safely (machine : Machine) : ¬BuildsSafely env this machine := by
  intro safe
  obtain ⟨after, ran⟩ := responseSetHeaders_run env this machine.world
  refine connectionClose_overruns (safe.headed _ after ran _ ?_)
  simp [Response.buffers, responseHeaders]

theorem empty_request_overruns : ¬BuildsSafely epoch (blankResponse none) (.boot emptyTree) := by
  intro safe
  refine connectionClose_overruns (safe.headed _ _ rfl _ ?_)
  simp [Response.buffers, blankResponse]

/-! ## The other buffers -/

/-- The status and the body have room for what is written to them. -/
structure Response.Roomy (this : Response) : Prop where
  status : ∀ buffer ∈ this.status, buffer.Fits
  body : ∀ buffer ∈ this.body, buffer.Fits

variable {this : Response} {req : Option Request} {headers : List Buffer}

theorem newBuffer_fits (text : Bytes) :
    Program.Ensures (fun buffer => buffer.Fits) (newBuffer (text.length + 1) text) :=
  Program.Ensures.after fun _ => .pure (Nat.le_refl _)

theorem responseSetStatus_roomy (code : Nat) (roomy : this.Roomy) :
    Program.Ensures (fun set => set.Roomy ∧ set.headers = this.headers) (responseSetStatus code this) := by
  intro world set after ran
  obtain ⟨_, same⟩ := responseSetStatus_run this world code
  rw [same] at ran
  cases ran
  refine ⟨⟨fun buffer inside => ?_, roomy.body⟩, rfl⟩
  cases inside
  exact Nat.le_refl _

theorem responseSetError_roomy (errorMessage : Bytes) (roomy : this.Roomy) :
    Program.Ensures (fun set => set.Roomy ∧ set.headers = this.headers)
      (responseSetError errorMessage this) := by
  refine Program.Ensures.after fun _ => (newBuffer_fits errorMessage).bind fun body fits => .pure ?_
  refine ⟨⟨roomy.status, fun buffer inside => ?_⟩, rfl⟩
  cases inside
  exact fits

theorem responseFill_roomy (brokerRes : BrokerResponse) (roomy : this.Roomy) :
    Program.Ensures (fun set => set.Roomy ∧ set.headers = this.headers)
      (responseFill env brokerRes this) := by
  refine (responseSetStatus_roomy brokerRes.code roomy).bind fun stated kept => ?_
  refine Program.Ensures.after fun printed => ?_
  have ready : Response.Roomy { stated with
      jsonBody := cJSONAddNullable (text "payload") brokerRes.payload
        (cJSONAddNullable (text "success") brokerRes.success stated.jsonBody) } :=
    ⟨kept.1.status, kept.1.body⟩
  cases printed with
  | none =>
      refine (responseSetStatus_roomy 500 ready).bind fun failed again => ?_
      intro world set after ran
      obtain ⟨roomy, same⟩ := responseSetError_roomy _ again.1 world set after ran
      exact ⟨roomy, same.trans (again.2.trans kept.2)⟩
  | some string =>
      refine (newBuffer_fits string).bind fun body fits => .pure ⟨⟨kept.1.status, ?_⟩, kept.2⟩
      intro buffer inside
      cases inside
      exact fits

theorem onWorld_ensures {α : Type} {post : α → Prop} {program : Program World α}
    (ensures : Program.Ensures post program) : Program.Ensures post (onWorld program) :=
  ensures.zoom

/-- Of the buffers of a handled response only the header that closes the connection has no room
for its text. -/
theorem responseHandle_overruns_once {machine after : Machine} {handled : Response}
    (roomy : this.Roomy) (ran : responseHandle env this machine = .returned handled after) :
    handled.Roomy ∧ ∀ header ∈ handled.headers, (header.Fits ↔ header.text ≠ headerConnectionClose) := by
  obtain ⟨status, oldHeaders, jsonBody, body, req, resString⟩ := this
  obtain ⟨headed, middle, started, rest⟩ := Program.bind_eq_returned.mp ran
  obtain ⟨world, same⟩ := responseSetHeaders_run env _ machine.world
  rw [run_onWorld, same] at started
  cases started
  have ready : Response.Roomy ⟨status, responseHeaders (env.asctime machine.world.requestCounter),
      jsonBody, body, req, resString⟩ := ⟨roomy.status, roomy.body⟩
  have kept : handled.Roomy ∧
      handled.headers = responseHeaders (env.asctime machine.world.requestCounter) := by
    cases req with
    | none =>
        have refused : Program.Ensures (fun set : Response => set.Roomy ∧
            set.headers = responseHeaders (env.asctime machine.world.requestCounter)) (do
            let this ← responseSetStatus 400 ⟨status,
              responseHeaders (env.asctime machine.world.requestCounter), jsonBody, body, none, resString⟩
            responseSetError (text "Empty request received.") this) := by
          refine (responseSetStatus_roomy 400 ready).bind fun stated kept => ?_
          intro state set last ended
          obtain ⟨roomy, again⟩ := responseSetError_roomy _ kept.1 state set last ended
          exact ⟨roomy, again.trans kept.2⟩
        exact onWorld_ensures refused _ _ _ rest
    | some req =>
        obtain ⟨brokerRes, answered, _, filled⟩ := Program.bind_eq_returned.mp rest
        cases brokerRes with
        | none => cases filled
        | some brokerRes => exact onWorld_ensures (responseFill_roomy env brokerRes ready) _ _ _ filled
  refine ⟨kept.1, ?_⟩
  rw [kept.2]
  have date : (dateHeader (env.asctime machine.world.requestCounter)) ≠ headerConnectionClose := by
    intro equal
    have first := Option.some.inj (congrArg List.head? equal)
    exact absurd first (show (68 : UInt8) ≠ 67 by decide)
  simp only [responseHeaders, List.forall_mem_cons, Buffer.Fits, Nat.le_refl, true_iff]
  exact ⟨by decide, by decide, by decide, by decide, date, by simp⟩

end Bmb.Http
