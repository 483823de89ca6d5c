import Bmb.Broker
import Bmb.Http.Request

namespace Bmb.Http

open Bmb.Base

/-! `response.c`: from a parsed request to the text that is sent. -/

/-- The environment of a thread, with the text that `asctime` gives after a number of
connections. -/
structure ServerEnvironment extends BrokerEnvironment where
  asctime : Nat → Bytes

/-- A block that has been allocated for a string, and the string copied into it. -/
structure Buffer where
  size : Nat
  text : Bytes
deriving DecidableEq

structure Response where
  status : Option Buffer
  headers : List Buffer
  jsonBody : Option Json
  body : Option Buffer
  req : Option Request
  resString : Option Buffer

def protocol : Bytes := text "HTTP/1.1"

def headerAllowOrigin : Bytes := text "Access-Control-Allow-Origin: *"
def headerConnectionClose : Bytes := text "Connection: close"
def headerContentType : Bytes := text "Content-type: text/plain; charset=UTF-8"
def headerHost : Bytes := text "Host: localhost:8080"

def newline : UInt8 := 10

/-- Allocate a block and copy a string into it. -/
def newBuffer (size : Nat) (text : Bytes) : Program World Buffer := do
  memAlloc
  pure ⟨size, text⟩

variable (env : ServerEnvironment)

def responseNew (req : Option Request) : Program World Response := do
  memAlloc
  let jsonBody ← cJSONCreate env.toBrokerEnvironment (.object [])
  pure { status := none, headers := [], jsonBody, body := none, req, resString := none }

/-- The text behind a status code; other codes count as 200. -/
def statusText (code : Nat) : Bytes :=
  if code = 200 then text "200 OK"
  else if code = 204 then text "204 No Content"
  else if code = 400 then text "400 Bad request"
  else if code = 500 then text "500 Internal Server Error"
  else text "200 OK"

/-- A status that has been set before is not freed. -/
def responseSetStatus (code : Nat) (this : Response) : Program World Response := do
  let status ← newBuffer (protocol.length + (statusText code).length + 2)
    (protocol ++ text " " ++ statusText code)
  pure { this with status := some status }

def responseSetHeaders (this : Response) : Program World Response := do
  -- the array of the headers
  memAlloc
  let allowOrigin ← newBuffer (headerAllowOrigin.length + 1) headerAllowOrigin
  -- `strlen(HEADER_CONNECTION_CLOSE + 1)` is the length without the first character
  let connectionClose ← newBuffer headerConnectionClose.tail.length headerConnectionClose
  let contentType ← newBuffer (headerContentType.length + 1) headerContentType
  let host ← newBuffer (headerHost.length + 1) headerHost
  let world ← .read
  let time := env.asctime world.requestCounter
  let dateHead := text "Date: "
  let date ← newBuffer (dateHead.length + time.length + 1) (dateHead ++ time)
  let dateHeader ← newBuffer (date.text.length + 1) date.text
  memFree
  pure { this with headers := [allowOrigin, connectionClose, contentType, host, dateHeader] }

def responseSetError (errorMessage : Bytes) (this : Response) : Program World Response := do
  memFreeNullable this.body
  let body ← newBuffer (errorMessage.length + 1) errorMessage
  pure { this with body := some body }

def brokerRequest (body : RequestBody) : BrokerRequest where
  type := body.get (text "type")
  queue := none
  queueName := body.get (text "queue")
  index :=
    match body.get (text "index") with
    | none => 0
    | some index => toUInt16 (atoi index)
  data := body.get (text "data")

def responseGetResponse (env : BrokerEnvironment) (body : RequestBody) :
    Program Machine (Option BrokerResponse) :=
  brokerDispatch env (brokerRequest body)

/-- `cJSON_Print`, which prints nothing without an item. -/
def cJSONPrintNullable : Option Json → Program World (Option Bytes)
  | none => pure none
  | some item => cJSONPrint env.toBrokerEnvironment item

/-- `cJSON_AddItemToObject` of an item that may be `NULL`. -/
def cJSONAddNullable (key : Bytes) (item object : Option Json) : Option Json :=
  match item with
  | none => object
  | some item => cJSONAddItem key item object

/-- The end of `Response_handle`, when the broker has answered. -/
def responseFill (brokerRes : BrokerResponse) (this : Response) : Program World Response := do
  let this ← responseSetStatus brokerRes.code this
  let jsonBody := cJSONAddNullable (text "success") brokerRes.success this.jsonBody
  let jsonBody := cJSONAddNullable (text "payload") brokerRes.payload jsonBody
  let this := { this with jsonBody }
  match ← cJSONPrintNullable env jsonBody with
  | none => do
      let this ← responseSetStatus 500 this
      responseSetError (text "Failed to create final JSON response.") this
  | some jsonResponseString => do
      let body ← newBuffer (jsonResponseString.length + 1) jsonResponseString
      pure { this with body := some body }

def responseHandle (this : Response) : Program Machine Response := do
  let this ← onWorld (responseSetHeaders env this)
  match this.req with
  | none =>
      onWorld do
        let this ← responseSetStatus 400 this
        responseSetError (text "Empty request received.") this
  | some req => do
      match ← responseGetResponse env.toBrokerEnvironment req.body with
      -- the pointers of a response that has not been assigned are used
      | none => .stop .danglingPointer
      | some brokerRes => onWorld (responseFill env brokerRes this)

/-- `Response_assemble`, which adds the lengths of the headers in 16 bits. -/
def responseAssemble (this : Response) : Program World Response := do
  let headersLength := toUInt16 ((this.headers.map fun header => header.text.length + 1).sum : Nat)
  match this.status, this.body with
  | some status, some body => do
      let totalSize := status.text.length + 1 + headersLength + body.text.length + 1
      let head := status.text ++ newline :: this.headers.flatMap (·.text ++ [newline])
      let resString ← newBuffer totalSize (head ++ body.text)
      pure { this with resString := some resString }
  | _, _ => .stop .nullPointer

def responseGet (this : Response) : Option Bytes := this.resString.map Buffer.text

def responseDestruct (this : Response) : Program World Unit := do
  memFreeNullable this.status
  -- the headers and their array
  .modify (·.release (this.headers.length + if this.headers = [] then 0 else 1))
  memFreeNullable this.body
  memFreeNullable this.resString
  memFree

end Bmb.Http
