import Bmb.Base.Search
import Bmb.Util

namespace Bmb.Http

open Bmb.Base

/-! `request_pair.c`, `request_body.c` and `request.c`: the parameters of a request and how
they are found in the bytes that have been received. -/

structure RequestPair where
  key : Bytes
  value : Bytes
deriving DecidableEq

structure RequestBody where
  pairs : List RequestPair
deriving DecidableEq

namespace RequestBody

def new : RequestBody := ⟨[]⟩

def add (this : RequestBody) (pair : RequestPair) : RequestBody := ⟨this.pairs ++ [pair]⟩

def get (this : RequestBody) (key : Bytes) : Option Bytes :=
  (this.pairs.find? fun pair => pair.key == key).map RequestPair.value

/-- Add a parameter that `Request_extract_data` may not have found. -/
def addExtracted (this : RequestBody) (key : Bytes) : Option Bytes → RequestBody
  | none => this
  | some value => this.add ⟨key, value⟩

/-- The body `Request_parse` builds from the parameters it extracts, in its order. -/
def build (type queue data index : Option Bytes) : RequestBody :=
  (((new.addExtracted (text "type") type).addExtracted (text "queue") queue).addExtracted
    (text "data") data).addExtracted (text "index") index

end RequestBody

structure Request where
  method : Bytes
  body : RequestBody
deriving DecidableEq

/-! ## Extraction -/

/-- The bytes that end a value: those outside `[^&[:space:]]`. -/
def isDelimiter (byte : UInt8) : Bool := byte == 38 || isSpace byte

/-- A key and the equals sign behind it. -/
def keyWord (key : Bytes) : Bytes := key ++ [61]

/-- `regexec` of a string with the pattern `(key=)([^&[:space:]]*)`: where the match of its
second group starts and ends. -/
def regexec (key request : Bytes) : Option (Nat × Nat) :=
  (firstAt (keyWord key) request).map fun place =>
    let start := place + (keyWord key).length
    (start, start + ((request.drop start).takeWhile fun byte => !isDelimiter byte).length)

/-- The value that `Request_extract_data` copies, computed in 16 bits. -/
def extractedValue (request key : Bytes) : Option Bytes :=
  match regexec key request with
  | none => none
  | some (rmSo, rmEo) =>
      let start := toUInt16 rmSo
      let finish := toUInt16 rmEo
      let diff := toUInt16 (finish - start)
      if diff ≤ 0 then none else some ((request.drop start).take diff)

/-- `Request_extract_data`.  The pattern is allocated and freed. -/
def requestExtractData (request key : Bytes) : Program World (Option RequestPair) := do
  memAlloc
  memFree
  match extractedValue request key with
  | none => pure none
  | some data => do
      memAlloc
      memAlloc
      pure (some ⟨key, data⟩)

/-- The method that the loop of `Request_extract_method` reads from the memory that begins
with the request.  `strlen` needs a NUL somewhere in it.  The loop ends at the first blank
only, so it can pass the end of the string, and then of the memory, and its 16-bit index can
start anew. -/
def extractedMethod (memory : Bytes) : Except Trap (Option Bytes) :=
  if 0 ∉ memory then .error .outOfBounds
  else if toUInt16 (cString memory).length = 0 then .ok none
  else
    match (memory.take 65536).findIdx? (· == 32) with
    | some 0 => .error .nullPointer
    | some place => .ok (some (cString (memory.take place)))
    | none => if memory.length < 65536 then .error .outOfBounds else .error .divergence

def requestExtractMethod (memory : Bytes) : Program World (Option Bytes) :=
  match extractedMethod memory with
  | .ok none => pure none
  | .ok (some method) => do
      memAlloc
      pure (some method)
  | .error trap => .stop trap

/-! ## Parsing -/

/-- `RequestBody_add`, which allocates the array with its first element. -/
def requestBodyAdd (body : RequestBody) (pair : RequestPair) : Program World RequestBody := do
  if body.pairs = [] then memAlloc else pure ()
  pure (body.add pair)

def addExtractedPair (body : RequestBody) : Option RequestPair → Program World RequestBody
  | none => pure body
  | some pair => requestBodyAdd body pair

def requestBodyDestruct (body : RequestBody) : Program World Unit :=
  .modify (·.release (2 * body.pairs.length + (if body.pairs = [] then 0 else 1) + 1))

/-- `Request_destruct` of a request that has a method. -/
def requestDestruct (request : Request) : Program World Unit := do
  requestBodyDestruct request.body
  memFree
  memFree

/-- The end of the parsing, where the method decides about one more parameter. -/
def parameterByMethod (method request : Bytes) (body : RequestBody) : Program World (Option Request) :=
  if method = text "POST" then do
    let body ← addExtractedPair body (← requestExtractData request (text "data"))
    pure (some ⟨method, body⟩)
  else if method = text "GET" then do
    let body ← addExtractedPair body (← requestExtractData request (text "index"))
    pure (some ⟨method, body⟩)
  else pure (some ⟨method, body⟩)

/-- `Request_parse` of the string at the beginning of a memory. -/
def requestParse (memory : Bytes) : Program World (Option Request) := do
  let req := cString memory
  memAlloc
  memAlloc
  match ← requestExtractMethod memory with
  | none => do
      requestBodyDestruct .new
      memFree
      pure none
  | some method => do
      let body ← addExtractedPair .new (← requestExtractData req (text "type"))
      let body ← addExtractedPair body (← requestExtractData req (text "queue"))
      parameterByMethod method req body

end Bmb.Http
