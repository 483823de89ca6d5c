import Bmb.Http.Parsing
import Bmb.Http.Response

namespace Bmb.Server

open Bmb.Base Bmb.Http

/-! `s_thread.c`: what a thread receives, parses and sends. -/

def clientMessageSize : Nat := 2000

/-- The stack of a thread before it receives anything: the bytes of `msg`, and those behind
it up to a NUL, where every string ends that begins in `msg`. -/
structure Stack where
  msg : Bytes
  behind : Bytes
  size : msg.length = clientMessageSize
  ended : 0 ∈ behind.take 60000

/-- What one `recv` stores. -/
structure Arrival where
  bytes : Bytes
  fits : bytes.length ≤ clientMessageSize

/-- The memory from the beginning of `msg` on, after `recv` has stored what arrived.  The
number of bytes is not kept, and nothing is put behind them. -/
def received (arrived : Bytes) (stack : Stack) : Bytes :=
  arrived ++ stack.msg.drop arrived.length ++ stack.behind

/-- The request that `broker_thread` works on. -/
def threadRequest (arrival : Arrival) (stack : Stack) : Program World (Option Request) :=
  requestParse (received arrival.bytes stack)

def requestDestructNullable : Option Request → Program World Unit
  | none => pure ()
  | some req => requestDestruct req

/-- `broker_thread` from `recv` on, and what it sends. -/
def brokerThread (env : ServerEnvironment) (arrival : Arrival) (stack : Stack) :
    Program Machine (Option Bytes) := do
  let req ← onWorld (threadRequest arrival stack)
  let res ← onWorld (responseNew env req)
  let res ← responseHandle env res
  let res ← onWorld (responseAssemble res)
  onWorld (requestDestructNullable req)
  onWorld (responseDestruct res)
  -- the connection and the arguments of the thread
  onWorld memFree
  onWorld memFree
  pure (responseGet res)

end Bmb.Server
