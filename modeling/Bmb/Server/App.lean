import Bmb.Server.Thread

namespace Bmb.Server

open Bmb.Base Bmb.Http

/-! `server.c` and `app.c`: the start of the process, its loop and its end. -/

variable (env : ServerEnvironment)

/-- `Server_init`; the fields of the socket address are left out. -/
def serverInit : Program Machine Unit := do
  brokerInit env.toBrokerEnvironment
  onWorld (.modify fun world => { world with requestCounter := 0 })

def appInit : Program Machine Unit := do
  onWorld memAlloc
  serverInit env

/-- The blocks that `main` allocates before it waits for a connection: the arguments of the
thread and the connection. -/
def awaitConnection : Program Machine Unit := do
  onWorld memAlloc
  onWorld memAlloc

def serverAccept : Program Machine Unit :=
  onWorld (.modify fun world => { world with requestCounter := world.requestCounter + 1 })

/-- One round of `main`, up to the end of the thread that it creates. -/
def serveConnection (arrival : Arrival) (stack : Stack) : Program Machine (Option Bytes) := do
  awaitConnection
  serverAccept
  brokerThread env arrival stack

def serverDestruct : Program Machine Unit := do
  onWorld memFree
  onWorld memFree

/-- The numbers that `app_close` prints. -/
structure Report where
  requestCount : Nat
  memoryAllocations : Nat
  memoryFreed : Nat
deriving DecidableEq

def appClose : Program Machine Report := do
  queuePoolDestruct
  let closing ← .read
  serverDestruct
  let closed ← .read
  pure
    { requestCount := closing.world.requestCounter
      memoryAllocations := closed.world.memAllocated
      memoryFreed := closed.world.memFreed }

end Bmb.Server
