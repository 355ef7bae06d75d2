import Orynx.Lib.Machine

/-! # Requests over the websocket

`server/internal/daemon/wsrpc.go` and the connection of `wakeup.go`: the daemon sends requests over
the websocket that it keeps open to the server, and claims its tasks so before it asks over HTTP.
Calls, the writer and the reader of each connection, and the claim cycles take their steps in any
order; what a mutex makes one is one step.
-/

namespace Orynx.Daemon

open Lib

/-! ## Frames -/

/-- The part of `wsOutbound` that a caller and the writer race for. -/
structure Outbound where
  sent : Bool := false
  canceled : Bool := false
deriving DecidableEq, Repr

/-- `beginWrite`: whether the frame is to be written. -/
def Outbound.beginWrite (o : Outbound) : Outbound × Bool :=
  if o.canceled then (o, false) else ({ o with sent := true }, true)

/-- `cancel`: whether the frame was still pending. -/
def Outbound.cancel (o : Outbound) : Outbound × Bool :=
  if o.sent then (o, false) else ({ o with canceled := true }, true)

/-- What is queued for the writer; a request is known by its call. -/
inductive Frame where
  | heartbeat
  | request (id : Nat)
deriving DecidableEq, Repr

/-! ## Connections -/

/-- Where `runWSWriter` is. -/
inductive Writer where
  | idle
  | pulled (frame : Frame)
  | writing (frame : Frame)
  | draining
  | done
deriving DecidableEq, Repr

/-- How far the deferred function of `runTaskWakeupConnection` has come. -/
inductive Teardown where
  | live
  | socketClosed
  | detached
  | sendClosed
  | writesClosed
deriving DecidableEq, Repr

structure Conn where
  generation : Nat
  writeBufSize : Nat
  writes : List Frame := []
  writer : Writer := .idle
  socketOpen : Bool := true
  teardown : Teardown := .live
deriving Repr

/-- `sendClosed`. -/
def Conn.sendClosed (conn : Conn) : Bool :=
  conn.teardown == .sendClosed || conn.teardown == .writesClosed

/-- The non-blocking send of a queue. -/
def Conn.push (conn : Conn) (frame : Frame) : Option Conn :=
  if conn.writes.length < conn.writeBufSize then
    some { conn with writes := conn.writes ++ [frame] }
  else none

/-! ## Calls -/

/-- `RPCResponsePayload`. -/
structure Response where
  requestId : Nat
  status : Int
  body : String
  error : String
deriving DecidableEq, Repr

/-- A 2xx status. -/
def Response.ok (resp : Response) : Bool := 200 ≤ resp.status && resp.status < 300

/-- `errWSRPCUnavailable` and `errWSRPCWriteBufferFull`. -/
inductive SendError where
  | unavailable
  | writeBufferFull
deriving DecidableEq, Repr

inductive CallError where
  | marshal
  | unavailable
  | send (cause : SendError)
  | uncertain
  | decode
  | server (msg : String)
  | timeout
  | context
deriving DecidableEq, Repr

/-- What a call returns, and what it leaves in the caller's variable. -/
structure Result (α : Type) where
  status : Int := 0
  err : Option CallError := none
  resp : Option α := none
deriving DecidableEq, Repr

/-- Where a call is; in `returned` its deferred function is still to run. -/
inductive Phase (α : Type) where
  | started
  | registered (sender : Nat)
  | waiting
  | returned (r : Result α)
  | done (r : Result α)
deriving DecidableEq, Repr

structure Call (α : Type) where
  requireRPCV1 : Bool
  phase : Phase α := .started
  item : Option Outbound := none
  chan : Option Response := none
  closed : Bool := false

/-! ## Claim cycles -/

/-- Where `ClaimTasksWSFirst` is. -/
inductive Stage (α : Type) where
  | begun
  | checking
  | calling (id : Nat)
  | http
  | legacy
  | ended (resp : Option α)
deriving DecidableEq, Repr

/-- `call` and `http` remember the request over the websocket and that HTTP was used. -/
structure Cycle (α : Type) where
  stage : Stage α := .begun
  call : Option Nat := none
  http : Bool := false

inductive Decision (α : Type) where
  | tasks (resp : Option α)
  | skip
  | http
deriving DecidableEq, Repr

/-- What `ClaimTasksWSFirst` does with the result of its call. -/
def afterCall {α : Type} (r : Result α) : Decision α :=
  match r.err with
  | none => .tasks r.resp
  | some .uncertain => .skip
  | some _ => .http

inductive HttpAnswer (α : Type) where
  | tasks (resp : α)
  | notFound
  | failed

/-! ## The state -/

/-- `wsRPCClient`; a sender is known by its connection. -/
structure Client where
  pending : List Nat := []
  sendFrame : Option Nat := none
  rpcV1Supported : Bool := false
  generation : Nat := 0
deriving Repr

/-- `written`, `negotiated` and `answers` are what has happened: the frames given to a socket, the
connections whose server has named `rpc-v1`, and what servers have answered. -/
structure State (α : Type) where
  client : Client := {}
  conns : List Conn := []
  calls : List (Call α) := []
  cycles : List (Cycle α) := []
  batchClaimUnsupported : Bool := false
  written : List (Nat × Nat) := []
  negotiated : List Nat := []
  answers : List Response := []

namespace State

variable {α : Type} (s : State α)

def setConn (k : Nat) (conn : Conn) : State α := { s with conns := s.conns.set k conn }

def setCall (id : Nat) (call : Call α) : State α := { s with calls := s.calls.set id call }

def setCycle (c : Nat) (cycle : Cycle α) : State α := { s with cycles := s.cycles.set c cycle }

/-- `attach`: the channels of all pending calls are closed. -/
def attach (sendFrame : Option Nat) : State α :=
  { s with
    client := {
      pending := []
      sendFrame := sendFrame
      rpcV1Supported := false
      generation := s.client.generation + 1 }
    calls := s.calls.mapIdx fun id call =>
      if s.client.pending.contains id then { call with closed := true } else call }

/-- `markRPCV1Supported`. -/
def markRPCV1Supported (generation : Nat) : State α :=
  if s.client.sendFrame.isSome ∧ s.client.generation = generation then
    { s with client := { s.client with rpcV1Supported := true } }
  else s

/-- `supportsRPCV1`. -/
def supportsRPCV1 : Bool := s.client.sendFrame.isSome && s.client.rpcV1Supported

/-! ### The steps of a connection -/

/-- A connection is made and attached. -/
def connect (runtimes : Nat) : State α :=
  let attached := s.attach (some s.conns.length)
  { attached with
    conns := s.conns ++ [{
      generation := attached.client.generation
      writeBufSize := max 16 (2 * runtimes) }] }

/-- `sendWSHeartbeats` for one runtime. -/
def heartbeat (k : Nat) : Option (State α) := do
  let conn ← s.conns[k]?
  if conn.teardown = .writesClosed then none else (conn.push .heartbeat).map (s.setConn k)

def pull (k : Nat) : Option (State α) := do
  let conn ← s.conns[k]?
  match conn.writer, conn.writes with
  | .idle, frame :: rest => some (s.setConn k { conn with writer := .pulled frame, writes := rest })
  | _, _ => none

/-- The writer looks whether the frame that it has pulled was cancelled. -/
def beginWrite (k : Nat) : Option (State α) := do
  let conn ← s.conns[k]?
  match conn.writer with
  | .pulled .heartbeat => some (s.setConn k { conn with writer := .writing .heartbeat })
  | .pulled (.request id) => do
    let call ← s.calls[id]?
    let item ← call.item
    let (item', go) := item.beginWrite
    some ((s.setCall id { call with item := some item' }).setConn k
      { conn with writer := if go then .writing (.request id) else .idle })
  | _ => none

/-- `WriteMessage`; when it fails the writer closes the socket and drops all further frames. -/
def writeMessage (k : Nat) (ok : Bool) : Option (State α) := do
  let conn ← s.conns[k]?
  match conn.writer with
  | .writing frame =>
    let conn' :=
      if ok && conn.socketOpen then { conn with writer := .idle }
      else { conn with writer := .draining, socketOpen := false }
    let written := match frame with
      | .heartbeat => s.written
      | .request id => (k, id) :: s.written
    some { s.setConn k conn' with written := written }
  | _ => none

def drain (k : Nat) : Option (State α) := do
  let conn ← s.conns[k]?
  match conn.writer, conn.writes with
  | .draining, _ :: rest => some (s.setConn k { conn with writes := rest })
  | _, _ => none

/-- The queue is closed and empty. -/
def writerDone (k : Nat) : Option (State α) := do
  let conn ← s.conns[k]?
  if (conn.writer = .idle ∨ conn.writer = .draining) ∧ conn.writes = [] ∧
      conn.teardown = .writesClosed then
    some (s.setConn k { conn with writer := .done })
  else none

/-- The next statement of the deferred function. -/
def tearDown (k : Nat) : Option (State α) := do
  let conn ← s.conns[k]?
  match conn.teardown with
  | .live => some (s.setConn k { conn with socketOpen := false, teardown := .socketClosed })
  | .socketClosed => some ((s.attach none).setConn k { conn with teardown := .detached })
  | .detached => some (s.setConn k { conn with teardown := .sendClosed })
  | .sendClosed => some (s.setConn k { conn with teardown := .writesClosed })
  | .writesClosed => none

/-- A heartbeat ack with `rpc-v1` is read from a connection. -/
def ack (k : Nat) : Option (State α) := do
  let conn ← s.conns[k]?
  some { s.markRPCV1Supported conn.generation with negotiated := k :: s.negotiated }

/-- `deliver`. -/
def deliver (resp : Response) : State α :=
  let answered := { s with answers := resp :: s.answers }
  match s.calls[resp.requestId]? with
  | none => answered
  | some call =>
    if s.client.pending.contains resp.requestId ∧ call.chan = none then
      answered.setCall resp.requestId { call with chan := some resp }
    else answered

/-! ### The steps of a call -/

/-- The lock of `call`: the capability is checked and the sender taken. -/
def register (id : Nat) : Option (State α) := do
  let call ← s.calls[id]?
  match call.phase with
  | .started =>
    match s.client.sendFrame with
    | none => some (s.setCall id { call with phase := .done { err := some .unavailable } })
    | some k =>
      if call.requireRPCV1 && !s.client.rpcV1Supported then
        some (s.setCall id { call with phase := .done { err := some .unavailable } })
      else
        some { s.setCall id { call with phase := .registered k } with
          client := { s.client with pending := id :: s.client.pending } }
  | _ => none

/-- The sender that was taken. -/
def send (id : Nat) : Option (State α) := do
  let call ← s.calls[id]?
  match call.phase with
  | .registered k => do
    let conn ← s.conns[k]?
    if conn.sendClosed then
      some (s.setCall id { call with phase := .returned { err := some (.send .unavailable) } })
    else
      match conn.push (.request id) with
      | none =>
        some (s.setCall id
          { call with phase := .returned { err := some (.send .writeBufferFull) } })
      | some conn' =>
        some ((s.setCall id { call with phase := .waiting, item := some {} }).setConn k conn')
  | _ => none

/-- A call that waits is left: the frame is cancelled, and the error is that of `giveUp` or
another one. -/
def leave (id : Nat) (errOf : Bool → CallError) : Option (State α) := do
  let call ← s.calls[id]?
  match call.phase, call.item with
  | .waiting, some item =>
    let (item', pending) := item.cancel
    some (s.setCall id
      { call with item := some item', phase := .returned { err := some (errOf pending) } })
  | _, _ => none

/-- `giveUp`. -/
def giveUp (pending : Bool) : CallError := if pending then .unavailable else .uncertain

/-- The timer. -/
def timeout (id : Nat) : Option (State α) :=
  s.leave id fun pending => if giveUp pending = .uncertain then .uncertain else .timeout

/-- The end of the context. -/
def cancelContext (id : Nat) : Option (State α) := s.leave id fun _ => .context

/-- The result of a call that was answered. -/
def resultOf (decode : String → Option α) (resp : Response) : Result α :=
  if resp.ok then
    if resp.body = "" then { status := resp.status }
    else
      match decode resp.body with
      | some r => { status := resp.status, resp := some r }
      | none => { status := resp.status, err := some .decode }
  else
    { status := resp.status
      err := some (.server
        (if resp.error = "" then "ws rpc status " ++ toString resp.status else resp.error)) }

/-- The channel has a response, or was closed. -/
def receive (decode : String → Option α) (id : Nat) : Option (State α) := do
  let call ← s.calls[id]?
  match call.phase, call.chan with
  | .waiting, some resp =>
    some (s.setCall id { call with chan := none, phase := .returned (resultOf decode resp) })
  | .waiting, none => if call.closed then s.leave id giveUp else none
  | _, _ => none

/-- The deferred function of a call. -/
def unregister (id : Nat) : Option (State α) := do
  let call ← s.calls[id]?
  match call.phase with
  | .returned r =>
    some { s.setCall id { call with phase := .done r } with
      client := { s.client with pending := s.client.pending.filter (· != id) } }
  | _ => none

/-! ### The steps of a claim cycle -/

def checkBatch (c : Nat) : Option (State α) := do
  let cycle ← s.cycles[c]?
  match cycle.stage with
  | .begun =>
    if s.batchClaimUnsupported then
      some (s.setCycle c { cycle with stage := .legacy, http := true })
    else some (s.setCycle c { cycle with stage := .checking })
  | _ => none

def checkSupport (c : Nat) : Option (State α) := do
  let cycle ← s.cycles[c]?
  match cycle.stage with
  | .checking =>
    if s.supportsRPCV1 then
      some { s.setCycle c { cycle with
          stage := .calling s.calls.length, call := some s.calls.length } with
        calls := s.calls ++ [{ requireRPCV1 := true }] }
    else some (s.setCycle c { cycle with stage := .http, http := true })
  | _ => none

/-- The call has returned. -/
def decideCall (c : Nat) : Option (State α) := do
  let cycle ← s.cycles[c]?
  match cycle.stage with
  | .calling id => do
    let call ← s.calls[id]?
    match call.phase with
    | .done r =>
      match afterCall r with
      | .tasks resp => some (s.setCycle c { cycle with stage := .ended resp })
      | .skip => some (s.setCycle c { cycle with stage := .ended none })
      | .http => some (s.setCycle c { cycle with stage := .http, http := true })
    | _ => none
  | _ => none

def httpAnswer (c : Nat) (answer : HttpAnswer α) : Option (State α) := do
  let cycle ← s.cycles[c]?
  match cycle.stage with
  | .http =>
    match answer with
    | .tasks resp => some (s.setCycle c { cycle with stage := .ended (some resp) })
    | .failed => some (s.setCycle c { cycle with stage := .ended none })
    | .notFound =>
      some { s.setCycle c { cycle with stage := .legacy } with batchClaimUnsupported := true }
  | _ => none

def legacyAnswer (c : Nat) (resp : Option α) : Option (State α) := do
  let cycle ← s.cycles[c]?
  match cycle.stage with
  | .legacy => some (s.setCycle c { cycle with stage := .ended resp })
  | _ => none

end State

/-! ## The machine -/

/-- `reprobe`: a connection that has been attached clears the flag. -/
inductive Act (α : Type) where
  | connect (runtimes : Nat)
  | reprobe
  | heartbeat (k : Nat)
  | pull (k : Nat)
  | beginWrite (k : Nat)
  | writeMessage (k : Nat) (ok : Bool)
  | drain (k : Nat)
  | writerDone (k : Nat)
  | tearDown (k : Nat)
  | ack (k : Nat)
  | deliver (resp : Response)
  | startCall (requireRPCV1 encodes : Bool)
  | register (id : Nat)
  | send (id : Nat)
  | receive (id : Nat)
  | timeout (id : Nat)
  | cancelContext (id : Nat)
  | unregister (id : Nat)
  | poll
  | checkBatch (c : Nat)
  | checkSupport (c : Nat)
  | decideCall (c : Nat)
  | httpAnswer (c : Nat) (answer : HttpAnswer α)
  | legacyAnswer (c : Nat) (resp : Option α)

section Machine

variable {α : Type} (decode : String → Option α)

def next (s : State α) : Act α → Option (State α)
  | .connect runtimes => some (s.connect runtimes)
  | .reprobe => some { s with batchClaimUnsupported := false }
  | .heartbeat k => s.heartbeat k
  | .pull k => s.pull k
  | .beginWrite k => s.beginWrite k
  | .writeMessage k ok => s.writeMessage k ok
  | .drain k => s.drain k
  | .writerDone k => s.writerDone k
  | .tearDown k => s.tearDown k
  | .ack k => s.ack k
  | .deliver resp => some (s.deliver resp)
  | .startCall requireRPCV1 encodes =>
    let phase : Phase α := if encodes then .started else .done { err := some .marshal }
    some { s with calls := s.calls ++ [{ requireRPCV1 := requireRPCV1, phase := phase }] }
  | .register id => s.register id
  | .send id => s.send id
  | .receive id => s.receive decode id
  | .timeout id => s.timeout id
  | .cancelContext id => s.cancelContext id
  | .unregister id => s.unregister id
  | .poll => some { s with cycles := s.cycles ++ [{}] }
  | .checkBatch c => s.checkBatch c
  | .checkSupport c => s.checkSupport c
  | .decideCall c => s.decideCall c
  | .httpAnswer c answer => s.httpAnswer c answer
  | .legacyAnswer c resp => s.legacyAnswer c resp

def machine : Machine (State α) (Act α) where
  Init s := s = {}
  next := next decode

end Machine

end Orynx.Daemon
