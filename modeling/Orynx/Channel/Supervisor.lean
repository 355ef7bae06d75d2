import Mathlib.Data.List.TakeWhile
import Mathlib.Logic.Function.Basic
import Orynx.Lib.Machine

/-! # The channel supervisor

`server/internal/integrations/channel/engine/supervisor.go` with the lease statements of
`channel.sql`: each server process sweeps the installations and keeps a goroutine for each, which
leases the installation, connects, renews the lease from a second goroutine, and releases it.

* `Goroutine.next`: what a supervisor goroutine does to its installation's row, one statement or one
  read of its context a step;
* `next`: any number of processes with their sweeps, rotations, revocations and shutdowns, and the
  clock that the processes and the database share.

A statement is executed before its call returns, if it is executed at all.
-/

namespace Orynx.Supervisor

open Lib

/-! ## Installations -/

/-- A row of `channel_installation`. -/
structure Installation where
  channelType : String
  fingerprint : String
  active : Bool := true
  /-- `ws_lease_token` and `ws_lease_expires_at`. -/
  lease : Option (String × Nat) := none
deriving DecidableEq, Repr

/-- Whether the lease can be had: nobody holds it, it has expired, or it is the caller's. -/
def Installation.grants (row : Installation) (now : Nat) (token : String) : Bool :=
  match row.lease with
  | none => true
  | some (holder, expires) => decide (expires < now) || decide (holder = token)

def AcquireChannelWSLease (now : Nat) (token : String) (expires : Nat) (row : Installation) :
    Option Installation :=
  if row.active && row.grants now token then some { row with lease := some (token, expires) }
  else none

def ReleaseChannelWSLease (token : String) (row : Installation) : Installation :=
  if row.lease.map Prod.fst = some token then { row with lease := none } else row

/-- How a statement ends: with its result, executed but with an error, or without effect. -/
inductive Answer where
  | reply
  | lost
  | failed
deriving DecidableEq, Repr

inductive LeaseResult where
  | leased
  /-- `ErrLeaseNotAcquired`. -/
  | held
  | error
deriving DecidableEq, Repr

/-- `acquireLease` on a row, which may have been deleted. -/
def acquireLease (now : Nat) (token : String) (expires : Nat) (row : Option Installation) :
    Answer → Option Installation × LeaseResult
  | .failed => (row, .error)
  | .lost => ((row.bind (AcquireChannelWSLease now token expires)).or row, .error)
  | .reply =>
    match row.bind (AcquireChannelWSLease now token expires) with
    | some row' => (some row', .leased)
    | none => (row, .held)

def releaseLease (token : String) (row : Option Installation) : Answer → Option Installation
  | .failed => row
  | _ => row.map (ReleaseChannelWSLease token)

/-! ## Supervisor goroutines -/

/-- Where `renewLeaseUntil` is. -/
inductive Renewal where
  | waiting
  | asking (expires : Nat)
  | done
deriving DecidableEq, Repr

/-- Where `supervise` is. The time is the expiry that the holder was last granted. -/
inductive Phase where
  | top
  | acquiring (expires : Nat)
  | building (leased : Nat)
  /-- In `Connect`. -/
  | connected (leased : Nat) (runCancelled : Bool) (renewal : Renewal)
  /-- `Connect` has returned, the renewals have yet to end. -/
  | returned (renewal : Renewal)
  | releasing
  | sleeping
  /-- Before the deferred clean-up. -/
  | leaving
  | exited
deriving DecidableEq, Repr

structure Goroutine where
  process : Nat
  nodeID : String
  /-- The installation's id. -/
  inst : Nat
  gen : Nat
  /-- `ctx` is done. -/
  cancelled : Bool
  phase : Phase
deriving DecidableEq, Repr

def leaseToken (nodeID : String) (gen : Nat) : String := nodeID ++ "-g" ++ toString gen

def Goroutine.token (g : Goroutine) : String := leaseToken g.nodeID g.gen

inductive Event where
  /-- The head of the loop. -/
  | begin
  | acquired (a : Answer)
  /-- `registry.Build`. -/
  | built (ok : Bool)
  /-- The ticker of the renewals fires. -/
  | renew
  | renewed (a : Answer)
  /-- The renewals see that their context is done. -/
  | stopRenewing
  /-- `Connect` returns, for whatever reason. -/
  | returns
  | joined
  | released (a : Answer)
  | wake
deriving DecidableEq, Repr

/-- What a renewal leaves of a link: a refusal cancels `runCtx`, an error is logged. -/
def afterRenewal (leased : Nat) (runCancelled : Bool) (expires : Nat) : LeaseResult → Phase
  | .leased => .connected expires runCancelled .waiting
  | .held => .connected leased true .done
  | .error => .connected leased runCancelled .waiting

/-- The goroutine and the row of its installation after the event. -/
def Goroutine.next (leaseTTL now : Nat) (row : Option Installation) (g : Goroutine) (e : Event) :
    Option (Goroutine × Option Installation) :=
  match e, g.phase with
  | .begin, .top =>
    some ({ g with phase := if g.cancelled then .leaving else .acquiring (now + leaseTTL) }, row)
  | .acquired a, .acquiring expires =>
    let (row', result) := acquireLease now g.token expires row a
    some ({ g with phase := if result = .leased then .building expires else .sleeping }, row')
  | .built ok, .building leased =>
    some ({ g with phase := if ok then .connected leased false .waiting else .releasing }, row)
  | .renew, .connected leased runCancelled .waiting =>
    some ({ g with phase := .connected leased runCancelled (.asking (now + leaseTTL)) }, row)
  | .renewed a, .connected leased runCancelled (.asking expires) =>
    let (row', result) := acquireLease now g.token expires row a
    some ({ g with phase := afterRenewal leased runCancelled expires result }, row')
  | .renewed a, .returned (.asking expires) =>
    let (row', result) := acquireLease now g.token expires row a
    some ({ g with phase := .returned (if result = .held then .done else .waiting) }, row')
  | .stopRenewing, .connected leased runCancelled .waiting =>
    if runCancelled || g.cancelled then
      some ({ g with phase := .connected leased runCancelled .done }, row)
    else none
  | .stopRenewing, .returned .waiting => some ({ g with phase := .returned .done }, row)
  | .returns, .connected _ _ renewal => some ({ g with phase := .returned renewal }, row)
  | .joined, .returned .done => some ({ g with phase := .releasing }, row)
  | .released a, .releasing =>
    some ({ g with phase := .sleeping }, releaseLease g.token row a)
  | .wake, .sleeping => some ({ g with phase := if g.cancelled then .leaving else .top }, row)
  | _, _ => none

/-! ## Processes -/

/-- `supervisorEntry`; its `cancel` is found by its generation. -/
structure Entry where
  fingerprint : String
  gen : Nat
deriving DecidableEq, Repr

/-- A sweep under way: the rows to come, whether the first has been looked at for a rotation, and
the ids that are active. -/
structure Sweep where
  todo : List (Nat × Installation)
  compared : Bool
  active : List Nat

structure Process where
  nodeID : String
  supervisors : Nat → Option Entry := fun _ => none
  supervisorGen : Nat := 0
  ctxDone : Bool := false
  stopped : Bool := false
  sweep : Option Sweep := none

structure State where
  now : Nat := 0
  rows : List (Option Installation) := []
  processes : List Process := []
  goroutines : List Goroutine := []

/-- `ListActiveInstallations`. -/
def State.activeRows (s : State) : List (Nat × Installation) :=
  s.rows.zipIdx.filterMap fun x => x.1.bind fun row => if row.active then some (x.2, row) else none

/-- `entry.cancel()`. -/
def cancel (p gen : Nat) (g : Goroutine) : Goroutine :=
  if g.process = p ∧ g.gen = gen then { g with cancelled := true } else g

/-- `maybeRestartOnRotation`, and whether it dropped the entry. -/
def maybeRestartOnRotation (s : State) (p : Nat) (proc : Process) (id : Nat) (row : Installation) :
    State × Process :=
  match proc.supervisors id with
  | none => (s, proc)
  | some entry =>
    if entry.fingerprint = row.fingerprint then (s, proc)
    else
      ({ s with goroutines := s.goroutines.map (cancel p entry.gen) },
        { proc with supervisors := Function.update proc.supervisors id none })

def startSupervisor (s : State) (p : Nat) (proc : Process) (id : Nat) (row : Installation) :
    State × Process :=
  if proc.stopped then (s, proc)
  else
    match proc.supervisors id with
    | some _ => (s, proc)
    | none =>
      let gen := proc.supervisorGen + 1
      ({ s with goroutines := s.goroutines ++ [⟨p, proc.nodeID, id, gen, proc.ctxDone, .top⟩] },
        { proc with
          supervisorGen := gen
          supervisors := Function.update proc.supervisors id (some ⟨row.fingerprint, gen⟩) })

/-- The end of a sweep: what is no longer active is cancelled and dropped. -/
def reap (p : Nat) (proc : Process) (active : List Nat) (g : Goroutine) : Goroutine :=
  match proc.supervisors g.inst with
  | some entry => if g.inst ∈ active then g else cancel p entry.gen g
  | none => g

/-- The deferred clean-up of `supervise`. -/
def Process.drop (proc : Process) (id gen : Nat) : Process :=
  match proc.supervisors id with
  | some entry =>
    if entry.gen = gen then { proc with supervisors := Function.update proc.supervisors id none }
    else proc
  | none => proc

inductive Label where
  | clock (t : Nat)
  | insert (row : Installation)
  /-- A write of an installation that leaves the lease alone: its credentials or its status. -/
  | write (id : Nat) (fingerprint : String) (active : Bool)
  | delete (id : Nat)
  /-- A process starts. -/
  | launch (nodeID : String)
  | list (p : Nat)
  | compare (p : Nat)
  | start (p : Nat)
  | reap (p : Nat)
  /-- The context of `Run` is done. -/
  | shutdown (p : Nat)
  | cancelAll (p : Nat)
  | go (i : Nat) (e : Event)
  | exit (i : Nat)
deriving DecidableEq, Repr

/-- The row of an id, if it is there. -/
def State.row (s : State) (id : Nat) : Option Installation := (s.rows[id]?).join

def State.setRow (s : State) (id : Nat) (row : Option Installation) : State :=
  { s with rows := s.rows.set id row }

/-- A step of a process, which may also touch the goroutines. -/
def State.process (s : State) (p : Nat) (f : Process → Option (State × Process)) :
    Option State := do
  let proc ← s.processes[p]?
  let (s', proc') ← f proc
  some { s' with processes := s.processes.set p proc' }

/-- `lookup`: the channel types that have a factory. -/
def next (lookup : String → Bool) (leaseTTL : Nat) (s : State) : Label → Option State
  | .clock t => if s.now ≤ t then some { s with now := t } else none
  | .insert row => some { s with rows := s.rows ++ [some { row with lease := none }] }
  | .write id fingerprint active =>
    (s.row id).map fun row => s.setRow id (some { row with fingerprint, active })
  | .delete id => some (s.setRow id none)
  | .launch nodeID =>
    if nodeID ∈ s.processes.map (·.nodeID) then none
    else some { s with processes := s.processes ++ [{ nodeID }] }
  | .list p => s.process p fun proc =>
    if proc.sweep.isSome || proc.stopped then none
    else some (s, { proc with sweep := some ⟨s.activeRows, false, []⟩ })
  | .compare p => s.process p fun proc =>
    match proc.sweep with
    | some ⟨(id, row) :: todo, false, active⟩ =>
      if lookup row.channelType then
        let (s', proc') := maybeRestartOnRotation s p proc id row
        some (s', { proc' with sweep := some ⟨(id, row) :: todo, true, id :: active⟩ })
      else some (s, { proc with sweep := some ⟨todo, false, active⟩ })
    | _ => none
  | .start p => s.process p fun proc =>
    match proc.sweep with
    | some ⟨(id, row) :: todo, true, active⟩ =>
      let (s', proc') := startSupervisor s p proc id row
      some (s', { proc' with sweep := some ⟨todo, false, active⟩ })
    | _ => none
  | .reap p => s.process p fun proc =>
    match proc.sweep with
    | some ⟨[], _, active⟩ =>
      some ({ s with goroutines := s.goroutines.map (reap p proc active) },
        { proc with
          supervisors := fun id => if id ∈ active then proc.supervisors id else none
          sweep := none })
    | _ => none
  | .shutdown p => s.process p fun proc =>
    some ({ s with
      goroutines := s.goroutines.map fun g =>
        if g.process = p then { g with cancelled := true } else g },
      { proc with ctxDone := true })
  | .cancelAll p => s.process p fun proc =>
    if proc.ctxDone && proc.sweep.isNone then
      some (s, { proc with stopped := true, supervisors := fun _ => none })
    else none
  | .go i e => do
    let g ← s.goroutines[i]?
    let (g', row) ← g.next leaseTTL s.now (s.row g.inst) e
    some { s.setRow g.inst row with goroutines := s.goroutines.set i g' }
  | .exit i => do
    let g ← s.goroutines[i]?
    if g.phase = .leaving then
      some { s with
        processes := s.processes.modify g.process (·.drop g.inst g.gen)
        goroutines := s.goroutines.set i { g with phase := .exited } }
    else none

def machine (lookup : String → Bool) (leaseTTL : Nat) : Machine State Label where
  Init s := s = {}
  next := next lookup leaseTTL

end Orynx.Supervisor
