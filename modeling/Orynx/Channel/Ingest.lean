import Mathlib.Logic.Function.Basic
import Orynx.Channel.Supervisor

/-! # Inbound messages

`server/internal/integrations/channel/engine/router.go` and `session.go` with the dedup statements
of `channel.sql`: a platform delivers a message any number of times, to any number of processes.
Each delivery claims the message, runs the pipeline, appends the message and marks the claim in one
transaction, creates the issue of an `/issue` command and schedules the run.

* `Delivery.next`: what a delivery does to the dedup row of its message, one statement a step;
* `next`: the deliveries, the clock of the database, and what has been appended, created and
  scheduled so far.
-/

namespace Orynx.Ingest

open Lib
open Supervisor (Answer)

/-! ## Claims -/

/-- A row of `channel_inbound_message_dedup`. -/
structure Claim where
  receivedAt : Nat
  processedAt : Option Nat := none
  claimToken : Nat
deriving DecidableEq, Repr

/-- `INTERVAL '60 seconds'`, in microseconds. -/
def staleAfter : Nat := 60000000

/-- `ClaimChannelInboundDedup`, with the token that it mints. -/
def ClaimChannelInboundDedup (now token : Nat) : Option Claim → Option Claim
  | none => some { receivedAt := now, claimToken := token }
  | some row =>
    if row.processedAt = none ∧ row.receivedAt + staleAfter < now then
      some { row with
        receivedAt := now
        claimToken := token }
    else none

/-- `MarkChannelInboundDedupProcessed`; no row is found when the claim is another's. -/
def MarkChannelInboundDedupProcessed (now token : Nat) : Option Claim → Option Claim
  | none => none
  | some row =>
    if row.claimToken = token ∧ row.processedAt = none then
      some { row with processedAt := some now }
    else none

/-- Whether `ReleaseChannelInboundDedup` deletes the row. -/
def ReleaseChannelInboundDedup (token : Nat) : Option Claim → Bool
  | none => false
  | some row => decide (row.claimToken = token ∧ row.processedAt = none)

/-- The row of a message, and the delivery whose open transaction has updated it. -/
structure Entry where
  row : Option Claim := none
  lock : Option Nat := none
deriving DecidableEq, Repr

/-! ## Deliveries -/

inductive DropReason where
  | unboundUser
  | nonWorkspaceMember
  | notAddressedInGroup
  | duplicate
  | revokedInstallation
  | invalidEvent
deriving DecidableEq, Repr

/-- What `dispatch` returns. -/
inductive Outcome where
  | dropped (reason : DropReason)
  | needsBinding
  | ingested
  | error
deriving DecidableEq, Repr

/-- `dedupFinalize`. -/
inductive Finalize where
  | none
  | mark
  | release
deriving DecidableEq, Repr

/-- Where a delivery is. The token is that of its claim; a message without an id is not claimed. -/
inductive Stage where
  | resolving
  | claiming
  | filtering (token : Option Nat)
  | identifying (token : Option Nat)
  | binding (token : Option Nat)
  /-- In the transaction, the claim has yet to be marked. -/
  | appending (token : Option Nat)
  /-- The claim is marked, the transaction is open. The title is that of the `/issue` command. -/
  | committing (token : Option Nat) (command : Option String)
  | creating (token : Option Nat) (command : Option String)
  | scheduling (token : Option Nat)
  | finalizing (action : Finalize) (token : Option Nat) (outcome : Outcome)
  | done (outcome : Outcome)
  | crashed
deriving DecidableEq, Repr

structure Delivery where
  installation : Nat
  messageID : String
  /-- `ChatTypeGroup`. -/
  group : Bool
  addressedToBot : Bool
  /-- The title of the message's `/issue` command, when it is one. -/
  command : Option String
  stage : Stage := .resolving
deriving DecidableEq, Repr

def Delivery.key (d : Delivery) : Nat × String := (d.installation, d.messageID)

inductive Installation where
  | notFound
  | revoked
  | active
  | error
deriving DecidableEq, Repr

inductive Sender where
  | unbound
  | notMember
  | user
  | error
deriving DecidableEq, Repr

inductive Event where
  | resolve (r : Installation)
  | claim (a : Answer)
  | filter
  | identify (r : Sender)
  /-- `EnsureSession`. -/
  | ensureSession (ok : Bool)
  /-- A statement of the transaction fails before the mark or with it. -/
  | abort
  /-- The message is inserted and the claim is marked; the title of the message before. -/
  | append (previous : String)
  | commit (a : Answer)
  | createIssue (a : Answer)
  | scheduleRun
  | finalize (a : Answer)
  /-- The process dies. -/
  | crash
deriving DecidableEq, Repr

/-- What a step leaves behind outside of the dedup table. -/
inductive Write where
  | message
  | issue
  | trigger
deriving DecidableEq, Repr

/-- `postAppendFinalize`. -/
def postAppendFinalize (token : Option Nat) : Finalize :=
  if token.isSome then .none else .mark

/-- The command with the title that a bare `/issue` takes from the message before. -/
def withTitle (previous : String) (command : Option String) : Option String :=
  command.map fun title => if title = "" then previous else title

/-- The row when the statement is executed, and whether its result is known. -/
def executed (entry : Entry) (row : Option Claim) : Answer → Entry
  | .failed => entry
  | _ => { entry with row := row }

/-- `applyFinalize`, whose errors are ignored. -/
def applyFinalize (now : Nat) (token : Option Nat) (action : Finalize) (entry : Entry)
    (a : Answer) : Entry :=
  match token, action with
  | some token, .mark =>
    executed entry ((MarkChannelInboundDedupProcessed now token entry.row).or entry.row) a
  | some token, .release =>
    executed entry (if ReleaseChannelInboundDedup token entry.row then none else entry.row) a
  | _, _ => entry

/-- The stage of the `i`-th delivery, the entry of its message and what is written. A statement on a
row waits while another transaction has it. -/
def Delivery.next (now fresh i : Nat) (entry : Entry) (d : Delivery) (e : Event) :
    Option (Stage × Entry × Option Write) :=
  match e, d.stage with
  | .resolve r, .resolving =>
    let stage := match r with
      | .notFound => .done (.dropped .invalidEvent)
      | .revoked => .done (.dropped .revokedInstallation)
      | .active => if d.messageID = "" then .filtering none else .claiming
      | .error => .done .error
    some (stage, entry, none)
  | .claim a, .claiming =>
    if entry.lock.isSome then none
    else
      let row := ClaimChannelInboundDedup now fresh entry.row
      let stage := match a with
        | .reply => if row.isSome then .filtering (some fresh) else .done (.dropped .duplicate)
        | _ => .done .error
      some (stage, executed entry (row.or entry.row) a, none)
  | .filter, .filtering token =>
    let stage := if d.group && !d.addressedToBot then
        .finalizing .mark token (.dropped .notAddressedInGroup)
      else .identifying token
    some (stage, entry, none)
  | .identify r, .identifying token =>
    let stage := match r with
      | .unbound => .finalizing .mark token .needsBinding
      | .notMember => .finalizing .mark token (.dropped .nonWorkspaceMember)
      | .user => .binding token
      | .error => .finalizing .release token .error
    some (stage, entry, none)
  | .ensureSession ok, .binding token =>
    some (if ok then .appending token else .finalizing .release token .error, entry, none)
  | .abort, .appending token => some (.finalizing .release token .error, entry, none)
  | .append previous, .appending none =>
    some (.committing none (withTitle previous d.command), entry, none)
  | .append previous, .appending (some token) =>
    if entry.lock.isSome then none
    else
      match MarkChannelInboundDedupProcessed now token entry.row with
      | some _ =>
        some (.committing (some token) (withTitle previous d.command),
          { entry with lock := some i }, none)
      -- `ErrClaimLost`
      | none => some (.finalizing .none (some token) (.dropped .duplicate), entry, none)
  | .commit a, .committing token command =>
    let entry' := match token with
      | none => entry
      | some token => match a with
        | .failed => { entry with lock := none }
        | _ => ⟨(MarkChannelInboundDedupProcessed now token entry.row).or entry.row, none⟩
    let stage := match a with
      | .reply => .creating token command
      | _ => .finalizing .release token .error
    some (stage, entry', if a = .failed then none else some .message)
  | .createIssue a, .creating token command =>
    match command with
    | none => some (.scheduling token, entry, none)
    | some title =>
      -- `ErrEmptyIssueTitle`
      if title = "" then
        some (.finalizing (postAppendFinalize token) token .error, entry, none)
      else
        let stage := match a with
          | .reply => .scheduling token
          | _ => .finalizing (postAppendFinalize token) token .error
        some (stage, entry, if a = .failed then none else some .issue)
  | .scheduleRun, .scheduling token =>
    some (.finalizing (postAppendFinalize token) token .ingested, entry, some .trigger)
  | .finalize a, .finalizing action token outcome =>
    if entry.lock.isSome && action ≠ .none && token.isSome then none
    else some (.done outcome, applyFinalize now token action entry a, none)
  | .crash, .done _ | .crash, .crashed => none
  | .crash, _ =>
    some (.crashed, if entry.lock = some i then { entry with lock := none } else entry, none)
  | _, _ => none

structure State where
  now : Nat := 0
  /-- The next token of `gen_random_uuid`. -/
  fresh : Nat := 0
  dedup : Nat × String → Entry := fun _ => {}
  deliveries : List Delivery := []
  /-- What has been committed, created and scheduled, with its message and delivery. -/
  messages : List ((Nat × String) × Nat) := []
  issues : List ((Nat × String) × Nat) := []
  triggers : List ((Nat × String) × Nat) := []

def State.write (s : State) (x : (Nat × String) × Nat) : Option Write → State
  | none => s
  | some .message => { s with messages := x :: s.messages }
  | some .issue => { s with issues := x :: s.issues }
  | some .trigger => { s with triggers := x :: s.triggers }

inductive Label where
  | clock (t : Nat)
  | deliver (installation : Nat) (messageID : String) (group addressedToBot : Bool)
      (command : Option String)
  | step (i : Nat) (e : Event)
deriving DecidableEq, Repr

def next (s : State) : Label → Option State
  | .clock t => if s.now ≤ t then some { s with now := t } else none
  | .deliver installation messageID group addressedToBot command =>
    some { s with deliveries := s.deliveries ++
      [{ installation, messageID, group, addressedToBot, command }] }
  | .step i e => do
    let d ← s.deliveries[i]?
    let (stage, entry, write) ← d.next s.now s.fresh i (s.dedup d.key) e
    some (({ s with
      fresh := s.fresh + 1
      dedup := Function.update s.dedup d.key entry
      deliveries := s.deliveries.set i { d with stage } } : State).write (d.key, i) write)

def machine : Machine State Label where
  Init s := s = {}
  next := next

end Orynx.Ingest
