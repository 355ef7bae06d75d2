import Orynx.Attribution.Classify

/-! # Requests to a runtime

The records of `runtime_local_skills.go`, `runtime_models.go` and `runtime_update.go` in
`server/internal/handler`: a request waits for its daemon, runs, and is settled. The four kinds have
a `Kind` each, which says what they carry and how long they may wait. Times are nanoseconds.

* `applyTimeout`: a request that has waited or run for too long;
* `localSkillList`, `localSkillImport`, `modelList`, `update`: the kinds.
-/

namespace Orynx.RuntimeRequest

/-! ## Requests -/

inductive Status where
  | pending
  | running
  | completed
  | failed
  | timeout
  | conflict
deriving DecidableEq, Repr

def Status.terminal : Status → Bool
  | .pending | .running => false
  | .completed | .failed | .timeout | .conflict => true

structure Request (P : Type) where
  id : UUID
  runtimeId : UUID
  status : Status := .pending
  payload : P
  error : String := ""
  createdAt : Nat
  updatedAt : Nat
  runStartedAt : Option Nat := none
deriving DecidableEq, Repr

/-- How a report ends a request. -/
inductive Result where
  | completed
  | failed
  | conflict
deriving DecidableEq, Repr

def Result.status : Result → Status
  | .completed => .completed
  | .failed => .failed
  | .conflict => .conflict

theorem Result.terminal (x : Result) : x.status.terminal = true := by
  cases x <;> rfl

/-- A kind of requests with the input that creates one, its payload and the reports that settle
it. A report sees the payload and the error and gives both anew. -/
structure Kind (I P O : Type) where
  new : I → P
  settle : O → P → String → Result × P × String
  pendingTimeout : Nat
  runningTimeout : Nat
  retention : Nat
  pendingError : String
  runningError : String
  /-- The stored form has the time at which the run started. -/
  keepsRunStart : Bool
  /-- A runtime has one request at a time, and a settled one is not settled again. -/
  exclusive : Bool
  fits : exclusive = true → keepsRunStart = true ∧ pendingTimeout ≤ retention

variable {I P O : Type}

def Kind.request (κ : Kind I P O) (id runtimeId : UUID) (input : I) (now : Nat) : Request P where
  id := id
  runtimeId := runtimeId
  payload := κ.new input
  createdAt := now
  updatedAt := now

/-- The request has waited or run past its limit. -/
def Kind.overdue (κ : Kind I P O) (r : Request P) (now : Nat) : Bool :=
  match r.status with
  | .pending => decide (r.createdAt + κ.pendingTimeout < now)
  | .running => r.runStartedAt.any fun t => decide (t + κ.runningTimeout < now)
  | _ => false

/-- The request reads as pending or running. -/
def Kind.live (κ : Kind I P O) (r : Request P) (now : Nat) : Bool :=
  !r.status.terminal && !κ.overdue r now

def Kind.timedOut (κ : Kind I P O) (r : Request P) (now : Nat) : Request P :=
  { r with
    status := .timeout
    error := if r.status = .pending then κ.pendingError else κ.runningError
    updatedAt := now }

/-- `some` if the record was modified. -/
def Kind.applyTimeout (κ : Kind I P O) (r : Request P) (now : Nat) : Option (Request P) :=
  if κ.overdue r now then some (κ.timedOut r now) else none

/-- The record as a read returns it. -/
def Kind.read (κ : Kind I P O) (r : Request P) (now : Nat) : Request P :=
  (κ.applyTimeout r now).getD r

def Request.claimed (r : Request P) (now : Nat) : Request P :=
  { r with status := .running, runStartedAt := some now, updatedAt := now }

def Kind.settled (κ : Kind I P O) (o : O) (r : Request P) (now : Nat) : Request P :=
  let (result, payload, error) := κ.settle o r.payload r.error
  { r with status := result.status, payload := payload, error := error, updatedAt := now }

section Api

variable {κ : Kind I P O} {r : Request P} {now : Nat} {o : O}

@[simp] theorem timedOut_status : (κ.timedOut r now).status = .timeout := rfl
@[simp] theorem timedOut_id : (κ.timedOut r now).id = r.id := rfl
@[simp] theorem timedOut_runtimeId : (κ.timedOut r now).runtimeId = r.runtimeId := rfl
@[simp] theorem timedOut_createdAt : (κ.timedOut r now).createdAt = r.createdAt := rfl
@[simp] theorem timedOut_runStartedAt : (κ.timedOut r now).runStartedAt = r.runStartedAt := rfl
@[simp] theorem claimed_status : (r.claimed now).status = .running := rfl
@[simp] theorem claimed_id : (r.claimed now).id = r.id := rfl
@[simp] theorem claimed_runtimeId : (r.claimed now).runtimeId = r.runtimeId := rfl
@[simp] theorem claimed_createdAt : (r.claimed now).createdAt = r.createdAt := rfl
@[simp] theorem claimed_runStartedAt : (r.claimed now).runStartedAt = some now := rfl
@[simp] theorem settled_id : (κ.settled o r now).id = r.id := rfl
@[simp] theorem settled_runtimeId : (κ.settled o r now).runtimeId = r.runtimeId := rfl
@[simp] theorem settled_createdAt : (κ.settled o r now).createdAt = r.createdAt := rfl

theorem settled_terminal : (κ.settled o r now).status.terminal = true :=
  Result.terminal _

theorem not_overdue_of_terminal (h : r.status.terminal = true) : κ.overdue r now = false := by
  unfold Kind.overdue
  cases hs : r.status with
  | pending => simp [hs, Status.terminal] at h
  | running => simp [hs, Status.terminal] at h
  | _ => rfl

theorem not_terminal_of_overdue (h : κ.overdue r now = true) : r.status.terminal = false := by
  rw [← Bool.not_eq_true]
  intro ht
  cases h.symm.trans (not_overdue_of_terminal ht)

theorem live_iff : κ.live r now = true ↔ r.status.terminal = false ∧ κ.overdue r now = false := by
  simp [Kind.live]

/-- A request becomes overdue once. -/
theorem live_mono {later : Nat} (hle : now ≤ later) (h : κ.live r later = true) :
    κ.live r now = true := by
  rcases live_iff.1 h with ⟨hopen, hlater⟩
  refine live_iff.2 ⟨hopen, ?_⟩
  unfold Kind.overdue at hlater ⊢
  cases hstatus : r.status with
  | pending =>
    simp only [hstatus, decide_eq_false_iff_not] at hlater ⊢
    omega
  | running =>
    simp only [hstatus] at hlater ⊢
    cases hstart : r.runStartedAt with
    | none => rfl
    | some t =>
      simp only [hstart, Option.any_some, decide_eq_false_iff_not] at hlater ⊢
      omega
  | _ => rfl

theorem applyTimeout_eq_some {r' : Request P} :
    κ.applyTimeout r now = some r' ↔ κ.overdue r now = true ∧ κ.timedOut r now = r' := by
  simp [Kind.applyTimeout]

theorem applyTimeout_eq_none : κ.applyTimeout r now = none ↔ κ.overdue r now = false := by
  simp [Kind.applyTimeout]

end Api

/-! ## The kinds -/

def second : Nat := 1000000000

def runtimeLocalSkillPendingTimeout : Nat := 3 * 60 * second
def runtimeLocalSkillRunningTimeout : Nat := 60 * second
def runtimeLocalSkillStoreRetention : Nat := 5 * 60 * second

structure RuntimeLocalSkillSummary where
  key : String
  name : String
  description : String
  sourcePath : String
  provider : String
  root : String
  plugin : String
  fileCount : Int
deriving DecidableEq, Repr

structure RuntimeLocalMcpServerSummary where
  name : String
  transport : String
  source : String
  enabled : Bool
deriving DecidableEq, Repr

structure LocalSkillListPayload where
  skills : List RuntimeLocalSkillSummary := []
  supported : Bool := true
  mcpServers : List RuntimeLocalMcpServerSummary := []
  mcpSupported : Bool := false
deriving DecidableEq, Repr

inductive LocalSkillListReport where
  | complete (skills : List RuntimeLocalSkillSummary) (supported : Bool)
      (mcpServers : List RuntimeLocalMcpServerSummary) (mcpSupported : Bool)
  | fail (errMsg : String)
deriving DecidableEq, Repr

/-- `RunStartedAt` is left out of the JSON of the list store. -/
def localSkillList : Kind Unit LocalSkillListPayload LocalSkillListReport where
  new _ := {}
  settle
    | .complete skills supported mcpServers mcpSupported, _, error =>
      (.completed, ⟨skills, supported, mcpServers, mcpSupported⟩, error)
    | .fail errMsg, p, _ => (.failed, p, errMsg)
  pendingTimeout := runtimeLocalSkillPendingTimeout
  runningTimeout := runtimeLocalSkillRunningTimeout
  retention := runtimeLocalSkillStoreRetention
  pendingError := "daemon did not respond within 3 minutes"
  runningError := "daemon did not finish within 60 seconds"
  keepsRunStart := false
  exclusive := false
  fits h := by cases h

inductive LocalSkillImportAction where
  | create
  | overwrite
deriving DecidableEq, Repr

structure LocalSkillImportConflict where
  existingSkillId : String
  existingCreatedBy : String
  canOverwrite : Bool
deriving DecidableEq, Repr

structure LocalSkillImportRequestInput where
  creatorId : String
  skillKey : String
  name : Option String
  description : Option String
  action : LocalSkillImportAction
  targetSkillId : String
  supportsConflict : Bool
deriving DecidableEq, Repr

/-- `S` is the skill with its files. -/
structure LocalSkillImportPayload (S : Type) where
  input : LocalSkillImportRequestInput
  skill : Option S := none
  conflict : Option LocalSkillImportConflict := none
deriving DecidableEq, Repr

inductive LocalSkillImportReport (S : Type) where
  | complete (skill : S)
  | conflict (info : LocalSkillImportConflict)
  | fail (errMsg : String)
deriving DecidableEq, Repr

def localSkillImport (S : Type) :
    Kind LocalSkillImportRequestInput (LocalSkillImportPayload S) (LocalSkillImportReport S) where
  new input := { input := input }
  settle
    | .complete skill, p, error => (.completed, { p with skill := some skill }, error)
    | .conflict info, p, error => (.conflict, { p with conflict := some info }, error)
    | .fail errMsg, p, _ => (.failed, p, errMsg)
  pendingTimeout := runtimeLocalSkillPendingTimeout
  runningTimeout := runtimeLocalSkillRunningTimeout
  retention := runtimeLocalSkillStoreRetention
  pendingError := "daemon did not respond within 3 minutes"
  runningError := "daemon did not finish within 60 seconds"
  keepsRunStart := true
  exclusive := false
  fits h := by cases h

structure ThinkingLevel where
  value : String
  label : String
  description : String
deriving DecidableEq, Repr

structure ModelThinking where
  supportedLevels : List ThinkingLevel
  defaultLevel : String
deriving DecidableEq, Repr

structure ModelEntry where
  id : String
  label : String
  provider : String
  isDefault : Bool
  thinking : Option ModelThinking
deriving DecidableEq, Repr

structure ModelListPayload where
  models : List ModelEntry := []
  supported : Bool := true
deriving DecidableEq, Repr

inductive ModelListReport where
  | complete (models : List ModelEntry) (supported : Bool)
  | fail (errMsg : String)
deriving DecidableEq, Repr

def modelList : Kind Unit ModelListPayload ModelListReport where
  new _ := {}
  settle
    | .complete models supported, _, error => (.completed, ⟨models, supported⟩, error)
    | .fail errMsg, p, _ => (.failed, p, errMsg)
  pendingTimeout := 30 * second
  runningTimeout := 60 * second
  retention := 2 * 60 * second
  pendingError := "daemon did not respond within 30 seconds"
  runningError := "daemon did not finish within 60 seconds"
  keepsRunStart := true
  exclusive := false
  fits h := by cases h

structure UpdatePayload where
  targetVersion : String
  output : String := ""
deriving DecidableEq, Repr

inductive UpdateReport where
  | complete (output : String)
  | fail (errMsg : String)
deriving DecidableEq, Repr

def update : Kind String UpdatePayload UpdateReport where
  new targetVersion := { targetVersion := targetVersion }
  settle
    | .complete output, p, error => (.completed, { p with output := output }, error)
    | .fail errMsg, p, _ => (.failed, p, errMsg)
  pendingTimeout := 120 * second
  runningTimeout := 150 * second
  retention := 5 * 60 * second
  pendingError := "daemon did not respond within 120 seconds"
  runningError := "update did not complete within 150 seconds"
  keepsRunStart := true
  exclusive := true
  fits _ := by decide

end Orynx.RuntimeRequest
