import Orynx.Lib.Table
import Orynx.Attribution.Classify

/-! # `autopilot_run`

One row an execution, anchored to its planned occurrence or to the webhook delivery that it
was admitted for, with the statements of `server/pkg/db/queries/autopilot.sql`. All the
transitions but one are updates by id, whatever the status.
-/

namespace Orynx.Autopilot

open Lib

inductive RunStatus where
  | pending
  | issueCreated
  | running
  | skipped
  | completed
  | failed
deriving DecidableEq, Repr

/-- Completed, failed or skipped. -/
def RunStatus.ended : RunStatus → Bool
  | .skipped | .completed | .failed => true
  | .pending | .issueCreated | .running => false

/-- `execution_mode`. -/
inductive ExecutionMode where
  | createIssue
  | runOnly
deriving DecidableEq, Repr

/-- The status a run is created with. -/
def ExecutionMode.initialStatus : ExecutionMode → RunStatus
  | .createIssue => .issueCreated
  | .runOnly => .running

/-- A row of `autopilot_run`. -/
structure Run where
  id : UUID
  triggerId : UUID
  status : RunStatus
  issueId : Option UUID := none
  taskId : Option UUID := none
  plannedAt : Option Int := none
  webhookDeliveryId : Option UUID := none
  completedAt : Option Int := none
  failureReason : Option String := none
  result : Option String := none
deriving DecidableEq, Repr

/-- The columns of the two partial unique indexes. A run for a delivery has no planned
time. -/
inductive RunKey where
  | planned (triggerId : UUID) (plannedAt : Int)
  | delivery (webhookDeliveryId : UUID)
deriving DecidableEq, Repr

def Run.key? (r : Run) : Option RunKey :=
  match r.webhookDeliveryId with
  | some d => some (.delivery d)
  | none => r.plannedAt.map (.planned r.triggerId)

/-- Primary key, `uq_autopilot_run_trigger_planned` and
`uq_autopilot_run_webhook_delivery`. -/
def runSchema : Schema Run UUID RunKey where
  key := Run.id
  index := Run.key?

abbrev RunTable := Table runSchema

@[simp] theorem runSchema_key (r : Run) : runSchema.key r = r.id := rfl

@[simp] theorem runSchema_index (r : Run) : runSchema.index r = r.key? := rfl

theorem eq_of_runId {q : RunTable} {r r' : Run} (hr : r ∈ q.rows) (hr' : r' ∈ q.rows)
    (h : r.id = r'.id) : r = r' :=
  q.eq_of_key hr hr' h

/-! ## Reads -/

def getAutopilotRun (q : RunTable) (id : UUID) : Option Run := q.rows.find? fun r => r.id == id

def getAutopilotRunByTriggerAndPlanned (q : RunTable) (triggerId : UUID) (plannedAt : Int) :
    Option Run :=
  q.rows.find? fun r => r.triggerId == triggerId && r.plannedAt == some plannedAt

def getAutopilotRunByWebhookDelivery (q : RunTable) (deliveryId : UUID) : Option Run :=
  q.rows.find? fun r => r.webhookDeliveryId == some deliveryId

/-- `status IN ('issue_created', 'running')`. -/
def Run.active (r : Run) : Bool := r.status == .issueCreated || r.status == .running

def getAutopilotRunByIssue (q : RunTable) (issueId : UUID) : Option Run :=
  q.rows.find? fun r => r.issueId == some issueId && r.active

/-- Safe to reuse: ended, or with its issue or task linked. -/
def isAutopilotRunComplete (r : Run) : Bool :=
  match r.status with
  | .completed | .failed | .skipped => true
  | .issueCreated => r.issueId.isSome
  | .running => r.taskId.isSome
  | .pending => false

theorem not_ended_of_incomplete {r : Run} (h : isAutopilotRunComplete r = false) :
    r.status.ended = false := by
  cases hstatus : r.status <;> simp_all [isAutopilotRunComplete, RunStatus.ended]

/-! ## Writes -/

/-- What the updates by id set. -/
inductive RunWrite where
  | issueCreated (issueId : UUID)
  | running (taskId : UUID)
  | completed (result : Option String)
  | failed (reason : String)
  | skipped (reason : String)
  | recover
deriving DecidableEq, Repr

/-- The status that a write leaves. -/
def RunWrite.status : RunWrite → RunStatus
  | .issueCreated _ => .issueCreated
  | .running _ => .running
  | .completed _ => .completed
  | .failed _ | .recover => .failed
  | .skipped _ => .skipped

def RunWrite.set (now : Int) : RunWrite → Run → Run
  | .issueCreated issueId, r => { r with status := .issueCreated, issueId := some issueId }
  | .running taskId, r => { r with status := .running, taskId := some taskId }
  | .completed result, r =>
    { r with status := .completed, completedAt := some now, result := result }
  | .failed reason, r =>
    { r with status := .failed, completedAt := some now, failureReason := some reason }
  | .skipped reason, r =>
    { r with status := .skipped, completedAt := some now, failureReason := some reason }
  | .recover, r =>
    { r with
      status := .failed, completedAt := some now, plannedAt := none
      failureReason := some "recovered partial dispatch (crashed before downstream creation)" }

/-- The update by id. -/
def RunWrite.stmt (id : UUID) (now : Int) (w : RunWrite) : Update Run where
  sel r := r.id == id
  set := w.set now

def updateAutopilotRunIssueCreated (id : UUID) (now : Int) (issueId : UUID) : Update Run :=
  (RunWrite.issueCreated issueId).stmt id now

def updateAutopilotRunRunning (id : UUID) (now : Int) (taskId : UUID) : Update Run :=
  (RunWrite.running taskId).stmt id now

def updateAutopilotRunCompleted (id : UUID) (now : Int) (result : Option String) : Update Run :=
  (RunWrite.completed result).stmt id now

def updateAutopilotRunFailed (id : UUID) (now : Int) (reason : String) : Update Run :=
  (RunWrite.failed reason).stmt id now

def updateAutopilotRunSkipped (id : UUID) (now : Int) (reason : String) : Update Run :=
  (RunWrite.skipped reason).stmt id now

def recoverPartialAutopilotRun (id : UUID) (now : Int) : Update Run := RunWrite.recover.stmt id now

/-- The one guarded transition. -/
def failAutopilotRunsByIssue (issueId : UUID) (now : Int) : Update Run where
  sel r := r.issueId == some issueId && r.active
  set r := { r with
    status := .failed, completedAt := some now, failureReason := some "linked issue was deleted" }

/-! ## What a write does to a row -/

/-- The run keeps its identity, and its index value or gives it up. -/
structure SameRun (r r' : Run) : Prop where
  id : r'.id = r.id
  triggerId : r'.triggerId = r.triggerId
  delivery : r'.webhookDeliveryId = r.webhookDeliveryId
  plannedAt : r'.plannedAt = r.plannedAt ∨ r'.plannedAt = none

theorem SameRun.refl (r : Run) : SameRun r r := ⟨rfl, rfl, rfl, .inl rfl⟩

theorem SameRun.key? {r r' : Run} (h : SameRun r r') : r'.key? = none ∨ r'.key? = r.key? := by
  unfold Run.key?
  rw [h.delivery, h.triggerId]
  cases r.webhookDeliveryId with
  | some d => exact .inr rfl
  | none =>
    rcases h.plannedAt with hp | hp
    · exact .inr (by rw [hp])
    · exact .inl (by rw [hp]; rfl)

theorem SameRun.apply {u : Update Run} {r : Run} (h : SameRun r (u.set r)) :
    SameRun r (u.apply r) := by
  cases hsel : u.sel r with
  | true => rwa [Update.apply_of_sel hsel]
  | false =>
    rw [Update.apply_of_not_sel hsel]
    exact .refl r

theorem RunWrite.set_sameRun (now : Int) (w : RunWrite) (r : Run) : SameRun r (w.set now r) := by
  cases w with
  | recover => exact ⟨rfl, rfl, rfl, .inr rfl⟩
  | _ => exact ⟨rfl, rfl, rfl, .inl rfl⟩

@[simp] theorem RunWrite.set_status (now : Int) (w : RunWrite) (r : Run) :
    (w.set now r).status = w.status := by
  cases w <;> rfl

theorem RunWrite.apply_stmt_of_ne {id : UUID} {now : Int} {w : RunWrite} {r : Run}
    (h : r.id ≠ id) : (w.stmt id now).apply r = r :=
  Update.apply_of_not_sel (by simpa [RunWrite.stmt] using h)

theorem RunWrite.apply_stmt_self {now : Int} {w : RunWrite} {r : Run} :
    (w.stmt r.id now).apply r = w.set now r :=
  Update.apply_of_sel (by simp [RunWrite.stmt])

/-- No update of runs violates a constraint. -/
theorem runs_update?_isSome {q : RunTable} {u : Update Run} (h : ∀ r, SameRun r (u.set r)) :
    (q.update? u).isSome :=
  Table.update?_isSome_of_shrink (fun r _ => (h r).apply.id) fun r _ => (h r).apply.key?

end Orynx.Autopilot
