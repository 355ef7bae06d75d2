import Orynx.Lib.Table
import Orynx.Attribution.Classify

/-! # Rows of `agent_task_queue`

One row is one run of an agent. The columns are those the queue's statements and
the services around it read; progress texts, summaries, handoff notes and tool
overlays are left out. A nullable column is an `Option`, a timestamp is a number
of seconds, and the partial unique index of migration 037 is `pendingKey`.
-/

namespace Orynx

/-- Points in time, in seconds. -/
abbrev Timestamp := Nat

namespace Task

/-- The `status` column. -/
inductive TaskStatus where
  | queued
  | dispatched
  | running
  | waitingLocalDirectory
  | completed
  | failed
  | cancelled
  | deferred
deriving DecidableEq, Repr

/-- `status IN ('dispatched', 'running', 'waiting_local_directory')`: the run is
held by a daemon. -/
def TaskStatus.active : TaskStatus → Bool
  | .dispatched | .running | .waitingLocalDirectory => true
  | _ => false

/-- `status IN ('queued', 'dispatched')`: what the partial unique index covers. -/
def TaskStatus.pending : TaskStatus → Bool
  | .queued | .dispatched => true
  | _ => false

/-- `status IN ('queued', 'dispatched', 'running', 'waiting_local_directory',
'deferred')`: what the cancelling statements reach. -/
def TaskStatus.cancellable : TaskStatus → Bool
  | .queued | .dispatched | .running | .waitingLocalDirectory | .deferred => true
  | _ => false

/-- `completed`, `failed` and `cancelled` rows never change status again. -/
def TaskStatus.terminal : TaskStatus → Bool
  | .completed | .failed | .cancelled => true
  | _ => false

/-- The attribution columns, written together by every statement that sets one. -/
structure AttributionColumns where
  originatorUserID : Option UUID := none
  accountableUserID : Option UUID := none
  originatorSource : Option Attribution.Source := none
  delegatedFromTaskID : Option UUID := none
  ruleVersionID : Option UUID := none
  triggerEvidenceKind : Option Attribution.EvidenceKind := none
  triggerEvidenceRefID : Option UUID := none
deriving DecidableEq, Repr

/-- A row of `agent_task_queue`. -/
structure AgentTask where
  id : UUID
  agentID : UUID
  runtimeID : UUID
  issueID : Option UUID := none
  chatSessionID : Option UUID := none
  autopilotRunID : Option UUID := none
  status : TaskStatus
  priority : Int := 0
  createdAt : Timestamp
  dispatchedAt : Option Timestamp := none
  startedAt : Option Timestamp := none
  completedAt : Option Timestamp := none
  prepareLeaseExpiresAt : Option Timestamp := none
  waitReason : Option String := none
  fireAt : Option Timestamp := none
  escalationForTaskID : Option UUID := none
  triggerCommentID : Option UUID := none
  coalescedCommentIDs : List UUID := []
  deliveredCommentIDs : List UUID := []
  headSHA : Option String := none
  attempt : Int := 1
  maxAttempts : Int := 2
  parentTaskID : Option UUID := none
  retryOfTaskID : Option UUID := none
  rerunOfTaskID : Option UUID := none
  failureReason : Option String := none
  error : Option String := none
  sessionID : Option String := none
  workDir : Option String := none
  forceFreshSession : Bool := false
  isLeaderTask : Bool := false
  squadID : Option UUID := none
  initiatorUserID : Option UUID := none
  attribution : AttributionColumns := {}
  chatInputTaskID : Option UUID := none
  chatFinalizeDeferredAt : Option Timestamp := none
deriving DecidableEq, Repr

/-- The key of `idx_one_pending_task_per_issue_agent`; `NULL` issues are not
compared. -/
def AgentTask.pendingKey (t : AgentTask) : Option (UUID × UUID) :=
  if t.status.pending then t.issueID.map fun issue => (issue, t.agentID) else none

/-- Primary key and partial unique index of `agent_task_queue`. -/
def taskSchema : Lib.Schema AgentTask UUID (UUID × UUID) where
  key := AgentTask.id
  index := AgentTask.pendingKey

/-- The table, with both constraints enforced. -/
abbrev TaskTable := Lib.Table taskSchema

@[simp] theorem taskSchema_key (t : AgentTask) : taskSchema.key t = t.id := rfl

@[simp] theorem taskSchema_index (t : AgentTask) : taskSchema.index t = t.pendingKey := rfl

/-- The comments a task was enqueued to answer. -/
def AgentTask.plan (t : AgentTask) : List UUID :=
  t.triggerCommentID.toList ++ t.coalescedCommentIDs

/-- A task without issue, chat session and autopilot run. -/
def AgentTask.quickCreateShaped (t : AgentTask) : Bool :=
  t.issueID.isNone && t.chatSessionID.isNone && t.autopilotRunID.isNone

/-- What `ClaimAgentTask` serializes on: `t` may not start beside the active row `u`
of the same agent. -/
def AgentTask.clashes (t u : AgentTask) : Bool :=
  (t.issueID.isSome && u.issueID == t.issueID) ||
    (t.chatSessionID.isSome && u.chatSessionID == t.chatSessionID) ||
    (t.quickCreateShaped && u.quickCreateShaped)

theorem AgentTask.clashes_comm (t u : AgentTask) : t.clashes u = u.clashes t := by
  rcases t with ⟨⟩
  rcases u with ⟨⟩
  simp only [clashes, quickCreateShaped]
  grind

theorem AgentTask.pendingKey_eq_some {t : AgentTask} {issue agent : UUID} :
    t.pendingKey = some (issue, agent) ↔
      t.status.pending = true ∧ t.issueID = some issue ∧ t.agentID = agent := by
  unfold pendingKey
  split <;> simp_all

theorem AgentTask.not_completed_of_pending {r : AgentTask} (h : r.status.pending = true) :
    r.status ≠ .completed := by
  intro hc
  simp [hc, TaskStatus.pending] at h

/-- Two pending rows of one (issue, agent) are one row. -/
theorem pending_unique {q : TaskTable} {r r' : AgentTask} (hr : r ∈ q.rows) (hr' : r' ∈ q.rows)
    (hp : r.status.pending = true) (hp' : r'.status.pending = true) (hissue : r.issueID ≠ none)
    (h : r.issueID = r'.issueID ∧ r.agentID = r'.agentID) : r = r' := by
  rcases Option.ne_none_iff_exists'.1 hissue with ⟨issue, hi⟩
  exact q.eq_of_index hr hr' (AgentTask.pendingKey_eq_some.2 ⟨hp, hi, rfl⟩)
    (AgentTask.pendingKey_eq_some.2 ⟨hp', h.1.symm.trans hi, h.2.symm⟩)

theorem TaskStatus.pending_cases {s : TaskStatus} :
    s.pending = true ↔ s = .queued ∨ s = .dispatched := by
  cases s <;> simp [pending]

theorem TaskStatus.active_cases {s : TaskStatus} :
    s.active = true ↔ s = .dispatched ∨ s = .running ∨ s = .waitingLocalDirectory := by
  cases s <;> simp [active]

end Task

end Orynx
