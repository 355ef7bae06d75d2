import Orynx.Task.Row

/-! # The statements that write `agent_task_queue`

Translations of `server/pkg/db/queries/agent.sql`, `chat.sql`, `autopilot.sql` and
`runtime.sql`. An `INSERT` is the row it writes, an `UPDATE` is a `Lib.Update`; both
are run against the table by `insertStmt` and `updateStmt`, where the constraints
are checked. Parameters of a statement keep the source's names; `now` is the
transaction time and `id` the generated primary key.
-/

namespace Orynx.Task

open Lib

/-! ## Inserts -/

/-- Parameters of `CreateAgentTask`. -/
structure CreateAgentTaskParams where
  agentID : UUID
  runtimeID : UUID
  issueID : Option UUID
  priority : Int := 0
  triggerCommentID : Option UUID := none
  coalescedCommentIDs : List UUID := []
  forceFreshSession : Bool := false
  isLeaderTask : Bool := false
  squadID : Option UUID := none
  headSHA : String := ""
  attribution : AttributionColumns := {}
  rerunOfTaskID : Option UUID := none
deriving DecidableEq, Repr

def createAgentTask (now : Timestamp) (id : UUID) (p : CreateAgentTaskParams) : AgentTask :=
  { id := id, agentID := p.agentID, runtimeID := p.runtimeID, issueID := p.issueID,
    status := .queued, priority := p.priority, createdAt := now,
    triggerCommentID := p.triggerCommentID, coalescedCommentIDs := p.coalescedCommentIDs,
    forceFreshSession := p.forceFreshSession, isLeaderTask := p.isLeaderTask,
    squadID := p.squadID, headSHA := if p.headSHA ≠ "" then some p.headSHA else none,
    attribution := p.attribution, rerunOfTaskID := p.rerunOfTaskID }

/-- Parameters of `CreateQuickCreateTask`. -/
structure CreateQuickCreateTaskParams where
  agentID : UUID
  runtimeID : UUID
  priority : Int := 0
  attribution : AttributionColumns := {}
deriving DecidableEq, Repr

def createQuickCreateTask (now : Timestamp) (id : UUID) (p : CreateQuickCreateTaskParams) :
    AgentTask :=
  { id := id, agentID := p.agentID, runtimeID := p.runtimeID, status := .queued,
    priority := p.priority, createdAt := now,
    attribution := { p.attribution with delegatedFromTaskID := none, ruleVersionID := none } }

/-- Parameters of `CreateDeferredAgentTask`. -/
structure CreateDeferredAgentTaskParams where
  agentID : UUID
  runtimeID : UUID
  issueID : UUID
  priority : Int := 0
  triggerCommentID : Option UUID := none
  isLeaderTask : Bool := false
  squadID : Option UUID := none
  escalationForTaskID : Option UUID
  fireAt : Timestamp
  attribution : AttributionColumns := {}
deriving DecidableEq, Repr

def createDeferredAgentTask (now : Timestamp) (id : UUID) (p : CreateDeferredAgentTaskParams) :
    AgentTask :=
  { id := id, agentID := p.agentID, runtimeID := p.runtimeID, issueID := some p.issueID,
    status := .deferred, priority := p.priority, createdAt := now,
    triggerCommentID := p.triggerCommentID, isLeaderTask := p.isLeaderTask,
    squadID := p.squadID, escalationForTaskID := p.escalationForTaskID,
    fireAt := some p.fireAt,
    attribution := { p.attribution with ruleVersionID := none } }

/-- Parameters of `CreateChatTask`. -/
structure CreateChatTaskParams where
  agentID : UUID
  runtimeID : UUID
  priority : Int := 2
  chatSessionID : UUID
  initiatorUserID : Option UUID := none
  forceFreshSession : Bool := false
  attribution : AttributionColumns := {}
deriving DecidableEq, Repr

def createChatTask (now : Timestamp) (id : UUID) (p : CreateChatTaskParams) : AgentTask :=
  { id := id, agentID := p.agentID, runtimeID := p.runtimeID, status := .queued,
    priority := p.priority, createdAt := now, chatSessionID := some p.chatSessionID,
    initiatorUserID := p.initiatorUserID, forceFreshSession := p.forceFreshSession,
    attribution := { p.attribution with delegatedFromTaskID := none, ruleVersionID := none } }

/-- Parameters of `CreateAutopilotTask`. -/
structure CreateAutopilotTaskParams where
  agentID : UUID
  runtimeID : UUID
  priority : Int := 0
  autopilotRunID : UUID
  attribution : AttributionColumns := {}
deriving DecidableEq, Repr

def createAutopilotTask (now : Timestamp) (id : UUID) (p : CreateAutopilotTaskParams) :
    AgentTask :=
  { id := id, agentID := p.agentID, runtimeID := p.runtimeID, status := .queued,
    priority := p.priority, createdAt := now, autopilotRunID := some p.autopilotRunID,
    attribution := { p.attribution with delegatedFromTaskID := none } }

/-- `CreateRetryTask`: clone the parent `p` into a fresh queued attempt. The plan,
the attribution and the chat input owner are inherited, the receipt is not. -/
def createRetryTask (now : Timestamp) (id : UUID) (p : AgentTask) : AgentTask :=
  let stuck := p.failureReason == some "codex_semantic_inactivity"
  { id := id, agentID := p.agentID, runtimeID := p.runtimeID, issueID := p.issueID,
    chatSessionID := p.chatSessionID, autopilotRunID := p.autopilotRunID,
    status := .queued,
    priority := if p.chatSessionID.isSome then max p.priority 3 else p.priority,
    createdAt := now, triggerCommentID := p.triggerCommentID,
    coalescedCommentIDs := p.coalescedCommentIDs, headSHA := p.headSHA,
    sessionID := if stuck then none else p.sessionID,
    workDir := if stuck then none else p.workDir,
    attempt := p.attempt + 1, maxAttempts := p.maxAttempts, parentTaskID := some p.id,
    forceFreshSession := stuck, isLeaderTask := p.isLeaderTask, squadID := p.squadID,
    attribution := p.attribution, retryOfTaskID := some p.id,
    chatInputTaskID := p.chatInputTaskID }

/-! ## Updates -/

/-- `PromoteDueDeferredTasksForRuntimes`; the query for one runtime is the singleton
case. -/
def promoteDueDeferredTasksForRuntimes (now : Timestamp) (runtimeIDs : List UUID) :
    Update AgentTask where
  sel t := runtimeIDs.contains t.runtimeID && t.status == .deferred &&
    t.fireAt.any (· ≤ now)
  set t := { t with status := .queued }

def promoteDueDeferredTasksForRuntime (now : Timestamp) (runtimeID : UUID) : Update AgentTask :=
  promoteDueDeferredTasksForRuntimes now [runtimeID]

/-- The rows `ClaimAgentTask` may select: queued, and no active row of the agent that
they clash with. -/
def claimEligible (q : TaskTable) (agentID : UUID) (t : AgentTask) : Bool :=
  t.agentID == agentID && t.status == .queued &&
    !q.rows.any fun active =>
      active.agentID == t.agentID && active.status.active && t.clashes active

/-- `ORDER BY priority DESC, created_at ASC`. -/
def claimBefore (t u : AgentTask) : Bool :=
  decide (u.priority < t.priority) ||
    (t.priority == u.priority && decide (t.createdAt < u.createdAt))

/-- `ClaimAgentTask`, with the row its subquery selected. -/
def claimAgentTask (now : Timestamp) (prepareLeaseSecs : Nat) (pick : UUID) :
    Update AgentTask where
  sel t := t.id == pick
  set t := { t with
    status := .dispatched, dispatchedAt := some now,
    prepareLeaseExpiresAt := some (now + prepareLeaseSecs) }

/-- `SetTaskDeliveredCommentIDs`: replace the receipt of exactly this claim. -/
def setTaskDeliveredCommentIDs (taskID runtimeID : UUID) (dispatchedAt : Timestamp)
    (expectedTriggerCommentID : Option UUID) (deliveredCommentIDs : List UUID) :
    Update AgentTask where
  sel t := t.id == taskID && t.runtimeID == runtimeID && t.status == .dispatched &&
    t.startedAt.isNone && t.dispatchedAt == some dispatchedAt &&
    t.triggerCommentID == expectedTriggerCommentID &&
    deliveredCommentIDs.all fun d =>
      some d == t.triggerCommentID || t.coalescedCommentIDs.contains d
  set t := { t with deliveredCommentIDs := deliveredCommentIDs }

/-- `RequeueAgentTaskAfterClaimFailure`: return exactly this claim to the queue. -/
def requeueAgentTaskAfterClaimFailure (taskID runtimeID : UUID) (dispatchedAt : Timestamp) :
    Update AgentTask where
  sel t := t.id == taskID && t.runtimeID == runtimeID && t.status == .dispatched &&
    t.startedAt.isNone && t.dispatchedAt == some dispatchedAt
  set t := { t with
    status := .queued, dispatchedAt := none, prepareLeaseExpiresAt := none,
    deliveredCommentIDs := [] }

/-- A prepare lease that is absent or over. -/
def AgentTask.leaseExpired (t : AgentTask) (now : Timestamp) : Bool :=
  t.prepareLeaseExpiresAt.all (· < now)

/-- The rows the reclaim queries may select: dispatched, never started, past the
recovery window and without a live lease. -/
def reclaimEligible (now : Timestamp) (claimRecoverySecs : Nat) (runtimeIDs : List UUID)
    (t : AgentTask) : Bool :=
  runtimeIDs.contains t.runtimeID && t.status == .dispatched && t.startedAt.isNone &&
    t.dispatchedAt.any (· + claimRecoverySecs < now) && t.leaseExpired now

/-- `ORDER BY priority DESC, dispatched_at ASC`. -/
def reclaimBefore (t u : AgentTask) : Bool :=
  decide (u.priority < t.priority) ||
    (t.priority == u.priority && decide (t.dispatchedAt.getD 0 < u.dispatchedAt.getD 0))

/-- `ReclaimStaleDispatchedTasksForRuntimes`, with the rows its subquery selected. -/
def reclaimStaleDispatchedTasks (now : Timestamp) (prepareLeaseSecs : Nat)
    (picks : List UUID) : Update AgentTask where
  sel t := picks.contains t.id
  set t := { t with
    dispatchedAt := some now, prepareLeaseExpiresAt := some (now + prepareLeaseSecs) }

def extendAgentTaskPrepareLease (now : Timestamp) (leaseSecs : Nat) (id runtimeID : UUID) :
    Update AgentTask where
  sel t := t.id == id && t.runtimeID == runtimeID &&
    (t.status == .dispatched || t.status == .waitingLocalDirectory) && t.startedAt.isNone
  set t := { t with prepareLeaseExpiresAt := some (now + leaseSecs) }

def startAgentTask (now : Timestamp) (id : UUID) : Update AgentTask where
  sel t := t.id == id && (t.status == .dispatched || t.status == .waitingLocalDirectory)
  set t := { t with
    status := .running, startedAt := some now, waitReason := none,
    prepareLeaseExpiresAt := none }

def markAgentTaskWaitingLocalDirectory (now : Timestamp) (prepareLeaseSecs : Nat) (id : UUID)
    (waitReason : Option String) : Update AgentTask where
  sel t := t.id == id && t.status == .dispatched
  set t := { t with
    status := .waitingLocalDirectory, waitReason := waitReason,
    prepareLeaseExpiresAt := some (now + prepareLeaseSecs) }

def completeAgentTask (now : Timestamp) (id : UUID) (sessionID workDir : Option String) :
    Update AgentTask where
  sel t := t.id == id && t.status == .running
  set t := { t with
    status := .completed, completedAt := some now, sessionID := sessionID,
    workDir := workDir, prepareLeaseExpiresAt := none }

/-- `FailAgentTask`: `agent_error` is the default reason, and a session or work
directory the caller does not supply is kept. -/
def failAgentTask (now : Timestamp) (id : UUID) (error : Option String)
    (failureReason sessionID workDir : Option String) : Update AgentTask where
  sel t := t.id == id && t.status.active
  set t := { t with
    status := .failed, completedAt := some now, error := error,
    failureReason := some (failureReason.getD "agent_error"),
    sessionID := sessionID <|> t.sessionID, workDir := workDir <|> t.workDir,
    prepareLeaseExpiresAt := none }

def updateAgentTaskSession (id : UUID) (sessionID workDir : Option String) :
    Update AgentTask where
  sel t := t.id == id && (t.status == .dispatched || t.status == .running)
  set t := { t with
    sessionID := sessionID <|> t.sessionID, workDir := workDir <|> t.workDir }

/-- `RecoverOrphanedTasksForRuntime`. -/
def recoverOrphanedTasksForRuntime (now : Timestamp) (runtimeID : UUID) : Update AgentTask where
  sel t := t.runtimeID == runtimeID && t.status.active
  set t := { t with
    status := .failed, completedAt := some now,
    error := some "daemon restarted while task was in flight",
    failureReason := some "runtime_recovery", waitReason := none,
    prepareLeaseExpiresAt := none }

/-- `FailStaleTasks`; `liveRuntimes` are the runtimes that are online with a recent
heartbeat. Waiting rows are the daemon's own business. -/
def failStaleTasks (now : Timestamp) (dispatchTimeoutSecs runningTimeoutSecs : Nat)
    (liveRuntimes : List UUID) : Update AgentTask where
  sel t :=
    (t.status == .dispatched && t.dispatchedAt.any (· + dispatchTimeoutSecs < now) &&
      t.leaseExpired now) ||
    (t.status == .running && t.startedAt.any (· + runningTimeoutSecs < now) &&
      !liveRuntimes.contains t.runtimeID)
  set t := { t with
    status := .failed, completedAt := some now, error := some "task timed out",
    failureReason := some "timeout", prepareLeaseExpiresAt := none }

/-- `FailTasksForOfflineRuntimes`. -/
def failTasksForOfflineRuntimes (now : Timestamp) (offlineRuntimes : List UUID) :
    Update AgentTask where
  sel t := t.status.active && offlineRuntimes.contains t.runtimeID
  set t := { t with
    status := .failed, completedAt := some now, error := some "runtime went offline",
    failureReason := some "runtime_offline", waitReason := none }

/-- The rows `ExpireStaleQueuedTasks` may select. -/
def expireEligible (now : Timestamp) (ttlSecs : Nat) (t : AgentTask) : Bool :=
  t.status == .queued && decide (t.createdAt + ttlSecs < now)

/-- `ORDER BY created_at ASC`. -/
def expireBefore (t u : AgentTask) : Bool := decide (t.createdAt < u.createdAt)

/-- `ExpireStaleQueuedTasks`, with the victims its CTE selected. -/
def expireStaleQueuedTasks (now : Timestamp) (ttlSecs : Nat) (victims : List UUID) :
    Update AgentTask where
  sel t := victims.contains t.id && expireEligible now ttlSecs t
  set t := { t with
    status := .failed, completedAt := some now, error := some "task expired in queue",
    failureReason := some "queued_expired", prepareLeaseExpiresAt := none }

/-- What a cancelling statement writes. -/
def AgentTask.cancel (now : Timestamp) (t : AgentTask) : AgentTask :=
  { t with status := .cancelled, completedAt := some now, prepareLeaseExpiresAt := none }

/-- The cancelling statements: every cancellable row that `p` selects. -/
def cancelWhere (now : Timestamp) (p : AgentTask → Bool) : Update AgentTask where
  sel t := p t && t.status.cancellable
  set := AgentTask.cancel now

def cancelAgentTasksByIssue (now : Timestamp) (issueID : UUID) : Update AgentTask :=
  cancelWhere now fun t => t.issueID == some issueID

def cancelAgentTasksByIssueAndAgent (now : Timestamp) (issueID agentID : UUID) :
    Update AgentTask :=
  cancelWhere now fun t => t.issueID == some issueID && t.agentID == agentID

def cancelAgentTasksByAgent (now : Timestamp) (agentID : UUID) : Update AgentTask :=
  cancelWhere now fun t => t.agentID == agentID

def cancelAgentTasksByTriggerComment (now : Timestamp) (commentID : UUID) : Update AgentTask :=
  cancelWhere now fun t =>
    t.triggerCommentID == some commentID || t.coalescedCommentIDs.contains commentID

def cancelAgentTasksByChatSession (now : Timestamp) (chatSessionID : UUID) : Update AgentTask :=
  cancelWhere now fun t => t.chatSessionID == some chatSessionID

def cancelAgentTask (now : Timestamp) (id : UUID) : Update AgentTask :=
  cancelWhere now fun t => t.id == id

/-- `CancelAgentTasksByRuntimeOrAgent`: unlike its siblings it passes over deferred
rows and leaves the prepare lease. -/
def cancelAgentTasksByRuntimeOrAgent (now : Timestamp) (runtimeIDs agentIDs : List UUID) :
    Update AgentTask where
  sel t := (runtimeIDs.contains t.runtimeID || agentIDs.contains t.agentID) &&
    (t.status == .queued || t.status.active)
  set t := { t with status := .cancelled, completedAt := some now }

/-- A fallback row whose escalation may still be called off: a running one is not. -/
def AgentTask.escalationCancellable (t : AgentTask) : Bool :=
  t.status == .deferred || t.status == .queued || t.status == .dispatched ||
    t.status == .waitingLocalDirectory

def cancelDeferredEscalationsForTask (now : Timestamp) (taskID : UUID) : Update AgentTask where
  sel t := t.escalationForTaskID == some taskID && t.escalationCancellable
  set := AgentTask.cancel now

def cancelDeferredEscalationsForIssueAgent (now : Timestamp) (q : TaskTable)
    (issueID agentID : UUID) : Update AgentTask where
  sel t := t.escalationCancellable && q.rows.any fun primary =>
    t.escalationForTaskID == some primary.id && primary.issueID == some issueID &&
      primary.agentID == agentID
  set := AgentTask.cancel now

/-- `LinkTaskToIssue`: never overwrites an issue set at creation. -/
def linkTaskToIssue (id issueID : UUID) : Update AgentTask where
  sel t := t.id == id && t.issueID.isNone
  set t := { t with issueID := some issueID }

def markChatFinalizeDeferred (now : Timestamp) (id : UUID) : Update AgentTask where
  sel t := t.id == id
  set t := { t with chatFinalizeDeferredAt := some now }

def claimChatFinalizeDeferred (id : UUID) : Update AgentTask where
  sel t := t.id == id && t.chatFinalizeDeferredAt.isSome
  set t := { t with chatFinalizeDeferredAt := none }

def setChatTaskInputOwnerSelf (id : UUID) : Update AgentTask where
  sel t := t.id == id
  set t := { t with chatInputTaskID := some t.id }

/-- The planned batch after a comment is folded in: the old trigger becomes a
coalesced comment, without duplicates and without the new trigger. -/
def mergedCommentIDs (t : AgentTask) (newTriggerCommentID : UUID) : List UUID :=
  ((t.coalescedCommentIDs ++ t.triggerCommentID.toList).filter
    (· ≠ newTriggerCommentID)).dedup

/-- `MergeCommentIntoPendingTask` on the queued row `target` its subquery selected:
the comment becomes the trigger and the whole attribution snapshot moves with it. -/
def mergeCommentIntoPendingTask (target newTriggerCommentID : UUID)
    (attribution : AttributionColumns) : Update AgentTask where
  sel t := t.id == target
  set t := { t with
    coalescedCommentIDs := mergedCommentIDs t newTriggerCommentID,
    triggerCommentID := some newTriggerCommentID, attribution := attribution }

/-- `ORDER BY created_at DESC LIMIT 1`, one row at a time. -/
def newer (best : Option AgentTask) (t : AgentTask) : Option AgentTask :=
  match best with
  | some b => if b.createdAt < t.createdAt then some t else some b
  | none => some t

/-- The row `MergeCommentIntoPendingTask` selects: the queued row of the pair, the
newest if there were several. -/
def mergeTarget (q : TaskTable) (issueID agentID : UUID) : Option AgentTask :=
  (q.rows.filter fun t =>
    t.issueID == some issueID && t.agentID == agentID && t.status == .queued).foldl newer none

def reassignTasksToRuntime (newRuntimeID oldRuntimeID : UUID) : Update AgentTask where
  sel t := t.runtimeID == oldRuntimeID
  set t := { t with runtimeID := newRuntimeID }

/-! ## Reads -/

def getAgentTask (q : TaskTable) (id : UUID) : Option AgentTask :=
  q.rows.find? fun t => t.id == id

theorem getAgentTask_eq_some {q : TaskTable} {id : UUID} {t : AgentTask} :
    getAgentTask q id = some t ↔ t ∈ q.rows ∧ t.id = id := by
  constructor
  · intro h
    exact ⟨List.mem_of_find?_eq_some h, by simpa using List.find?_some h⟩
  · rintro ⟨ht, rfl⟩
    cases hf : getAgentTask q t.id with
    | none => simpa using List.find?_eq_none.1 hf t ht
    | some u =>
      have hu : u ∈ q.rows := List.mem_of_find?_eq_some hf
      have hid : u.id = t.id := by simpa using List.find?_some hf
      rw [q.eq_of_key hu ht hid]

theorem getAgentTask_isNone {q : TaskTable} {id : UUID} :
    (getAgentTask q id).isNone ↔ ∀ t ∈ q.rows, t.id ≠ id := by
  simp [getAgentTask, List.find?_eq_none]

/-- `CountRunningTasks`. -/
def countRunningTasks (q : TaskTable) (agentID : UUID) : Nat :=
  q.rows.countP fun t => t.agentID == agentID && t.status.active

/-- The commit a caller keys the dedup on: an empty one falls back to the pair. -/
def AgentTask.headMatches (t : AgentTask) (headSHA : String) : Bool :=
  headSHA == "" || t.headSHA == some headSHA

/-- `HasPendingTaskForIssueAndAgent`. -/
def hasPendingTaskForIssueAndAgent (q : TaskTable) (issueID agentID : UUID)
    (headSHA : String) : Bool :=
  q.rows.any fun t =>
    t.issueID == some issueID && t.agentID == agentID && t.status.pending &&
      t.headMatches headSHA

/-- `HasPendingTaskForIssueAndAgentExcludingTriggerComment`. -/
def hasPendingTaskForIssueAndAgentExcludingTriggerComment (q : TaskTable)
    (issueID agentID excludeTriggerCommentID : UUID) (headSHA : String) : Bool :=
  q.rows.any fun t =>
    t.issueID == some issueID && t.agentID == agentID && t.status.pending &&
      t.triggerCommentID != some excludeTriggerCommentID && t.headMatches headSHA

/-- `HasActiveTaskForIssueAndAgent`: what completion reconciliation will follow. -/
def hasActiveTaskForIssueAndAgent (q : TaskTable) (issueID agentID : UUID) : Bool :=
  q.rows.any fun t =>
    t.issueID == some issueID && t.agentID == agentID &&
      (t.status == .queued || t.status.active)

theorem newer_cases (best : Option AgentTask) (t : AgentTask) :
    newer best t = some t ∨ (newer best t = best ∧ best ≠ none) := by
  unfold newer
  split
  · split
    · exact .inl rfl
    · exact .inr ⟨rfl, by simp⟩
  · exact .inl rfl

/-- Folding `newer` over rows picks one of them, if there is one. -/
theorem foldl_newer (rows : List AgentTask) (best : Option AgentTask) :
    (∀ t, rows.foldl newer best = some t → best = some t ∨ t ∈ rows) ∧
      (rows.foldl newer best = none → best = none ∧ rows = []) := by
  induction rows generalizing best with
  | nil => simp
  | cons r rows ih =>
    simp only [List.foldl_cons]
    rcases ih (newer best r) with ⟨hsome, hnone⟩
    constructor
    · intro t ht
      rcases hsome t ht with h | h
      · rcases newer_cases best r with hr | ⟨hr, -⟩
        · have hrt : r = t := by simpa [hr] using h
          exact .inr (by simp [hrt])
        · exact .inl (hr ▸ h)
      · exact .inr (List.mem_cons_of_mem r h)
    · intro h
      rcases newer_cases best r with hr | ⟨hr, hne⟩
      · exact absurd (hr.symm.trans (hnone h).1) (by simp)
      · exact absurd (hr ▸ (hnone h).1) hne

theorem mergeTarget_eq_some {q : TaskTable} {issueID agentID : UUID} {t : AgentTask}
    (h : mergeTarget q issueID agentID = some t) :
    t ∈ q.rows ∧ t.issueID = some issueID ∧ t.agentID = agentID ∧ t.status = .queued := by
  rcases (foldl_newer _ _).1 t h with h | h
  · simp at h
  · rcases List.mem_filter.1 h with ⟨hmem, hsel⟩
    simp only [Bool.and_eq_true, beq_iff_eq] at hsel
    exact ⟨hmem, hsel.1.1, hsel.1.2, hsel.2⟩

/-- Without a target the pair has no queued row. -/
theorem not_queued_of_mergeTarget_eq_none {q : TaskTable} {issueID agentID : UUID}
    (h : mergeTarget q issueID agentID = none) {t : AgentTask} (ht : t ∈ q.rows)
    (hissue : t.issueID = some issueID) (hagent : t.agentID = agentID) :
    t.status ≠ .queued := by
  intro hq
  have hnil := ((foldl_newer _ _).2 h).2
  exact List.filter_eq_nil_iff.1 hnil t ht (by simp [hissue, hagent, hq])

/-! ## Running a statement -/

/-- What the database reports: a `:one` statement without a row, or a violated
constraint. -/
inductive DbError where
  | noRows
  | uniqueViolation
deriving DecidableEq, Repr

/-- Run an `INSERT`. -/
def insertStmt (q : TaskTable) (row : AgentTask) : Except DbError TaskTable :=
  match q.insert? row with
  | some q' => .ok q'
  | none => .error .uniqueViolation

/-- Run an `UPDATE`. -/
def updateStmt (q : TaskTable) (u : Update AgentTask) : Except DbError TaskTable :=
  match q.update? u with
  | some q' => .ok q'
  | none => .error .uniqueViolation

/-- Run a `:one` `UPDATE … RETURNING *`. -/
def updateOne (q : TaskTable) (u : Update AgentTask) : Except DbError (TaskTable × AgentTask) :=
  match q.rows.find? u.sel with
  | none => .error .noRows
  | some t => (updateStmt q u).map fun q' => (q', u.set t)

/-- A `:one` update returns the one row that its condition selects. -/
theorem updateOne_eq {q q' : TaskTable} {u : Update AgentTask} {t : AgentTask} (ht : t ∈ q.rows)
    (hsel : u.sel t = true) (honly : ∀ x ∈ q.rows, u.sel x = true → x = t)
    (h : q.update? u = some q') : updateOne q u = .ok (q', u.set t) := by
  have hfind : q.rows.find? u.sel = some t := by
    cases hf : q.rows.find? u.sel with
    | none => exact absurd hsel (by simpa using List.find?_eq_none.1 hf t ht)
    | some x =>
      rw [honly x (List.mem_of_find?_eq_some hf) (List.find?_some hf)]
  simp [updateOne, hfind, updateStmt, h, Except.map]

end Orynx.Task
