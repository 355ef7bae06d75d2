import Orynx.Lib.Machine
import Orynx.Task.Queries

/-! # The task queue as a machine

Any number of servers and daemons run statements against one `agent_task_queue`.
Every autocommit statement is one step. `ClaimTask` is the one multi-statement
transaction whose reads matter: it is split into its agent row lock, its count and
its claim, and other parties may move in between. `FailTask` commits its failure and
its retry clone together.

* `InsertStmt` and `UpdateStmt` enumerate the statements with their arguments;
* `RowStep` says once what an `UPDATE` can do to a row;
* `QueueStep` and `next_cases` invert a step of the machine.
-/

namespace Orynx.Task

open Lib

/-! ## Retries and failures -/

/-- `retryableReasons`: the infrastructure-shaped failures. -/
def retryableReasons : List String :=
  ["runtime_offline", "runtime_recovery", "timeout", "codex_semantic_inactivity"]

/-- `retryEligible`. -/
def retryEligible (failureReason : String) (t : AgentTask) : Bool :=
  retryableReasons.contains failureReason && decide (t.attempt < t.maxAttempts) &&
    t.autopilotRunID.isNone && (t.issueID.isSome || t.chatSessionID.isSome)

/-- The guard of `MaybeRetryFailedTask` on a row a sweeper returned. -/
def sweeperRetryEligible (t : AgentTask) : Bool :=
  t.status == .failed && retryEligible (t.failureReason.getD "") t

/-- A Go string as a nullable text column: empty means absent. -/
def text (s : String) : Option String := if s = "" then none else some s

/-- `wantRetry`, decided before the transaction from the task as loaded. -/
def wantRetry (parent : Option AgentTask) (failureReason : String) : Bool :=
  parent.any fun t => retryEligible failureReason t

/-- The arguments of `FailTask`; `childID` is the key of the clone it may insert. -/
structure FailTaskCall where
  taskID : UUID
  errMsg : String := ""
  sessionID : String := ""
  workDir : String := ""
  failureReason : String
  childID : UUID
deriving DecidableEq, Repr

/-- The reason `FailTask` persists: a missing one is classified from the error text. -/
def FailTaskCall.reason (classify : String → String) (c : FailTaskCall) : String :=
  if c.failureReason = "" then classify c.errMsg else c.failureReason

/-- The transaction of `FailTask`: fail the run and, if wanted, insert its retry
clone. An error rolls both back. -/
def failTask (classify : String → String) (now : Timestamp) (q : TaskTable)
    (c : FailTaskCall) : Except DbError (TaskTable × AgentTask × Option AgentTask) := do
  let reason := c.reason classify
  let retry := wantRetry (getAgentTask q c.taskID) reason
  let (failed, t) ← updateOne q
    (failAgentTask now c.taskID (some c.errMsg) (text reason) (text c.sessionID)
      (text c.workDir))
  if retry then
    let child := createRetryTask now c.childID t
    let retried ← insertStmt failed child
    return (retried, t, some child)
  else
    return (failed, t, none)

/-! ## Statements -/

/-- The statements that insert a row. -/
inductive InsertStmt where
  | createAgentTask (id : UUID) (p : CreateAgentTaskParams)
  | createQuickCreateTask (id : UUID) (p : CreateQuickCreateTaskParams)
  | createDeferredAgentTask (id : UUID) (p : CreateDeferredAgentTaskParams)
  | createChatTask (id : UUID) (p : CreateChatTaskParams)
  | createAutopilotTask (id : UUID) (p : CreateAutopilotTaskParams)
  | createRetryTask (id parentID : UUID)
deriving DecidableEq, Repr

/-- The row a statement inserts. A sweeper's retry clones a row it failed, and only
when `MaybeRetryFailedTask` lets it. -/
def InsertStmt.row (now : Timestamp) (q : TaskTable) : InsertStmt → Option AgentTask
  | .createAgentTask id p => some (Task.createAgentTask now id p)
  | .createQuickCreateTask id p => some (Task.createQuickCreateTask now id p)
  | .createDeferredAgentTask id p => some (Task.createDeferredAgentTask now id p)
  | .createChatTask id p => some (Task.createChatTask now id p)
  | .createAutopilotTask id p => some (Task.createAutopilotTask now id p)
  | .createRetryTask id parentID =>
    ((getAgentTask q parentID).filter sweeperRetryEligible).map (Task.createRetryTask now id)

/-- `prepareLeaseDuration`. -/
def prepareLeaseDuration : Nat := 45

/-- `claimResponseRecoveryWindow`. -/
def claimResponseRecoveryWindow : Nat := 90

/-- The statements that update rows outside a claim. Where a subquery picks rows, the
picks and the rows locked by others are arguments. -/
inductive UpdateStmt where
  | promoteDueDeferredTasksForRuntimes (runtimeIDs : List UUID)
  | setTaskDeliveredCommentIDs (taskID runtimeID : UUID) (dispatchedAt : Timestamp)
      (expectedTriggerCommentID : Option UUID) (deliveredCommentIDs : List UUID)
  | requeueAgentTaskAfterClaimFailure (taskID runtimeID : UUID) (dispatchedAt : Timestamp)
  | reclaimStaleDispatchedTasksForRuntimes (runtimeIDs : List UUID) (maxTasks : Nat)
      (locked picks : List UUID)
  | extendAgentTaskPrepareLease (leaseSecs : Nat) (id runtimeID : UUID)
  | startAgentTask (id : UUID)
  | markAgentTaskWaitingLocalDirectory (id : UUID) (waitReason : Option String)
  | completeAgentTask (id : UUID) (sessionID workDir : Option String)
  | updateAgentTaskSession (id : UUID) (sessionID workDir : Option String)
  | recoverOrphanedTasksForRuntime (runtimeID : UUID)
  | failStaleTasks (dispatchTimeoutSecs runningTimeoutSecs : Nat) (liveRuntimes : List UUID)
  | failTasksForOfflineRuntimes (offlineRuntimes : List UUID)
  | expireStaleQueuedTasks (ttlSecs maxPerTick : Nat) (locked victims : List UUID)
  | cancelAgentTasksByIssue (issueID : UUID)
  | cancelAgentTasksByIssueAndAgent (issueID agentID : UUID)
  | cancelAgentTasksByAgent (agentID : UUID)
  | cancelAgentTasksByTriggerComment (commentID : UUID)
  | cancelAgentTasksByChatSession (chatSessionID : UUID)
  | cancelAgentTask (id : UUID)
  | cancelAgentTasksByRuntimeOrAgent (runtimeIDs agentIDs : List UUID)
  | cancelDeferredEscalationsForTask (taskID : UUID)
  | cancelDeferredEscalationsForIssueAgent (issueID agentID : UUID)
  | linkTaskToIssue (id issueID : UUID)
  | markChatFinalizeDeferred (id : UUID)
  | claimChatFinalizeDeferred (id : UUID)
  | setChatTaskInputOwnerSelf (id : UUID)
  | mergeCommentIntoPendingTask (issueID agentID newTriggerCommentID : UUID)
      (attribution : AttributionColumns)
  | reassignTasksToRuntime (newRuntimeID oldRuntimeID : UUID)
deriving DecidableEq, Repr

/-- The update a statement runs. -/
def UpdateStmt.update (now : Timestamp) (q : TaskTable) : UpdateStmt → Update AgentTask
  | .promoteDueDeferredTasksForRuntimes rs => Task.promoteDueDeferredTasksForRuntimes now rs
  | .setTaskDeliveredCommentIDs t r d e ids => Task.setTaskDeliveredCommentIDs t r d e ids
  | .requeueAgentTaskAfterClaimFailure t r d => Task.requeueAgentTaskAfterClaimFailure t r d
  | .reclaimStaleDispatchedTasksForRuntimes _ _ _ picks =>
    Task.reclaimStaleDispatchedTasks now prepareLeaseDuration picks
  | .extendAgentTaskPrepareLease secs id r => Task.extendAgentTaskPrepareLease now secs id r
  | .startAgentTask id => Task.startAgentTask now id
  | .markAgentTaskWaitingLocalDirectory id reason =>
    Task.markAgentTaskWaitingLocalDirectory now prepareLeaseDuration id reason
  | .completeAgentTask id session dir => Task.completeAgentTask now id session dir
  | .updateAgentTaskSession id session dir => Task.updateAgentTaskSession id session dir
  | .recoverOrphanedTasksForRuntime r => Task.recoverOrphanedTasksForRuntime now r
  | .failStaleTasks d r live => Task.failStaleTasks now d r live
  | .failTasksForOfflineRuntimes rs => Task.failTasksForOfflineRuntimes now rs
  | .expireStaleQueuedTasks ttl _ _ victims => Task.expireStaleQueuedTasks now ttl victims
  | .cancelAgentTasksByIssue i => Task.cancelAgentTasksByIssue now i
  | .cancelAgentTasksByIssueAndAgent i a => Task.cancelAgentTasksByIssueAndAgent now i a
  | .cancelAgentTasksByAgent a => Task.cancelAgentTasksByAgent now a
  | .cancelAgentTasksByTriggerComment c => Task.cancelAgentTasksByTriggerComment now c
  | .cancelAgentTasksByChatSession c => Task.cancelAgentTasksByChatSession now c
  | .cancelAgentTask id => Task.cancelAgentTask now id
  | .cancelAgentTasksByRuntimeOrAgent rs as => Task.cancelAgentTasksByRuntimeOrAgent now rs as
  | .cancelDeferredEscalationsForTask t => Task.cancelDeferredEscalationsForTask now t
  | .cancelDeferredEscalationsForIssueAgent i a =>
    Task.cancelDeferredEscalationsForIssueAgent now q i a
  | .linkTaskToIssue id i => Task.linkTaskToIssue id i
  | .markChatFinalizeDeferred id => Task.markChatFinalizeDeferred now id
  | .claimChatFinalizeDeferred id => Task.claimChatFinalizeDeferred id
  | .setChatTaskInputOwnerSelf id => Task.setChatTaskInputOwnerSelf id
  | .mergeCommentIntoPendingTask i a c attribution =>
    -- without a queued row the subquery is NULL and no id matches
    match mergeTarget q i a with
    | some t => Task.mergeCommentIntoPendingTask t.id c attribution
    | none => { sel := fun _ => false, set := id }
  | .reassignTasksToRuntime new old => Task.reassignTasksToRuntime new old

/-- The arguments a statement can have: picks answer their subquery, and an issue is
linked to its quick-create task once that has completed. -/
def UpdateStmt.admits (now : Timestamp) (q : TaskTable) : UpdateStmt → Bool
  | .reclaimStaleDispatchedTasksForRuntimes rs n locked picks =>
    admissiblePicks AgentTask.id q.rows (reclaimEligible now claimResponseRecoveryWindow rs)
      reclaimBefore n locked picks
  | .expireStaleQueuedTasks ttl n locked victims =>
    admissiblePicks AgentTask.id q.rows (expireEligible now ttl) expireBefore n locked victims
  | .linkTaskToIssue id _ => q.rows.all fun t => t.id != id || t.status == .completed
  | _ => true

/-! ## The machine -/

/-- What the queue relies on from elsewhere: each agent's `max_concurrent_tasks`,
and `taskfailure.Classify`. -/
structure Config where
  maxConcurrentTasks : UUID → Int
  classify : String → String

/-- An agent's row lock inside `ClaimTask`. -/
inductive AgentLock where
  | free
  | held
  | counted (running : Nat)
deriving DecidableEq, Repr

structure State where
  now : Timestamp
  queue : TaskTable
  agentLock : UUID → AgentLock

/-- One step of some party. -/
inductive Step where
  | tick (now : Timestamp)
  | insert (stmt : InsertStmt)
  | update (stmt : UpdateStmt)
  | lockAgent (agentID : UUID)
  | countRunningTasks (agentID : UUID)
  | claimAgentTask (agentID : UUID) (locked : List UUID) (pick : UUID)
  | releaseAgent (agentID : UUID)
  | failTask (call : FailTaskCall)
deriving DecidableEq, Repr

def State.setLock (s : State) (agentID : UUID) (l : AgentLock) : State :=
  { s with agentLock := Function.update s.agentLock agentID l }

@[simp] theorem State.setLock_queue (s : State) (a : UUID) (l : AgentLock) :
    (s.setLock a l).queue = s.queue := rfl

@[simp] theorem State.setLock_now (s : State) (a : UUID) (l : AgentLock) :
    (s.setLock a l).now = s.now := rfl

/-- Run a statement that yields a table; an error changes nothing and is no step. -/
def State.commit (s : State) (r : Except DbError TaskTable) : Option State :=
  match r with
  | .ok q => some { s with queue := q }
  | .error _ => none

def next (cfg : Config) (s : State) : Step → Option State
  | .tick t => if s.now ≤ t then some { s with now := t } else none
  | .insert stmt => (stmt.row s.now s.queue).bind fun r => s.commit (insertStmt s.queue r)
  | .update stmt =>
    if stmt.admits s.now s.queue then
      s.commit (updateStmt s.queue (stmt.update s.now s.queue))
    else none
  | .lockAgent a => if s.agentLock a = .free then some (s.setLock a .held) else none
  | .countRunningTasks a =>
    if s.agentLock a = .held then
      some (s.setLock a (.counted (Task.countRunningTasks s.queue a)))
    else none
  | .claimAgentTask a locked pick =>
    match s.agentLock a with
    | .counted running =>
      if (running : Int) < cfg.maxConcurrentTasks a ∧
          admissiblePicks AgentTask.id s.queue.rows (claimEligible s.queue a) claimBefore 1
            locked [pick] then
        -- the claim commits, and the commit releases the agent row
        (s.setLock a .free).commit
          (updateStmt s.queue (Task.claimAgentTask s.now prepareLeaseDuration pick))
      else none
    | _ => none
  | .releaseAgent a => if s.agentLock a ≠ .free then some (s.setLock a .free) else none
  | .failTask c => s.commit ((Task.failTask cfg.classify s.now s.queue c).map fun r => r.1)

/-- The queue from its first row on. -/
def machine (cfg : Config) : Machine State Step where
  Init s := s.queue = Table.empty ∧ ∀ a, s.agentLock a = .free
  next := next cfg

/-- The empty queue at time zero, with no claim open. -/
def State.empty : State := ⟨0, Table.empty, fun _ => .free⟩

theorem init_empty (cfg : Config) : (machine cfg).Init State.empty := ⟨rfl, fun _ => rfl⟩

/-! ## What an update can do to a row -/

/-- The status moves of the statements other than a claim; only promotion, flagged by
the index, takes a deferred row anywhere but to its end. -/
inductive Move : Bool → TaskStatus → TaskStatus → Prop where
  | stay {b : Bool} (s : TaskStatus) : Move b s s
  | promote : Move true .deferred .queued
  | requeue {b : Bool} : Move b .dispatched .queued
  | wait {b : Bool} : Move b .dispatched .waitingLocalDirectory
  | start {b : Bool} {s : TaskStatus} (h : s = .dispatched ∨ s = .waitingLocalDirectory) :
      Move b s .running
  | complete {b : Bool} : Move b .running .completed
  | fail {b : Bool} {s : TaskStatus} (h : s = .queued ∨ s.active = true) : Move b s .failed
  | cancel {b : Bool} {s : TaskStatus} (h : s.cancellable = true) : Move b s .cancelled

/-- Every statement moves a row along `Move` and leaves its identity alone; an issue
only ever appears on a completed row that had none. -/
structure RowStep (promoting : Bool) (r r' : AgentTask) : Prop where
  id : r'.id = r.id
  agentID : r'.agentID = r.agentID
  chatSessionID : r'.chatSessionID = r.chatSessionID
  autopilotRunID : r'.autopilotRunID = r.autopilotRunID
  createdAt : r'.createdAt = r.createdAt
  attempt : r'.attempt = r.attempt
  maxAttempts : r'.maxAttempts = r.maxAttempts
  issueID : r'.issueID = r.issueID ∨ (r.status = .completed ∧ r.issueID = none)
  startedAt : r'.startedAt = r.startedAt ∨ r'.status = .running
  move : Move promoting r.status r'.status

theorem RowStep.refl {b : Bool} (r : AgentTask) : RowStep b r r :=
  ⟨rfl, rfl, rfl, rfl, rfl, rfl, rfl, .inl rfl, .inl rfl, .stay _⟩

/-- No such move makes a row active. -/
theorem Move.active {b : Bool} {s s' : TaskStatus} (h : Move b s s')
    (ha : s'.active = true) : s.active = true := by
  cases h with
  | start h => rcases h with rfl | rfl <;> rfl
  | _ => simp_all [TaskStatus.active]

/-- Only promotion makes a row pending that was not. -/
theorem Move.pending {b : Bool} {s s' : TaskStatus} (h : Move b s s')
    (hp : s'.pending = true) : s.pending = true ∨ (b = true ∧ s = .deferred) := by
  cases h <;> simp_all [TaskStatus.pending]

/-- A row that is running or waiting was so before, or was dispatched. -/
theorem Move.underway {b : Bool} {s s' : TaskStatus} (h : Move b s s')
    (hu : s' = .running ∨ s' = .waitingLocalDirectory) :
    s = .running ∨ s = .waitingLocalDirectory ∨ s = .dispatched := by
  cases h with
  | stay => exact hu.elim .inl fun h => .inr (.inl h)
  | wait => exact .inr (.inr rfl)
  | start h => exact .inr h.symm
  | _ => simp_all

theorem Move.terminal {b : Bool} {s s' : TaskStatus} (h : Move b s s')
    (ht : s.terminal = true) : s' = s := by
  have hmove : s' = s ∨ s.cancellable = true := by
    cases h with
    | stay => exact .inl rfl
    | start h => rcases h with rfl | rfl <;> exact .inr rfl
    | fail h =>
      rcases h with rfl | h
      · exact .inr rfl
      · rcases TaskStatus.active_cases.1 h with rfl | rfl | rfl <;> exact .inr rfl
    | cancel h => exact .inr h
    | _ => exact .inr rfl
  rcases hmove with h | h
  · exact h
  · cases s <;> simp_all [TaskStatus.terminal, TaskStatus.cancellable]

/-- The issue of a row that is not completed does not change. -/
theorem RowStep.issueID_eq {b : Bool} {r r' : AgentTask} (h : RowStep b r r')
    (hc : r'.status ≠ .completed) : r'.issueID = r.issueID := by
  rcases h.issueID with hi | ⟨hcompleted, -⟩
  · exact hi
  · have hs : r'.status = r.status := h.move.terminal (by rw [hcompleted]; rfl)
    exact absurd (hs.trans hcompleted) hc

theorem RowStep.apply {b : Bool} {u : Update AgentTask} {r : AgentTask}
    (h : u.sel r = true → RowStep b r (u.set r)) : RowStep b r (u.apply r) := by
  cases hsel : u.sel r with
  | true => rw [Update.apply_of_sel hsel]; exact h hsel
  | false => rw [Update.apply_of_not_sel hsel]; exact .refl r

/-- An update that only sets columns a `RowStep` does not look at. -/
theorem RowStep.of_move {b : Bool} {r r' : AgentTask}
    (hsame : r'.id = r.id ∧ r'.agentID = r.agentID ∧ r'.chatSessionID = r.chatSessionID ∧
      r'.autopilotRunID = r.autopilotRunID ∧ r'.createdAt = r.createdAt ∧
      r'.attempt = r.attempt ∧ r'.maxAttempts = r.maxAttempts ∧ r'.issueID = r.issueID)
    (hmove : Move b r.status r'.status)
    (hstart : r'.startedAt = r.startedAt ∨ r'.status = .running := by
      first | exact .inl rfl | exact .inr rfl) : RowStep b r r' := by
  rcases hsame with ⟨hid, hagent, hchat, hrun, hcreated, hattempt, hmax, hissue⟩
  exact ⟨hid, hagent, hchat, hrun, hcreated, hattempt, hmax, .inl hissue, hstart, hmove⟩

theorem escalationCancellable_cancellable {r : AgentTask} (h : r.escalationCancellable = true) :
    r.status.cancellable = true := by
  cases hs : r.status <;> simp_all [AgentTask.escalationCancellable, TaskStatus.cancellable]

theorem cancelWhere_rowStep {b : Bool} (now : Timestamp) (p : AgentTask → Bool) (r : AgentTask) :
    RowStep b r ((cancelWhere now p).apply r) := by
  refine .apply fun hsel => .of_move (by simp [cancelWhere, AgentTask.cancel]) ?_
  simp only [cancelWhere, Bool.and_eq_true] at hsel
  exact .cancel hsel.2

theorem failAgentTask_rowStep {b : Bool} (now : Timestamp) (id : UUID)
    (error reason session dir : Option String) (r : AgentTask) :
    RowStep b r ((failAgentTask now id error reason session dir).apply r) := by
  refine .apply fun hsel => .of_move (by simp [failAgentTask]) ?_
  simp only [failAgentTask, Bool.and_eq_true] at hsel
  exact .fail (.inr hsel.2)

/-- The statement that promotes deferred rows. -/
def UpdateStmt.promotes : UpdateStmt → Bool
  | .promoteDueDeferredTasksForRuntimes _ => true
  | _ => false

/-- Every statement but the claim takes each row along a `RowStep`. -/
theorem UpdateStmt.rowStep {now : Timestamp} {q : TaskTable} {stmt : UpdateStmt}
    (hadm : stmt.admits now q = true) {r : AgentTask} (hr : r ∈ q.rows) :
    RowStep stmt.promotes r ((stmt.update now q).apply r) := by
  cases stmt with
  | promoteDueDeferredTasksForRuntimes rs =>
    refine .apply fun hsel => .of_move (by simp [update, Task.promoteDueDeferredTasksForRuntimes]) ?_
    simp only [update, Task.promoteDueDeferredTasksForRuntimes, Bool.and_eq_true,
      beq_iff_eq] at hsel ⊢
    rw [hsel.1.2]
    exact .promote
  | requeueAgentTaskAfterClaimFailure t rt d =>
    refine .apply fun hsel => .of_move (by simp [update, Task.requeueAgentTaskAfterClaimFailure]) ?_
    simp only [update, Task.requeueAgentTaskAfterClaimFailure, Bool.and_eq_true,
      beq_iff_eq] at hsel ⊢
    rw [hsel.1.1.2]
    exact .requeue
  | startAgentTask id =>
    refine .apply fun hsel => .of_move (by simp [update, Task.startAgentTask]) ?_
    simp only [update, Task.startAgentTask, Bool.and_eq_true, Bool.or_eq_true,
      beq_iff_eq] at hsel
    exact .start hsel.2
  | markAgentTaskWaitingLocalDirectory id reason =>
    refine .apply fun hsel =>
      .of_move (by simp [update, Task.markAgentTaskWaitingLocalDirectory]) ?_
    simp only [update, Task.markAgentTaskWaitingLocalDirectory, Bool.and_eq_true,
      beq_iff_eq] at hsel ⊢
    rw [hsel.2]
    exact .wait
  | completeAgentTask id session dir =>
    refine .apply fun hsel => .of_move (by simp [update, Task.completeAgentTask]) ?_
    simp only [update, Task.completeAgentTask, Bool.and_eq_true, beq_iff_eq] at hsel ⊢
    rw [hsel.2]
    exact .complete
  | recoverOrphanedTasksForRuntime rt =>
    refine .apply fun hsel => .of_move (by simp [update, Task.recoverOrphanedTasksForRuntime]) ?_
    simp only [update, Task.recoverOrphanedTasksForRuntime, Bool.and_eq_true] at hsel
    exact .fail (.inr hsel.2)
  | failStaleTasks d rt live =>
    refine .apply fun hsel => .of_move (by simp [update, Task.failStaleTasks]) (.fail (.inr ?_))
    simp only [update, Task.failStaleTasks, Bool.or_eq_true, Bool.and_eq_true,
      beq_iff_eq] at hsel
    rcases hsel with h | h <;> simp [h.1.1, TaskStatus.active]
  | failTasksForOfflineRuntimes rs =>
    refine .apply fun hsel => .of_move (by simp [update, Task.failTasksForOfflineRuntimes]) ?_
    simp only [update, Task.failTasksForOfflineRuntimes, Bool.and_eq_true] at hsel
    exact .fail (.inr hsel.1)
  | expireStaleQueuedTasks ttl n locked victims =>
    refine .apply fun hsel => .of_move (by simp [update, Task.expireStaleQueuedTasks]) ?_
    simp only [update, Task.expireStaleQueuedTasks, expireEligible, Bool.and_eq_true,
      beq_iff_eq] at hsel
    exact .fail (.inl hsel.2.1)
  | cancelAgentTasksByIssue i => exact cancelWhere_rowStep _ _ _
  | cancelAgentTasksByIssueAndAgent i a => exact cancelWhere_rowStep _ _ _
  | cancelAgentTasksByAgent a => exact cancelWhere_rowStep _ _ _
  | cancelAgentTasksByTriggerComment c => exact cancelWhere_rowStep _ _ _
  | cancelAgentTasksByChatSession c => exact cancelWhere_rowStep _ _ _
  | cancelAgentTask id => exact cancelWhere_rowStep _ _ _
  | cancelAgentTasksByRuntimeOrAgent rs as =>
    refine .apply fun hsel =>
      .of_move (by simp [update, Task.cancelAgentTasksByRuntimeOrAgent]) (.cancel ?_)
    simp only [update, Task.cancelAgentTasksByRuntimeOrAgent, Bool.and_eq_true, Bool.or_eq_true,
      beq_iff_eq] at hsel
    rcases hsel.2 with h | h
    · rw [h]; rfl
    · cases hs : r.status <;> simp_all [TaskStatus.active, TaskStatus.cancellable]
  | cancelDeferredEscalationsForTask t =>
    refine .apply fun hsel => .of_move
      (by simp [update, Task.cancelDeferredEscalationsForTask, AgentTask.cancel]) (.cancel ?_)
    simp only [update, Task.cancelDeferredEscalationsForTask, Bool.and_eq_true] at hsel
    exact escalationCancellable_cancellable hsel.2
  | cancelDeferredEscalationsForIssueAgent i a =>
    refine .apply fun hsel => .of_move
      (by simp [update, Task.cancelDeferredEscalationsForIssueAgent, AgentTask.cancel]) (.cancel ?_)
    simp only [update, Task.cancelDeferredEscalationsForIssueAgent, Bool.and_eq_true] at hsel
    exact escalationCancellable_cancellable hsel.1
  | linkTaskToIssue id i =>
    refine .apply fun hsel => ?_
    simp only [update, Task.linkTaskToIssue, Bool.and_eq_true, beq_iff_eq] at hsel ⊢
    simp only [admits, List.all_eq_true, Bool.or_eq_true, bne_iff_ne, beq_iff_eq] at hadm
    have hcompleted : r.status = .completed := (hadm r hr).resolve_left (fun h => h hsel.1)
    exact ⟨rfl, rfl, rfl, rfl, rfl, rfl, rfl, .inr ⟨hcompleted, by simpa using hsel.2⟩, .inl rfl,
      .stay _⟩
  | mergeCommentIntoPendingTask i a c attribution =>
    refine .apply fun hsel => ?_
    simp only [update] at hsel ⊢
    split at hsel
    · exact .of_move (by simp [Task.mergeCommentIntoPendingTask]) (.stay _)
    · simp at hsel
  | setTaskDeliveredCommentIDs t rt d e ids =>
    exact .apply fun _ => .of_move (by simp [update, Task.setTaskDeliveredCommentIDs]) (.stay _)
  | reclaimStaleDispatchedTasksForRuntimes rs n locked picks =>
    exact .apply fun _ => .of_move (by simp [update, Task.reclaimStaleDispatchedTasks]) (.stay _)
  | extendAgentTaskPrepareLease secs id rt =>
    exact .apply fun _ => .of_move (by simp [update, Task.extendAgentTaskPrepareLease]) (.stay _)
  | updateAgentTaskSession id session dir =>
    exact .apply fun _ => .of_move (by simp [update, Task.updateAgentTaskSession]) (.stay _)
  | markChatFinalizeDeferred id =>
    exact .apply fun _ => .of_move (by simp [update, Task.markChatFinalizeDeferred]) (.stay _)
  | claimChatFinalizeDeferred id =>
    exact .apply fun _ => .of_move (by simp [update, Task.claimChatFinalizeDeferred]) (.stay _)
  | setChatTaskInputOwnerSelf id =>
    exact .apply fun _ => .of_move (by simp [update, Task.setChatTaskInputOwnerSelf]) (.stay _)
  | reassignTasksToRuntime new old =>
    exact .apply fun _ => .of_move (by simp [update, Task.reassignTasksToRuntime]) (.stay _)

/-! ## The claim -/

/-- The row a claim picked: queued, of the claiming agent. -/
theorem claim_pick {q : TaskTable} {a pick : UUID} {locked : List UUID}
    (h : admissiblePicks AgentTask.id q.rows (claimEligible q a) claimBefore 1 locked [pick] =
      true) : ∃ t ∈ q.rows, t.id = pick ∧ t.agentID = a ∧ t.status = .queued := by
  rcases admissiblePicks_mem h (List.mem_singleton.2 rfl) with ⟨t, ht, hid, helig, -⟩
  simp only [claimEligible, Bool.and_eq_true, beq_iff_eq] at helig
  exact ⟨t, ht, hid, helig.1.1, helig.1.2⟩

theorem claimAgentTask_other {now : Timestamp} {secs : Nat} {pick : UUID} {r : AgentTask}
    (h : r.id ≠ pick) : (claimAgentTask now secs pick).apply r = r :=
  Update.apply_of_not_sel (by simpa [claimAgentTask] using h)

/-! ## Inverting a step -/

theorem insertStmt_ok {q q' : TaskTable} {row : AgentTask} :
    insertStmt q row = .ok q' ↔ q.insert? row = some q' := by
  unfold insertStmt
  split <;> simp_all

theorem updateStmt_ok {q q' : TaskTable} {u : Update AgentTask} :
    updateStmt q u = .ok q' ↔ q.update? u = some q' := by
  unfold updateStmt
  split <;> simp_all

theorem updateOne_ok {q q' : TaskTable} {u : Update AgentTask} {t : AgentTask}
    (h : updateOne q u = .ok (q', t)) :
    ∃ r ∈ q.rows, u.sel r = true ∧ t = u.set r ∧ q.update? u = some q' := by
  unfold updateOne at h
  split at h
  · simp at h
  · rename_i r hfind
    cases hu : updateStmt q u with
    | error e => simp [hu, Except.map] at h
    | ok q₁ =>
      simp only [hu, Except.map, Except.ok.injEq, Prod.mk.injEq] at h
      rcases h with ⟨rfl, rfl⟩
      exact ⟨r, List.mem_of_find?_eq_some hfind, List.find?_some hfind, rfl,
        updateStmt_ok.1 hu⟩

theorem State.commit_eq_some {s s' : State} {r : Except DbError TaskTable} :
    s.commit r = some s' ↔ ∃ q, r = .ok q ∧ s' = { s with queue := q } := by
  unfold State.commit
  split <;> simp_all [eq_comm]

/-- The update `FailTask` runs. -/
def FailTaskCall.update (classify : String → String) (now : Timestamp) (c : FailTaskCall) :
    Update AgentTask :=
  failAgentTask now c.taskID (some c.errMsg) (text (c.reason classify)) (text c.sessionID)
    (text c.workDir)

theorem FailTaskCall.sel_iff {c : FailTaskCall} {classify : String → String} {now : Timestamp}
    {x : AgentTask} :
    (c.update classify now).sel x = true ↔ x.id = c.taskID ∧ x.status.active = true := by
  simp [FailTaskCall.update, failAgentTask]

theorem FailTaskCall.update_rowStep {b : Bool} (c : FailTaskCall) (classify : String → String)
    (now : Timestamp) (r : AgentTask) : RowStep b r ((c.update classify now).apply r) :=
  failAgentTask_rowStep ..

/-- A committed `FailTask` fails its row; the retry clone comes with it exactly when
it was wanted. -/
theorem failTask_ok {classify : String → String} {now : Timestamp} {q q' : TaskTable}
    {c : FailTaskCall} {t : AgentTask} {child : Option AgentTask}
    (h : failTask classify now q c = .ok (q', t, child)) :
    ∃ r ∈ q.rows, ∃ failed, (c.update classify now).sel r = true ∧
      t = (c.update classify now).set r ∧
      q.update? (c.update classify now) = some failed ∧
      ((wantRetry (getAgentTask q c.taskID) (c.reason classify) = false ∧ q' = failed ∧
          child = none) ∨
        (wantRetry (getAgentTask q c.taskID) (c.reason classify) = true ∧
          child = some (createRetryTask now c.childID t) ∧
          failed.insert? (createRetryTask now c.childID t) = some q')) := by
  simp only [failTask] at h
  cases hu : updateOne q (c.update classify now) with
  | error e =>
    rw [FailTaskCall.update] at hu
    simp [hu, bind, Except.bind] at h
  | ok p =>
    rcases p with ⟨failed, t₁⟩
    rcases updateOne_ok hu with ⟨r, hr, hsel, ht₁, hfailed⟩
    rw [FailTaskCall.update] at hu
    simp only [hu, bind, Except.bind] at h
    refine ⟨r, hr, failed, hsel, ?_⟩
    split at h
    · rename_i hwant
      cases hi : insertStmt failed (createRetryTask now c.childID t₁) with
      | error e => simp [hi] at h
      | ok q₁ =>
        simp only [hi, pure, Except.pure, Except.ok.injEq, Prod.mk.injEq] at h
        rcases h with ⟨rfl, rfl, rfl⟩
        exact ⟨ht₁, hfailed, .inr ⟨hwant, rfl, insertStmt_ok.1 hi⟩⟩
    · rename_i hwant
      simp only [pure, Except.pure, Except.ok.injEq, Prod.mk.injEq] at h
      rcases h with ⟨rfl, rfl, rfl⟩
      exact ⟨ht₁, hfailed, .inl ⟨by simpa using hwant, rfl, rfl⟩⟩

/-- Everything a step can do, guards included. -/
inductive Effect (cfg : Config) (s : State) : Step → State → Prop where
  | tick {t : Timestamp} (later : s.now ≤ t) : Effect cfg s (.tick t) { s with now := t }
  | insert {stmt : InsertStmt} {row : AgentTask} {q : TaskTable}
      (row_eq : stmt.row s.now s.queue = some row) (inserted : s.queue.insert? row = some q) :
      Effect cfg s (.insert stmt) { s with queue := q }
  | update {stmt : UpdateStmt} {q : TaskTable} (admits : stmt.admits s.now s.queue = true)
      (updated : s.queue.update? (stmt.update s.now s.queue) = some q) :
      Effect cfg s (.update stmt) { s with queue := q }
  | lock {a : UUID} (free : s.agentLock a = .free) :
      Effect cfg s (.lockAgent a) (s.setLock a .held)
  | count {a : UUID} (held : s.agentLock a = .held) :
      Effect cfg s (.countRunningTasks a)
        (s.setLock a (.counted (Task.countRunningTasks s.queue a)))
  | claim {a : UUID} {locked : List UUID} {pick : UUID} {running : Nat} {q : TaskTable}
      (counted : s.agentLock a = .counted running)
      (capacity : (running : Int) < cfg.maxConcurrentTasks a)
      (picked : admissiblePicks AgentTask.id s.queue.rows (claimEligible s.queue a) claimBefore 1
        locked [pick] = true)
      (updated : s.queue.update? (Task.claimAgentTask s.now prepareLeaseDuration pick) = some q) :
      Effect cfg s (.claimAgentTask a locked pick) { s.setLock a .free with queue := q }
  | release {a : UUID} (busy : s.agentLock a ≠ .free) :
      Effect cfg s (.releaseAgent a) (s.setLock a .free)
  | fail {c : FailTaskCall} {r : AgentTask} {failed : TaskTable} (mem : r ∈ s.queue.rows)
      (sel : (c.update cfg.classify s.now).sel r = true)
      (unwanted : wantRetry (getAgentTask s.queue c.taskID) (c.reason cfg.classify) = false)
      (updated : s.queue.update? (c.update cfg.classify s.now) = some failed) :
      Effect cfg s (.failTask c) { s with queue := failed }
  | failRetry {c : FailTaskCall} {r : AgentTask} {failed q : TaskTable} (mem : r ∈ s.queue.rows)
      (sel : (c.update cfg.classify s.now).sel r = true)
      (wanted : wantRetry (getAgentTask s.queue c.taskID) (c.reason cfg.classify) = true)
      (updated : s.queue.update? (c.update cfg.classify s.now) = some failed)
      (inserted : failed.insert?
        (createRetryTask s.now c.childID ((c.update cfg.classify s.now).set r)) = some q) :
      Effect cfg s (.failTask c) { s with queue := q }

theorem next_effect {cfg : Config} {s s' : State} {a : Step} (h : next cfg s a = some s') :
    Effect cfg s a s' := by
  cases a with
  | tick t =>
    simp only [next, Option.ite_none_right_eq_some, Option.some.injEq] at h
    rcases h with ⟨ht, rfl⟩
    exact .tick ht
  | insert stmt =>
    simp only [next, Option.bind_eq_some_iff, State.commit_eq_some, insertStmt_ok] at h
    rcases h with ⟨row, hrow, q, hq, rfl⟩
    exact .insert hrow hq
  | update stmt =>
    simp only [next, Option.ite_none_right_eq_some, State.commit_eq_some, updateStmt_ok] at h
    rcases h with ⟨hadm, q, hq, rfl⟩
    exact .update hadm hq
  | lockAgent a =>
    simp only [next, Option.ite_none_right_eq_some, Option.some.injEq] at h
    rcases h with ⟨hfree, rfl⟩
    exact .lock hfree
  | countRunningTasks a =>
    simp only [next, Option.ite_none_right_eq_some, Option.some.injEq] at h
    rcases h with ⟨hheld, rfl⟩
    exact .count hheld
  | claimAgentTask a locked pick =>
    simp only [next] at h
    split at h
    · rename_i running hcounted
      simp only [Option.ite_none_right_eq_some, State.commit_eq_some, updateStmt_ok,
        State.setLock_now] at h
      rcases h with ⟨⟨hcap, hpick⟩, q, hq, rfl⟩
      exact .claim hcounted hcap hpick hq
    · simp at h
  | releaseAgent a =>
    simp only [next, Option.ite_none_right_eq_some, Option.some.injEq] at h
    rcases h with ⟨hbusy, rfl⟩
    exact .release hbusy
  | failTask c =>
    simp only [next, State.commit_eq_some] at h
    rcases h with ⟨q, hq, rfl⟩
    cases hf : Task.failTask cfg.classify s.now s.queue c with
    | error e => simp [hf, Except.map] at hq
    | ok p =>
      rcases p with ⟨q₁, t, child⟩
      obtain rfl : q₁ = q := by simpa [hf, Except.map] using hq
      rcases failTask_ok hf with ⟨r, hr, failed, hsel, rfl, hupd, hcase⟩
      rcases hcase with ⟨hwant, rfl, -⟩ | ⟨hwant, -, hins⟩
      · exact .fail hr hsel hwant hupd
      · exact .failRetry hr hsel hwant hupd hins

end Orynx.Task
