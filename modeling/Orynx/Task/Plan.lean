import Mathlib.Data.List.Dedup
import Orynx.Task.System

/-! # Batches and receipts along a step

The comments a row was enqueued for only grow in number, a run that has ended keeps
its receipt, and a retry clone starts with the whole batch of the run it retries.

* `Carried`: what every statement keeps of a row;
* `Offspring`: what every inserted row is;
* `RetriesFailed`: only failed runs have a retry clone, in every reachable queue.
-/

namespace Orynx.Task

open Lib

/-- Queued or held by a daemon: what `HasActiveTaskForIssueAndAgent` counts. -/
def TaskStatus.live (s : TaskStatus) : Bool := s == .queued || s.active

theorem TaskStatus.live_cases {s : TaskStatus} :
    s.live = true ↔
      s = .queued ∨ s = .dispatched ∨ s = .running ∨ s = .waitingLocalDirectory := by
  cases s <;> simp [live, active]

/-- A live run stays one or ends. -/
theorem Move.live {b : Bool} {s s' : TaskStatus} (h : Move b s s') (hl : s.live = true) :
    s'.live = true ∨ s' = .failed ∨ s' = .cancelled ∨ s' = .completed := by
  cases h with
  | stay => exact .inl hl
  | promote => simp [TaskStatus.live, TaskStatus.active] at hl
  | requeue | wait | start => exact .inl rfl
  | complete => exact .inr (.inr (.inr rfl))
  | fail => exact .inr (.inl rfl)
  | cancel => exact .inr (.inr (.inl rfl))

/-! ## Updates -/

/-- What an update keeps of a row's batch; `completing` flags `CompleteAgentTask`. -/
structure PlanStep (completing : Bool) (r r' : AgentTask) : Prop where
  retryOf : r'.retryOfTaskID = r.retryOfTaskID
  plan : ∀ c ∈ r.plan, c ∈ r'.plan
  receipt : r'.deliveredCommentIDs = r.deliveredCommentIDs ∨ r.status = .dispatched
  completed : r'.status = .completed → r.status = .completed ∨ completing = true

theorem PlanStep.refl {b : Bool} (r : AgentTask) : PlanStep b r r :=
  ⟨rfl, fun _ h => h, .inl rfl, .inl⟩

theorem PlanStep.apply {b : Bool} {u : Update AgentTask} {r : AgentTask}
    (h : u.sel r = true → PlanStep b r (u.set r)) : PlanStep b r (u.apply r) := by
  cases hsel : u.sel r with
  | true => rw [Update.apply_of_sel hsel]; exact h hsel
  | false => rw [Update.apply_of_not_sel hsel]; exact .refl r

/-- An update that does not touch the batch or the receipt. -/
theorem PlanStep.of_status {b : Bool} {r r' : AgentTask}
    (hsame : r'.retryOfTaskID = r.retryOfTaskID ∧ r'.triggerCommentID = r.triggerCommentID ∧
      r'.coalescedCommentIDs = r.coalescedCommentIDs ∧
      r'.deliveredCommentIDs = r.deliveredCommentIDs)
    (hcompleted : r'.status = .completed → r.status = .completed ∨ b = true) :
    PlanStep b r r' := by
  rcases hsame with ⟨hretry, htrigger, hcoalesced, hdelivered⟩
  refine ⟨hretry, fun c hc => ?_, .inl hdelivered, hcompleted⟩
  rwa [AgentTask.plan, htrigger, hcoalesced]

theorem cancelWhere_planStep {b : Bool} (now : Timestamp) (p : AgentTask → Bool)
    (r : AgentTask) : PlanStep b r ((cancelWhere now p).apply r) :=
  .apply fun _ => .of_status ⟨rfl, rfl, rfl, rfl⟩ (by simp [cancelWhere, AgentTask.cancel])

/-- The old trigger and the old coalesced comments stay in the batch. -/
theorem mem_plan_merge {r : AgentTask} {target c new : UUID} {attribution : AttributionColumns}
    (h : c ∈ r.plan) :
    c ∈ ((mergeCommentIntoPendingTask target new attribution).set r).plan := by
  simp only [mergeCommentIntoPendingTask, AgentTask.plan, Option.toList_some,
    List.singleton_append, List.mem_cons, mergedCommentIDs, List.mem_dedup, List.mem_filter,
    decide_eq_true_eq]
  by_cases hnew : c = new
  · exact .inl hnew
  · refine .inr ⟨?_, hnew⟩
    rw [AgentTask.plan, List.mem_append] at h
    exact List.mem_append.2 h.symm

theorem mem_plan_merge_self {r : AgentTask} {target new : UUID}
    {attribution : AttributionColumns} :
    new ∈ ((mergeCommentIntoPendingTask target new attribution).set r).plan := by
  simp [mergeCommentIntoPendingTask, AgentTask.plan]

/-- The statement that completes a run. -/
def UpdateStmt.completes : UpdateStmt → Bool
  | .completeAgentTask _ _ _ => true
  | _ => false

theorem UpdateStmt.planStep (now : Timestamp) (q : TaskTable) (stmt : UpdateStmt)
    (r : AgentTask) : PlanStep stmt.completes r ((stmt.update now q).apply r) := by
  cases stmt with
  | setTaskDeliveredCommentIDs t rt d e ids =>
    refine .apply fun hsel => ⟨rfl, fun _ h => h, .inr ?_, .inl⟩
    simp only [update, Task.setTaskDeliveredCommentIDs, Bool.and_eq_true, beq_iff_eq] at hsel
    exact hsel.1.1.1.1.2
  | requeueAgentTaskAfterClaimFailure t rt d =>
    refine .apply fun hsel => ⟨rfl, fun _ h => h, .inr ?_, ?_⟩
    · simp only [update, Task.requeueAgentTaskAfterClaimFailure, Bool.and_eq_true,
        beq_iff_eq] at hsel
      exact hsel.1.1.2
    · simp [update, Task.requeueAgentTaskAfterClaimFailure]
  | mergeCommentIntoPendingTask i a c attribution =>
    refine .apply fun hsel => ?_
    simp only [update] at hsel ⊢
    split at hsel
    · exact ⟨rfl, fun _ => mem_plan_merge, .inl rfl, .inl⟩
    · simp at hsel
  | completeAgentTask id session dir =>
    exact .apply fun _ => .of_status ⟨rfl, rfl, rfl, rfl⟩ fun _ => .inr rfl
  | cancelAgentTasksByIssue | cancelAgentTasksByIssueAndAgent | cancelAgentTasksByAgent |
    cancelAgentTasksByTriggerComment | cancelAgentTasksByChatSession | cancelAgentTask =>
    exact cancelWhere_planStep _ _ _
  | promoteDueDeferredTasksForRuntimes | startAgentTask | markAgentTaskWaitingLocalDirectory |
    recoverOrphanedTasksForRuntime | failStaleTasks | failTasksForOfflineRuntimes |
    expireStaleQueuedTasks | cancelAgentTasksByRuntimeOrAgent |
    cancelDeferredEscalationsForTask | cancelDeferredEscalationsForIssueAgent =>
    -- the status becomes another one
    refine .apply fun _ => .of_status ⟨rfl, rfl, rfl, rfl⟩ fun h => ?_
    exact absurd h (fun h' => TaskStatus.noConfusion h')
  | reclaimStaleDispatchedTasksForRuntimes | extendAgentTaskPrepareLease |
    updateAgentTaskSession | linkTaskToIssue | markChatFinalizeDeferred |
    claimChatFinalizeDeferred | setChatTaskInputOwnerSelf | reassignTasksToRuntime =>
    exact .apply fun _ => .of_status ⟨rfl, rfl, rfl, rfl⟩ .inl

/-- The row `r'` is what `r` has become. -/
structure Carried (completing : Bool) (r r' : AgentTask) : Prop where
  id : r'.id = r.id
  agentID : r'.agentID = r.agentID
  createdAt : r'.createdAt = r.createdAt
  issueID : ∀ i, r.issueID = some i → r'.issueID = some i
  retryOf : r'.retryOfTaskID = r.retryOfTaskID
  plan : ∀ c ∈ r.plan, c ∈ r'.plan
  ended : r.status.terminal = true →
    r'.status = r.status ∧ r'.deliveredCommentIDs = r.deliveredCommentIDs
  live : r.status.live = true → r'.status.live = true ∨ r'.status = .failed ∨
    r'.status = .cancelled ∨ (r'.status = .completed ∧ completing = true)

theorem RowStep.carried {b completing : Bool} {r r' : AgentTask} (h : RowStep b r r')
    (hp : PlanStep completing r r') : Carried completing r r' where
  id := h.id
  agentID := h.agentID
  createdAt := h.createdAt
  issueID i hi := by
    rcases h.issueID with hsame | ⟨-, hnone⟩
    · exact hsame.trans hi
    · simp [hnone] at hi
  retryOf := hp.retryOf
  plan := hp.plan
  ended ht := by
    refine ⟨h.move.terminal ht, hp.receipt.resolve_right fun hd => ?_⟩
    simp [hd, TaskStatus.terminal] at ht
  live hl := by
    rcases h.move.live hl with hl' | hf | hc | hc
    · exact .inl hl'
    · exact .inr (.inl hf)
    · exact .inr (.inr (.inl hc))
    · rcases hp.completed hc with hr | hcompleting
      · simp [hr, TaskStatus.live, TaskStatus.active] at hl
      · exact .inr (.inr (.inr ⟨hc, hcompleting⟩))

theorem UpdateStmt.carried {now : Timestamp} {q : TaskTable} {stmt : UpdateStmt}
    (hadm : stmt.admits now q = true) {r : AgentTask} (hr : r ∈ q.rows) :
    Carried stmt.completes r ((stmt.update now q).apply r) :=
  (stmt.rowStep hadm hr).carried (stmt.planStep now q r)

theorem FailTaskCall.carried (c : FailTaskCall) (classify : String → String) (now : Timestamp)
    (r : AgentTask) : Carried false r ((c.update classify now).apply r) := by
  refine (c.update_rowStep (b := false) classify now r).carried (.apply fun _ => ?_)
  exact .of_status ⟨rfl, rfl, rfl, rfl⟩ fun h => TaskStatus.noConfusion h

theorem claimAgentTask_carried {now : Timestamp} {secs : Nat} {q : TaskTable} {pick : UUID}
    (hpick : ∀ t ∈ q.rows, t.id = pick → t.status = .queued) {r : AgentTask} (hr : r ∈ q.rows) :
    Carried false r ((claimAgentTask now secs pick).apply r) := by
  by_cases hid : r.id = pick
  · have hq := hpick r hr hid
    rw [Update.apply_of_sel (by simpa [claimAgentTask] using hid)]
    refine ⟨rfl, rfl, rfl, fun _ h => h, rfl, fun _ h => h, fun ht => ?_, fun _ => .inl rfl⟩
    simp [hq, TaskStatus.terminal] at ht
  · rw [claimAgentTask_other hid]
    exact (RowStep.refl (b := false) r).carried (.refl r)

/-! ## Inserts -/

/-- A clone of the failed row `r` that carries its batch on. -/
structure RetryOf (r row : AgentTask) : Prop where
  retryOf : row.retryOfTaskID = some r.id
  failed : r.status = .failed
  queued : row.status = .queued
  issueID : row.issueID = r.issueID
  agentID : row.agentID = r.agentID
  plan : row.plan = r.plan

theorem createRetryTask_retryOf (now : Timestamp) (id : UUID) {r : AgentTask}
    (h : r.status = .failed) : RetryOf r (createRetryTask now id r) :=
  ⟨rfl, h, rfl, rfl, rfl, rfl⟩

/-- Every inserted row starts a chain or retries a failed row of the table. -/
def Offspring (q : TaskTable) (row : AgentTask) : Prop :=
  row.retryOfTaskID = none ∨ ∃ r ∈ q.rows, RetryOf r row

theorem InsertStmt.offspring {now : Timestamp} {q : TaskTable} {stmt : InsertStmt}
    {row : AgentTask} (h : stmt.row now q = some row) : Offspring q row := by
  cases stmt with
  | createRetryTask id parentID =>
    right
    simp only [InsertStmt.row, Option.map_eq_some_iff, Option.filter_eq_some_iff] at h
    rcases h with ⟨r, ⟨hget, helig⟩, rfl⟩
    simp only [sweeperRetryEligible, Bool.and_eq_true, beq_iff_eq] at helig
    exact ⟨r, (getAgentTask_eq_some.1 hget).1, createRetryTask_retryOf now id helig.1⟩
  | _ =>
    left
    simp only [InsertStmt.row, Option.some.injEq] at h
    rw [← h]
    rfl

/-! ## Retried rows -/

/-- A retry clone of the row exists. -/
def retried (q : TaskTable) (id : UUID) : Bool :=
  q.rows.any fun t => t.retryOfTaskID == some id

/-- Only failed rows have been retried. -/
def RetriesFailed (q : TaskTable) : Prop :=
  ∀ t ∈ q.rows, ∀ id, t.retryOfTaskID = some id → ∃ r ∈ q.rows, r.id = id ∧ r.status = .failed

theorem RetriesFailed.not_retried {q : TaskTable} (h : RetriesFailed q) {r : AgentTask}
    (hr : r ∈ q.rows) (hf : r.status ≠ .failed) : retried q r.id = false := by
  rw [retried, List.any_eq_false]
  intro t ht hretry
  rcases h t ht r.id (by simpa using hretry) with ⟨r', hr', hid, hfailed⟩
  rw [q.eq_of_key hr' hr hid] at hfailed
  exact hf hfailed

theorem RetriesFailed.insert {q q' : TaskTable} {row : AgentTask} (h : RetriesFailed q)
    (hrow : Offspring q row) (hins : q.insert? row = some q') : RetriesFailed q' := by
  intro t ht id hid
  rcases (Table.mem_insert? hins).1 ht with ht | rfl
  · rcases h t ht id hid with ⟨r, hr, hr'⟩
    exact ⟨r, (Table.mem_insert? hins).2 (.inl hr), hr'⟩
  · rcases hrow with hnone | ⟨r, hr, hretry⟩
    · simp [hnone] at hid
    · refine ⟨r, (Table.mem_insert? hins).2 (.inl hr), ?_, hretry.failed⟩
      exact Option.some.inj (hretry.retryOf.symm.trans hid)

theorem RetriesFailed.update {q q' : TaskTable} {u : Update AgentTask} {b : Bool}
    (h : RetriesFailed q) (hu : ∀ r ∈ q.rows, Carried b r (u.apply r))
    (hupd : q.update? u = some q') : RetriesFailed q' := by
  intro t' ht' id hid
  rcases (Table.mem_update? hupd).1 ht' with ⟨t, ht, rfl⟩
  rw [(hu t ht).retryOf] at hid
  rcases h t ht id hid with ⟨r, hr, hrid, hfailed⟩
  refine ⟨u.apply r, (Table.mem_update? hupd).2 ⟨r, hr, rfl⟩, (hu r hr).id.trans hrid, ?_⟩
  rw [((hu r hr).ended (by rw [hfailed]; rfl)).1, hfailed]

theorem retried_update {q q' : TaskTable} {u : Update AgentTask} {b : Bool}
    (hu : ∀ r ∈ q.rows, Carried b r (u.apply r)) (hupd : q.update? u = some q') (id : UUID) :
    retried q' id = retried q id := by
  have hiff : retried q' id = true ↔ retried q id = true := by
    simp only [retried, List.any_eq_true, beq_iff_eq]
    constructor
    · rintro ⟨t', ht', hretry⟩
      rcases (Table.mem_update? hupd).1 ht' with ⟨t, ht, rfl⟩
      exact ⟨t, ht, (hu t ht).retryOf.symm.trans hretry⟩
    · rintro ⟨t, ht, hretry⟩
      exact ⟨u.apply t, (Table.mem_update? hupd).2 ⟨t, ht, rfl⟩, (hu t ht).retryOf.trans hretry⟩
  exact Bool.eq_iff_iff.2 hiff

theorem retried_insert {q q' : TaskTable} {row : AgentTask} (hins : q.insert? row = some q')
    {id : UUID} (hid : row.retryOfTaskID ≠ some id) : retried q' id = retried q id := by
  simp [retried, Table.insert?_rows hins, hid]

end Orynx.Task
