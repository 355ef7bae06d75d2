import Orynx.Issue.Update
import Orynx.Routing.Outcome

/-! # A manual rerun

`RerunIssue` of `server/internal/service/task.go`. It resolves the agent to run again,
asks whether the operator may invoke it, cancels what the agent still has on the issue
and enqueues a fresh task. The run cap, the state of the agent and the attribution are
looked at only by the enqueue, behind the cancel.

* `sameRuns_cancelPrior`: the cancel changes nothing the enqueue reads but the status;
* `rerunIssue_capped`, `rerunIssue_failed` and `rerunIssue_created`: what a call does
  behind the cancel;
* `refusal_harmless_iff`: the condition under which a rerun that enqueues nothing has
  returned an error and has cancelled nothing.
-/

namespace Orynx.Rerun

open Lib Orynx.Task Orynx.Attribution Orynx.Routing
open Orynx.IssueUpdate (AssigneeType)

/-! ## What a call reads -/

/-- `GetComment`: the creation time of a comment, its absence or a fault. -/
inductive CommentRow where
  | found (createdAt : Timestamp)
  | missing
  | failed
deriving DecidableEq, Repr

/-- The lookups of a rerun; `issueLoads` and `cancelFails` are the outcomes of `GetIssue`
and of the cancelling statement. -/
structure RerunEnv extends Env where
  issueLoads : Bool := true
  assigneeType : Option AssigneeType := none
  squadLeader : UUID → Option UUID := fun _ => none
  commentRow : UUID → CommentRow := fun _ => .missing
  cancelFails : Bool := false

/-- The arguments of `RerunIssue`; `canInvoke` is its verdict on the agent loaded by an
id, and `none` for a trusted caller. -/
structure RerunCall where
  sourceTaskID : Option UUID := none
  triggerCommentID : Option UUID := none
  actorUserID : Option UUID := none
  canInvoke : Option (UUID → Bool) := none

inductive RerunError where
  | loadIssue
  | loadSourceTask
  | sourceTaskOfOtherIssue
  | repairCommentPlan
  | squadNotFound
  | notAssigned
  | loadTargetAgent
  | invokeNotAllowed
  | enqueue (e : EnqueueError)
deriving DecidableEq, Repr

/-! ## The comment plan -/

structure SurvivingComment where
  id : UUID
  createdAt : Timestamp
deriving DecidableEq, Repr

/-- The comments of the plan that are still there, each once; `none` on a fault. -/
def survivingComments (commentRow : UUID → CommentRow) (seen : List UUID) :
    List UUID → Option (List SurvivingComment)
  | [] => some []
  | id :: ids =>
    if seen.contains id then survivingComments commentRow seen ids
    else
      match commentRow id with
      | .missing => survivingComments commentRow (id :: seen) ids
      | .failed => none
      | .found createdAt =>
        (survivingComments commentRow (id :: seen) ids).map (⟨id, createdAt⟩ :: ·)

/-- The later one; at one time the one with the greater id. -/
def newerComment (newest c : SurvivingComment) : SurvivingComment :=
  if newest.createdAt < c.createdAt ∨ (c.createdAt = newest.createdAt ∧ newest.id < c.id) then c
  else newest

/-- `promoteNewestSurvivingComment`: the trigger and the rest of the plan. -/
def promoteNewestSurvivingComment (commentRow : UUID → CommentRow) (ids : List UUID) :
    Option (Option UUID × List UUID) :=
  (survivingComments commentRow [] ids).map fun survivors =>
    match survivors with
    | [] => (none, [])
    | first :: rest =>
      let newest := rest.foldl newerComment first
      (some newest.id, (survivors.filter fun c => c.id != newest.id).map SurvivingComment.id)

/-! ## The target -/

structure RerunTarget where
  agentID : UUID
  isLeader : Bool := false
  squadID : Option UUID := none
  triggerCommentID : Option UUID := none
  coalescedCommentIDs : List UUID := []
deriving DecidableEq, Repr

/-- The agent of the source task, with its role and, unless the caller names a trigger,
its comments. -/
def sourceTarget (env : RerunEnv) (sourceTask : AgentTask) (triggerCommentID : Option UUID) :
    Except RerunError RerunTarget :=
  let target : RerunTarget :=
    { agentID := sourceTask.agentID, isLeader := sourceTask.isLeaderTask,
      squadID := sourceTask.squadID, triggerCommentID := triggerCommentID }
  if triggerCommentID.isSome then .ok target
  else if sourceTask.triggerCommentID.isSome then
    .ok { target with
      triggerCommentID := sourceTask.triggerCommentID,
      coalescedCommentIDs := sourceTask.coalescedCommentIDs }
  else if sourceTask.coalescedCommentIDs.isEmpty then .ok target
  else
    match promoteNewestSurvivingComment env.commentRow sourceTask.coalescedCommentIDs with
    | none => .error .repairCommentPlan
    | some plan =>
      .ok { target with triggerCommentID := plan.1, coalescedCommentIDs := plan.2 }

/-- The agent assigned to the issue, or the leader of the squad that is. -/
def assigneeTarget (env : RerunEnv) (triggerCommentID : Option UUID) :
    Except RerunError RerunTarget :=
  match env.assigneeType, env.assigneeID with
  | some .agent, some assigneeID =>
    .ok { agentID := assigneeID, triggerCommentID := triggerCommentID }
  | some .squad, some squadID =>
    match env.squadLeader squadID with
    | none => .error .squadNotFound
    | some leaderID =>
      .ok { agentID := leaderID, isLeader := true, squadID := some squadID,
            triggerCommentID := triggerCommentID }
  | _, _ => .error .notAssigned

def rerunTarget (env : RerunEnv) (q : TaskTable) (call : RerunCall) :
    Except RerunError RerunTarget :=
  if !env.issueLoads then .error .loadIssue
  else
    match call.sourceTaskID with
    | none => assigneeTarget env call.triggerCommentID
    | some sourceTaskID =>
      match getAgentTask q sourceTaskID with
      | none => .error .loadSourceTask
      | some sourceTask =>
        if sourceTask.issueID = some env.issue.id then
          sourceTarget env sourceTask call.triggerCommentID
        else .error .sourceTaskOfOtherIssue

/-- Why the operator may not invoke the target. -/
def invokeError (env : RerunEnv) (call : RerunCall) (agentID : UUID) : Option RerunError :=
  match call.canInvoke with
  | none => none
  | some canInvoke =>
    if (env.agent agentID).isNone then some .loadTargetAgent
    else if canInvoke agentID then none
    else some .invokeNotAllowed

/-! ## The call -/

/-- The cancel of the target's tasks on the issue; its fault is only logged. -/
def cancelPrior (env : RerunEnv) (now : Timestamp) (q : TaskTable) (agentID : UUID) : TaskTable :=
  if env.cancelFails then q
  else q.exec (cancelAgentTasksByIssueAndAgent now env.issue.id agentID)

def enqueueRerunTask (env : RerunEnv) (now : Timestamp) (q : TaskTable) (target : RerunTarget)
    (call : RerunCall) : Except EnqueueError (TaskTable × Option AgentTask) :=
  if env.assigneeType = some .agent ∧ env.assigneeID = some target.agentID then
    enqueueIssueTaskWithCommentPlan env.toEnv now q target.triggerCommentID
      target.coalescedCommentIDs true call.actorUserID call.sourceTaskID
  else
    enqueueMentionTaskWithCommentPlan env.toEnv now q
      { agentID := target.agentID, agentAuthoredSource := .delegation,
        triggerCommentID := target.triggerCommentID,
        coalescedCommentIDs := target.coalescedCommentIDs, isLeader := target.isLeader,
        squadID := target.squadID, forceFreshSession := true, actorUserID := call.actorUserID,
        rerunOfTaskID := call.sourceTaskID }

/-- What a call leaves and answers; `none` is the zero task. -/
structure Outcome where
  queue : TaskTable
  result : Except RerunError (Option AgentTask)

def rerunIssue (env : RerunEnv) (now : Timestamp) (q : TaskTable) (call : RerunCall) : Outcome :=
  match rerunTarget env q call with
  | .error e => ⟨q, .error e⟩
  | .ok target =>
    match invokeError env call target.agentID with
    | some e => ⟨q, .error e⟩
    | none =>
      let cancelled := cancelPrior env now q target.agentID
      match enqueueRerunTask env now cancelled target call with
      | .error e => ⟨cancelled, .error (.enqueue e)⟩
      | .ok enqueued => ⟨enqueued.1, .ok enqueued.2⟩

/-! ## What the cancel leaves alone -/

theorem getAgentTask_eq_get? (q : TaskTable) (id : UUID) : getAgentTask q id = q.get? id :=
  Option.ext fun _ => getAgentTask_eq_some.trans Table.get?_eq_some.symm

/-- `q'` is `q` with only the state of its rows changed: what the run cap and the
attribution read is as it was. -/
structure SameRuns (q q' : TaskTable) : Prop where
  recent : ∀ (env : Env) (now : Timestamp), recentRuns env now q' = recentRuns env now q
  attribution : ∀ id, (getAgentTask q' id).map AgentTask.attribution =
    (getAgentTask q id).map AgentTask.attribution
  ids : ∀ t ∈ q'.rows, ∃ u ∈ q.rows, u.id = t.id

theorem SameRuns.refl (q : TaskTable) : SameRuns q q where
  recent _ _ := rfl
  attribution _ := rfl
  ids t ht := ⟨t, ht, rfl⟩

section Cancel

variable {now : Timestamp} {q : TaskTable} {issueID agentID : UUID}

theorem cancel_update? (now : Timestamp) (q : TaskTable) (issueID agentID : UUID) :
    q.update? (cancelAgentTasksByIssueAndAgent now issueID agentID) =
      some (q.exec (cancelAgentTasksByIssueAndAgent now issueID agentID)) := by
  have hsome : (q.update? (cancelAgentTasksByIssueAndAgent now issueID agentID)).isSome := by
    refine Table.update?_isSome_of_shrink (fun t _ => ?_) fun t _ => ?_
    · unfold Update.apply
      split <;> rfl
    · unfold Update.apply
      split
      · -- a cancelled row leaves the pending index
        left
        simp [cancelAgentTasksByIssueAndAgent, cancelWhere, AgentTask.cancel,
          AgentTask.pendingKey, TaskStatus.pending]
      · exact .inr rfl
  rcases Option.isSome_iff_exists.1 hsome with ⟨q', hq'⟩
  rw [Table.exec, hq', Option.getD_some]

theorem mem_cancelled {t : AgentTask} :
    t ∈ (q.exec (cancelAgentTasksByIssueAndAgent now issueID agentID)).rows ↔
      ∃ u ∈ q.rows, (cancelAgentTasksByIssueAndAgent now issueID agentID).apply u = t :=
  Table.mem_update? (cancel_update? now q issueID agentID)

theorem cancel_sel {t : AgentTask} :
    (cancelAgentTasksByIssueAndAgent now issueID agentID).sel t = true ↔
      t.issueID = some issueID ∧ t.agentID = agentID ∧ t.status.cancellable = true := by
  simp [cancelAgentTasksByIssueAndAgent, cancelWhere, and_assoc]

/-- The cancel changes the status, the end and the lease of a row. -/
theorem cancel_apply (now : Timestamp) (issueID agentID : UUID) (t : AgentTask) :
    ((cancelAgentTasksByIssueAndAgent now issueID agentID).apply t).id = t.id ∧
      ((cancelAgentTasksByIssueAndAgent now issueID agentID).apply t).issueID = t.issueID ∧
      ((cancelAgentTasksByIssueAndAgent now issueID agentID).apply t).agentID = t.agentID ∧
      ((cancelAgentTasksByIssueAndAgent now issueID agentID).apply t).createdAt = t.createdAt ∧
      ((cancelAgentTasksByIssueAndAgent now issueID agentID).apply t).attribution =
        t.attribution := by
  unfold Update.apply
  split <;> exact ⟨rfl, rfl, rfl, rfl, rfl⟩

theorem sameRuns_cancel (now : Timestamp) (q : TaskTable) (issueID agentID : UUID) :
    SameRuns q (q.exec (cancelAgentTasksByIssueAndAgent now issueID agentID)) where
  recent env now' := by
    rw [recentRuns, recentRuns, Table.update?_rows (cancel_update? now q issueID agentID),
      List.countP_map]
    refine List.countP_congr fun t _ => ?_
    rcases cancel_apply now issueID agentID t with ⟨-, hissue, -, hcreated, -⟩
    rw [Function.comp_apply, hissue, hcreated]
  attribution id := by
    rw [getAgentTask_eq_get?, getAgentTask_eq_get?,
      Table.get?_update? (S := taskSchema) (fun t => (cancel_apply _ _ _ t).1)
        (cancel_update? now q issueID agentID), Option.map_map]
    exact congrArg (fun f => (Table.get? q id).map f)
      (funext fun t => (cancel_apply _ _ _ t).2.2.2.2)
  ids t ht := by
    rcases mem_cancelled.1 ht with ⟨u, hu, rfl⟩
    exact ⟨u, hu, (cancel_apply _ _ _ u).1.symm⟩

/-- The pair has no pending row afterwards. -/
theorem cancel_frees {t : AgentTask}
    (ht : t ∈ (q.exec (cancelAgentTasksByIssueAndAgent now issueID agentID)).rows) :
    t.pendingKey ≠ some (issueID, agentID) := by
  rcases mem_cancelled.1 ht with ⟨u, -, rfl⟩
  intro hkey
  rcases AgentTask.pendingKey_eq_some.1 hkey with ⟨hpending, hissue, hagent⟩
  cases hsel : (cancelAgentTasksByIssueAndAgent now issueID agentID).sel u with
  | true =>
    rw [Update.apply_of_sel hsel] at hpending
    simp [cancelAgentTasksByIssueAndAgent, cancelWhere, AgentTask.cancel,
      TaskStatus.pending] at hpending
  | false =>
    -- a pending row of the pair is one the statement selects
    rw [Update.apply_of_not_sel hsel] at hpending hissue hagent
    have hcancellable : u.status.cancellable = true := by
      cases hs : u.status <;> simp_all [TaskStatus.pending, TaskStatus.cancellable]
    rw [cancel_sel.2 ⟨hissue, hagent, hcancellable⟩] at hsel
    cases hsel

end Cancel

theorem sameRuns_cancelPrior (env : RerunEnv) (now : Timestamp) (q : TaskTable)
    (agentID : UUID) : SameRuns q (cancelPrior env now q agentID) := by
  unfold cancelPrior
  split
  · exact .refl q
  · exact sameRuns_cancel now q env.issue.id agentID

section SameRuns

variable {q q' : TaskTable} (h : SameRuns q q')

include h

theorem SameRuns.bind_attribution (id : Option UUID) (f : AttributionColumns → Option UUID) :
    ((id.bind (getAgentTask q')).bind fun t => f t.attribution) =
      (id.bind (getAgentTask q)).bind fun t => f t.attribution := by
  cases id with
  | none => rfl
  | some id =>
    have hid := congrArg (fun o => o.bind f) (h.attribution id)
    simpa [Option.bind_map, Function.comp_def] using hid

theorem SameRuns.attributionFromComment (c : Comment) (src : Source) :
    Attribution.attributionFromComment q' c src = Attribution.attributionFromComment q c src := by
  simp only [Attribution.attributionFromComment]
  rw [h.bind_attribution _ AttributionColumns.originatorUserID,
    h.bind_attribution _ AttributionColumns.accountableUserID]

theorem SameRuns.attributionFromIssue (ap : AutopilotFacts) (issue : Attribution.Issue) :
    Attribution.attributionFromIssue q' ap issue = Attribution.attributionFromIssue q ap issue := by
  simp only [Attribution.attributionFromIssue]
  rw [h.bind_attribution _ AttributionColumns.originatorUserID,
    h.bind_attribution _ AttributionColumns.accountableUserID]

theorem SameRuns.issueAttribution (env : Env) (agent : Agent) (src : Source)
    (trigger actor : Option UUID) :
    Routing.issueAttribution env q' agent src trigger actor =
      Routing.issueAttribution env q agent src trigger actor := by
  simp only [Routing.issueAttribution, Enqueue.resolve, Enqueue.attribution,
    attributionForIssueTask, h.attributionFromComment, h.attributionFromIssue]

theorem SameRuns.issueRunCapExceeded (env : Env) (now : Timestamp) :
    Routing.issueRunCapExceeded env now q' = Routing.issueRunCapExceeded env now q := by
  simp only [Routing.issueRunCapExceeded, h.recent]

end SameRuns

/-! ## The enqueue -/

/-- What the path of a rerun hands to `CreateAgentTask`. -/
def rerunParams (env : RerunEnv) (target : RerunTarget) (call : RerunCall) : EnqueueParams :=
  if env.assigneeType = some .agent ∧ env.assigneeID = some target.agentID then
    { agentID := target.agentID, agentAuthoredSource := .commentSource,
      triggerCommentID := target.triggerCommentID,
      coalescedCommentIDs := target.coalescedCommentIDs, forceFreshSession := true,
      actorUserID := call.actorUserID, rerunOfTaskID := call.sourceTaskID }
  else
    { agentID := target.agentID, agentAuthoredSource := .delegation,
      triggerCommentID := target.triggerCommentID,
      coalescedCommentIDs := target.coalescedCommentIDs, isLeader := target.isLeader,
      squadID := target.squadID, forceFreshSession := true, actorUserID := call.actorUserID,
      rerunOfTaskID := call.sourceTaskID }

theorem rerunParams_agentID (env : RerunEnv) (target : RerunTarget) (call : RerunCall) :
    (rerunParams env target call).agentID = target.agentID := by
  unfold rerunParams
  split <;> rfl

/-- Both paths are the run cap in front of the insert. -/
theorem enqueueRerunTask_eq (env : RerunEnv) (now : Timestamp) (q : TaskTable)
    (target : RerunTarget) (call : RerunCall) :
    enqueueRerunTask env now q target call =
      if issueRunCapExceeded env.toEnv now q then .ok (q, none)
      else (createTask env.toEnv now q (rerunParams env target call)).map fun r =>
        (r.1, some r.2) := by
  unfold enqueueRerunTask rerunParams
  split
  · rename_i hassignee
    rw [enqueueIssueTaskWithCommentPlan, hassignee.2]
  · rfl

/-- The agent can be run and the run has someone to account for it. -/
def enqueueable (env : Env) (q : TaskTable) (p : EnqueueParams) : Bool :=
  match runnableAgent env p.agentID with
  | .error _ => false
  | .ok (agent, _) =>
    (issueAttribution env q agent p.agentAuthoredSource p.triggerCommentID p.actorUserID).isOk

theorem SameRuns.enqueueable {q q' : TaskTable} (h : SameRuns q q') (env : Env)
    (p : EnqueueParams) : Rerun.enqueueable env q' p = Rerun.enqueueable env q p := by
  simp only [Rerun.enqueueable, h.issueAttribution]

theorem createTask_error {env : Env} (now : Timestamp) {q : TaskTable} {p : EnqueueParams}
    (h : enqueueable env q p = false) : ∃ e, createTask env now q p = .error e := by
  unfold enqueueable at h
  unfold createTask
  cases hagent : runnableAgent env p.agentID with
  | error e => exact ⟨e, rfl⟩
  | ok a =>
    rcases a with ⟨agent, runtimeID⟩
    simp only [hagent] at h
    cases hattr : issueAttribution env q agent p.agentAuthoredSource p.triggerCommentID
        p.actorUserID with
    | error e => exact ⟨e, by simp [hattr, bind, Except.bind]⟩
    | ok attr => simp [hattr, Except.isOk, Except.toBool] at h

theorem createAgentTask_pendingKey {now : Timestamp} {id issueID : UUID}
    {p : CreateAgentTaskParams} (hissue : p.issueID = some issueID) :
    (createAgentTask now id p).pendingKey = some (issueID, p.agentID) :=
  AgentTask.pendingKey_eq_some.2 ⟨rfl, hissue, rfl⟩

/-- Where the pair has no pending row, the insert goes through. -/
theorem createTask_succeeds {env : Env} {now : Timestamp} {q : TaskTable} {p : EnqueueParams}
    (h : enqueueable env q p = true)
    (hfree : ∀ t ∈ q.rows, t.pendingKey ≠ some (env.issue.id, p.agentID)) :
    ∃ r, createTask env now q p = .ok r := by
  unfold enqueueable at h
  unfold createTask
  cases hagent : runnableAgent env p.agentID with
  | error e => simp [hagent] at h
  | ok a =>
    rcases a with ⟨agent, runtimeID⟩
    simp only [hagent] at h
    cases hattr : issueAttribution env q agent p.agentAuthoredSource p.triggerCommentID
        p.actorUserID with
    | error e => simp [hattr, Except.isOk, Except.toBool] at h
    | ok attr =>
      simp only [hattr, bind, Except.bind, insertStmt]
      split
      · rename_i e hins
        split at hins
        · cases hins
        · rename_i hnone
          -- the key is fresh and the pending slot is free
          refine absurd hnone (Option.isSome_iff_ne_none.1
            (Table.insert?_isSome.2 ⟨fun t ht => newTaskID_ne ht, fun k hk => ?_⟩))
          rw [taskSchema_index, createAgentTask_pendingKey rfl] at hk
          exact Option.some.inj hk ▸ hfree
      · exact ⟨_, rfl⟩

/-! ## Refusals -/

/-- A new queued task of the agent on the issue. -/
def LeavesTask (env : RerunEnv) (q : TaskTable) (agentID : UUID) (o : Outcome) : Prop :=
  ∃ t ∈ o.queue.rows, (∀ u ∈ q.rows, u.id ≠ t.id) ∧ t.status = .queued ∧
    t.issueID = some env.issue.id ∧ t.agentID = agentID

/-- A task of the pair that was not cancelled before is now. -/
def CancelsTask (env : RerunEnv) (q : TaskTable) (agentID : UUID) (o : Outcome) : Prop :=
  ∃ t ∈ q.rows, t.issueID = some env.issue.id ∧ t.agentID = agentID ∧ t.status ≠ .cancelled ∧
    ∃ t' ∈ o.queue.rows, t'.id = t.id ∧ t'.status = .cancelled

/-- A rerun that leaves no new queued task of the resolved agent has returned an error
and cancelled none of the agent's tasks on the issue. -/
def RefusalHarmless (env : RerunEnv) (now : Timestamp) (q : TaskTable) (call : RerunCall) : Prop :=
  (∀ target, rerunTarget env q call = .ok target →
    ¬LeavesTask env q target.agentID (rerunIssue env now q call)) →
  (∃ e, (rerunIssue env now q call).result = .error e) ∧
    ∀ target, rerunTarget env q call = .ok target →
      ¬CancelsTask env q target.agentID (rerunIssue env now q call)

/-- The cancel has a task of the pair to stop. -/
def cancelsSome (env : RerunEnv) (q : TaskTable) (agentID : UUID) : Bool :=
  !env.cancelFails &&
    q.rows.any fun t =>
      t.issueID == some env.issue.id && t.agentID == agentID && t.status.cancellable

/-- The call is refused before the cancel, or the run cap leaves room and either the
enqueue has what it needs or there is nothing to cancel. -/
def refusalSafe (env : RerunEnv) (now : Timestamp) (q : TaskTable) (call : RerunCall) : Bool :=
  match rerunTarget env q call with
  | .error _ => true
  | .ok target =>
    (invokeError env call target.agentID).isSome ||
      !issueRunCapExceeded env.toEnv now q &&
        (enqueueable env.toEnv q (rerunParams env target call) ||
          !cancelsSome env q target.agentID)

section Call

variable {env : RerunEnv} {now : Timestamp} {q : TaskTable} {call : RerunCall}
  {target : RerunTarget}

/-- Behind the two refusals a call is the cancel and, below the cap, the insert. -/
theorem rerunIssue_capped (htarget : rerunTarget env q call = .ok target)
    (hinvoke : invokeError env call target.agentID = none)
    (hcap : issueRunCapExceeded env.toEnv now q = true) :
    rerunIssue env now q call = ⟨cancelPrior env now q target.agentID, .ok none⟩ := by
  have hsame := sameRuns_cancelPrior env now q target.agentID
  have henq := enqueueRerunTask_eq env now (cancelPrior env now q target.agentID) target call
  rw [hsame.issueRunCapExceeded, if_pos hcap] at henq
  simp only [rerunIssue, htarget, hinvoke, henq]

theorem rerunIssue_created {created : TaskTable × AgentTask}
    (htarget : rerunTarget env q call = .ok target)
    (hinvoke : invokeError env call target.agentID = none)
    (hcap : issueRunCapExceeded env.toEnv now q = false)
    (hcreate : createTask env.toEnv now (cancelPrior env now q target.agentID)
      (rerunParams env target call) = .ok created) :
    rerunIssue env now q call = ⟨created.1, .ok (some created.2)⟩ := by
  have hsame := sameRuns_cancelPrior env now q target.agentID
  have henq := enqueueRerunTask_eq env now (cancelPrior env now q target.agentID) target call
  rw [hsame.issueRunCapExceeded, if_neg (by simp [hcap]), hcreate] at henq
  simp only [rerunIssue, htarget, hinvoke, henq, Except.map]

theorem rerunIssue_failed {e : EnqueueError}
    (htarget : rerunTarget env q call = .ok target)
    (hinvoke : invokeError env call target.agentID = none)
    (hcap : issueRunCapExceeded env.toEnv now q = false)
    (hcreate : createTask env.toEnv now (cancelPrior env now q target.agentID)
      (rerunParams env target call) = .error e) :
    rerunIssue env now q call =
      ⟨cancelPrior env now q target.agentID, .error (.enqueue e)⟩ := by
  have hsame := sameRuns_cancelPrior env now q target.agentID
  have henq := enqueueRerunTask_eq env now (cancelPrior env now q target.agentID) target call
  rw [hsame.issueRunCapExceeded, if_neg (by simp [hcap]), hcreate] at henq
  simp only [rerunIssue, htarget, hinvoke, henq, Except.map]

/-- The cancel inserts nothing. -/
theorem not_leavesTask {agentID : UUID} {r : Except RerunError (Option AgentTask)}
    {q' : TaskTable} (h : SameRuns q q') : ¬LeavesTask env q agentID ⟨q', r⟩ := by
  rintro ⟨t, ht, hnew, -⟩
  rcases h.ids t ht with ⟨u, hu, hid⟩
  exact hnew u hu hid

theorem not_cancelsTask_refl {agentID : UUID} {r : Except RerunError (Option AgentTask)} :
    ¬CancelsTask env q agentID ⟨q, r⟩ := by
  rintro ⟨t, ht, -, -, hstatus, t', ht', hid, hcancelled⟩
  obtain rfl : t' = t := q.eq_of_key ht' ht hid
  exact hstatus hcancelled

/-- The cancel stops a task exactly when there is one to stop. -/
theorem cancelsTask_cancelPrior {agentID : UUID} {r : Except RerunError (Option AgentTask)} :
    CancelsTask env q agentID ⟨cancelPrior env now q agentID, r⟩ ↔
      cancelsSome env q agentID = true := by
  unfold cancelsSome cancelPrior
  cases env.cancelFails with
  | true => simpa using not_cancelsTask_refl
  | false =>
    simp only [Bool.false_eq_true, if_false, Bool.not_false, Bool.true_and, List.any_eq_true,
      Bool.and_eq_true, beq_iff_eq]
    constructor
    · rintro ⟨t, ht, hissue, hagent, hstatus, t', ht', hid, hcancelled⟩
      rcases mem_cancelled.1 ht' with ⟨u, hu, rfl⟩
      obtain rfl : u = t := q.eq_of_key hu ht ((cancel_apply _ _ _ u).1.symm.trans hid)
      cases hsel : (cancelAgentTasksByIssueAndAgent now env.issue.id agentID).sel u with
      | true => exact ⟨u, hu, ⟨hissue, hagent⟩, (cancel_sel.1 hsel).2.2⟩
      | false =>
        rw [Update.apply_of_not_sel hsel] at hcancelled
        exact absurd hcancelled hstatus
    · rintro ⟨t, ht, ⟨hissue, hagent⟩, hcancellable⟩
      refine ⟨t, ht, hissue, hagent, ?_, _, mem_cancelled.2 ⟨t, ht, rfl⟩,
        (cancel_apply _ _ _ t).1, ?_⟩
      · intro hs
        simp [hs, TaskStatus.cancellable] at hcancellable
      · rw [Update.apply_of_sel (cancel_sel.2 ⟨hissue, hagent, hcancellable⟩)]
        rfl

/-- A row that went in is the new queued task. -/
theorem leavesTask_of_created {created : TaskTable × AgentTask}
    (h : createTask env.toEnv now (cancelPrior env now q target.agentID)
      (rerunParams env target call) = .ok created) :
    LeavesTask env q target.agentID ⟨created.1, .ok (some created.2)⟩ := by
  rcases created with ⟨q', row⟩
  rcases createTask_ok h with ⟨hfresh, -, hins⟩
  refine ⟨row, (Table.mem_insert? hins).2 (.inr rfl), fun u hu => ?_, hfresh.status,
    hfresh.issueID, hfresh.agentID.trans (rerunParams_agentID env target call)⟩
  -- a row of the queue is still there after the cancel
  have hkept : ∃ t ∈ (cancelPrior env now q target.agentID).rows, t.id = u.id := by
    unfold cancelPrior
    split
    · exact ⟨u, hu, rfl⟩
    · exact ⟨_, mem_cancelled.2 ⟨u, hu, rfl⟩, (cancel_apply _ _ _ u).1⟩
  rcases hkept with ⟨t, ht, hid⟩
  rw [← hid, hfresh.id]
  exact newTaskID_ne ht

/-- Unless the cancel fails, a call that has what it needs enqueues. -/
theorem created_of_cancel (now : Timestamp) (hfails : env.cancelFails = false)
    (henq : enqueueable env.toEnv q (rerunParams env target call) = true) :
    ∃ created, createTask env.toEnv now (cancelPrior env now q target.agentID)
      (rerunParams env target call) = .ok created := by
  have hsame := sameRuns_cancelPrior env now q target.agentID
  refine createTask_succeeds ((hsame.enqueueable _ _).trans henq) fun t ht => ?_
  rw [rerunParams_agentID]
  unfold cancelPrior at ht
  rw [if_neg (by simp [hfails])] at ht
  exact cancel_frees ht

end Call

/-- A rerun is refused harmlessly exactly when the refusal comes before the cancel, or
the run cap leaves room and the enqueue has what it needs or there is nothing to
cancel. -/
theorem refusal_harmless_iff (env : RerunEnv) (now : Timestamp) (q : TaskTable)
    (call : RerunCall) :
    RefusalHarmless env now q call ↔ refusalSafe env now q call = true := by
  unfold RefusalHarmless refusalSafe
  cases htarget : rerunTarget env q call with
  | error e =>
    have hcall : rerunIssue env now q call = ⟨q, .error e⟩ := by
      simp only [rerunIssue, htarget]
    simp [hcall]
  | ok target =>
    simp only [Except.ok.injEq, forall_eq']
    cases hinvoke : invokeError env call target.agentID with
    | some e =>
      have hcall : rerunIssue env now q call = ⟨q, .error e⟩ := by
        simp only [rerunIssue, htarget, hinvoke]
      simp [hcall, not_cancelsTask_refl]
    | none =>
      have hsame := sameRuns_cancelPrior env now q target.agentID
      cases hcap : issueRunCapExceeded env.toEnv now q with
      | true =>
        -- at the cap the answer is no error, whatever was cancelled
        simp [rerunIssue_capped htarget hinvoke hcap, not_leavesTask hsame]
      | false =>
        cases hcreate : createTask env.toEnv now (cancelPrior env now q target.agentID)
            (rerunParams env target call) with
        | ok created =>
          have henq : enqueueable env.toEnv q (rerunParams env target call) = true := by
            by_contra hnot
            rcases createTask_error now
              ((hsame.enqueueable _ _).trans (Bool.eq_false_iff.2 hnot)) with ⟨e, he⟩
            rw [he] at hcreate
            cases hcreate
          simp [rerunIssue_created htarget hinvoke hcap hcreate, leavesTask_of_created hcreate,
            henq]
        | error e =>
          -- with the pair's slot freed, only a missing precondition can fail the insert
          have hcancels : enqueueable env.toEnv q (rerunParams env target call) = true →
              cancelsSome env q target.agentID = false := by
            intro henq
            cases hfails : env.cancelFails with
            | true => simp [cancelsSome, hfails]
            | false =>
              rcases created_of_cancel now hfails henq with ⟨created, hcreated⟩
              rw [hcreated] at hcreate
              cases hcreate
          rw [rerunIssue_failed htarget hinvoke hcap hcreate]
          simp only [not_leavesTask hsame, cancelsTask_cancelPrior]
          cases henq : enqueueable env.toEnv q (rerunParams env target call) <;>
            simp_all

/-! ## An archived assignee -/

/-- Issue 10 is assigned to agent 7, which has been archived. -/
def archivedAssignee : RerunEnv where
  issue := { id := 10, creatorType := .member, creatorID := some 1 }
  assigneeID := some 7
  assigneeType := some .agent
  agent id :=
    if id = 7 then
      some { archived := true, runtimeID := some 3, policy := ⟨none, none, some 1⟩ }
    else none
  comment _ := none

/-- Its owner asks for a rerun. -/
def ownerRerun : RerunCall where
  actorUserID := some 1
  canInvoke := some fun _ => true

/-- The queued run of the archived assignee is cancelled, and then the enqueue refuses. -/
theorem archived_assignee_loses_run :
    ∃ s, (Task.machine ⟨fun _ => 1, id⟩).Reachable s ∧
      ¬RefusalHarmless archivedAssignee 5 s.queue ownerRerun := by
  rcases Machine.reachable_of_run (Task.machine ⟨fun _ => 1, id⟩) (Task.init_empty _)
    [.insert (.createAgentTask 1 { agentID := 7, runtimeID := 3, issueID := some 10 })]
    (fun s =>
      let o := rerunIssue archivedAssignee 5 s.queue ownerRerun
      o.queue.rows.all (fun t => t.status == .cancelled) &&
        s.queue.rows.any fun t =>
          t.issueID == some 10 && t.agentID == 7 && t.status == .queued &&
            o.queue.rows.any fun t' => t'.id == t.id)
    (by decide +kernel) with ⟨s, -, hs, hp⟩
  refine ⟨s, hs, fun hclaim => ?_⟩
  simp only [Bool.and_eq_true, List.all_eq_true, List.any_eq_true, beq_iff_eq] at hp
  rcases hp with ⟨hall, t, ht, ⟨⟨hissue, hagent⟩, hstatus⟩, t', ht', hid⟩
  have htarget : rerunTarget archivedAssignee s.queue ownerRerun = .ok { agentID := 7 } := rfl
  have hharmless := hclaim fun target _ hleaves => by
    rcases hleaves with ⟨u, hu, -, hqueued, -⟩
    rw [hall u hu] at hqueued
    cases hqueued
  refine hharmless.2 _ htarget ⟨t, ht, hissue, hagent, ?_, t', ht', hid, hall t' ht'⟩
  rw [hstatus]
  decide

end Orynx.Rerun
