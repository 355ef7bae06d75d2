import Orynx.Routing.Enqueue
import Orynx.Task.System

/-! # What a trigger outcome means

`Handled` says once what the loop body of `enqueueCommentAgentTriggers` can do to the
queue with which status. Two of its ways are not what the status says: at the run cap
nothing is enqueued and the status is `queued`, and a pending row of another head is
no reason to coalesce but still keeps a fresh row out.

* `handled`: every trigger is handled in one of the ways;
* `honest_iff_clear`: a call's outcomes are honest exactly when no trigger meets the
  cap or another head.
-/

namespace Orynx.Routing

open Lib Orynx.Task Orynx.Attribution

/-! ## Fresh rows -/

theorem newTaskID_ne {q : TaskTable} {t : AgentTask} (ht : t ∈ q.rows) : t.id ≠ newTaskID q := by
  have hle : ∀ (ids : List UUID) (i : UUID), i ∈ ids → i ≤ ids.foldr max 0 := by
    intro ids i hi
    induction ids with
    | nil => simp at hi
    | cons j ids ih =>
      rw [List.foldr_cons]
      rcases List.mem_cons.1 hi with rfl | hi
      · exact Nat.le_max_left _ _
      · exact Nat.le_trans (ih hi) (Nat.le_max_right _ _)
  have hid := hle (q.rows.map fun t => t.id) t.id (List.mem_map.2 ⟨t, ht, rfl⟩)
  intro heq
  rw [heq, newTaskID] at hid
  exact Nat.not_succ_le_self _ hid

/-- A row that a path for `agentID` has just inserted for the comment. -/
structure FreshRow (env : Env) (now : Timestamp) (q : TaskTable) (agentID : UUID)
    (triggerCommentID : Option UUID) (row : AgentTask) : Prop where
  id : row.id = newTaskID q
  status : row.status = .queued
  issueID : row.issueID = some env.issue.id
  agentID : row.agentID = agentID
  triggerCommentID : row.triggerCommentID = triggerCommentID
  createdAt : row.createdAt = now
  retryOf : row.retryOfTaskID = none

theorem createTask_ok {env : Env} {now : Timestamp} {q q' : TaskTable} {p : EnqueueParams}
    {row : AgentTask} (h : createTask env now q p = .ok (q', row)) :
    FreshRow env now q p.agentID p.triggerCommentID row ∧
      row.coalescedCommentIDs = p.coalescedCommentIDs ∧ q.insert? row = some q' := by
  unfold createTask at h
  cases hagent : runnableAgent env p.agentID with
  | error e => simp [hagent, bind, Except.bind] at h
  | ok a =>
    rcases a with ⟨agent, runtimeID⟩
    cases hattr : issueAttribution env q agent p.agentAuthoredSource p.triggerCommentID
        p.actorUserID with
    | error e => simp [hagent, hattr, bind, Except.bind] at h
    | ok attr =>
      simp only [hagent, hattr, bind, Except.bind] at h
      split at h
      · simp at h
      · rename_i q₁ hins
        simp only [Except.ok.injEq, Prod.mk.injEq] at h
        rcases h with ⟨rfl, rfl⟩
        refine ⟨⟨rfl, rfl, rfl, rfl, rfl, rfl, rfl⟩, rfl, ?_⟩
        unfold insertStmt at hins
        split at hins
        · rename_i q₂ hq₂
          rw [hq₂, Except.ok.inj hins]
        · simp at hins

/-- The pending-uniqueness index keeps a second pending row of the pair out. -/
theorem insert?_pending {q q' : TaskTable} {row t : AgentTask} (h : q.insert? row = some q')
    (ht : t ∈ q.rows) (hpending : t.status.pending = true) (hrow : row.status = .queued)
    {issue : UUID} (hissue : t.issueID = some issue) (hissue' : row.issueID = some issue) :
    t.agentID ≠ row.agentID := by
  intro hagent
  have hsome : (q.insert? row).isSome := by simp [h]
  refine (Table.insert?_isSome.1 hsome).2 (issue, row.agentID) ?_ t ht ?_
  · exact AgentTask.pendingKey_eq_some.2 ⟨by simp [hrow, TaskStatus.pending], hissue', rfl⟩
  · exact AgentTask.pendingKey_eq_some.2 ⟨hpending, hissue, hagent⟩

/-- The fallback of a routed reply adds at most a deferred row. -/
def Escalated (q q' : TaskTable) : Prop :=
  q' = q ∨ ∃ row : AgentTask, row.status = .deferred ∧ row.retryOfTaskID = none ∧
    q.insert? row = some q'

theorem escalate_escalated (env : Env) (now : Timestamp) (q : TaskTable)
    (primary : Option AgentTask) (c : UUID) (fallback : Option EscalationFallback) :
    Escalated q (escalate env now q primary c fallback) := by
  unfold escalate
  split
  · exact .inl rfl
  · rename_i fb
    split
    · exact .inl rfl
    · split
      · rename_i q' hok
        right
        unfold enqueueDeferredAssigneeFallback at hok
        cases hagent : runnableAgent env fb.agentID with
        | error e => simp [hagent, bind, Except.bind] at hok
        | ok a =>
          rcases a with ⟨agent, runtimeID⟩
          cases hattr : issueAttribution env q agent .commentSource (some c) none with
          | error e => simp [hagent, hattr, bind, Except.bind] at hok
          | ok attr =>
            simp only [hagent, hattr, bind, Except.bind] at hok
            split at hok
            · simp at hok
            · rename_i q₁ hins
              rcases Except.ok.inj hok with rfl
              unfold insertStmt at hins
              split at hins
              · rename_i q₂ hq₂
                rcases Except.ok.inj hins with rfl
                exact ⟨_, rfl, rfl, hq₂⟩
              · simp at hins
      · exact .inl rfl

/-- What a path gives back: the zero task at the cap, a fresh row below it. -/
def PathResult (env : Env) (now : Timestamp) (q : TaskTable) (agentID c : UUID)
    (r : TaskTable × Option AgentTask) : Prop :=
  (issueRunCapExceeded env now q = true ∧ r = (q, none)) ∨
    (issueRunCapExceeded env now q = false ∧
      ∃ row, FreshRow env now q agentID (some c) row ∧ row.coalescedCommentIDs = [] ∧
        q.insert? row = some r.1)

theorem enqueueMention_ok {env : Env} {now : Timestamp} {q : TaskTable} {p : EnqueueParams}
    {c : UUID} {r : TaskTable × Option AgentTask} (hc : p.triggerCommentID = some c)
    (hcoalesced : p.coalescedCommentIDs = [])
    (h : enqueueMentionTaskWithCommentPlan env now q p = .ok r) :
    PathResult env now q p.agentID c r := by
  unfold enqueueMentionTaskWithCommentPlan at h
  split at h
  · rename_i hcap
    exact .inl ⟨hcap, (Except.ok.inj h).symm⟩
  · rename_i hcap
    right
    cases hcreate : createTask env now q { p with agentAuthoredSource := .delegation } with
    | error e => simp [hcreate, Except.map] at h
    | ok x =>
      rcases x with ⟨q', row⟩
      obtain rfl : (q', some row) = r := by simpa [hcreate, Except.map] using h
      rcases createTask_ok hcreate with ⟨hrow, hco, hins⟩
      exact ⟨by simpa using hcap, row, hc ▸ hrow, hco.trans hcoalesced, hins⟩

theorem enqueueIssue_ok {env : Env} {now : Timestamp} {q : TaskTable} {c assigneeID : UUID}
    {r : TaskTable × Option AgentTask} (hassignee : env.assigneeID = some assigneeID)
    (h : enqueueTaskForIssue env now q c = .ok r) : PathResult env now q assigneeID c r := by
  unfold enqueueTaskForIssue enqueueIssueTaskWithCommentPlan at h
  simp only [hassignee] at h
  split at h
  · rename_i hcap
    exact .inl ⟨hcap, (Except.ok.inj h).symm⟩
  · rename_i hcap
    right
    cases hcreate : createTask env now q
        { agentID := assigneeID, agentAuthoredSource := .commentSource,
          triggerCommentID := some c, coalescedCommentIDs := [] } with
    | error e => simp [hcreate, Except.map] at h
    | ok x =>
      rcases x with ⟨q', row⟩
      obtain rfl : (q', some row) = r := by simpa [hcreate, Except.map] using h
      rcases createTask_ok hcreate with ⟨hrow, hco, hins⟩
      exact ⟨by simpa using hcap, row, hrow, hco, hins⟩

/-! ## Resolved triggers -/

/-- What trigger resolution guarantees: one trigger per executing agent, and the
assignee path names the issue's assignee. -/
structure ResolvedTriggers (env : Env) where
  triggers : List CommentAgentTrigger
  agents_nodup : (triggers.map fun t => t.agentID).Nodup
  assignee : ∀ t ∈ triggers, t.source = .issueAssignee → t.squadID = none →
    env.assigneeID = some t.agentID

/-- What the two halves of one trigger leave behind. -/
inductive Enqueued (env : Env) (now : Timestamp) (q : TaskTable) (agentID c : UUID) :
    TaskTable → Prop where
  | capped {q' : TaskTable} (cap : issueRunCapExceeded env now q = true)
      (escalated : Escalated q q') : Enqueued env now q agentID c q'
  | fresh {q₁ q' : TaskTable} {row : AgentTask} (uncapped : issueRunCapExceeded env now q = false)
      (row_eq : FreshRow env now q agentID (some c) row) (plan : row.coalescedCommentIDs = [])
      (inserted : q.insert? row = some q₁) (escalated : Escalated q₁ q') :
      Enqueued env now q agentID c q'

theorem PathResult.enqueued {env : Env} {now : Timestamp} {q q' : TaskTable} {agentID c : UUID}
    {r : TaskTable × Option AgentTask} (h : PathResult env now q agentID c r)
    (hq' : Escalated r.1 q') : Enqueued env now q agentID c q' := by
  rcases h with ⟨hcap, rfl⟩ | ⟨hcap, row, hrow, hplan, hins⟩
  · exact .capped hcap hq'
  · exact .fresh hcap hrow hplan hins hq'

theorem enqueueSingle_ok {env : Env} {now : Timestamp} {q q' : TaskTable} {c : UUID}
    {t : CommentAgentTrigger}
    (hassignee : t.source = .issueAssignee → t.squadID = none → env.assigneeID = some t.agentID)
    (h : enqueueSingleCommentTrigger env now q c t = .ok q') :
    Enqueued env now q t.agentID c q' := by
  -- every path but the assignee's own is `enqueueMentionTaskWithCommentPlan`
  have hmention : ∀ {p : EnqueueParams} {f : TaskTable × Option AgentTask → TaskTable},
      p.triggerCommentID = some c → p.coalescedCommentIDs = [] → p.agentID = t.agentID →
      (∀ r, Escalated r.1 (f r)) →
      (enqueueMentionTaskWithCommentPlan env now q p).map f = .ok q' →
        Enqueued env now q t.agentID c q' := by
    intro p f hc hco hagent hf hok
    cases hr : enqueueMentionTaskWithCommentPlan env now q p with
    | error e => simp [hr, Except.map] at hok
    | ok r =>
      obtain rfl : f r = q' := by simpa [hr, Except.map] using hok
      exact hagent ▸ (enqueueMention_ok hc hco hr).enqueued (hf r)
  have hfst : ∀ r : TaskTable × Option AgentTask, Escalated r.1 (Prod.fst r) := fun r => .inl rfl
  have hescalate : ∀ r : TaskTable × Option AgentTask,
      Escalated r.1 (escalate env now r.1 r.2 c t.escalationFallback) :=
    fun r => escalate_escalated ..
  unfold enqueueSingleCommentTrigger at h
  cases hsource : t.source with
  | issueAssignee =>
    cases hsquad : t.squadID with
    | some squadID =>
      simp only [hsource, hsquad] at h
      exact hmention rfl rfl rfl hfst h
    | none =>
      simp only [hsource, hsquad] at h
      cases hr : enqueueTaskForIssue env now q c with
      | error e => simp [hr, Except.map] at h
      | ok r =>
        obtain rfl : r.1 = q' := by simpa [hr, Except.map] using h
        exact (enqueueIssue_ok (hassignee hsource hsquad) hr).enqueued (.inl rfl)
  | mentionSquadLeader =>
    simp only [hsource] at h
    exact hmention rfl rfl rfl hfst h
  | mentionAgent =>
    simp only [hsource] at h
    exact hmention rfl rfl rfl hfst h
  | threadParent =>
    simp only [hsource] at h
    exact hmention rfl rfl rfl hescalate h
  | conversation =>
    cases hsquad : t.squadID with
    | some squadID =>
      simp only [hsource, hsquad] at h
      exact hmention rfl rfl rfl hescalate h
    | none =>
      simp only [hsource, hsquad] at h
      exact hmention rfl rfl rfl hescalate h

/-- At the cap every path succeeds without a row. -/
theorem enqueueSingle_of_capped {env : Env} {now : Timestamp} {q : TaskTable} {c : UUID}
    {t : CommentAgentTrigger}
    (hassignee : t.source = .issueAssignee → t.squadID = none → env.assigneeID = some t.agentID)
    (hcap : issueRunCapExceeded env now q = true) :
    ∃ q', enqueueSingleCommentTrigger env now q c t = .ok q' := by
  have hmention : ∀ p, enqueueMentionTaskWithCommentPlan env now q p = .ok (q, none) := by
    intro p
    simp [enqueueMentionTaskWithCommentPlan, hcap]
  unfold enqueueSingleCommentTrigger
  cases hsource : t.source <;> cases hsquad : t.squadID <;>
    simp_all [enqueueTaskForSquadLeader, enqueueTaskForIssue, enqueueTaskForMention,
      enqueueTaskForThreadParent, enqueueIssueTaskWithCommentPlan, Except.map]

/-! ## The ways a trigger is handled -/

/-- The trigger is not folded in, left to an active run or refused: it is enqueued
afresh. -/
def reachesFresh (env : Env) (q : TaskTable) (c : UUID) (t : CommentAgentTrigger) : Bool :=
  !t.alreadyPending ||
    ((mergeAttribution env q t c).isSome && (mergeTarget q env.issue.id t.agentID).isNone &&
      !hasActiveTaskForIssueAndAgent q env.issue.id t.agentID)

/-- What the loop body can do to the queue, and the status it reports. -/
inductive Handled (env : Env) (now : Timestamp) (q : TaskTable) (c : UUID)
    (t : CommentAgentTrigger) : TaskTable → DispatchStatus → Prop where
  | blocked : Handled env now q c t q .blocked
  | coalesced {q' : TaskTable} {target : AgentTask} {attr : Result}
      (pending : t.alreadyPending = true)
      (target_eq : mergeTarget q env.issue.id t.agentID = some target)
      (attr_eq : mergeAttribution env q t c = some attr)
      (updated : q.update? (Task.mergeCommentIntoPendingTask target.id c attr.columns) =
        some q') : Handled env now q c t q' .coalesced
  | deferred (pending : t.alreadyPending = true)
      (active : hasActiveTaskForIssueAndAgent q env.issue.id t.agentID = true)
      (unqueued : mergeTarget q env.issue.id t.agentID = none) :
      Handled env now q c t q .deferred
  | enqueued {q' : TaskTable} (fresh : reachesFresh env q c t = true)
      (enqueued : Enqueued env now q t.agentID c q') : Handled env now q c t q' .queued

theorem enqueue_of_reachesFresh {env : Env} {now : Timestamp} {q : TaskTable} {c : UUID}
    {t : CommentAgentTrigger} (h : reachesFresh env q c t = true) :
    enqueueCommentAgentTrigger env now q c t = enqueueFresh env now q c t := by
  unfold enqueueCommentAgentTrigger
  cases hpending : t.alreadyPending with
  | false => simp
  | true =>
    simp only [reachesFresh, hpending, Bool.not_true, Bool.false_or, Bool.and_eq_true,
      Option.isNone_iff_eq_none, Bool.not_eq_true'] at h
    rcases h with ⟨⟨hattr, htarget⟩, hactive⟩
    rcases Option.isSome_iff_exists.1 hattr with ⟨attr, hattr⟩
    simp [mergeCommentIntoPendingTask, hattr, htarget, hactive]

theorem handled {env : Env} {now : Timestamp} {q : TaskTable} {c : UUID}
    {t : CommentAgentTrigger}
    (hassignee : t.source = .issueAssignee → t.squadID = none → env.assigneeID = some t.agentID) :
    Handled env now q c t (enqueueCommentAgentTrigger env now q c t).1
      (enqueueCommentAgentTrigger env now q c t).2.status := by
  by_cases hfresh : reachesFresh env q c t = true
  · rw [enqueue_of_reachesFresh hfresh]
    unfold enqueueFresh
    cases hsingle : enqueueSingleCommentTrigger env now q c t with
    | error e => exact .blocked
    | ok q' => exact .enqueued hfresh (enqueueSingle_ok hassignee hsingle)
  · simp only [reachesFresh, Bool.or_eq_true, Bool.not_eq_true', not_or,
      Bool.not_eq_false] at hfresh
    rcases hfresh with ⟨hpending, hstays⟩
    unfold enqueueCommentAgentTrigger mergeCommentIntoPendingTask
    simp only [hpending, if_true]
    cases hattr : mergeAttribution env q t c with
    | none => exact .blocked
    | some attr =>
      cases htarget : mergeTarget q env.issue.id t.agentID with
      | none =>
        have hactive : hasActiveTaskForIssueAndAgent q env.issue.id t.agentID = true := by
          simpa [hattr, htarget] using hstays
        simp only [hactive, if_true]
        exact .deferred hpending hactive htarget
      | some target =>
        cases hupd : updateStmt q
            (Task.mergeCommentIntoPendingTask target.id c attr.columns) with
        | error e =>
          simp only [hupd]
          exact .blocked
        | ok q' =>
          simp only [hupd]
          refine .coalesced hpending htarget hattr ?_
          unfold updateStmt at hupd
          split at hupd
          · rename_i q₁ hq₁
            rw [hq₁, Except.ok.inj hupd]
          · simp at hupd

/-- At the cap a fresh enqueue reports `queued`. -/
theorem status_of_capped {env : Env} {now : Timestamp} {q : TaskTable} {c : UUID}
    {t : CommentAgentTrigger}
    (hassignee : t.source = .issueAssignee → t.squadID = none → env.assigneeID = some t.agentID)
    (hfresh : reachesFresh env q c t = true) (hcap : issueRunCapExceeded env now q = true) :
    (enqueueCommentAgentTrigger env now q c t).2.status = .queued := by
  rcases enqueueSingle_of_capped (c := c) hassignee hcap with ⟨q', hq'⟩
  rw [enqueue_of_reachesFresh hfresh]
  simp [enqueueFresh, hq']

/-! ## What a handled trigger leaves alone -/

/-- The rows of the agent are the same, deferred ones aside. -/
def SameFor (agentID : UUID) (q q' : TaskTable) : Prop :=
  ∀ r : AgentTask, r.agentID = agentID → r.status ≠ .deferred → (r ∈ q'.rows ↔ r ∈ q.rows)

theorem SameFor.trans {a : UUID} {q q' q'' : TaskTable} (h : SameFor a q q')
    (h' : SameFor a q' q'') : SameFor a q q'' :=
  fun r ha hs => (h' r ha hs).trans (h r ha hs)

/-- No primary key disappears. -/
def KeepsIDs (q q' : TaskTable) : Prop := ∀ r ∈ q.rows, ∃ r' ∈ q'.rows, r'.id = r.id

theorem KeepsIDs.trans {q q' q'' : TaskTable} (h : KeepsIDs q q') (h' : KeepsIDs q' q'') :
    KeepsIDs q q'' := by
  intro r hr
  rcases h r hr with ⟨r', hr', hid⟩
  rcases h' r' hr' with ⟨r'', hr'', hid'⟩
  exact ⟨r'', hr'', hid'.trans hid⟩

theorem KeepsIDs.insert {q q' : TaskTable} {row : AgentTask} (h : q.insert? row = some q') :
    KeepsIDs q q' :=
  fun r hr => ⟨r, (Table.mem_insert? h).2 (.inl hr), rfl⟩

theorem Escalated.same {q q' : TaskTable} (h : Escalated q q') (a : UUID) : SameFor a q q' := by
  rcases h with rfl | ⟨row, hrow, -, hins⟩
  · exact fun _ _ _ => Iff.rfl
  · intro r _ hs
    rw [Table.mem_insert? hins]
    constructor
    · rintro (hr | rfl)
      · exact hr
      · exact absurd hrow hs
    · exact .inl

theorem Escalated.ids {q q' : TaskTable} (h : Escalated q q') : KeepsIDs q q' := by
  rcases h with rfl | ⟨row, -, -, hins⟩
  · exact fun r hr => ⟨r, hr, rfl⟩
  · exact .insert hins

/-- The merge rewrites the target row alone. -/
theorem merge_apply_other {target c : UUID} {cols : AttributionColumns} {r : AgentTask}
    (h : r.id ≠ target) : (Task.mergeCommentIntoPendingTask target c cols).apply r = r :=
  Update.apply_of_not_sel (by simpa [Task.mergeCommentIntoPendingTask] using h)

theorem merge_apply_id (target c : UUID) (cols : AttributionColumns) (r : AgentTask) :
    ((Task.mergeCommentIntoPendingTask target c cols).apply r).id = r.id ∧
      ((Task.mergeCommentIntoPendingTask target c cols).apply r).agentID = r.agentID := by
  unfold Update.apply
  split <;> exact ⟨rfl, rfl⟩

theorem Handled.ids {env : Env} {now : Timestamp} {q q' : TaskTable} {c : UUID}
    {t : CommentAgentTrigger} {status : DispatchStatus} (h : Handled env now q c t q' status) :
    KeepsIDs q q' := by
  cases h with
  | blocked | deferred => exact fun r hr => ⟨r, hr, rfl⟩
  | coalesced _ _ _ updated =>
    exact fun r hr => ⟨_, (Table.mem_update? updated).2 ⟨r, hr, rfl⟩, (merge_apply_id ..).1⟩
  | enqueued _ h =>
    cases h with
    | capped _ escalated => exact escalated.ids
    | fresh _ _ _ inserted escalated => exact (KeepsIDs.insert inserted).trans escalated.ids

/-- A trigger touches the rows of its own agent only. -/
theorem Handled.others {env : Env} {now : Timestamp} {q q' : TaskTable} {c : UUID}
    {t : CommentAgentTrigger} {status : DispatchStatus} (h : Handled env now q c t q' status)
    {a : UUID} (ha : a ≠ t.agentID) : SameFor a q q' := by
  cases h with
  | blocked | deferred => exact fun _ _ _ => Iff.rfl
  | @coalesced _ target attr _ target_eq _ updated =>
    intro r hr _
    rcases mergeTarget_eq_some target_eq with ⟨htarget, -, hagent, -⟩
    have hne : ∀ x ∈ q.rows, x.agentID = a → x.id ≠ target.id := by
      intro x hx hxa hid
      rw [q.eq_of_key hx htarget hid, hagent] at hxa
      exact ha hxa.symm
    rw [Table.mem_update? updated]
    constructor
    · rintro ⟨x, hx, rfl⟩
      have hxa : x.agentID = a := (merge_apply_id ..).2.symm.trans hr
      rw [merge_apply_other (hne x hx hxa)]
      exact hx
    · exact fun hr' => ⟨r, hr', merge_apply_other (hne r hr' hr)⟩
  | enqueued _ h =>
    cases h with
    | capped _ escalated => exact escalated.same a
    | @fresh q₁ _ row _ row_eq _ inserted escalated =>
      refine SameFor.trans (fun r hr _ => ?_) (escalated.same a)
      rw [Table.mem_insert? inserted]
      constructor
      · rintro (hr' | rfl)
        · exact hr'
        · exact absurd (hr.symm.trans row_eq.agentID) ha
      · exact .inl

/-! ## Honest outcomes -/

/-- A queued row for the comment that was not there before the call. -/
def NewRow (env : Env) (q q' : TaskTable) (c agentID : UUID) : Prop :=
  ∃ r ∈ q'.rows, (∀ x ∈ q.rows, x.id ≠ r.id) ∧ r.status = .queued ∧
    r.issueID = some env.issue.id ∧ r.agentID = agentID ∧ r.triggerCommentID = some c

/-- The dedup query finds no pending row at the reviewed head, but the pair has one. -/
def headAdvanced (env : Env) (q : TaskTable) (t : CommentAgentTrigger) : Bool :=
  !t.alreadyPending && hasPendingTaskForIssueAndAgent q env.issue.id t.agentID "" &&
    !hasPendingTaskForIssueAndAgent q env.issue.id t.agentID env.headSHA

/-- The outcome of one agent, from the queue `q` before the call to `q'` after it. -/
structure Honest (env : Env) (q q' : TaskTable) (c : UUID) (t : CommentAgentTrigger)
    (status : DispatchStatus) : Prop where
  queued : status = .queued → NewRow env q q' c t.agentID
  coalesced : status = .coalesced → ∃ r ∈ q'.rows, r.status = .queued ∧
    r.issueID = some env.issue.id ∧ r.agentID = t.agentID ∧ c ∈ r.plan
  deferred : status = .deferred → ∃ r ∈ q'.rows, r.status.active = true ∧
    r.issueID = some env.issue.id ∧ r.agentID = t.agentID
  fresh : headAdvanced env q t = true → NewRow env q q' c t.agentID

/-- The trigger `t` is handled on the queue `q₁` when the call runs on `q`. -/
inductive AtTurn (env : Env) (now : Timestamp) (c : UUID) :
    TaskTable → List CommentAgentTrigger → TaskTable → CommentAgentTrigger → Prop where
  | head {q : TaskTable} {t : CommentAgentTrigger} {ts : List CommentAgentTrigger} :
      AtTurn env now c q (t :: ts) q t
  | tail {q q₁ : TaskTable} {t t' : CommentAgentTrigger} {ts : List CommentAgentTrigger} :
      AtTurn env now c (enqueueCommentAgentTrigger env now q c t').1 ts q₁ t →
        AtTurn env now c q (t' :: ts) q₁ t

/-- No trigger has a pending row of another head, and none that is enqueued afresh
meets the run cap at its turn. -/
structure Clear (env : Env) (now : Timestamp) (c : UUID) (q : TaskTable)
    (ts : List CommentAgentTrigger) : Prop where
  head : ∀ t ∈ ts, headAdvanced env q t = false
  uncapped : ∀ q₁ t, AtTurn env now c q ts q₁ t → reachesFresh env q₁ c t = true →
    issueRunCapExceeded env now q₁ = false

theorem hasPending_iff {q : TaskTable} {issueID agentID : UUID} {sha : String} :
    hasPendingTaskForIssueAndAgent q issueID agentID sha = true ↔
      ∃ t ∈ q.rows, t.issueID = some issueID ∧ t.agentID = agentID ∧
        t.status.pending = true ∧ t.headMatches sha = true := by
  simp [hasPendingTaskForIssueAndAgent, List.any_eq_true, and_assoc]

theorem SameFor.hasPending {a : UUID} {q q' : TaskTable} (h : SameFor a q q') (issueID : UUID)
    (sha : String) : hasPendingTaskForIssueAndAgent q' issueID a sha =
      hasPendingTaskForIssueAndAgent q issueID a sha := by
  have hdeferred : ∀ r : AgentTask, r.status.pending = true → r.status ≠ .deferred := by
    intro r hr hd
    simp [hd, TaskStatus.pending] at hr
  rw [Bool.eq_iff_iff, hasPending_iff, hasPending_iff]
  constructor
  · rintro ⟨t, ht, hi, ha, hp, hm⟩
    exact ⟨t, (h t ha (hdeferred t hp)).1 ht, hi, ha, hp, hm⟩
  · rintro ⟨t, ht, hi, ha, hp, hm⟩
    exact ⟨t, (h t ha (hdeferred t hp)).2 ht, hi, ha, hp, hm⟩

theorem SameFor.headAdvanced {env : Env} {t : CommentAgentTrigger} {q q' : TaskTable}
    (h : SameFor t.agentID q q') :
    Routing.headAdvanced env q' t = Routing.headAdvanced env q t := by
  simp only [Routing.headAdvanced, h.hasPending]

/-- Where the agent's rows are the same, none of them is new. -/
theorem SameFor.not_newRow {env : Env} {q q' : TaskTable} {c a : UUID} (h : SameFor a q q') :
    ¬ NewRow env q q' c a := by
  rintro ⟨r, hr, hfresh, hstatus, -, ha, -⟩
  exact hfresh r ((h r ha (by simp [hstatus])).1 hr) rfl

theorem NewRow.mono {env : Env} {q q₁ q₂ q' : TaskTable} {c a : UUID}
    (h : NewRow env q₁ q₂ c a) (hids : KeepsIDs q q₁) (hsame : SameFor a q₂ q') :
    NewRow env q q' c a := by
  rcases h with ⟨r, hr, hfresh, hstatus, hi, ha, hc⟩
  refine ⟨r, (hsame r ha (by simp [hstatus])).2 hr, fun x hx hxr => ?_, hstatus, hi, ha, hc⟩
  rcases hids x hx with ⟨y, hy, hyx⟩
  exact hfresh y hy (hyx.trans hxr)

/-! ## One turn -/

/-- A trigger that meets the cap or another head leaves its agent's rows alone. -/
theorem Handled.same_of_unclear {env : Env} {now : Timestamp} {q q' : TaskTable} {c : UUID}
    {t : CommentAgentTrigger} {status : DispatchStatus} (h : Handled env now q c t q' status)
    (hunclear : headAdvanced env q t = true ∨
      (reachesFresh env q c t = true ∧ issueRunCapExceeded env now q = true)) :
    SameFor t.agentID q q' := by
  cases h with
  | blocked | deferred => exact fun _ _ _ => Iff.rfl
  | coalesced pending target_eq attr_eq updated =>
    exfalso
    rcases hunclear with hhead | ⟨hfresh, -⟩
    · simp [headAdvanced, pending] at hhead
    · simp [reachesFresh, pending, target_eq] at hfresh
  | enqueued _ h =>
    cases h with
    | capped _ escalated => exact escalated.same _
    | @fresh q₁ _ row uncapped row_eq _ inserted escalated =>
      exfalso
      rcases hunclear with hhead | ⟨-, hcap⟩
      · simp only [headAdvanced, Bool.and_eq_true] at hhead
        rcases hasPending_iff.1 hhead.1.2 with ⟨x, hx, hi, ha, hp, -⟩
        exact insert?_pending inserted hx hp row_eq.status hi row_eq.issueID
          (ha.trans row_eq.agentID.symm)
      · rw [hcap] at uncapped
        contradiction

theorem Handled.newRow {env : Env} {now : Timestamp} {q q' : TaskTable} {c : UUID}
    {t : CommentAgentTrigger} (h : Handled env now q c t q' .queued)
    (huncapped : reachesFresh env q c t = true → issueRunCapExceeded env now q = false) :
    NewRow env q q' c t.agentID := by
  cases h with
  | enqueued fresh h =>
    cases h with
    | capped cap _ => simp [huncapped fresh] at cap
    | @fresh q₁ _ row _ row_eq _ inserted escalated =>
      have hnew : NewRow env q q₁ c t.agentID := by
        refine ⟨row, (Table.mem_insert? inserted).2 (.inr rfl), fun x hx => ?_, row_eq.status,
          row_eq.issueID, row_eq.agentID, row_eq.triggerCommentID⟩
        rw [row_eq.id]
        exact newTaskID_ne hx
      exact hnew.mono (fun r hr => ⟨r, hr, rfl⟩) (escalated.same _)

theorem Handled.plan {env : Env} {now : Timestamp} {q q' : TaskTable} {c : UUID}
    {t : CommentAgentTrigger} (h : Handled env now q c t q' .coalesced) :
    ∃ r ∈ q'.rows, r.status = .queued ∧ r.issueID = some env.issue.id ∧
      r.agentID = t.agentID ∧ c ∈ r.plan := by
  cases h with
  | @coalesced _ target attr _ target_eq _ updated =>
    rcases mergeTarget_eq_some target_eq with ⟨hmem, hi, ha, hq⟩
    refine ⟨_, (Table.mem_update? updated).2 ⟨target, hmem, rfl⟩, ?_⟩
    rw [Update.apply_of_sel (by simp [Task.mergeCommentIntoPendingTask])]
    exact ⟨hq, hi, ha, by simp [Task.mergeCommentIntoPendingTask, AgentTask.plan]⟩

theorem Handled.active {env : Env} {now : Timestamp} {q q' : TaskTable} {c : UUID}
    {t : CommentAgentTrigger} (h : Handled env now q c t q' .deferred) :
    ∃ r ∈ q'.rows, r.status.active = true ∧ r.issueID = some env.issue.id ∧
      r.agentID = t.agentID := by
  cases h with
  | deferred _ active unqueued =>
    simp only [hasActiveTaskForIssueAndAgent, List.any_eq_true, Bool.and_eq_true,
      Bool.or_eq_true, beq_iff_eq] at active
    rcases active with ⟨r, hr, ⟨hi, ha⟩, hstatus⟩
    have hq := not_queued_of_mergeTarget_eq_none unqueued hr hi ha
    exact ⟨r, hr, hstatus.resolve_left hq, hi, ha⟩

/-! ## The call -/

variable {env : Env} {now : Timestamp} {c : UUID}

theorem atTurn_of_mem {ts : List CommentAgentTrigger} {t : CommentAgentTrigger} (ht : t ∈ ts)
    (q : TaskTable) : ∃ q₁, AtTurn env now c q ts q₁ t := by
  induction ts generalizing q with
  | nil => simp at ht
  | cons t' ts ih =>
    rcases List.mem_cons.1 ht with rfl | ht
    · exact ⟨q, .head⟩
    · rcases ih ht (enqueueCommentAgentTrigger env now q c t').1 with ⟨q₁, hq₁⟩
      exact ⟨q₁, .tail hq₁⟩

theorem call_agents (ts : List CommentAgentTrigger) (q : TaskTable) :
    (enqueueCommentAgentTriggers env now c q ts).2.map Prod.fst = ts.map fun t => t.agentID := by
  induction ts generalizing q with
  | nil => rfl
  | cons t ts ih => simp [enqueueCommentAgentTriggers, ih]

/-- The call leaves the rows of every other agent alone. -/
theorem call_same {ts : List CommentAgentTrigger} {a : UUID} (ha : ∀ t ∈ ts, a ≠ t.agentID)
    (hassignee : ∀ t ∈ ts, t.source = .issueAssignee → t.squadID = none →
      env.assigneeID = some t.agentID) (q : TaskTable) :
    SameFor a q (enqueueCommentAgentTriggers env now c q ts).1 := by
  induction ts generalizing q with
  | nil => exact fun _ _ _ => Iff.rfl
  | cons t ts ih =>
    have hhandled : Handled env now q c t _ _ := handled (hassignee t List.mem_cons_self)
    have hfirst := hhandled.others (ha t List.mem_cons_self)
    exact hfirst.trans (ih (fun t' ht' => ha t' (List.mem_cons_of_mem t ht'))
      (fun t' ht' => hassignee t' (List.mem_cons_of_mem t ht')) _)

/-- Around its turn nobody touches the agent's rows, and the result recorded for the
agent is the one of its turn. -/
theorem AtTurn.frame {ts : List CommentAgentTrigger} {q q₁ : TaskTable}
    {t : CommentAgentTrigger} (h : AtTurn env now c q ts q₁ t)
    (hnodup : (ts.map fun t => t.agentID).Nodup)
    (hassignee : ∀ t ∈ ts, t.source = .issueAssignee → t.squadID = none →
      env.assigneeID = some t.agentID) :
    t ∈ ts ∧ SameFor t.agentID q q₁ ∧ KeepsIDs q q₁ ∧
      SameFor t.agentID (enqueueCommentAgentTrigger env now q₁ c t).1
        (enqueueCommentAgentTriggers env now c q ts).1 ∧
      ∀ res, (t.agentID, res) ∈ (enqueueCommentAgentTriggers env now c q ts).2 ↔
        res = (enqueueCommentAgentTrigger env now q₁ c t).2 := by
  induction h with
  | @head q t ts =>
    rcases List.nodup_cons.1 hnodup with ⟨hnotin, hrest⟩
    have hne : ∀ t' ∈ ts, t.agentID ≠ t'.agentID :=
      fun t' ht' heq => hnotin (List.mem_map.2 ⟨t', ht', heq.symm⟩)
    refine ⟨List.mem_cons_self, fun _ _ _ => Iff.rfl, fun r hr => ⟨r, hr, rfl⟩,
      call_same hne (fun t' ht' => hassignee t' (List.mem_cons_of_mem t ht')) _, fun res => ?_⟩
    have hlater : (t.agentID, res) ∉ (enqueueCommentAgentTriggers env now c
        (enqueueCommentAgentTrigger env now q c t).1 ts).2 := by
      intro hmem
      refine hnotin ?_
      rw [← call_agents ts (enqueueCommentAgentTrigger env now q c t).1]
      exact List.mem_map.2 ⟨_, hmem, rfl⟩
    simp [enqueueCommentAgentTriggers, hlater]
  | @tail q q₁ t t' ts hturn ih =>
    rcases List.nodup_cons.1 hnodup with ⟨hnotin, hrest⟩
    obtain ⟨ht, hsame, hids, hafter, hres⟩ :=
      ih hrest fun t' ht' => hassignee t' (List.mem_cons_of_mem _ ht')
    have hne : t.agentID ≠ t'.agentID :=
      fun heq => hnotin (List.mem_map.2 ⟨t, ht, heq⟩)
    have hfirst : Handled env now q c t' _ _ := handled (hassignee t' List.mem_cons_self)
    refine ⟨List.mem_cons_of_mem _ ht, (hfirst.others hne).trans hsame, hfirst.ids.trans hids,
      hafter, fun res => ?_⟩
    simp [enqueueCommentAgentTriggers, hres, hne]

/-- The outcomes of a call are honest exactly when it is clear. -/
theorem honest_iff_clear (env : Env) (now : Timestamp) (c : UUID) (q : TaskTable)
    (rs : ResolvedTriggers env) :
    (∀ t ∈ rs.triggers, ∀ res,
        (t.agentID, res) ∈ (enqueueCommentAgentTriggers env now c q rs.triggers).2 →
          Honest env q (enqueueCommentAgentTriggers env now c q rs.triggers).1 c t res.status) ↔
      Clear env now c q rs.triggers := by
  constructor
  · intro h
    have hbad : ∀ q₁ t, AtTurn env now c q rs.triggers q₁ t →
        headAdvanced env q₁ t = true ∨
          (reachesFresh env q₁ c t = true ∧ issueRunCapExceeded env now q₁ = true) →
        ¬ NewRow env q (enqueueCommentAgentTriggers env now c q rs.triggers).1 c t.agentID := by
      intro q₁ t hturn hunclear
      rcases hturn.frame rs.agents_nodup rs.assignee with ⟨ht, hsame, -, hafter, -⟩
      have hhandled : Handled env now q₁ c t _ _ := handled (rs.assignee t ht)
      have hstep := hhandled.same_of_unclear hunclear
      exact ((hsame.trans hstep).trans hafter).not_newRow
    constructor
    · intro t ht
      obtain ⟨q₁, hturn⟩ : ∃ q₁, AtTurn env now c q rs.triggers q₁ t := atTurn_of_mem ht q
      rcases hturn.frame rs.agents_nodup rs.assignee with ⟨-, hsame, -, -, hres⟩
      by_contra hhead
      have hhead : headAdvanced env q t = true := by simpa using hhead
      exact hbad q₁ t hturn (.inl (hsame.headAdvanced.trans hhead))
        ((h t ht _ ((hres _).2 rfl)).fresh hhead)
    · intro q₁ t hturn hfresh
      rcases hturn.frame rs.agents_nodup rs.assignee with ⟨ht, -, -, -, hres⟩
      by_contra hcap
      have hcap : issueRunCapExceeded env now q₁ = true := by simpa using hcap
      exact hbad q₁ t hturn (.inr ⟨hfresh, hcap⟩)
        ((h t ht _ ((hres _).2 rfl)).queued (status_of_capped (rs.assignee t ht) hfresh hcap))
  · intro hclear t ht res hmem
    obtain ⟨q₁, hturn⟩ : ∃ q₁, AtTurn env now c q rs.triggers q₁ t := atTurn_of_mem ht q
    rcases hturn.frame rs.agents_nodup rs.assignee with ⟨-, hsame, hids, hafter, hres⟩
    rcases (hres res).1 hmem with rfl
    have hstep : Handled env now q₁ c t _ _ := handled (rs.assignee t ht)
    refine ⟨fun hs => ?_, fun hs => ?_, fun hs => ?_, fun hhead => ?_⟩
    · rw [hs] at hstep
      exact (hstep.newRow (hclear.uncapped q₁ t hturn)).mono hids hafter
    · rw [hs] at hstep
      rcases hstep.plan with ⟨r, hr, hq, hi, ha, hplan⟩
      exact ⟨r, (hafter r ha (by simp [hq])).2 hr, hq, hi, ha, hplan⟩
    · rw [hs] at hstep
      rcases hstep.active with ⟨r, hr, hactive, hi, ha⟩
      refine ⟨r, (hafter r ha ?_).2 hr, hactive, hi, ha⟩
      intro hd
      simp [hd, TaskStatus.active] at hactive
    · rw [hclear.head t ht] at hhead
      contradiction

/-- Issue 10, on which agent 7 is mentioned in member 20's comment 50. -/
def mentionEnv (headSHA : String) (maxIssueRuns : Option Int) : Env :=
  { issue := ⟨10, .member, some 20, none, none⟩
    agent := fun _ => some ⟨false, some 3, ⟨some 0, some false, none⟩⟩
    comment := fun c => some ⟨c, .member, some 20, none⟩
    headSHA := headSHA, maxIssueRuns := maxIssueRuns }

/-- The trigger of agent 7; the dedup query saw no pending row. -/
def mentionTrigger : CommentAgentTrigger :=
  { agentID := 7, policy := ⟨some 0, some false, none⟩, source := .mentionAgent,
    alreadyPending := false }

def mentionTriggers (env : Env) : ResolvedTriggers env where
  triggers := [mentionTrigger]
  agents_nodup := by simp
  assignee := by simp [mentionTrigger]

/-- With one run of another agent inside the window and a cap of one, the mention is
reported queued and no row exists; with a queued review of the old head, the fresh
review is rejected by the index. -/
theorem outcomes_dishonest :
    (¬∀ (cfg : Config) (s : State), (machine cfg).Reachable s → ∀ env c (rs : ResolvedTriggers env),
      ∀ t ∈ rs.triggers, ∀ res,
        (t.agentID, res) ∈ (enqueueCommentAgentTriggers env s.now c s.queue rs.triggers).2 →
          res.status = .queued →
            NewRow env s.queue (enqueueCommentAgentTriggers env s.now c s.queue rs.triggers).1 c
              t.agentID) ∧
    (¬∀ (cfg : Config) (s : State), (machine cfg).Reachable s → ∀ env c (rs : ResolvedTriggers env),
      ∀ t ∈ rs.triggers,
        t.alreadyPending = hasPendingTaskForIssueAndAgent s.queue env.issue.id t.agentID
          env.headSHA →
        headAdvanced env s.queue t = true →
          NewRow env s.queue (enqueueCommentAgentTriggers env s.now c s.queue rs.triggers).1 c
            t.agentID) := by
  have hsame : ∀ {env : Env} {q q' : TaskTable} {c a : UUID}, q'.rows = q.rows →
      ¬ NewRow env q q' c a := by
    intro env q q' c a heq
    exact SameFor.not_newRow (fun r _ _ => by rw [heq])
  constructor
  · intro hclaim
    let env := mentionEnv "" (some 1)
    obtain ⟨s, -, hreach, hp⟩ :=
      Machine.reachable_of_run (machine ⟨fun _ => 1, id⟩) (init_empty _)
        [.insert (.createAgentTask 1 { agentID := 8, runtimeID := 3, issueID := some 10 })]
        (fun s =>
          let out := enqueueCommentAgentTriggers env s.now 50 s.queue [mentionTrigger]
          out.2 == [(7, ⟨.queued, .queued, none⟩)] && out.1.rows == s.queue.rows) (by decide)
    simp only [Bool.and_eq_true, beq_iff_eq] at hp
    refine hsame hp.2 (hclaim _ s hreach env 50 (mentionTriggers env) mentionTrigger
      List.mem_cons_self ⟨.queued, .queued, none⟩ ?_ rfl)
    exact hp.1 ▸ List.mem_singleton.2 rfl
  · intro hclaim
    let env := mentionEnv "b" none
    obtain ⟨s, -, hreach, hp⟩ :=
      Machine.reachable_of_run (machine ⟨fun _ => 1, id⟩) (init_empty _)
        [.insert (.createAgentTask 1
          { agentID := 7, runtimeID := 3, issueID := some 10, headSHA := "a" })]
        (fun s =>
          let out := enqueueCommentAgentTriggers env s.now 50 s.queue [mentionTrigger]
          headAdvanced env s.queue mentionTrigger &&
            !hasPendingTaskForIssueAndAgent s.queue 10 7 "b" && out.1.rows == s.queue.rows)
        (by decide)
    simp only [Bool.and_eq_true, Bool.not_eq_true', beq_iff_eq] at hp
    exact hsame hp.2 (hclaim _ s hreach env 50 (mentionTriggers env) mentionTrigger
      List.mem_cons_self hp.1.2.symm hp.1.1)

end Orynx.Routing
