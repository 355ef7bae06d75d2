import Orynx.Issue.InvokePermission

/-! # The trigger preview predicts the write

`PreviewIssueTrigger` against `BatchUpdateIssues`, of which `UpdateIssue` is the case of one issue.
Both ask `WillEnqueueRun`; the preview adds the gate of the caller, the write goes on to the enqueue.

* `createdPairs_updateIssue`: one write against one preview;
* `preview_predicts`: so for all issues of a request, as long as no write meets what only one of
  the two looks at;
* `preview_coalesced`: an assignment to an agent that already has a pending task is previewed, and
  its insert is a no-op.
-/

namespace Orynx.RunTrigger

open Lib Orynx.Task Orynx.Attribution
open IssueUpdate (AssigneeType)
open Routing (issueRunCapExceeded)

/-! ## What is compared -/

def IssueRunTrigger.pair (t : IssueRunTrigger) : UUID × UUID := (t.issueId, t.agentId)

def Enqueued.pair (e : Enqueued) : Option (UUID × UUID) :=
  e.task.issueID.map fun issueId => (issueId, e.task.agentID)

/-- The request names an assignee that the caller may set. -/
def IssueTriggerPreviewRequest.accepted (req : IssueTriggerPreviewRequest) (w : Store) (c : Caller)
    (workspaceId : UUID) : Bool :=
  req.assignee.all fun (type, id) =>
    (validateAssigneePair w c workspaceId (some type) (some id)).isNone

/-- An assignment whose task would join a pending one. -/
def coalesced (w : Store) (t : IssueRunTrigger) : Bool :=
  t.source == .assign && slotTaken w t.issueId t.agentId

/-- The run cap, the attribution and the gate of a squad leader let the run pass. -/
def unrefused (w : Store) (now : Timestamp) (c : Caller) (issue : Issue) (type : RunnerType)
    (agentId : UUID) (agent : Agent) : Bool :=
  !issueRunCapExceeded (w.env issue) now w.tasks && attributed w c issue agent &&
    (type == .agent || canEnqueueSquadLeader w c issue agentId)

/-- The write meets nothing that only the preview or only the enqueue looks at: a caller who may
invoke the agent is not refused further on, nor a promotion coalesced with a run for another head;
one who may not starts nothing. -/
def mirrored (now : Timestamp) (c : Caller) (workspaceId : UUID) (u : Updates) (w : Store)
    (id : UUID) : Bool :=
  (w.getIssueInWorkspace id workspaceId).all fun prev =>
    let issue := u.apply prev
    ((u.input prev).source (writeProbe c issue)).all fun source =>
      (runner w issue).all fun (type, agentId, agent) =>
        if c.canInvoke w workspaceId agentId agent then
          unrefused w now c issue type agentId agent &&
            (source == .assign || !slotTaken w issue.id agentId || hasPendingRun w issue.id agentId)
        else !getsThrough w now c issue type agentId agent

/-- So do all writes, each in the state that those before it leave. -/
def mirroredAlong (now : Timestamp) (c : Caller) (workspaceId : UUID) (u : Updates) :
    Store → List UUID → Bool
  | _, [] => true
  | w, id :: ids =>
    mirrored now c workspaceId u w id &&
      mirroredAlong now c workspaceId u (updateIssue w now c workspaceId u id).store ids

section Preview

variable {w : Store} {now : Timestamp} {c : Caller} {workspaceId : UUID}
  {req : IssueTriggerPreviewRequest} {prev : Issue} {id : UUID}

/-! ## One issue -/

theorem getsThrough_eq {issue : Issue} {type : RunnerType} {agentId : UUID} {agent : Agent} :
    getsThrough w now c issue type agentId agent =
      (unrefused w now c issue type agentId agent && !slotTaken w issue.id agentId) := by
  rw [getsThrough, unrefused]
  cases slotTaken w issue.id agentId <;> simp

/-- The preview marks the changes that the write will see. -/
theorem input_updates (loaded : Issue) : req.input loaded = req.updates.input loaded := by
  rcases req with ⟨ids, assignee, status⟩
  rcases assignee with _ | ⟨type, id⟩ <;> rcases status with _ | status <;>
    simp [IssueTriggerPreviewRequest.input, IssueTriggerPreviewRequest.updates, Updates.input,
      Updates.apply]

theorem accepted_updates (h : req.accepted w c workspaceId = true) :
    req.updates.accepted w c workspaceId prev = true := by
  rcases req with ⟨ids, assignee, status⟩
  rcases assignee with _ | ⟨type, id⟩
  · rfl
  · simpa [IssueTriggerPreviewRequest.accepted, IssueTriggerPreviewRequest.updates,
      Updates.accepted, Updates.touchesAssignee, Updates.apply] using h

theorem previewOne_eq_some {t : IssueRunTrigger} :
    previewOne w c workspaceId req id = some t ↔
      ∃ prev source type agentId agent, w.getIssueInWorkspace id workspaceId = some prev ∧
        (req.updates.input prev).source (writeProbe c (req.updates.apply prev)) = some source ∧
        runner w (req.updates.apply prev) = some (type, agentId, agent) ∧
        c.canInvoke w workspaceId agentId agent = true ∧
        (source = .status → hasPendingRun w id agentId = false) ∧ t = ⟨id, agentId, type, source⟩ := by
  rw [previewOne, Option.bind_eq_some_iff]
  constructor
  · rintro ⟨prev, hprev, htrigger⟩
    rw [input_updates] at htrigger
    rcases willEnqueueRun_eq_some.1 htrigger with
      ⟨source, type, agentId, agent, hsource, hrunner, hinvoke, hpending, rfl⟩
    have hid : prev.id = id := Store.id_of_getIssueInWorkspace hprev
    have hissue : (req.updates.input prev).issue.id = id := hid
    rw [hissue] at hpending ⊢
    exact ⟨prev, source, type, agentId, agent, hprev, hsource, hrunner, hinvoke, hpending, rfl⟩
  · rintro ⟨prev, source, type, agentId, agent, hprev, hsource, hrunner, hinvoke, hpending, rfl⟩
    refine ⟨prev, hprev, ?_⟩
    rw [input_updates]
    have hid : prev.id = id := Store.id_of_getIssueInWorkspace hprev
    have hissue : (req.updates.input prev).issue.id = id := hid
    exact willEnqueueRun_eq_some.2 ⟨source, type, agentId, agent, hsource, hrunner, hinvoke,
      by rw [hissue]; exact hpending, by rw [hissue]⟩

/-- The write creates what its preview lists, except what joins a pending task. -/
theorem createdPairs_updateIssue (haccepted : req.accepted w c workspaceId = true)
    (hmirrored : mirrored now c workspaceId req.updates w id = true) (pair : UUID × UUID) :
    (∃ e ∈ (updateIssue w now c workspaceId req.updates id).enqueued, e.pair = some pair) ↔
      ∃ t, previewOne w c workspaceId req id = some t ∧ coalesced w t = false ∧ t.pair = pair := by
  constructor
  · rintro ⟨e, he, hpair⟩
    cases hprev : w.getIssueInWorkspace id workspaceId with
    | none =>
      rw [updateIssue_absent hprev] at he
      cases he
    | some prev =>
      have hid : prev.id = id := Store.id_of_getIssueInWorkspace hprev
      rcases mem_updateIssue_enqueued hprev he with ⟨source, type, agent, hstarts, -, hissue⟩
      have hslot : slotTaken w id e.task.agentID = false := by
        rw [← hid]
        exact not_slotTaken_of_getsThrough hstarts.through
      have hpending : hasPendingRun w id e.task.agentID = false := by
        rw [← hid]
        exact not_hasPendingRun_of_getsThrough hstarts.through
      have hinvoke : c.canInvoke w workspaceId e.task.agentID agent = true := by
        by_contra hdenied
        simp [mirrored, hprev, hstarts.source, hstarts.runner, hdenied, hstarts.through] at hmirrored
      refine ⟨⟨id, e.task.agentID, type, source⟩, previewOne_eq_some.2 ⟨prev, source, type, _, agent,
        hprev, hstarts.source, hstarts.runner, hinvoke, fun _ => hpending, rfl⟩, ?_, ?_⟩
      · simp [coalesced, hslot]
      · rw [Enqueued.pair, hissue, hid] at hpair
        exact Option.some.inj hpair
  · rintro ⟨t, ht, hcoalesced, rfl⟩
    rcases previewOne_eq_some.1 ht with
      ⟨prev, source, type, agentId, agent, hprev, hsource, hrunner, hinvoke, hpending, rfl⟩
    have hid : prev.id = id := Store.id_of_getIssueInWorkspace hprev
    have hkept : unrefused w now c (req.updates.apply prev) type agentId agent = true ∧
        (source = .assign ∨ slotTaken w id agentId = false ∨ hasPendingRun w id agentId = true) := by
      have hissue : (req.updates.apply prev).id = id := hid
      simpa [mirrored, hprev, hsource, hrunner, hinvoke, hissue, or_assoc] using hmirrored
    have hslot : slotTaken w id agentId = false := by
      rcases hkept.2 with rfl | hfree | htaken
      · simpa [coalesced] using hcoalesced
      · exact hfree
      · cases source with
        | assign => simpa [coalesced] using hcoalesced
        | status => cases htaken.symm.trans (hpending rfl)
    have hthrough : getsThrough w now c (req.updates.apply prev) type agentId agent = true := by
      have hissue : (req.updates.apply prev).id = id := hid
      rw [getsThrough_eq, hkept.1, hissue, hslot]
      rfl
    rcases exists_updateIssue_enqueued hprev
      ⟨accepted_updates haccepted, rfl, hsource, hrunner, hthrough⟩ with ⟨e, he, hagent⟩
    rcases mem_updateIssue_enqueued hprev he with ⟨-, -, -, -, -, hissue⟩
    exact ⟨e, he, by rw [Enqueued.pair, hissue, hagent, hid]; rfl⟩

/-! ## The other issues of the request -/

/-- Only the issue and its tasks are written. -/
structure WritesIssue (w : Store) (id : UUID) (w' : Store) : Prop where
  others : ∃ issue tasks h, w' = { w with issue := issue, tasks := tasks, issue_id := h }
  issue : ∀ k, k ≠ id → w'.issue k = w.issue k
  pending : ∀ k, k ≠ id → ∀ agentId sha,
    hasPendingTaskForIssueAndAgent w'.tasks k agentId sha =
      hasPendingTaskForIssueAndAgent w.tasks k agentId sha

theorem hasPending_insert? {q q' : TaskTable} {task : AgentTask} {k agentId : UUID} {sha : String}
    (hins : q.insert? task = some q') (hk : task.issueID ≠ some k) :
    hasPendingTaskForIssueAndAgent q' k agentId sha =
      hasPendingTaskForIssueAndAgent q k agentId sha := by
  rw [Bool.eq_iff_iff, Routing.hasPending_iff, Routing.hasPending_iff]
  constructor
  · rintro ⟨t, ht, hissue, hrest⟩
    rcases (Table.mem_insert? hins).1 ht with ht | rfl
    · exact ⟨t, ht, hissue, hrest⟩
    · exact absurd hissue hk
  · rintro ⟨t, ht, hrest⟩
    exact ⟨t, (Table.mem_insert? hins).2 (.inl ht), hrest⟩

theorem setIssue_other {issue : Issue} {k : UUID} (hk : k ≠ issue.id) :
    (w.setIssue issue).issue k = w.issue k :=
  if_neg hk

theorem updateIssue_writes {u : Updates} :
    WritesIssue w id (updateIssue w now c workspaceId u id).store := by
  have hself : WritesIssue w id w :=
    ⟨⟨w.issue, w.tasks, w.issue_id, rfl⟩, fun _ _ => rfl, fun _ _ _ _ => rfl⟩
  cases hprev : w.getIssueInWorkspace id workspaceId with
  | none =>
    rw [updateIssue_absent hprev]
    exact hself
  | some prev =>
    have hid : prev.id = id := Store.id_of_getIssueInWorkspace hprev
    have hother (k : UUID) (hk : k ≠ id) : (w.setIssue (u.apply prev)).issue k = w.issue k :=
      setIssue_other (by rw [show (u.apply prev).id = id from hid]; exact hk)
    cases haccepted : u.accepted w c workspaceId prev with
    | false =>
      rw [updateIssue_refused hprev haccepted]
      exact hself
    | true =>
      rcases updateIssue_accepted now hprev haccepted with
        heq | ⟨source, type, agent, tasks, task, -, heq, hissue, hins⟩
      · rw [heq]
        exact ⟨⟨_, _, (w.setIssue (u.apply prev)).issue_id, rfl⟩, hother, fun _ _ _ _ => rfl⟩
      · rw [heq]
        refine ⟨⟨_, _, (w.setIssue (u.apply prev)).issue_id, rfl⟩, hother, fun k hk agentId sha =>
          hasPending_insert? hins ?_⟩
        rw [hissue, hid]
        exact fun h => hk (Option.some.inj h).symm

/-- Written once more, the issue does not change. -/
theorem source_applied {u : Updates} {probe : IssueTriggerProbe} :
    (u.input (u.apply prev)).source probe = none := by
  have happly : u.apply (u.apply prev) = u.apply prev := by
    rcases u with ⟨status, type, id, suppress⟩
    cases status <;> cases type <;> cases id <;> rfl
  have hassignee : (u.input (u.apply prev)).assigneeChanged = false := by
    simp [Updates.input, happly]
  have hstatus : (u.input (u.apply prev)).statusChanged = false := by
    simp [Updates.input, happly]
  have hcreate : (u.input (u.apply prev)).isCreate = false := rfl
  simp [IssueTriggerInput.source, hassignee, hstatus, hcreate]

theorem previewOne_written (haccepted : req.accepted w c workspaceId = true) :
    previewOne (updateIssue w now c workspaceId req.updates id).store c workspaceId req id =
      none := by
  cases hprev : w.getIssueInWorkspace id workspaceId with
  | none =>
    rw [updateIssue_absent hprev, previewOne, hprev]
    rfl
  | some prev =>
    have hid : prev.id = id := Store.id_of_getIssueInWorkspace hprev
    have hfound : (w.setIssue (req.updates.apply prev)).issue id = some (req.updates.apply prev) :=
      if_pos hid.symm
    have hws := (Option.filter_eq_some_iff.1 hprev).2
    have hwritten : (updateIssue w now c workspaceId req.updates id).store.getIssueInWorkspace id
        workspaceId = some (req.updates.apply prev) := by
      rcases updateIssue_accepted now hprev (accepted_updates haccepted) with
        heq | ⟨source, type, agent, tasks, task, -, heq, -⟩
      · rw [heq]
        exact Option.filter_eq_some_iff.2 ⟨hfound, hws⟩
      · rw [heq]
        exact Option.filter_eq_some_iff.2 ⟨hfound, hws⟩
    rw [Option.eq_none_iff_forall_ne_some]
    intro t ht
    rcases previewOne_eq_some.1 ht with ⟨prev', source, -, -, -, hprev', hsource, -⟩
    obtain rfl := Option.some.inj (hwritten.symm.trans hprev')
    cases source_applied.symm.trans hsource

theorem previewOne_other {w' : Store} (h : WritesIssue w id w') {k : UUID} (hk : k ≠ id) :
    previewOne w' c workspaceId req k = previewOne w c workspaceId req k := by
  rcases h.others with ⟨issue, tasks, hissue, rfl⟩
  have hget : Store.getIssueInWorkspace { w with issue := issue, tasks := tasks, issue_id := hissue }
      k workspaceId = w.getIssueInWorkspace k workspaceId := by
    rw [Store.getIssueInWorkspace, h.issue k hk, Store.getIssueInWorkspace]
  rw [Option.ext_iff]
  intro t
  rw [previewOne_eq_some, previewOne_eq_some, hget]
  have hpending (agentId : UUID) :
      hasPendingRun { w with issue := issue, tasks := tasks, issue_id := hissue } k agentId =
        hasPendingRun w k agentId := h.pending k hk agentId _
  simp only [hpending]
  exact Iff.rfl

/-! ## All issues -/

theorem exists_mem_preview {ids : List UUID} {w' : Store} (h : WritesIssue w id w')
    (hnone : previewOne w' c workspaceId req id = none) (pair : UUID × UUID) :
    (∃ k ∈ ids, ∃ t, previewOne w' c workspaceId req k = some t ∧ coalesced w' t = false ∧
        t.pair = pair) ↔
      ∃ k ∈ ids, k ≠ id ∧ ∃ t, previewOne w c workspaceId req k = some t ∧
        coalesced w t = false ∧ t.pair = pair := by
  have hcoalesced {k : UUID} {t : IssueRunTrigger} (hk : k ≠ id)
      (ht : previewOne w c workspaceId req k = some t) : coalesced w' t = coalesced w t := by
    rcases previewOne_eq_some.1 ht with ⟨-, source, type, agentId, -, -, -, -, -, -, rfl⟩
    exact congrArg _ (h.pending k hk agentId _)
  constructor
  · rintro ⟨k, hmem, t, ht, hnot, hpair⟩
    have hk : k ≠ id := by
      rintro rfl
      cases hnone.symm.trans ht
    rw [previewOne_other h hk] at ht
    exact ⟨k, hmem, hk, t, ht, by rw [← hcoalesced hk ht]; exact hnot, hpair⟩
  · rintro ⟨k, hmem, hk, t, ht, hnot, hpair⟩
    exact ⟨k, hmem, t, by rw [previewOne_other h hk]; exact ht,
      by rw [hcoalesced hk ht]; exact hnot, hpair⟩

/-- The batch creates what the previews of its issues list, all taken before the first write. -/
theorem createdPairs_batch {ids : List UUID} (haccepted : req.accepted w c workspaceId = true)
    (hmirrored : mirroredAlong now c workspaceId req.updates w ids = true) (pair : UUID × UUID) :
    (∃ e ∈ (batchUpdateIssues now c workspaceId req.updates w ids).enqueued,
        e.pair = some pair) ↔
      ∃ id ∈ ids, ∃ t, previewOne w c workspaceId req id = some t ∧ coalesced w t = false ∧
        t.pair = pair := by
  induction ids generalizing w with
  | nil => simp [batchUpdateIssues]
  | cons id ids ih =>
    rw [mirroredAlong, Bool.and_eq_true] at hmirrored
    have hwrites : WritesIssue w id (updateIssue w now c workspaceId req.updates id).store :=
      updateIssue_writes
    have hfirst := createdPairs_updateIssue haccepted hmirrored.1 pair
    have hkept : req.accepted (updateIssue w now c workspaceId req.updates id).store c
        workspaceId = true := by
      rcases hwrites.others with ⟨issue, tasks, h, heq⟩
      rw [heq]
      exact haccepted
    have hrest := (ih hkept hmirrored.2).trans
      (exists_mem_preview hwrites (previewOne_written haccepted) pair)
    simp only [batchUpdateIssues, List.mem_append, or_and_right, exists_or, hfirst, hrest,
      List.mem_cons, exists_eq_left]
    constructor
    · rintro (ht | ⟨k, hmem, -, ht⟩)
      · exact .inl ht
      · exact .inr ⟨k, hmem, ht⟩
    · rintro (ht | ⟨k, hmem, ht⟩)
      · exact .inl ht
      · -- a second mention of the issue lists what the first has listed
        by_cases hk : k = id
        · subst hk
          exact .inl ht
        · exact .inr ⟨k, hmem, hk, ht⟩

end Preview

/-- The preview of an accepted request lists the pairs for which the write creates a task, apart
from assignments to agents with a pending one. -/
theorem preview_predicts (w : Store) (now : Timestamp) (c : Caller) (workspaceId : UUID)
    (req : IssueTriggerPreviewRequest) (hlength : req.issueIds.length ≤ maxPreviewTriggerIssues)
    (haccepted : req.accepted w c workspaceId = true)
    (hmirrored : mirroredAlong now c workspaceId req.updates w req.issueIds = true) :
    ∃ l, previewIssueTrigger w c workspaceId req = some l ∧ ∀ pair,
      (∃ e ∈ (batchUpdateIssues now c workspaceId req.updates w req.issueIds).enqueued,
          e.pair = some pair) ↔
        ∃ t ∈ l, coalesced w t = false ∧ t.pair = pair := by
  refine ⟨req.issueIds.filterMap (previewOne w c workspaceId req),
    if_neg (Nat.not_lt.2 hlength), fun pair => ?_⟩
  rw [createdPairs_batch haccepted hmirrored pair]
  simp only [List.mem_filterMap]
  constructor
  · rintro ⟨id, hid, t, ht, hrest⟩
    exact ⟨t, ⟨id, hid, ht⟩, hrest⟩
  · rintro ⟨t, ⟨id, hid, ht⟩, hrest⟩
    exact ⟨id, hid, t, ht, hrest⟩

def owner : Caller := { actor := .member 1, originator := some 1, runningOn := none }

def ask : IssueTriggerPreviewRequest :=
  { issueIds := [7], assignee := some (.agent, 5), status := some .todo }

theorem preview_predicts_owner :
    previewIssueTrigger office owner 9 ask = some [⟨7, 5, .agent, .assign⟩] ∧
      ∃ l, previewIssueTrigger office owner 9 ask = some l ∧ ∀ pair,
        (∃ e ∈ (batchUpdateIssues 100 owner 9 ask.updates office [7]).enqueued,
            e.pair = some pair) ↔
          ∃ t ∈ l, coalesced office t = false ∧ t.pair = pair :=
  ⟨by decide +kernel, preview_predicts office 100 owner 9 ask (by decide) (by decide +kernel)
    (by decide +kernel)⟩

/-- The issue has left backlog, and a mention has put the agent on it. -/
def mentioned : Store :=
  { office.setIssue { parkedIssue with status := .todo } with
    tasks :=
      { rows := [{ id := 31, agentID := 5, runtimeID := 4, issueID := some 7, status := .queued
                   createdAt := 1 }]
        key_nodup := by decide
        index_nodup := by decide } }

/-- An assignment is previewed that joins the pending task. -/
theorem preview_coalesced :
    ask.accepted mentioned owner 9 = true ∧
      ¬ ∃ l, previewIssueTrigger mentioned owner 9 ask = some l ∧ ∀ pair,
        (∃ e ∈ (batchUpdateIssues 100 owner 9 ask.updates mentioned [7]).enqueued,
            e.pair = some pair) ↔
          ∃ t ∈ l, t.pair = pair := by
  refine ⟨by decide +kernel, ?_⟩
  rintro ⟨l, hl, hall⟩
  have hlist : previewIssueTrigger mentioned owner 9 ask = some [⟨7, 5, .agent, .assign⟩] := by
    decide +kernel
  obtain rfl := Option.some.inj (hlist.symm.trans hl)
  rcases (hall (7, 5)).2 ⟨_, List.mem_singleton.2 rfl, rfl⟩ with ⟨e, he, -⟩
  have hnone : (batchUpdateIssues 100 owner 9 ask.updates mentioned [7]).enqueued.isEmpty = true := by
    decide +kernel
  rw [List.isEmpty_iff.1 hnone] at he
  cases he

end Orynx.RunTrigger
