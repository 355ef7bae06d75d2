import Orynx.Task.Capacity

/-! # Does `FailTask` terminate the run?

`FailTask` inserts the retry clone in the transaction that fails the run. The clone
is queued for the run's own (issue, agent), so it collides with a follow-up that is
already queued for that pair, and the collision rolls the failure back.

* `failTask_commits_iff` is the exact condition on the state before the call;
* `apart_of_queuesApart` keeps runs apart from follow-ups in every run that never
  queues a row for a pair whose run is under way;
* `failTask_rolls_back` is a run that does.
-/

namespace Orynx.Task

open Lib

/-- The run is failed, and the failure is committed. -/
def FailTaskCommits (cfg : Config) (s : State) (c : FailTaskCall) : Prop :=
  ∃ q t child, failTask cfg.classify s.now s.queue c = .ok (q, t, child) ∧
    ∃ r ∈ q.rows, r.id = c.taskID ∧ r.status = .failed

/-- Another row is pending for the (issue, agent) of `r`. -/
def PendingSibling (q : TaskTable) (r : AgentTask) : Prop :=
  r.issueID ≠ none ∧ ∃ r' ∈ q.rows, r' ≠ r ∧ r'.status.pending = true ∧
    r'.issueID = r.issueID ∧ r'.agentID = r.agentID

/-! ## One call -/

section Call

variable {classify : String → String} {now : Timestamp} {q : TaskTable} {c : FailTaskCall}
  {r : AgentTask}

/-- A failed row leaves the pending index. -/
theorem FailTaskCall.set_pendingKey (x : AgentTask) :
    ((c.update classify now).set x).pendingKey = none := by
  simp [FailTaskCall.update, failAgentTask, AgentTask.pendingKey, TaskStatus.pending]

/-- Failing a row violates no constraint by itself. -/
theorem FailTaskCall.update_isSome : (q.update? (c.update classify now)).isSome := by
  refine Table.update?_isSome_of_shrink (fun x _ => ?_) fun x _ => ?_
  · exact (c.update_rowStep (b := false) classify now x).id
  · cases hsel : (c.update classify now).sel x with
    | true =>
      rw [Update.apply_of_sel hsel, taskSchema_index]
      exact .inl (FailTaskCall.set_pendingKey x)
    | false =>
      rw [Update.apply_of_not_sel hsel]
      exact .inr rfl

/-- `FailTask` on an active run, step by step. -/
theorem failTask_eq {failed : TaskTable} (hr : r ∈ q.rows) (hid : r.id = c.taskID)
    (hact : r.status.active = true) (hfailed : q.update? (c.update classify now) = some failed) :
    failTask classify now q c =
      if wantRetry (some r) (c.reason classify) then
        (insertStmt failed (createRetryTask now c.childID ((c.update classify now).set r))).map
          fun q' => (q', (c.update classify now).set r,
            some (createRetryTask now c.childID ((c.update classify now).set r)))
      else .ok (failed, (c.update classify now).set r, none) := by
  have hget : getAgentTask q c.taskID = some r := getAgentTask_eq_some.2 ⟨hr, hid⟩
  have hone : updateOne q (c.update classify now) =
      .ok (failed, (c.update classify now).set r) := by
    refine updateOne_eq hr (FailTaskCall.sel_iff.2 ⟨hid, hact⟩) (fun x hx hsel => ?_) hfailed
    exact q.eq_of_key hx hr ((FailTaskCall.sel_iff.1 hsel).1.trans hid.symm)
  simp only [failTask, hget]
  rw [FailTaskCall.update] at hone
  rw [FailTaskCall.update, hone]
  simp only [bind, Except.bind, pure, Except.pure]
  split
  · cases insertStmt failed _ <;> rfl
  · rfl

/-- After the failure, the clone fits in exactly when no sibling is pending. -/
theorem retry_insert_isSome {failed : TaskTable} (hr : r ∈ q.rows) (hid : r.id = c.taskID)
    (hact : r.status.active = true) (hfresh : ∀ x ∈ q.rows, x.id ≠ c.childID)
    (hfailed : q.update? (c.update classify now) = some failed) :
    (failed.insert? (createRetryTask now c.childID ((c.update classify now).set r))).isSome ↔
      ¬PendingSibling q r := by
  have hkeys : ∀ x ∈ failed.rows, x.id ≠ c.childID := by
    intro x hx
    rcases (Table.mem_update? hfailed).1 hx with ⟨y, hy, rfl⟩
    rw [(c.update_rowStep (b := false) classify now y).id]
    exact hfresh y hy
  have hclone : (createRetryTask now c.childID ((c.update classify now).set r)).pendingKey =
      r.issueID.map fun issue => (issue, r.agentID) := rfl
  rw [Table.insert?_isSome]
  constructor
  · rintro ⟨-, hfree⟩ ⟨hissue, r', hr', hne, hpend, hissue', hagent'⟩
    rcases Option.ne_none_iff_exists'.1 hissue with ⟨issue, hi⟩
    have hkept : (c.update classify now).apply r' = r' :=
      Update.apply_of_not_sel (by
        cases hsel : (c.update classify now).sel r' with
        | false => rfl
        | true =>
          exact absurd (q.eq_of_key hr' hr ((FailTaskCall.sel_iff.1 hsel).1.trans hid.symm)) hne)
    refine hfree (issue, r.agentID) (by simp [hclone, hi]) r'
      ((Table.mem_update? hfailed).2 ⟨r', hr', hkept⟩) ?_
    exact AgentTask.pendingKey_eq_some.2 ⟨hpend, hissue'.trans hi, hagent'⟩
  · intro hno
    refine ⟨hkeys, fun key hkey x hx hx' => hno ?_⟩
    obtain ⟨issue, hi, rfl⟩ : ∃ issue, r.issueID = some issue ∧ (issue, r.agentID) = key := by
      simpa [hclone] using hkey
    rcases (Table.mem_update? hfailed).1 hx with ⟨y, hy, rfl⟩
    cases hsel : (c.update classify now).sel y with
    | true =>
      rw [Update.apply_of_sel hsel, taskSchema_index, FailTaskCall.set_pendingKey] at hx'
      simp at hx'
    | false =>
      rw [Update.apply_of_not_sel hsel] at hx'
      rcases AgentTask.pendingKey_eq_some.1 hx' with ⟨hpend, hissue, hagent⟩
      refine ⟨by simp [hi], y, hy, ?_, hpend, hissue.trans hi.symm, hagent⟩
      rintro rfl
      rw [FailTaskCall.sel_iff.2 ⟨hid, hact⟩] at hsel
      simp at hsel

end Call

/-- `FailTask` commits on an active run exactly when it wants no retry or no other
row is pending for the run's (issue, agent). -/
theorem failTask_commits_iff (cfg : Config) {s : State} {c : FailTaskCall} {r : AgentTask}
    (hr : r ∈ s.queue.rows) (hid : r.id = c.taskID) (hact : r.status.active = true)
    (hfresh : ∀ x ∈ s.queue.rows, x.id ≠ c.childID) :
    FailTaskCommits cfg s c ↔
      ¬(wantRetry (some r) (c.reason cfg.classify) = true ∧ PendingSibling s.queue r) := by
  have hsome : (s.queue.update? (c.update cfg.classify s.now)).isSome :=
    FailTaskCall.update_isSome
  rcases Option.isSome_iff_exists.1 hsome with ⟨failed, hfailed⟩
  have heq := failTask_eq hr hid hact hfailed
  have hmem : (c.update cfg.classify s.now).set r ∈ failed.rows := by
    refine (Table.mem_update? hfailed).2 ⟨r, hr, ?_⟩
    exact Update.apply_of_sel (FailTaskCall.sel_iff.2 ⟨hid, hact⟩)
  cases hwant : wantRetry (some r) (c.reason cfg.classify) with
  | false =>
    simp only [hwant, Bool.false_eq_true, if_false] at heq
    simp only [Bool.false_eq_true, false_and, not_false_iff, iff_true]
    exact ⟨failed, _, none, heq, _, hmem, hid, rfl⟩
  | true =>
    simp only [hwant, if_true] at heq
    simp only [true_and]
    rw [← retry_insert_isSome hr hid hact hfresh hfailed]
    constructor
    · rintro ⟨q, t, child, hok, -⟩
      rw [heq] at hok
      cases hins : failed.insert? (createRetryTask s.now c.childID
          ((c.update cfg.classify s.now).set r)) with
      | none => simp [insertStmt, hins, Except.map] at hok
      | some q' => rfl
    · intro hsome
      rcases Option.isSome_iff_exists.1 hsome with ⟨q, hq⟩
      refine ⟨q, (c.update cfg.classify s.now).set r,
        some (createRetryTask s.now c.childID ((c.update cfg.classify s.now).set r)), ?_,
        _, (Table.mem_insert? hq).2 (.inl hmem), hid, rfl⟩
      rw [heq]
      simp [insertStmt, hq, Except.map]

/-! ## Runs that keep follow-ups apart -/

/-- The rows a step queues other than as a retry: the inserted row, and the due
deferred rows of a promotion. -/
def queuedBy (s : State) : Step → List AgentTask
  | .insert stmt => (stmt.row s.now s.queue).toList.filter fun t => t.status == .queued
  | .update (.promoteDueDeferredTasksForRuntimes rs) =>
    s.queue.rows.filter (promoteDueDeferredTasksForRuntimes s.now rs).sel
  | _ => []

/-- The run of the row has left the dispatched state and not ended. -/
def AgentTask.underway (t : AgentTask) : Prop :=
  t.status = .running ∨ t.status = .waitingLocalDirectory

/-- The step queues nothing for an (issue, agent) whose run is under way. -/
def QueuesApart (s : State) (a : Step) : Prop :=
  ∀ t ∈ queuedBy s a, ∀ r ∈ s.queue.rows, r.underway → t.issueID ≠ none →
    ¬(r.issueID = t.issueID ∧ r.agentID = t.agentID)

/-- Beside a run that is under way, nothing is pending for its (issue, agent). -/
def Apart (q : TaskTable) : Prop :=
  ∀ r ∈ q.rows, r.underway → ∀ r' ∈ q.rows, r'.status.pending = true → r.issueID ≠ none →
    ¬(r.issueID = r'.issueID ∧ r.agentID = r'.agentID)

theorem AgentTask.underway.active {r : AgentTask} (h : r.underway) : r.status.active = true := by
  rcases h with h | h <;> rw [h] <;> rfl

theorem AgentTask.underway.not_pending {r : AgentTask} (h : r.underway) :
    r.status.pending = false := by
  rcases h with h | h <;> rw [h] <;> rfl

theorem AgentTask.underway.not_completed {r : AgentTask} (h : r.underway) :
    r.status ≠ .completed := by
  rcases h with h | h <;> rw [h] <;> decide

theorem Apart.insert {q q' : TaskTable} {row : AgentTask} (h : Apart q)
    (hins : q.insert? row = some q') (hrow : row.status.active = false)
    (hq : row.status.pending = true → ∀ r ∈ q.rows, r.underway → row.issueID ≠ none →
      ¬(r.issueID = row.issueID ∧ r.agentID = row.agentID)) : Apart q' := by
  intro r hr hu r' hr' hp hissue hsame
  rcases (Table.mem_insert? hins).1 hr with hr | rfl
  · rcases (Table.mem_insert? hins).1 hr' with hr' | rfl
    · exact h r hr hu r' hr' hp hissue hsame
    · exact hq hp r hr hu (hsame.1 ▸ hissue) hsame
  · have hact := hu.active
    simp [hrow] at hact

/-- An update keeps the rows apart if each row it promotes finds its pair idle. -/
theorem Apart.update {q q' : TaskTable} {u : Update AgentTask} {b : Bool} (h : Apart q)
    (hupd : q.update? u = some q') (hstep : ∀ r ∈ q.rows, RowStep b r (u.apply r))
    (hpromote : b = true → ∀ r' ∈ q.rows, r'.status = .deferred →
      (u.apply r').status.pending = true → ∀ r ∈ q.rows, (u.apply r).underway →
      r.issueID ≠ none → ¬(r.issueID = r'.issueID ∧ r.agentID = r'.agentID)) : Apart q' := by
  intro x hx hu x' hx' hp hissue hsame
  rcases (Table.mem_update? hupd).1 hx with ⟨r, hr, rfl⟩
  rcases (Table.mem_update? hupd).1 hx' with ⟨r', hr', rfl⟩
  have hs := hstep r hr
  have hs' := hstep r' hr'
  -- Neither row is completed, so the pair is that of the rows before the step
  have hi : (u.apply r).issueID = r.issueID := hs.issueID_eq hu.not_completed
  have hi' : (u.apply r').issueID = r'.issueID :=
    hs'.issueID_eq (AgentTask.not_completed_of_pending hp)
  have hsame' : r.issueID = r'.issueID ∧ r.agentID = r'.agentID := by
    rw [← hi, ← hi', ← hs.agentID, ← hs'.agentID]
    exact hsame
  have hissue' : r.issueID ≠ none := hi ▸ hissue
  rcases hs'.move.pending hp with hp' | ⟨hb, hdef⟩
  · rcases hs.move.underway hu with hrun | hwait | hdisp
    · exact h r hr (.inl hrun) r' hr' hp' hissue' hsame'
    · exact h r hr (.inr hwait) r' hr' hp' hissue' hsame'
    · -- Both were pending for one pair, so they are the same row
      have hrr : r = r' :=
        pending_unique hr hr' (TaskStatus.pending_cases.2 (.inr hdisp)) hp' hissue' hsame'
      subst hrr
      simp [hu.not_pending] at hp
  · exact hpromote hb r' hr' hdef hp r hr hu hissue' hsame'

theorem apart_of_queuesApart {cfg : Config} : ∀ s,
    (machine cfg).ReachableUnder QueuesApart s → Apart s.queue := by
  refine Machine.invariant_under ?_ ?_
  · intro s hs r hr
    rw [hs.1] at hr
    simp at hr
  · intro s a s' hreach h hC hn
    cases next_effect hn with
    | tick _ => exact h
    | @insert stmt row q hrow hins =>
      refine h.insert hins (InsertStmt.row_inactive hrow) fun hp r hr hu hissue hsame => ?_
      have hqueued : row.status = .queued := by
        rcases TaskStatus.pending_cases.1 hp with hq | hd
        · exact hq
        · have := InsertStmt.row_inactive hrow
          simp [hd, TaskStatus.active] at this
      exact hC row (by simp [queuedBy, hrow, hqueued]) r hr hu hissue hsame
    | @update stmt q hadm hupd =>
      refine h.update hupd (fun r hr => UpdateStmt.rowStep hadm hr) ?_
      intro hb r' hr' hdef hp r hr hu hissue hsame
      cases stmt with
      | promoteDueDeferredTasksForRuntimes rs =>
        simp only [UpdateStmt.update] at hp hu
        have hsel' : (promoteDueDeferredTasksForRuntimes s.now rs).sel r' = true := by
          by_contra hns
          rw [Update.apply_of_not_sel (by simpa using hns)] at hp
          simp [hdef, TaskStatus.pending] at hp
        have hsel : (promoteDueDeferredTasksForRuntimes s.now rs).sel r = false := by
          by_contra hs
          rw [Update.apply_of_sel (by simpa using hs)] at hu
          rcases hu with hu | hu <;> simp [promoteDueDeferredTasksForRuntimes] at hu
        rw [Update.apply_of_not_sel hsel] at hu
        exact hC r' (List.mem_filter.2 ⟨hr', hsel'⟩) r hr hu (hsame.1 ▸ hissue) hsame
      | _ => simp [UpdateStmt.promotes] at hb
    | lock _ => exact h
    | count _ => exact h
    | @claim a locked pick running q _ _ hpick hupd =>
      -- A claim takes a queued row to dispatched: pending before and after
      rcases admissiblePicks_mem hpick (List.mem_singleton.2 rfl) with ⟨t, ht, hid, helig, -⟩
      have hqueued : t.status = .queued := by
        simp only [claimEligible, Bool.and_eq_true, beq_iff_eq] at helig
        exact helig.1.2
      intro x hx hu x' hx' hp hissue hsame
      rcases (Table.mem_update? hupd).1 hx with ⟨r, hr, rfl⟩
      rcases (Table.mem_update? hupd).1 hx' with ⟨r', hr', rfl⟩
      have hother : r.id ≠ pick := by
        intro hrp
        rw [Update.apply_of_sel (by simpa [claimAgentTask] using hrp)] at hu
        rcases hu with hu | hu <;> simp [claimAgentTask] at hu
      rw [claimAgentTask_other hother] at hu hissue hsame
      by_cases hrp' : r'.id = pick
      · have hrt : r' = t := s.queue.eq_of_key hr' ht (hrp'.trans hid.symm)
        subst hrt
        refine h r hr hu r' hr' (TaskStatus.pending_cases.2 (.inl hqueued)) hissue ?_
        rw [Update.apply_of_sel (by simpa [claimAgentTask] using hrp')] at hsame
        exact hsame
      · rw [claimAgentTask_other hrp'] at hp hsame
        exact h r hr hu r' hr' hp hissue hsame
    | release _ => exact h
    | @fail c r failed _ _ _ hupd =>
      exact h.update hupd (fun r _ => c.update_rowStep (b := false) cfg.classify s.now r) (by simp)
    | @failRetry c r failed q hr hsel _ hupd hins =>
      rcases FailTaskCall.sel_iff.1 hsel with ⟨-, hact⟩
      refine (h.update hupd (fun r _ => c.update_rowStep (b := false) cfg.classify s.now r)
        (by simp)).insert hins rfl fun _ x hx hu hissue hsame => ?_
      rcases (Table.mem_update? hupd).1 hx with ⟨y, hy, rfl⟩
      have hysel : (c.update cfg.classify s.now).sel y = false := by
        by_contra hs
        rw [Update.apply_of_sel (by simpa using hs)] at hu
        rcases hu with hu | hu <;> simp [FailTaskCall.update, failAgentTask] at hu
      rw [Update.apply_of_not_sel hysel] at hu hsame
      -- The other run under way would be a second active row of the pair
      have hne : r ≠ y := by
        rintro rfl
        simp [hysel] at hsel
      have hsep := separate_of_reachable s hreach.reachable r hr y hy hne hsame.2.symm hact
        hu.active
      rcases Option.ne_none_iff_exists'.1 hissue with ⟨issue, hi⟩
      exact (AgentTask.not_clashes hsep).1 issue ⟨hi, hsame.1.trans hi⟩

/-! ## The main result -/

/-- A row that is active has no pending sibling in a run that keeps follow-ups apart. -/
theorem no_pendingSibling {cfg : Config} {s : State} {r : AgentTask}
    (h : (machine cfg).ReachableUnder QueuesApart s) (hr : r ∈ s.queue.rows)
    (hact : r.status.active = true) : ¬PendingSibling s.queue r := by
  rintro ⟨hissue, r', hr', hne, hp', hi, ha⟩
  have hsame : r.issueID = r'.issueID ∧ r.agentID = r'.agentID := ⟨hi.symm, ha.symm⟩
  have hapart := apart_of_queuesApart s h r hr
  rcases TaskStatus.active_cases.1 hact with hd | hrun | hwait
  · have hp : r.status.pending = true := TaskStatus.pending_cases.2 (.inr hd)
    exact hne (pending_unique hr hr' hp hp' hissue hsame).symm
  · exact hapart (.inl hrun) r' hr' hp' hissue hsame
  · exact hapart (.inr hwait) r' hr' hp' hissue hsame

/-- `FailTask` on an active run commits the failure exactly when no retry is wanted or
nothing else is pending for the run's (issue, agent); in every run that queues
nothing for a pair whose run is under way, it always commits. -/
theorem failTask_commits (cfg : Config) (s : State) (c : FailTaskCall) (r : AgentTask)
    (hr : r ∈ s.queue.rows) (hid : r.id = c.taskID) (hact : r.status.active = true)
    (hfresh : ∀ x ∈ s.queue.rows, x.id ≠ c.childID) :
    (FailTaskCommits cfg s c ↔
        ¬(wantRetry (some r) (c.reason cfg.classify) = true ∧ PendingSibling s.queue r)) ∧
      ((machine cfg).ReachableUnder QueuesApart s → FailTaskCommits cfg s c) := by
  have hiff := failTask_commits_iff cfg hr hid hact hfresh
  refine ⟨hiff, fun h => hiff.2 ?_⟩
  rintro ⟨-, hsib⟩
  exact no_pendingSibling h hr hact hsib

/-- Claim and start one run of agent 7 on issue 10. -/
def startedRun : List Step :=
  [.insert (.createAgentTask 1 { agentID := 7, runtimeID := 3, issueID := some 10 }),
    .lockAgent 7, .countRunningTasks 7, .claimAgentTask 7 [] 1, .update (.startAgentTask 1)]

/-- The run times out. -/
def timeoutCall : FailTaskCall :=
  { taskID := 1, errMsg := "timed out", failureReason := "timeout", childID := 3 }

theorem failTask_commits_startedRun :
    ∃ s, (machine ⟨fun _ => 1, id⟩).run State.empty startedRun = some s ∧
      FailTaskCommits ⟨fun _ => 1, id⟩ s timeoutCall := by
  obtain ⟨s, hs, -, hp⟩ :=
    Machine.reachable_of_run (machine ⟨fun _ => 1, id⟩) (init_empty _) startedRun
      (fun s => s.queue.rows.length == 1 &&
        s.queue.rows.all fun r => r.id == 1 && r.status == .running) (by decide)
  simp only [Bool.and_eq_true, List.all_eq_true, beq_iff_eq] at hp
  rcases List.length_eq_one_iff.1 hp.1 with ⟨r, hrows⟩
  have hr : r ∈ s.queue.rows := by simp [hrows]
  rcases hp.2 r hr with ⟨hid, hrun⟩
  refine ⟨s, hs, (failTask_commits _ s timeoutCall r hr hid (by rw [hrun]; rfl) ?_).1.2 ?_⟩
  · intro x hx
    rw [(hp.2 x hx).1]
    decide
  · rintro ⟨-, -, r', hr', hne, -⟩
    rw [hrows, List.mem_singleton] at hr'
    exact hne hr'

/-- While the run is under way, a follow-up for its issue and agent is queued; the
timeout then cannot be recorded. -/
theorem failTask_rolls_back :
    ¬∀ (cfg : Config) (s : State), (machine cfg).Reachable s → ∀ (c : FailTaskCall)
      (r : AgentTask), r ∈ s.queue.rows → r.id = c.taskID → r.status.active = true →
      (∀ x ∈ s.queue.rows, x.id ≠ c.childID) → FailTaskCommits cfg s c := by
  intro hclaim
  obtain ⟨s, -, hreach, hp⟩ :=
    Machine.reachable_of_run (machine ⟨fun _ => 1, id⟩) (init_empty _)
      (startedRun ++
        [.insert (.createAgentTask 2 { agentID := 7, runtimeID := 3, issueID := some 10 })])
      (fun s => s.queue.rows.any (fun r => r.id == 1 && r.status.active) &&
        s.queue.rows.all (fun r => r.id != 3) &&
        (failTask id s.now s.queue timeoutCall).toOption.isNone) (by decide)
  simp only [Bool.and_eq_true, List.any_eq_true, List.all_eq_true, beq_iff_eq, bne_iff_ne] at hp
  rcases hp with ⟨⟨⟨r, hr, hid, hact⟩, hfresh⟩, hnone⟩
  obtain ⟨q, t, child, hok, -⟩ :=
    hclaim ⟨fun _ => 1, id⟩ s hreach timeoutCall r hr hid hact hfresh
  simp [hok, Except.toOption] at hnone

end Orynx.Task
