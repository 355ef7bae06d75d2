import Orynx.Routing.Delivery

/-! # At-least-once delivery

A task of the pair answers for a comment while it can still bring it to the agent or has
done so (`answers`); a reconciliation answers for the comments it is yet to replay.
Merges, claims, receipts, requeues, reclaims, starts, completions and retries hand a
comment on. What loses one is a failure, which reconciles nothing, and a handling that
ends without putting its comment into a batch; `abandons` says when they do.

* `Inv`, `inv_step`: a step that abandons nobody keeps every reported comment answered
  for;
* `atLeastOnce`: in a run of such steps every reported comment is delivered, or is in the
  batch of a run that failed for good.
-/

namespace Orynx.Routing.Delivery

open Lib Orynx.Task Orynx.Attribution

/-! ## The property -/

/-- A run of the pair was given the comment. -/
def delivered (p : Pair) (q : TaskTable) (c : RoutedComment) : Bool :=
  q.rows.any fun t => p.owns t && t.deliveredCommentIDs.contains c.id

/-- A run of the pair that had the comment in its batch failed and was not retried. -/
def failedWith (p : Pair) (q : TaskTable) (c : RoutedComment) : Bool :=
  q.rows.any fun t =>
    p.owns t && t.status == .failed && !retried q t.id && t.plan.contains c.id

def Call.reconciling : Call → Bool
  | .create _ _ => false
  | _ => true

/-- No run of the pair is queued or active, none was cancelled, and every completion has
been reconciled. -/
def State.quiet (p : Pair) (s : State) : Bool :=
  (s.sys.queue.rows.all fun t => !(p.owns t && (t.status.live || t.status == .cancelled))) &&
    s.calls.all fun call => !call.reconciling

/-- Every reported comment reached the agent, or a run that failed for good. -/
def AtLeastOnce (p : Pair) (s : State) : Prop :=
  s.quiet p = true → ∀ c ∈ s.reported,
    delivered p s.sys.queue c = true ∨ failedWith p s.sys.queue c = true

/-! ## Who answers for a comment -/

/-- A live run answers for the comments that its completion would reconcile, a completed
one for its receipt, and a failed one without a retry for its batch. -/
def answers (q : TaskTable) (c : RoutedComment) (t : AgentTask) : Bool :=
  match t.status with
  | .queued | .dispatched | .running | .waitingLocalDirectory => covers t c
  | .completed => t.deliveredCommentIDs.contains c.id
  | .failed => t.plan.contains c.id && !retried q t.id
  | .cancelled | .deferred => false

/-- The comments a request is yet to replay. -/
def Call.holds (c : RoutedComment) : Call → Bool
  | .create _ _ => false
  | .reconcile t => covers t c && !t.deliveredCommentIDs.contains c.id
  | .replay c' rest _ => c' == c || rest.contains c

def answered (p : Pair) (q : TaskTable) (c : RoutedComment) : Bool :=
  q.rows.any fun t => p.owns t && answers q c t

/-- Somebody other than request `i` answers for the comment. -/
def State.answeredWithout (p : Pair) (s : State) (i : Nat) (c : RoutedComment) : Bool :=
  answered p s.sys.queue c || (s.calls.eraseIdx i).any (Call.holds c)

/-! ## The steps that lose a comment -/

/-- The live rows that a statement fails. -/
def fails (s : Task.State) : Task.Step → AgentTask → Bool
  | .update stmt, t =>
    t.status.live && ((stmt.update s.now s.queue).apply t).status == .failed
  | .failTask call, t => t.id == call.taskID && t.status.active
  | _, _ => false

/-- The statement fails a run of the pair on which a comment outside its batch waits,
and nobody else answers for the comment. -/
def failsUnder (p : Pair) (s : State) (step : Task.Step) (c : RoutedComment) : Bool :=
  let q := s.sys.queue
  let fails := fails s.sys step
  (q.rows.any fun t => p.owns t && fails t && covers t c && !t.plan.contains c.id) &&
    !(q.rows.any fun t => p.owns t && answers q c t && (!fails t || t.plan.contains c.id)) &&
      !s.calls.any (Call.holds c)

/-- The outcome with which a statement ends the handling of `c` without putting it into a
batch: attribution refuses the merge, the comment is left to an active run, a path
refuses the enqueue, or the run cap is met. -/
def leavesOut (p : Pair) (s : State) (c : RoutedComment) : Act → Point → Option DispatchStatus
  | .merge _ env, .merge trigger =>
    if (mergeAttribution env s.sys.queue trigger c.id).isNone then some .blocked else none
  | .check _, .check _ =>
    if hasActiveTaskForIssueAndAgent s.sys.queue p.issueID p.agentID then some .deferred
    else none
  | .enqueue _ env, .enqueue trigger =>
    match enqueueSingleCommentTrigger env s.sys.now s.sys.queue c.id trigger with
    | .error _ => some .blocked
    | .ok _ => if issueRunCapExceeded env s.sys.now s.sys.queue then some .queued else none
  | _, _ => none

/-- The step leaves a comment that is or becomes reported with nobody who answers for
it. -/
def abandons (p : Pair) (s : State) (a : Act) : Bool :=
  match a with
  | .queue step => s.reported.any (failsUnder p s step)
  | .merge i _ | .check i | .enqueue i _ =>
    s.calls[i]?.any fun call => call.current.any fun (c, point) =>
      (leavesOut p s c a point).any fun status =>
        (s.reported ++ call.report status).contains c && !s.answeredWithout p i c
  | _ => false

/-! ## Handing a comment on -/

variable {p : Pair} {q q' : TaskTable} {c : RoutedComment}

theorem Pair.owns_iff {t : AgentTask} :
    p.owns t = true ↔ t.issueID = some p.issueID ∧ t.agentID = p.agentID := by
  simp [Pair.owns]

theorem answered_iff : answered p q c = true ↔
    ∃ t ∈ q.rows, p.owns t = true ∧ answers q c t = true := by
  simp [answered]

theorem owns_carried {b : Bool} {t t' : AgentTask} (h : Carried b t t')
    (ht : p.owns t = true) : p.owns t' = true := by
  rcases Pair.owns_iff.1 ht with ⟨hissue, hagent⟩
  exact Pair.owns_iff.2 ⟨h.issueID _ hissue, h.agentID.trans hagent⟩

theorem covers_carried {b : Bool} {t t' : AgentTask} (h : Carried b t t')
    (ht : covers t c = true) : covers t' c = true := by
  simp only [covers, Bool.or_eq_true, decide_eq_true_eq, List.contains_iff_mem] at ht ⊢
  rcases ht with hlater | hplan
  · exact .inl (by rw [h.createdAt]; exact hlater)
  · exact .inr (h.plan _ hplan)

theorem answers_of_live {t : AgentTask} (hl : t.status.live = true) :
    answers q c t = covers t c := by
  rcases TaskStatus.live_cases.1 hl with h | h | h | h <;> simp [answers, h]

/-- A pair with a cancelled run is not followed any further. -/
def Cancelled (p : Pair) (q : TaskTable) : Prop :=
  ∃ t ∈ q.rows, p.owns t = true ∧ t.status = .cancelled

/-- A row answers for the comment and keeps doing so: it does not fail, or it fails with
the comment in its batch. -/
def Survives (p : Pair) (fails : AgentTask → Bool) (q : TaskTable) (c : RoutedComment) : Prop :=
  ∃ t ∈ q.rows, p.owns t = true ∧ answers q c t = true ∧ (fails t = true → c.id ∈ t.plan)

def nobody : AgentTask → Bool := fun _ => false

theorem survives_nobody (h : answered p q c = true) : Survives p nobody q c := by
  rcases answered_iff.1 h with ⟨t, ht, hown, ha⟩
  exact ⟨t, ht, hown, ha, fun h => by simp [nobody] at h⟩

theorem Survives.answered {fails : AgentTask → Bool} (h : Survives p fails q c) :
    Delivery.answered p q c = true := by
  rcases h with ⟨t, ht, hown, ha, -⟩
  exact answered_iff.2 ⟨t, ht, hown, ha⟩

/-- The table passes from `q` to `q'`, failing the rows `fails`, and the comments that
survive that are still answered for. -/
structure HandsOn (p : Pair) (fails : AgentTask → Bool) (q q' : TaskTable) : Prop where
  retries : RetriesFailed q → RetriesFailed q'
  cancelled : Cancelled p q → Cancelled p q'
  answered : ∀ c, RetriesFailed q → Survives p fails q c →
    Cancelled p q' ∨ Delivery.answered p q' c = true

theorem HandsOn.refl (p : Pair) (q : TaskTable) : HandsOn p nobody q q :=
  ⟨id, id, fun _ _ h => .inr h.answered⟩

theorem HandsOn.mono {fails : AgentTask → Bool} (h : HandsOn p nobody q q') :
    HandsOn p fails q q' :=
  ⟨h.retries, h.cancelled, fun c hr hc => h.answered c hr (survives_nobody hc.answered)⟩

theorem HandsOn.trans {fails : AgentTask → Bool} {q₁ : TaskTable} (h : HandsOn p fails q q₁)
    (h' : HandsOn p nobody q₁ q') : HandsOn p fails q q' where
  retries := h'.retries ∘ h.retries
  cancelled := h'.cancelled ∘ h.cancelled
  answered c hr hc := by
    rcases h.answered c hr hc with hcancelled | hc₁
    · exact .inl (h'.cancelled hcancelled)
    · exact h'.answered c (h.retries hr) (survives_nobody hc₁)

/-- A retry clone takes over from the run it retries, batch and all. -/
theorem HandsOn.insert {row : AgentTask} (hrow : Offspring q row)
    (hins : q.insert? row = some q') : HandsOn p nobody q q' where
  retries h := h.insert hrow hins
  cancelled := by
    rintro ⟨t, ht, hcancelled⟩
    exact ⟨t, (Table.mem_insert? hins).2 (.inl ht), hcancelled⟩
  answered c hr hc := by
    right
    rcases hc with ⟨t, ht, hown, ha, -⟩
    by_cases hretry : row.retryOfTaskID = some t.id
    · rcases hrow with hnone | ⟨r, hrmem, h⟩
      · simp [hnone] at hretry
      have hrt : r = t := q.eq_of_key hrmem ht (Option.some.inj (h.retryOf.symm.trans hretry))
      subst hrt
      -- the clone is queued with the batch of the failed run
      have hplan : c.id ∈ r.plan := by
        simp only [answers, h.failed, Bool.and_eq_true, List.contains_iff_mem] at ha
        exact ha.1
      refine answered_iff.2 ⟨row, (Table.mem_insert? hins).2 (.inr rfl), ?_, ?_⟩
      · rcases Pair.owns_iff.1 hown with ⟨hissue, hagent⟩
        exact Pair.owns_iff.2 ⟨h.issueID.trans hissue, h.agentID.trans hagent⟩
      · simp [answers, h.queued, covers, h.plan, hplan]
    · refine answered_iff.2 ⟨t, (Table.mem_insert? hins).2 (.inl ht), hown, ?_⟩
      simpa only [answers, retried_insert hins hretry] using ha

/-- What becomes of a row that answers for a comment when an update does not complete it
and fails it only with the comment in its batch. -/
theorem answers_update {u : Update AgentTask} (hr : RetriesFailed q)
    (hu : ∀ t ∈ q.rows, Carried false t (u.apply t)) (hupd : q.update? u = some q')
    {t : AgentTask} (ht : t ∈ q.rows) (ha : answers q c t = true)
    (hfail : t.status.live = true → (u.apply t).status = .failed → c.id ∈ t.plan) :
    (u.apply t).status = .cancelled ∨ answers q' c (u.apply t) = true := by
  have hcarried := hu t ht
  have hretried : retried q' (u.apply t).id = retried q t.id := by
    rw [retried_update hu hupd, hcarried.id]
  by_cases hlive : t.status.live = true
  · rw [answers_of_live hlive] at ha
    rcases hcarried.live hlive with h | h | h | ⟨-, h⟩
    · exact .inr (by rw [answers_of_live h]; exact covers_carried hcarried ha)
    · right
      have hplan := hcarried.plan _ (hfail hlive h)
      have hunretried : retried q t.id = false := by
        refine hr.not_retried ht fun hf => ?_
        simp [hf, TaskStatus.live, TaskStatus.active] at hlive
      simp [answers, h, hplan, hretried, hunretried]
    · exact .inl h
    · simp at h
  · right
    have hended : t.status.terminal = true := by
      revert ha hlive
      simp only [answers]
      cases t.status <;> simp [TaskStatus.live, TaskStatus.active, TaskStatus.terminal]
    rcases hcarried.ended hended with ⟨hstatus, hreceipt⟩
    rw [answers, hstatus, hreceipt, hretried]
    revert ha hended
    rw [answers]
    cases t.status with
    | failed =>
      simp only [Bool.and_eq_true, List.contains_iff_mem]
      exact fun ha _ => ⟨hcarried.plan _ ha.1, ha.2⟩
    | completed => exact fun ha _ => ha
    | _ => simp [TaskStatus.terminal]

theorem Cancelled.update {u : Update AgentTask} {b : Bool}
    (hu : ∀ t ∈ q.rows, Carried b t (u.apply t)) (hupd : q.update? u = some q')
    (h : Cancelled p q) : Cancelled p q' := by
  rcases h with ⟨t, ht, hown, hcancelled⟩
  refine ⟨u.apply t, (Table.mem_update? hupd).2 ⟨t, ht, rfl⟩, owns_carried (hu t ht) hown, ?_⟩
  rw [((hu t ht).ended (by rw [hcancelled]; rfl)).1, hcancelled]

/-- An update loses no comment that survives the rows it fails. -/
theorem HandsOn.update {fails : AgentTask → Bool} {u : Update AgentTask}
    (hu : ∀ t ∈ q.rows, Carried false t (u.apply t)) (hupd : q.update? u = some q')
    (hfail : ∀ t ∈ q.rows, t.status.live = true → (u.apply t).status = .failed →
      fails t = true) : HandsOn p fails q q' where
  retries h := h.update hu hupd
  cancelled := Cancelled.update hu hupd
  answered c hr hc := by
    rcases hc with ⟨t, ht, hown, ha, hplan⟩
    have hmem : u.apply t ∈ q'.rows := (Table.mem_update? hupd).2 ⟨t, ht, rfl⟩
    have hown' : p.owns (u.apply t) = true := owns_carried (hu t ht) hown
    rcases answers_update hr hu hupd ht ha fun hl hf => hplan (hfail t ht hl hf) with h | h
    · exact .inl ⟨_, hmem, hown', h⟩
    · exact .inr (answered_iff.2 ⟨_, hmem, hown', h⟩)

/-! ## Statements of the other parties -/

theorem failTask_handsOn {s : Task.State} {classify : String → String} {call : FailTaskCall}
    (hupd : s.queue.update? (call.update classify s.now) = some q') :
    HandsOn p (fails s (.failTask call)) s.queue q' := by
  refine .update (fun t _ => call.carried classify s.now t) hupd ?_
  intro t _ hlive hfailed
  by_cases hsel : (call.update classify s.now).sel t = true
  · rcases FailTaskCall.sel_iff.1 hsel with ⟨hid, hactive⟩
    simp [fails, hid, hactive]
  · rw [Update.apply_of_not_sel (by simpa using hsel)] at hfailed
    simp [hfailed, TaskStatus.live, TaskStatus.active] at hlive

theorem queue_handsOn {cfg : Config} {s s' : Task.State} {step : Task.Step}
    (h : Task.next cfg s step = some s') (hcompletes : completes step = false) :
    HandsOn p (fails s step) s.queue s'.queue := by
  cases next_effect h with
  | tick | lock | count | release => exact (HandsOn.refl p _).mono
  | insert row_eq inserted =>
    exact (HandsOn.insert (InsertStmt.offspring row_eq) inserted).mono
  | @update stmt q' admits updated =>
    refine .update (fun t ht => ?_) updated fun t _ hlive hfailed => by simp [fails, hlive, hfailed]
    have hcarried := UpdateStmt.carried admits ht
    rwa [show stmt.completes = false from hcompletes] at hcarried
  | @claim a locked pick running q' counted capacity picked updated =>
    have hpick : ∀ t ∈ s.queue.rows, t.id = pick → t.status = .queued := by
      intro t ht hid
      rcases claim_pick picked with ⟨t', ht', hid', -, hq⟩
      rwa [s.queue.eq_of_key ht ht' (hid.trans hid'.symm)]
    refine .update (fun t ht => claimAgentTask_carried hpick ht) updated ?_
    intro t ht hlive hfailed
    by_cases hid : t.id = pick
    · rw [Update.apply_of_sel (by simpa [Task.claimAgentTask] using hid)] at hfailed
      simp [Task.claimAgentTask] at hfailed
    · rw [claimAgentTask_other hid] at hfailed
      simp [hfailed, TaskStatus.live, TaskStatus.active] at hlive
  | fail _ _ _ updated => exact failTask_handsOn updated
  | @failRetry call r failed q' mem sel wanted updated inserted =>
    -- the clone is inserted after its parent has failed
    have hmem : (call.update cfg.classify s.now).set r ∈ failed.rows :=
      (Table.mem_update? updated).2 ⟨r, mem, Update.apply_of_sel sel⟩
    have hretry := createRetryTask_retryOf s.now call.childID
      (r := (call.update cfg.classify s.now).set r) rfl
    exact (failTask_handsOn updated).trans (.insert (.inr ⟨_, hmem, hretry⟩) inserted)

/-! ## Statements of a handling -/

theorem mergeUpdate_isSome (q : TaskTable) (target new : UUID)
    (attribution : AttributionColumns) :
    (q.update? (Task.mergeCommentIntoPendingTask target new attribution)).isSome := by
  refine Table.update?_isSome_of_shrink ?_ ?_
  · intro t _
    exact (merge_apply_id ..).1
  · intro t _
    right
    unfold Update.apply
    split <;> rfl

/-- How a merge ends. -/
theorem mergeCommentIntoPendingTask_cases (env : Env) (q : TaskTable)
    (trigger : CommentAgentTrigger) (new : UUID) :
    (mergeAttribution env q trigger new = none ∧
        Routing.mergeCommentIntoPendingTask env q trigger new = (.attributionBlocked, q)) ∨
      Routing.mergeCommentIntoPendingTask env q trigger new = (.noPendingTask, q) ∨
      ∃ attr target q', mergeTarget q env.issue.id trigger.agentID = some target ∧
        q.update? (Task.mergeCommentIntoPendingTask target.id new attr) = some q' ∧
        Routing.mergeCommentIntoPendingTask env q trigger new = (.succeeded, q') := by
  unfold Routing.mergeCommentIntoPendingTask
  cases hattr : mergeAttribution env q trigger new with
  | none => exact .inl ⟨rfl, rfl⟩
  | some attr =>
    cases htarget : mergeTarget q env.issue.id trigger.agentID with
    | none => exact .inr (.inl rfl)
    | some target =>
      obtain ⟨q', hq'⟩ := Option.isSome_iff_exists.1
        (mergeUpdate_isSome q target.id new attr.columns)
      exact .inr (.inr ⟨attr.columns, target, q', rfl, hq', by simp [updateStmt, hq']⟩)

/-- A merge loses no comment, and a merged comment is in the batch of a queued run. -/
theorem merge_handsOn {target : AgentTask} {new : UUID} {attribution : AttributionColumns}
    (htarget : mergeTarget q p.issueID p.agentID = some target)
    (hupd : q.update? (Task.mergeCommentIntoPendingTask target.id new attribution) = some q') :
    HandsOn p nobody q q' ∧ ∀ c : RoutedComment, c.id = new → answered p q' c = true := by
  rcases mergeTarget_eq_some htarget with ⟨hmem, hissue, hagent, hqueued⟩
  have hcarried : ∀ t ∈ q.rows,
      Carried false t ((Task.mergeCommentIntoPendingTask target.id new attribution).apply t) := by
    intro t ht
    let stmt : UpdateStmt := .mergeCommentIntoPendingTask p.issueID p.agentID new attribution
    have hstmt : Carried stmt.completes t ((stmt.update 0 q).apply t) :=
      UpdateStmt.carried rfl ht
    simpa only [stmt, UpdateStmt.update, htarget, UpdateStmt.completes] using hstmt
  constructor
  · refine .update hcarried hupd fun t _ hlive hfailed => ?_
    have hstatus : ((Task.mergeCommentIntoPendingTask target.id new attribution).apply t).status =
        t.status := by
      unfold Update.apply
      split <;> rfl
    simp [hstatus.symm.trans hfailed, TaskStatus.live, TaskStatus.active] at hlive
  · rintro c rfl
    refine answered_iff.2 ⟨_, (Table.mem_update? hupd).2 ⟨target, hmem, rfl⟩, ?_, ?_⟩
    · exact owns_carried (hcarried target hmem) (Pair.owns_iff.2 ⟨hissue, hagent⟩)
    · rw [Update.apply_of_sel (by simp [Task.mergeCommentIntoPendingTask])]
      have hplan : c.id ∈
          ((Task.mergeCommentIntoPendingTask target.id c.id attribution).set target).plan :=
        mem_plan_merge_self
      simp [answers, Task.mergeCommentIntoPendingTask, hqueued, covers] at hplan ⊢
      exact .inr hplan

theorem escalated_handsOn (h : Escalated q q') : HandsOn p nobody q q' := by
  rcases h with rfl | ⟨row, -, hretry, hins⟩
  · exact .refl p _
  · exact .insert (.inl hretry) hins

/-- A fresh enqueue loses no comment, and below the cap the new run has the comment in its
batch. -/
theorem enqueued_handsOn {env : Env} {now : Timestamp} (hissue : env.issue.id = p.issueID)
    (hr : RetriesFailed q) (h : Enqueued env now q p.agentID c.id q') :
    HandsOn p nobody q q' ∧ (issueRunCapExceeded env now q = true ∨
      Cancelled p q' ∨ answered p q' c = true) := by
  cases h with
  | capped cap escalated => exact ⟨escalated_handsOn escalated, .inl cap⟩
  | @fresh q₁ _ row uncapped row_eq plan inserted escalated =>
    have hfresh : HandsOn p nobody q q₁ := .insert (.inl row_eq.retryOf) inserted
    have hrest : HandsOn p nobody q₁ q' := escalated_handsOn escalated
    have hanswered : answered p q₁ c = true := by
      refine answered_iff.2 ⟨row, (Table.mem_insert? inserted).2 (.inr rfl), ?_, ?_⟩
      · exact Pair.owns_iff.2 ⟨row_eq.issueID.trans (by rw [hissue]), row_eq.agentID⟩
      · simp [answers, row_eq.status, covers, AgentTask.plan, row_eq.triggerCommentID]
    exact ⟨hfresh.trans hrest,
      .inr (hrest.answered c (hfresh.retries hr) (survives_nobody hanswered))⟩

/-! ## Requests in flight -/

theorem mem_replaceAt_of_erase {calls : List Call} {i : Nat} {o : Option Call} {x : Call}
    (h : x ∈ calls.eraseIdx i) : x ∈ replaceAt calls i o := by
  cases o with
  | none => exact h
  | some new =>
    rcases List.mem_eraseIdx_iff_getElem?.1 h with ⟨j, hj, hx⟩
    refine List.mem_iff_getElem?.2 ⟨j, ?_⟩
    rw [replaceAt, List.getElem?_set_ne (Ne.symm hj)]
    exact hx

theorem mem_replaceAt_self {calls : List Call} {i : Nat} {call new : Call}
    (h : calls[i]? = some call) : new ∈ replaceAt calls i (some new) := by
  rcases List.getElem?_eq_some_iff.1 h with ⟨hi, -⟩
  exact List.mem_set hi new

theorem mem_of_mem_replaceAt {calls : List Call} {i : Nat} {o : Option Call} {x : Call}
    (h : x ∈ replaceAt calls i o) : x ∈ calls ∨ o = some x := by
  cases o with
  | none => exact .inl (List.mem_of_mem_eraseIdx h)
  | some new =>
    rcases List.mem_or_eq_of_mem_set h with h | h
    · exact .inl h
    · exact .inr (by rw [h])

/-- A request other than the replaced one holds the comment, or the replaced one did. -/
theorem held_replaceAt {calls : List Call} {i : Nat} {call : Call} {o : Option Call}
    (hcall : calls[i]? = some call) (h : ∃ x ∈ calls, x.holds c = true)
    (hhold : call.holds c = true → ∃ new, o = some new ∧ new.holds c = true) :
    ∃ x ∈ replaceAt calls i o, x.holds c = true := by
  rcases h with ⟨x, hx, hxc⟩
  rcases List.mem_iff_getElem?.1 hx with ⟨j, hj⟩
  by_cases hji : j = i
  · have hxcall : x = call := by
      rw [hji, hcall] at hj
      exact (Option.some.inj hj).symm
    rcases hhold (hxcall ▸ hxc) with ⟨new, rfl, hnew⟩
    exact ⟨new, mem_replaceAt_self hcall, hnew⟩
  · exact ⟨x, mem_replaceAt_of_erase (List.mem_eraseIdx_iff_getElem?.2 ⟨j, hji, hj⟩), hxc⟩

theorem replayOf_holds {comments : List RoutedComment} (h : c ∈ comments) :
    ∃ new, replayOf comments = some new ∧ new.holds c = true := by
  cases comments with
  | nil => simp at h
  | cons c' rest =>
    refine ⟨_, rfl, ?_⟩
    rcases List.mem_cons.1 h with rfl | h
    · simp [Call.holds]
    · simp [Call.holds, h]

/-- What a reconciliation holds is what it will replay. -/
theorem mem_commentsToReplay {comments : List RoutedComment} {t : AgentTask}
    (hmem : c ∈ comments) (hearns : c.earnsFollowUp = true)
    (hholds : (Call.reconcile t).holds c = true) : c ∈ commentsToReplay comments t := by
  simp only [Call.holds, Bool.and_eq_true] at hholds
  rcases hholds with ⟨hcovers, hdelivered⟩
  have hauthor : (c.authorType == .member || c.authorType == .agent) = true := by
    simp only [RoutedComment.earnsFollowUp, Bool.or_eq_true, Bool.and_eq_true] at hearns ⊢
    exact hearns.imp_right And.left
  refine List.mem_filter.2 ⟨?_, by rw [hdelivered, hearns]; rfl⟩
  rw [listReconcilableCommentsForIssueSince, List.mem_insertionSort]
  exact List.mem_filter.2 ⟨hmem, by rw [hauthor, hcovers]; rfl⟩

/-! ## The invariant -/

/-- The trigger that a handling carries is the agent's. -/
def Point.names (agentID : UUID) : Point → Prop
  | .resolve => True
  | .merge t | .check t | .enqueue t => t.agentID = agentID

/-- Every reported comment is answered for, unless a run of the pair was cancelled. -/
structure Inv (p : Pair) (s : State) : Prop where
  retries : RetriesFailed s.sys.queue
  known : ∀ c ∈ s.reported, c ∈ s.comments ∧ c.earnsFollowUp = true
  created : ∀ c point, Call.create c point ∈ s.calls → c ∈ s.comments
  agent : ∀ call ∈ s.calls, ∀ c point, call.current = some (c, point) → point.names p.agentID
  safe : Cancelled p s.sys.queue ∨ ∀ c ∈ s.reported,
    answered p s.sys.queue c = true ∨ ∃ call ∈ s.calls, call.holds c = true

/-- What one statement of a handling has to leave behind. -/
def Progress.Kept (p : Pair) (s : State) (i : Nat) (call : Call) (c : RoutedComment)
    (q : TaskTable) : Progress → Prop
  | .goto point => point.names p.agentID
  | .done status => (c ∈ s.reported ∨ c ∈ call.report status) →
      Cancelled p q ∨ answered p q c = true ∨ ∃ x ∈ s.calls.eraseIdx i, x.holds c = true

@[simp] theorem Call.goto_holds (call : Call) (point : Point) :
    (call.goto point).holds c = call.holds c := by
  cases call <;> rfl

theorem Call.mem_report {call : Call} {status : DispatchStatus} {c' : RoutedComment}
    {point : Point} (hcur : call.current = some (c, point)) (h : c' ∈ call.report status) :
    c' = c ∧ call = .create c point ∧ c.earnsFollowUp = true := by
  cases call with
  | create c₀ point₀ =>
    obtain ⟨rfl, rfl⟩ : c₀ = c ∧ point₀ = point := by simpa [Call.current] using hcur
    simp only [Call.report] at h
    split at h
    · rename_i hearns
      exact ⟨by simpa using h, rfl, hearns.1⟩
    · simp at h
  | reconcile | replay => simp [Call.report] at h

/-- A comment that a request at `c` holds is `c` or comes later in the same replay. -/
theorem Call.holds_rest {call : Call} {c' : RoutedComment} {point : Point}
    (hcur : call.current = some (c, point)) (h : call.holds c' = true) (hne : c' ≠ c) :
    ∃ new, call.rest = some new ∧ new.holds c' = true := by
  cases call with
  | create => simp [Call.holds] at h
  | reconcile => simp [Call.current] at hcur
  | replay c₀ rest point₀ =>
    obtain ⟨rfl, -⟩ : c₀ = c ∧ point₀ = point := by simpa [Call.current] using hcur
    refine replayOf_holds ?_
    simp only [Call.holds, Bool.or_eq_true, beq_iff_eq, List.contains_iff_mem] at h
    exact h.resolve_left fun heq => hne heq.symm

theorem Call.rest_eq {call new : Call} (h : call.rest = some new) :
    ∃ c rest, new = .replay c rest .resolve := by
  have hreplay : ∀ rest, replayOf rest = some new → ∃ c rest, new = .replay c rest .resolve := by
    intro rest hrest
    cases rest with
    | nil => simp [replayOf] at hrest
    | cons c rest => exact ⟨c, rest, by simpa [replayOf] using hrest.symm⟩
  cases call with
  | create | reconcile => simp [Call.rest] at h
  | replay c rest point => exact hreplay rest h

theorem advance_inv {s s' : State} {i : Nat}
    {f : RoutedComment → Point → Option (TaskTable × Progress)} (hinv : Inv p s)
    (h : s.advance i f = some s')
    (hf : ∀ call c point q progress, s.calls[i]? = some call → call.current = some (c, point) →
      point.names p.agentID → f c point = some (q, progress) →
      HandsOn p nobody s.sys.queue q ∧ progress.Kept p s i call c q) : Inv p s' := by
  simp only [State.advance, bind, Option.bind_eq_some_iff] at h
  rcases h with ⟨call, hcall, ⟨c, point⟩, hcur, ⟨q, progress⟩, hstep, h⟩
  have hmem : call ∈ s.calls := List.mem_of_getElem? hcall
  have hpoint := hinv.agent call hmem c point hcur
  rcases hf call c point q progress hcall hcur hpoint hstep with ⟨hon, hkept⟩
  have hanswered : ∀ c', answered p s.sys.queue c' = true →
      Cancelled p q ∨ answered p q c' = true :=
    fun c' hc' => hon.answered c' hinv.retries (survives_nobody hc')
  cases progress with
  | goto point' =>
    obtain rfl : _ = s' := by simpa [pure] using h
    refine ⟨hon.retries hinv.retries, hinv.known, ?_, ?_, ?_⟩
    · intro c' pt hc'
      rcases mem_of_mem_replaceAt (o := some (call.goto point')) hc' with hc' | hc'
      · exact hinv.created c' pt hc'
      · cases call with
        | create c₀ point₀ =>
          simp only [Call.goto, Option.some.injEq, Call.create.injEq] at hc'
          exact hc'.1 ▸ hinv.created c₀ point₀ hmem
        | reconcile | replay => simp [Call.goto] at hc'
    · intro x hx c' pt hcur'
      rcases mem_of_mem_replaceAt (o := some (call.goto point')) hx with hx | hx
      · exact hinv.agent x hx c' pt hcur'
      · obtain rfl : call.goto point' = x := Option.some.inj hx
        have hpt : pt = point' := by
          cases call <;> simp_all [Call.goto, Call.current]
        exact hpt ▸ hkept
    · rcases hinv.safe with hcancelled | hsafe
      · exact .inl (hon.cancelled hcancelled)
      · by_cases hcancelled : Cancelled p q
        · exact .inl hcancelled
        · refine .inr fun c' hc' => ?_
          rcases hsafe c' hc' with ha | hheld
          · exact .inl ((hanswered c' ha).resolve_left hcancelled)
          · refine .inr (held_replaceAt hcall hheld fun hholds => ⟨_, rfl, ?_⟩)
            rwa [Call.goto_holds]
  | done status =>
    obtain rfl : _ = s' := by simpa [pure] using h
    refine ⟨hon.retries hinv.retries, ?_, ?_, ?_, ?_⟩
    · intro c' hc'
      rcases List.mem_append.1 hc' with hc' | hc'
      · exact hinv.known c' hc'
      · rcases Call.mem_report hcur hc' with ⟨rfl, rfl, hearns⟩
        exact ⟨hinv.created c' point hmem, hearns⟩
    · intro c' pt hc'
      rcases mem_of_mem_replaceAt hc' with hc' | hc'
      · exact hinv.created c' pt hc'
      · rcases Call.rest_eq hc' with ⟨c₁, rest, hnew⟩
        simp at hnew
    · intro x hx c' pt hcur'
      rcases mem_of_mem_replaceAt hx with hx | hx
      · exact hinv.agent x hx c' pt hcur'
      · rcases Call.rest_eq hx with ⟨c₁, rest, rfl⟩
        obtain ⟨-, rfl⟩ : c₁ = c' ∧ Point.resolve = pt := by simpa [Call.current] using hcur'
        trivial
    · by_cases hcancelled : Cancelled p q
      · exact .inl hcancelled
      · refine .inr fun c' hc' => ?_
        by_cases hcc : c' = c
        · -- the comment whose handling has ended
          subst hcc
          rcases hkept (List.mem_append.1 hc') with hc | ha | ⟨x, hx, hholds⟩
          · exact absurd hc hcancelled
          · exact .inl ha
          · exact .inr ⟨x, mem_replaceAt_of_erase hx, hholds⟩
        · have hold : c' ∈ s.reported := by
            rcases List.mem_append.1 hc' with hc' | hc'
            · exact hc'
            · exact absurd (Call.mem_report hcur hc').1 hcc
          rcases hinv.safe with hcancelled' | hsafe
          · exact absurd (hon.cancelled hcancelled') hcancelled
          · rcases hsafe c' hold with ha | hheld
            · exact .inl ((hanswered c' ha).resolve_left hcancelled)
            · exact .inr (held_replaceAt hcall hheld
                fun hholds => Call.holds_rest hcur hholds hcc)

/-! ## Steps -/

theorem failing_live {s : Task.State} {step : Task.Step} {t : AgentTask}
    (h : fails s step t = true) : t.status.live = true := by
  cases step with
  | update stmt =>
    simp only [fails, Bool.and_eq_true] at h
    exact h.1
  | failTask call =>
    simp only [fails, Bool.and_eq_true] at h
    simp [TaskStatus.live, h.2]
  | _ => simp [fails] at h

/-- A statement that does not fail the comment's last run leaves it with somebody. -/
theorem survives_of_not_failsUnder {s : State} {step : Task.Step}
    (h : failsUnder p s step c = false) (ha : answered p s.sys.queue c = true) :
    Survives p (fails s.sys step) s.sys.queue c ∨ ∃ call ∈ s.calls, call.holds c = true := by
  rcases answered_iff.1 ha with ⟨t, ht, hown, hanswers⟩
  by_cases hsafe : fails s.sys step t = true → c.id ∈ t.plan
  · exact .inl ⟨t, ht, hown, hanswers, hsafe⟩
  · have hfails : fails s.sys step t = true := by
      by_contra hf
      exact hsafe fun h => absurd h hf
    have hplan : c.id ∉ t.plan := fun hp => hsafe fun _ => hp
    have hcovers : covers t c = true := by
      rwa [← answers_of_live (failing_live hfails)]
    have hwaits : (s.sys.queue.rows.any fun t =>
        p.owns t && fails s.sys step t && covers t c && !t.plan.contains c.id) = true :=
      List.any_eq_true.2 ⟨t, ht, by simp [hown, hfails, hcovers, hplan]⟩
    simp only [failsUnder, hwaits, Bool.true_and, Bool.and_eq_false_iff, Bool.not_eq_false'] at h
    rcases h with h | h
    · rcases List.any_eq_true.1 h with ⟨t', ht', hrow⟩
      simp only [Bool.and_eq_true, Bool.or_eq_true, Bool.not_eq_true',
        List.contains_iff_mem] at hrow
      refine .inl ⟨t', ht', hrow.1.1, hrow.1.2, fun hf => hrow.2.resolve_left ?_⟩
      simp [hf]
    · exact .inr (by simpa using h)

theorem queue_inv {cfg : Config} {s : State} {sys : Task.State} {step : Task.Step}
    (hinv : Inv p s) (h : Task.next cfg s.sys step = some sys)
    (hcompletes : completes step = false)
    (hkeep : ∀ c ∈ s.reported, failsUnder p s step c = false) :
    Inv p { s with sys := sys } := by
  have hon : HandsOn p (fails s.sys step) s.sys.queue sys.queue := queue_handsOn h hcompletes
  refine ⟨hon.retries hinv.retries, hinv.known, hinv.created, hinv.agent, ?_⟩
  rcases hinv.safe with hcancelled | hsafe
  · exact .inl (hon.cancelled hcancelled)
  · by_cases hcancelled : Cancelled p sys.queue
    · exact .inl hcancelled
    · refine .inr fun c hc => ?_
      rcases hsafe c hc with ha | hheld
      · rcases survives_of_not_failsUnder (hkeep c hc) ha with hs | hheld
        · exact .inl ((hon.answered c hinv.retries hs).resolve_left hcancelled)
        · exact .inr hheld
      · exact .inr hheld

/-- A completion is the one row's own, or the run had ended before. -/
theorem completeTask_cases {now : Timestamp} {id : UUID} {sessionID workDir : Option String}
    {task : AgentTask} (h : completeTask now q id sessionID workDir = some (q', task)) :
    (∃ r ∈ q.rows, r.id = id ∧ r.status = .running ∧
        task = (completeAgentTask now id sessionID workDir).set r ∧
        q.update? (completeAgentTask now id sessionID workDir) = some q') ∨ q' = q := by
  unfold completeTask at h
  cases hone : updateOne q (completeAgentTask now id sessionID workDir) with
  | ok r =>
    simp only [hone, Option.some.injEq] at h
    rcases updateOne_ok (h ▸ hone) with ⟨t, ht, hsel, heq, hupd⟩
    simp only [completeAgentTask, Bool.and_eq_true, beq_iff_eq] at hsel
    exact .inl ⟨t, ht, hsel.1, hsel.2, heq, hupd⟩
  | error e =>
    cases e with
    | noRows =>
      simp only [hone, Option.map_eq_some_iff, Prod.mk.injEq] at h
      rcases h with ⟨t, -, hq, -⟩
      exact .inr hq.symm
    | uniqueViolation => simp [hone] at h

/-- A completed run answers for its receipt, and its reconciliation for the rest. -/
theorem completeTask_answered {now : Timestamp} {id : UUID} {sessionID workDir : Option String}
    {task : AgentTask} (h : completeTask now q id sessionID workDir = some (q', task)) :
    (RetriesFailed q → RetriesFailed q') ∧ (Cancelled p q → Cancelled p q') ∧
      (answered p q c = true → answered p q' c = true ∨
        (p.owns task = true ∧ (Call.reconcile task).holds c = true)) := by
  rcases completeTask_cases h with ⟨r, hr, hid, hrunning, htask, hupd⟩ | rfl
  · have hu : ∀ t ∈ q.rows,
        Carried true t ((completeAgentTask now id sessionID workDir).apply t) := by
      intro t ht
      let stmt : UpdateStmt := .completeAgentTask id sessionID workDir
      have hstmt : Carried stmt.completes t ((stmt.update now q).apply t) :=
        UpdateStmt.carried rfl ht
      exact hstmt
    refine ⟨fun hretries => hretries.update hu hupd, Cancelled.update hu hupd, fun ha => ?_⟩
    rcases answered_iff.1 ha with ⟨t, ht, hown, hanswers⟩
    have hmem := (Table.mem_update? hupd).2 ⟨t, ht, rfl⟩
    by_cases htid : t.id = id
    · -- the run that completes
      have htr : t = r := q.eq_of_key ht hr (htid.trans hid.symm)
      subst htr
      have happly : (completeAgentTask now id sessionID workDir).apply t = task := by
        rw [htask]
        exact Update.apply_of_sel (by simp [completeAgentTask, hid, hrunning])
      rw [happly] at hmem
      have hown' : p.owns task = true := happly ▸ owns_carried (hu t ht) hown
      have hcovers : covers task c = true := by
        rw [answers_of_live (by rw [hrunning]; rfl)] at hanswers
        exact happly ▸ covers_carried (hu t ht) hanswers
      by_cases hdelivered : c.id ∈ task.deliveredCommentIDs
      · refine .inl (answered_iff.2 ⟨task, hmem, hown', ?_⟩)
        have hcompleted : task.status = .completed := by rw [htask]; rfl
        simp [answers, hcompleted, hdelivered]
      · exact .inr ⟨hown', by simp [Call.holds, hcovers, hdelivered]⟩
    · have happly : (completeAgentTask now id sessionID workDir).apply t = t :=
        Update.apply_of_not_sel (by simp [completeAgentTask, htid])
      rw [happly] at hmem
      refine .inl (answered_iff.2 ⟨t, hmem, hown, ?_⟩)
      simpa only [answers, retried_update hu hupd] using hanswers
  · exact ⟨fun h => h, fun h => h, .inl⟩

theorem completeTask_inv {s : State} {id : UUID} {sessionID workDir : Option String}
    {r : TaskTable × AgentTask} (hinv : Inv p s)
    (h : completeTask s.sys.now s.sys.queue id sessionID workDir = some r) :
    Inv p { s with
      sys := { s.sys with queue := r.1 }
      calls := if p.owns r.2 then s.calls ++ [.reconcile r.2] else s.calls } := by
  rcases r with ⟨q', task⟩
  have hcalls : ∀ x, x ∈ (if p.owns task then s.calls ++ [.reconcile task] else s.calls) ↔
      x ∈ s.calls ∨ (p.owns task = true ∧ x = .reconcile task) := by
    intro x
    split
    · simp [*]
    · simp [*]
  have hall := fun c => completeTask_answered (c := c) (p := p) h
  refine ⟨(hall ⟨0, 0, .member, .mentionAgent⟩).1 hinv.retries, hinv.known, ?_, ?_, ?_⟩
  · intro c point hc
    rcases (hcalls _).1 hc with hc | ⟨-, hc⟩
    · exact hinv.created c point hc
    · simp at hc
  · intro x hx c point hcur
    rcases (hcalls _).1 hx with hx | ⟨-, rfl⟩
    · exact hinv.agent x hx c point hcur
    · simp [Call.current] at hcur
  · rcases hinv.safe with hcancelled | hsafe
    · exact .inl ((hall ⟨0, 0, .member, .mentionAgent⟩).2.1 hcancelled)
    · refine .inr fun c hc => ?_
      rcases hsafe c hc with ha | ⟨x, hx, hholds⟩
      · rcases (hall c).2.2 ha with ha | ⟨hown, hholds⟩
        · exact .inl ha
        · exact .inr ⟨_, (hcalls _).2 (.inr ⟨hown, rfl⟩), hholds⟩
      · exact .inr ⟨x, (hcalls _).2 (.inl hx), hholds⟩

theorem list_inv {s : State} {i : Nat} {task : AgentTask} (hinv : Inv p s)
    (hcall : s.calls[i]? = some (.reconcile task)) :
    Inv p { s with calls := replaceAt s.calls i (replayOf (commentsToReplay s.comments task)) } := by
  have hreplay : ∀ x, replayOf (commentsToReplay s.comments task) = some x →
      ∃ c rest, x = .replay c rest .resolve := by
    intro x hx
    cases hlist : commentsToReplay s.comments task with
    | nil => simp [hlist, replayOf] at hx
    | cons c rest => exact ⟨c, rest, by simpa [hlist, replayOf] using hx.symm⟩
  refine ⟨hinv.retries, hinv.known, ?_, ?_, ?_⟩
  · intro c point hc
    rcases mem_of_mem_replaceAt hc with hc | hc
    · exact hinv.created c point hc
    · rcases hreplay _ hc with ⟨c', rest, hnew⟩
      simp at hnew
  · intro x hx c point hcur
    rcases mem_of_mem_replaceAt hx with hx | hx
    · exact hinv.agent x hx c point hcur
    · rcases hreplay _ hx with ⟨c', rest, rfl⟩
      obtain ⟨-, rfl⟩ : c' = c ∧ Point.resolve = point := by simpa [Call.current] using hcur
      trivial
  · rcases hinv.safe with hcancelled | hsafe
    · exact .inl hcancelled
    · refine .inr fun c hc => ?_
      rcases hsafe c hc with ha | hheld
      · exact .inl ha
      · rcases hinv.known c hc with ⟨hmem, hearns⟩
        exact .inr (held_replaceAt hcall hheld
          fun hholds => replayOf_holds (mem_commentsToReplay hmem hearns hholds))

/-- A statement that ends a handling without a batch leaves somebody who answers for the
comment, if the step abandons nobody. -/
theorem kept_of_leavesOut {s : State} {i : Nat} {call : Call} {point : Point} {a : Act}
    {status : DispatchStatus} (hcall : s.calls[i]? = some call)
    (hcur : call.current = some (c, point)) (hleaves : leavesOut p s c a point = some status)
    (hkeep : (s.calls[i]?.any fun call => call.current.any fun (c, point) =>
      (leavesOut p s c a point).any fun status =>
        (s.reported ++ call.report status).contains c && !s.answeredWithout p i c) = false) :
    (Progress.done status).Kept p s i call c s.sys.queue := by
  intro hc
  right
  have hmem : c ∈ s.reported ++ call.report status := List.mem_append.2 hc
  simp only [hcall, hcur, hleaves, Option.any_some, List.contains_iff_mem.2 hmem,
    Bool.true_and, Bool.not_eq_false', State.answeredWithout, Bool.or_eq_true] at hkeep
  rcases hkeep with ha | hheld
  · exact .inl ha
  · exact .inr (by simpa using hheld)

/-- A step that abandons nobody keeps the invariant. -/
theorem inv_step {cfg : Config} {s s' : State} {a : Act} (hinv : Inv p s)
    (h : next cfg p s a = some s') (hkeep : abandons p s a = false) : Inv p s' := by
  cases a with
  | queue step =>
    simp only [next, Option.ite_none_left_eq_some, Bool.not_eq_true, Option.map_eq_some_iff] at h
    rcases h with ⟨hcompletes, sys, hnext, rfl⟩
    refine queue_inv hinv hnext hcompletes ?_
    simpa [abandons] using hkeep
  | comment id authorType source =>
    simp only [next, Option.ite_none_left_eq_some, Option.some.injEq] at h
    rcases h with ⟨-, rfl⟩
    refine ⟨hinv.retries, ?_, ?_, ?_, ?_⟩
    · intro c hc
      exact ⟨List.mem_append_left _ (hinv.known c hc).1, (hinv.known c hc).2⟩
    · intro c point hc
      rcases List.mem_append.1 hc with hc | hc
      · exact List.mem_append_left _ (hinv.created c point hc)
      · obtain ⟨rfl, -⟩ : c = ⟨id, s.sys.now, authorType, source⟩ ∧ point = .resolve := by
          simpa using hc
        simp
    · intro x hx c point hcur
      rcases List.mem_append.1 hx with hx | hx
      · exact hinv.agent x hx c point hcur
      · rcases List.mem_singleton.1 hx with rfl
        obtain ⟨-, rfl⟩ : _ = c ∧ Point.resolve = point := by simpa [Call.current] using hcur
        trivial
    · refine hinv.safe.imp_right fun hsafe c hc => (hsafe c hc).imp_right ?_
      rintro ⟨x, hx, hholds⟩
      exact ⟨x, List.mem_append_left _ hx, hholds⟩
  | completeTask id sessionID workDir =>
    simp only [next, Option.map_eq_some_iff] at h
    rcases h with ⟨r, hr, rfl⟩
    exact completeTask_inv hinv hr
  | list i =>
    simp only [next] at h
    split at h
    · rename_i task hcall
      rcases Option.some.inj h with rfl
      exact list_inv hinv hcall
    · simp at h
  | resolve i env trigger =>
    refine advance_inv hinv h ?_
    intro call c point q progress hcall hcur hpoint hstep
    cases point with
    | resolve =>
      simp only [Delivery.resolve, Option.ite_none_right_eq_some, Option.some.injEq,
        Prod.mk.injEq] at hstep
      rcases hstep with ⟨⟨-, hagent, -⟩, rfl, rfl⟩
      refine ⟨.refl p _, ?_⟩
      split
      · exact hagent
      · exact hagent
    | _ => simp [Delivery.resolve] at hstep
  | merge i env =>
    refine advance_inv hinv h ?_
    intro call c point q progress hcall hcur hpoint hstep
    cases point with
    | merge trigger =>
      simp only [Delivery.merge, Option.ite_none_right_eq_some] at hstep
      rcases hstep with ⟨hissue, hstep⟩
      have hagent : trigger.agentID = p.agentID := hpoint
      rcases mergeCommentIntoPendingTask_cases env s.sys.queue trigger c.id with
        ⟨hattr, hmerge⟩ | hmerge | ⟨attr, target, q', htarget, hupd, hmerge⟩
      · -- attribution refuses the merge
        simp only [hmerge, Option.some.injEq, Prod.mk.injEq] at hstep
        rcases hstep with ⟨rfl, rfl⟩
        exact ⟨.refl p _, kept_of_leavesOut hcall hcur (by simp [leavesOut, hattr]) hkeep⟩
      · simp only [hmerge, Option.some.injEq, Prod.mk.injEq] at hstep
        rcases hstep with ⟨rfl, rfl⟩
        exact ⟨.refl p _, hagent⟩
      · simp only [hmerge, Option.some.injEq, Prod.mk.injEq] at hstep
        rcases hstep with ⟨rfl, rfl⟩
        rw [hissue, hagent] at htarget
        rcases merge_handsOn htarget hupd with ⟨hon, hanswered⟩
        exact ⟨hon, fun _ => .inr (.inl (hanswered c rfl))⟩
    | _ => simp [Delivery.merge] at hstep
  | check i =>
    have hadvance : s.advance i (fun _ => Delivery.check p s.sys.queue) = some s' := h
    refine advance_inv hinv hadvance ?_
    intro call c point q progress hcall hcur hpoint hstep
    cases point with
    | check trigger =>
      simp only [Delivery.check] at hstep
      split at hstep
      · rename_i hactive
        simp only [Option.some.injEq, Prod.mk.injEq] at hstep
        rcases hstep with ⟨rfl, rfl⟩
        exact ⟨.refl p _, kept_of_leavesOut hcall hcur (by simp [leavesOut, hactive]) hkeep⟩
      · simp only [Option.some.injEq, Prod.mk.injEq] at hstep
        rcases hstep with ⟨rfl, rfl⟩
        exact ⟨.refl p _, hpoint⟩
    | _ => simp [Delivery.check] at hstep
  | enqueue i env =>
    refine advance_inv hinv h ?_
    intro call c point q progress hcall hcur hpoint hstep
    cases point with
    | enqueue trigger =>
      simp only [Delivery.enqueue, Option.ite_none_right_eq_some, Option.some.injEq,
        Prod.mk.injEq] at hstep
      rcases hstep with ⟨⟨hissue, hassignee⟩, rfl, rfl⟩
      have hagent : trigger.agentID = p.agentID := hpoint
      unfold enqueueFresh
      cases hsingle : enqueueSingleCommentTrigger env s.sys.now s.sys.queue c.id trigger with
      | error e =>
        exact ⟨.refl p _, kept_of_leavesOut hcall hcur (by simp [leavesOut, hsingle]) hkeep⟩
      | ok q' =>
        have henqueued := enqueueSingle_ok hassignee hsingle
        rw [hagent] at henqueued
        rcases enqueued_handsOn hissue hinv.retries henqueued with ⟨hon, hcap | hdone⟩
        · -- at the cap the comment is where it was
          have hleaves : leavesOut p s c (.enqueue i env) (.enqueue trigger) = some .queued := by
            simp [leavesOut, hsingle, hcap]
          have hkept := kept_of_leavesOut hcall hcur hleaves hkeep
          refine ⟨hon, fun hc => ?_⟩
          rcases hkept hc with hcancelled | ha | hheld
          · exact .inl (hon.cancelled hcancelled)
          · exact (hon.answered c hinv.retries (survives_nobody ha)).imp_right .inl
          · exact .inr (.inr hheld)
        · exact ⟨hon, fun _ => hdone.imp_right .inl⟩
    | _ => simp [Delivery.enqueue] at hstep

/-! ## Runs -/

theorem inv_init {s : State} {cfg : Config} (h : (machine cfg p).Init s) : Inv p s := by
  rcases h with ⟨⟨hqueue, -⟩, hcomments, hcalls, hreported⟩
  refine ⟨?_, ?_, ?_, ?_, ?_⟩
  · intro t ht
    simp [hqueue] at ht
  · simp [hreported]
  · simp [hcalls]
  · simp [hcalls]
  · simp [hreported]

/-- In a quiet state only receipts and failed batches can answer for a comment. -/
theorem Inv.delivered_or_failed {s : State} (hinv : Inv p s) : AtLeastOnce p s := by
  intro hquiet c hc
  simp only [State.quiet, Bool.and_eq_true, List.all_eq_true, Bool.not_eq_true',
    Bool.and_eq_false_iff, Bool.or_eq_false_iff, beq_eq_false_iff_ne] at hquiet
  rcases hquiet with ⟨hrows, hcalls⟩
  rcases hinv.safe with ⟨t, ht, hown, hcancelled⟩ | hsafe
  · rcases hrows t ht with h | ⟨-, h⟩
    · simp [hown] at h
    · exact absurd hcancelled h
  · rcases hsafe c hc with ha | ⟨call, hcall, hholds⟩
    · rcases answered_iff.1 ha with ⟨t, ht, hown, hanswers⟩
      have hlive : t.status.live = false := by
        rcases hrows t ht with h | ⟨h, -⟩
        · simp [hown] at h
        · exact h
      cases hstatus : t.status with
      | completed =>
        refine .inl (List.any_eq_true.2 ⟨t, ht, ?_⟩)
        simpa [answers, hstatus, hown] using hanswers
      | failed =>
        simp only [answers, hstatus, Bool.and_eq_true] at hanswers
        refine .inr (List.any_eq_true.2 ⟨t, ht, ?_⟩)
        have hplan : c.id ∈ t.plan := List.contains_iff_mem.1 hanswers.1
        simp [hown, hstatus, hplan, hanswers.2]
      | cancelled | deferred => simp [answers, hstatus] at hanswers
      | _ => simp [hstatus, TaskStatus.live, TaskStatus.active] at hlive
    · have hreconciling := hcalls call hcall
      cases call <;> simp [Call.holds, Call.reconciling] at hholds hreconciling

/-- In a run whose steps abandon nobody, every reported comment is delivered, or is in the
batch of a run that failed for good. -/
theorem atLeastOnce (cfg : Config) (p : Pair) (s : State)
    (hs : (machine cfg p).ReachableUnder (fun s a => (!abandons p s a) = true) s) :
    AtLeastOnce p s := by
  refine Inv.delivered_or_failed (Machine.invariant_under (fun _ h => inv_init h) ?_ s hs)
  intro s a s' _ hinv hkeep hnext
  exact inv_step hinv hnext (by simpa using hkeep)

/-- Issue 10 and agent 7. -/
def reviewPair : Pair := ⟨10, 7⟩

/-- A member mentions the agent in comment `c`, and the dedup query runs. -/
def mentioned (c : UUID) : List Act :=
  [.comment c .member .mentionAgent, .resolve 0 (mentionEnv "" none) mentionTrigger]

/-- Task `id` is claimed at `now` for comment `c`. -/
def claimed (now : Timestamp) (id c : UUID) : List Act :=
  [.queue (.lockAgent 7), .queue (.countRunningTasks 7), .queue (.claimAgentTask 7 [] id),
    .queue (.update (.setTaskDeliveredCommentIDs id 3 now (some c) [c]))]

/-- Comment 51 is deferred to task 1, which has been dispatched for comment 50. -/
def deferredRun : List Act :=
  mentioned 50 ++ [.enqueue 0 (mentionEnv "" none)] ++ claimed 0 1 50 ++ [.queue (.tick 1)] ++
    mentioned 51 ++ [.merge 0 (mentionEnv "" none), .check 0, .queue (.tick 2)]

/-- Task `id` runs and completes, and its reconciliation lists the comments. -/
def completed (id : UUID) : List Act :=
  [.queue (.update (.startAgentTask id)), .completeTask id none none, .list 0]

/-- Task 1 completes, the comment is replayed into task 2, and task 2 completes. -/
theorem atLeastOnce_deferredRun :
    ∃ s : State, s.quiet reviewPair = true ∧ (s.reported.map fun c => c.id) = [50, 51] ∧
      ∀ c ∈ s.reported, delivered reviewPair s.sys.queue c = true ∨
        failedWith reviewPair s.sys.queue c = true := by
  obtain ⟨s, hs, hp⟩ :=
    Machine.reachableUnder_of_run (machine ⟨fun _ => 1, id⟩ reviewPair)
      (fun s a => !abandons reviewPair s a) (init_empty _ _)
      (deferredRun ++ completed 1 ++
        [.resolve 0 (mentionEnv "" none) mentionTrigger, .enqueue 0 (mentionEnv "" none)] ++
        claimed 2 2 51 ++ completed 2)
      (fun s => s.quiet reviewPair && (s.reported.map fun c => c.id) == [50, 51]) (by decide)
  simp only [Bool.and_eq_true, beq_iff_eq] at hp
  exact ⟨s, hp.1, hp.2, atLeastOnce _ reviewPair s hs hp.1⟩

/-- Task 1 fails and is retried by task 2, created after comment 51 with the batch of
task 1. Task 2 completes, and comment 51 is in no receipt and no batch. -/
theorem deferred_comment_lost :
    ¬ ∀ (cfg : Config) (p : Pair) (s : State), (machine cfg p).Reachable s →
      AtLeastOnce p s := by
  intro hclaim
  obtain ⟨s, -, hreach, hp⟩ :=
    Machine.reachable_of_run (machine ⟨fun _ => 1, id⟩ reviewPair) (init_empty _ _)
      (deferredRun ++
        [.queue (.failTask { taskID := 1, failureReason := "timeout", childID := 2 })] ++
        claimed 2 2 50 ++ completed 2)
      (fun s => s.quiet reviewPair && s.reported.any fun c =>
        !delivered reviewPair s.sys.queue c && !failedWith reviewPair s.sys.queue c) (by decide)
  simp only [Bool.and_eq_true, List.any_eq_true, Bool.not_eq_true'] at hp
  rcases hp with ⟨hquiet, c, hc, hdelivered, hfailed⟩
  rcases hclaim _ reviewPair s hreach hquiet c hc with h | h
  · rw [hdelivered] at h
    contradiction
  · rw [hfailed] at h
    contradiction

end Orynx.Routing.Delivery
