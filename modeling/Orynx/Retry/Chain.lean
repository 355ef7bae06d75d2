import Orynx.Chat.Tokens

/-! # Chains of system retries

A failed run is retried from two places: `FailTask` inserts the clone in the transaction
that fails the run, and `HandleFailedTasks` inserts it some time after one of the bulk
statements has failed the run. A failed row has one slot for a clone. The clone takes it,
or the row's copy among those that `HandleFailedTasks` has yet to reach does; a call of
`FailTask` without a retry leaves it empty for good.

* `Follows` is what a clone has in common with the run it retries;
* `Kept` is what every party leaves alone on a row;
* `retry_chains_bounded`: the chains are bounded and do not branch.
-/

namespace Orynx.Retry

open Lib Orynx.Task Orynx.Chat

/-! ## The machine -/

/-- `swept` are the rows that bulk statements returned and `HandleFailedTasks` has yet to
reach. A sweeper that dies leaves its rows there. -/
structure State where
  sys : Task.State
  swept : List AgentTask

inductive Act where
  | queue (step : Task.Step)
  | sendDirectChat (id : UUID) (p : CreateChatTaskParams)
  | sweep (stmt : UpdateStmt)
  | handleFailed (i : Nat) (childID : UUID)

/-- The updates of the parties that do not sweep. An issue is linked to a quick-create
task, the input owner is set where the chat task is created, and a comment that is folded
into a retry clone before its claim gives it a batch of its own. -/
def writes (q : TaskTable) : UpdateStmt → Bool
  | .recoverOrphanedTasksForRuntime _ | .failStaleTasks _ _ _ |
    .failTasksForOfflineRuntimes _ | .expireStaleQueuedTasks _ _ _ _ |
    .setChatTaskInputOwnerSelf _ => false
  | .linkTaskToIssue id _ => q.rows.all fun t => t.id != id || t.quickCreateShaped
  | .mergeCommentIntoPendingTask issueID agentID _ _ =>
    (mergeTarget q issueID agentID).all fun t => t.retryOfTaskID.isNone
  | _ => true

/-- The steps of the queue: a sweeper's clone is a step of `HandleFailedTasks`. -/
def steps (s : Task.State) : Task.Step → Bool
  | .insert (.createRetryTask _ _) => false
  | .update stmt => writes s.queue stmt
  | _ => true

def next (cfg : Task.Config) (s : State) : Act → Option State
  | .queue step =>
    if steps s.sys step then (Task.next cfg s.sys step).map fun sys => { s with sys := sys }
    else none
  | .sendDirectChat id p =>
    (createDirectChatTask s.sys.now s.sys.queue id p).map fun q =>
      { s with sys := { s.sys with queue := q } }
  | .sweep stmt =>
    if sweeps stmt && stmt.admits s.sys.now s.sys.queue then
      let u := stmt.update s.sys.now s.sys.queue
      (s.sys.queue.update? u).map fun q =>
        { sys := { s.sys with queue := q }
          swept := s.swept ++ (s.sys.queue.rows.filter u.sel).map u.set }
    else none
  | .handleFailed i childID =>
    (s.swept[i]?).map fun parent =>
      { sys :=
          match maybeRetryFailedTask s.sys.now s.sys.queue parent childID with
          | some q => { s.sys with queue := q }
          | none => s.sys
        swept := s.swept.eraseIdx i }

def machine (cfg : Task.Config) : Machine State Act where
  Init s := (Task.machine cfg).Init s.sys ∧ s.swept = []
  next := next cfg

def State.empty : State := ⟨Task.State.empty, []⟩

theorem init_empty (cfg : Task.Config) : (machine cfg).Init State.empty :=
  ⟨Task.init_empty cfg, rfl⟩

/-! ## The property -/

/-- `c` is a clone of the failed run `p`. -/
structure Follows (p c : AgentTask) : Prop where
  retryOf : c.retryOfTaskID = some p.id
  failed : p.status = .failed
  retryable : ∃ reason ∈ retryableReasons, p.failureReason = some reason
  attempt : c.attempt = p.attempt + 1
  budget : c.attempt ≤ c.maxAttempts
  maxAttempts : c.maxAttempts = p.maxAttempts
  agentID : c.agentID = p.agentID
  issueID : c.issueID = p.issueID
  chatSessionID : c.chatSessionID = p.chatSessionID
  linked : c.issueID ≠ none ∨ c.chatSessionID ≠ none
  triggerCommentID : c.triggerCommentID = p.triggerCommentID
  coalescedCommentIDs : c.coalescedCommentIDs = p.coalescedCommentIDs
  attribution : c.attribution = p.attribution
  chatInputTaskID : c.chatInputTaskID = p.chatInputTaskID
  autopilotRunID : p.autopilotRunID = none ∧ c.autopilotRunID = none

/-- Rows of the table, each the retry of the one before. -/
def IsRetryChain (q : TaskTable) (chain : List AgentTask) : Prop :=
  (∀ t ∈ chain, t ∈ q.rows) ∧ chain.IsChain fun p c => c.retryOfTaskID = some p.id

/-- Retries form chains that do not branch, are no longer than their budget and consume
one chat input. -/
structure RetriesBounded (q : TaskTable) : Prop where
  unbranched : ∀ id, retries q id ≤ 1
  follows : ∀ c ∈ q.rows, ∀ id, c.retryOfTaskID = some id → ∃ p ∈ q.rows, p.id = id ∧ Follows p c
  bounded : ∀ chain, IsRetryChain q chain → ∀ t ∈ chain, (chain.length : Int) ≤ t.maxAttempts
  sameInput : ∀ chain, IsRetryChain q chain → ∀ t ∈ chain, ∀ t' ∈ chain,
    t'.chatInputTaskID = t.chatInputTaskID

/-! ## What the parties leave alone -/

/-- Only a quick-create task gets an issue, and only a queued run that is no retry gets
another batch. -/
structure Kept (r r' : AgentTask) : Prop where
  id : r'.id = r.id
  agentID : r'.agentID = r.agentID
  chatSessionID : r'.chatSessionID = r.chatSessionID
  autopilotRunID : r'.autopilotRunID = r.autopilotRunID
  attempt : r'.attempt = r.attempt
  maxAttempts : r'.maxAttempts = r.maxAttempts
  retryOf : r'.retryOfTaskID = r.retryOfTaskID
  chatInputTaskID : r'.chatInputTaskID = r.chatInputTaskID
  issueID : r'.issueID = r.issueID ∨ r.quickCreateShaped = true
  batch : (r'.triggerCommentID = r.triggerCommentID ∧
    r'.coalescedCommentIDs = r.coalescedCommentIDs ∧ r'.attribution = r.attribution) ∨
      (r.status ≠ .failed ∧ r.retryOfTaskID = none)
  failed : r.status = .failed →
    r'.status = .failed ∧ r'.failureReason = r.failureReason ∧ r'.issueID = r.issueID

theorem Kept.refl (r : AgentTask) : Kept r r :=
  ⟨rfl, rfl, rfl, rfl, rfl, rfl, rfl, rfl, .inl rfl, .inl ⟨rfl, rfl, rfl⟩,
    fun h => ⟨h, rfl, rfl⟩⟩

/-- The columns that `Task.RowStep` does not speak of. -/
structure SameColumns (r r' : AgentTask) : Prop where
  retryOf : r'.retryOfTaskID = r.retryOfTaskID
  chatInputTaskID : r'.chatInputTaskID = r.chatInputTaskID
  triggerCommentID : r'.triggerCommentID = r.triggerCommentID
  coalescedCommentIDs : r'.coalescedCommentIDs = r.coalescedCommentIDs
  attribution : r'.attribution = r.attribution
  issueID : r'.issueID = r.issueID
  failureReason : r'.failureReason = r.failureReason ∨ r.status.terminal = false

theorem SameColumns.apply {u : Update AgentTask} {r : AgentTask}
    (h : u.sel r = true → SameColumns r (u.set r)) : SameColumns r (u.apply r) := by
  cases hsel : u.sel r with
  | true =>
    rw [Update.apply_of_sel hsel]
    exact h hsel
  | false =>
    rw [Update.apply_of_not_sel hsel]
    exact ⟨rfl, rfl, rfl, rfl, rfl, rfl, .inl rfl⟩

theorem Kept.of_rowStep {b : Bool} {r r' : AgentTask} (h : RowStep b r r')
    (hc : SameColumns r r') : Kept r r' := by
  refine ⟨h.id, h.agentID, h.chatSessionID, h.autopilotRunID, h.attempt, h.maxAttempts,
    hc.retryOf, hc.chatInputTaskID, .inl hc.issueID,
    .inl ⟨hc.triggerCommentID, hc.coalescedCommentIDs, hc.attribution⟩, fun hf => ?_⟩
  have hterminal : r.status.terminal = true := by
    rw [hf]
    rfl
  have hreason : r'.failureReason = r.failureReason := by
    rcases hc.failureReason with hr | hlive
    · exact hr
    · simp [hterminal] at hlive
  exact ⟨(h.move.terminal hterminal).trans hf, hreason, hc.issueID⟩

theorem kept_sweep {stmt : UpdateStmt} (hsweeps : sweeps stmt = true) {now : Timestamp}
    {q : TaskTable} (hadm : stmt.admits now q = true) {r : AgentTask} (hr : r ∈ q.rows) :
    Kept r ((stmt.update now q).apply r) := by
  refine .of_rowStep (UpdateStmt.rowStep hadm hr) (.apply fun hsel => ?_)
  have hlive := (sweeps_sel hsweeps hsel).1
  cases stmt with
  | recoverOrphanedTasksForRuntime | failStaleTasks | failTasksForOfflineRuntimes |
    expireStaleQueuedTasks => exact ⟨rfl, rfl, rfl, rfl, rfl, rfl, .inr hlive⟩
  | _ => simp [sweeps] at hsweeps

/-- The agent links the issue that its quick-create task has made. -/
theorem kept_linkTaskToIssue {q : TaskTable} {id issueID : UUID}
    (hadm : ∀ r ∈ q.rows, r.id = id → r.status = .completed)
    (hquick : ∀ r ∈ q.rows, r.id = id → r.quickCreateShaped = true) {r : AgentTask}
    (hr : r ∈ q.rows) : Kept r ((linkTaskToIssue id issueID).apply r) := by
  by_cases hsel : (linkTaskToIssue id issueID).sel r = true
  · have hid : r.id = id := by
      simp only [linkTaskToIssue, Bool.and_eq_true, beq_iff_eq] at hsel
      exact hsel.1
    rw [Update.apply_of_sel hsel]
    refine ⟨rfl, rfl, rfl, rfl, rfl, rfl, rfl, rfl, .inr (hquick r hr hid), .inl ⟨rfl, rfl, rfl⟩,
      fun hfailed => ?_⟩
    rw [hadm r hr hid] at hfailed
    exact absurd hfailed (by decide)
  · rw [Update.apply_of_not_sel (by simpa using hsel)]
    exact .refl r

/-- A comment joins the batch of a queued run that is no retry. -/
theorem kept_mergeComment {q : TaskTable} {t : AgentTask} (ht : t ∈ q.rows)
    (hqueued : t.status = .queued) (hroot : t.retryOfTaskID = none) {commentID : UUID}
    {attribution : AttributionColumns} {r : AgentTask} (hr : r ∈ q.rows) :
    Kept r ((mergeCommentIntoPendingTask t.id commentID attribution).apply r) := by
  by_cases hsel : (mergeCommentIntoPendingTask t.id commentID attribution).sel r = true
  · have hrt : r = t := q.eq_of_key hr ht (by simpa [mergeCommentIntoPendingTask] using hsel)
    subst hrt
    rw [Update.apply_of_sel hsel]
    exact ⟨rfl, rfl, rfl, rfl, rfl, rfl, rfl, rfl, .inl rfl, .inr ⟨by simp [hqueued], hroot⟩,
      fun h => ⟨h, rfl, rfl⟩⟩
  · rw [Update.apply_of_not_sel (by simpa using hsel)]
    exact .refl r

theorem kept_update {now : Timestamp} {q : TaskTable} {stmt : UpdateStmt}
    (hadm : stmt.admits now q = true) (hwrites : writes q stmt = true) {r : AgentTask}
    (hr : r ∈ q.rows) : Kept r ((stmt.update now q).apply r) := by
  have hstep := UpdateStmt.rowStep hadm hr
  cases stmt with
  | recoverOrphanedTasksForRuntime | failStaleTasks | failTasksForOfflineRuntimes |
    expireStaleQueuedTasks | setChatTaskInputOwnerSelf => simp [writes] at hwrites
  | linkTaskToIssue id issueID =>
    simp only [UpdateStmt.admits, List.all_eq_true, Bool.or_eq_true, bne_iff_ne,
      beq_iff_eq] at hadm
    simp only [writes, List.all_eq_true, Bool.or_eq_true, bne_iff_ne] at hwrites
    exact kept_linkTaskToIssue (fun x hx hid => (hadm x hx).resolve_left fun h => h hid)
      (fun x hx hid => (hwrites x hx).resolve_left fun h => h hid) hr
  | mergeCommentIntoPendingTask issueID agentID commentID attribution =>
    simp only [UpdateStmt.update]
    cases htarget : mergeTarget q issueID agentID with
    | none => exact .refl r
    | some t =>
      rcases mergeTarget_eq_some htarget with ⟨ht, -, -, hqueued⟩
      exact kept_mergeComment ht hqueued (by simpa [writes, htarget] using hwrites) hr
  -- the other statements leave the columns alone that a retry inherits
  | _ => exact .of_rowStep hstep (.apply fun _ => ⟨rfl, rfl, rfl, rfl, rfl, rfl, .inl rfl⟩)

theorem kept_fail (c : FailTaskCall) (classify : String → String) (now : Timestamp)
    (r : AgentTask) : Kept r ((c.update classify now).apply r) := by
  refine .of_rowStep (c.update_rowStep (b := false) classify now r) (.apply fun hsel => ?_)
  have hactive := (FailTaskCall.sel_iff.1 hsel).2
  refine ⟨rfl, rfl, rfl, rfl, rfl, rfl, .inr ?_⟩
  rcases TaskStatus.active_cases.1 hactive with h | h | h <;> rw [h] <;> rfl

theorem kept_claim {now : Timestamp} {secs : Nat} {q : TaskTable} {pick : UUID} {t : AgentTask}
    (ht : t ∈ q.rows) (hid : t.id = pick) (hqueued : t.status = .queued) {r : AgentTask}
    (hr : r ∈ q.rows) : Kept r ((claimAgentTask now secs pick).apply r) := by
  by_cases hpick : r.id = pick
  · have hrt : r = t := q.eq_of_key hr ht (hpick.trans hid.symm)
    rw [Update.apply_of_sel (by simpa [claimAgentTask] using hpick)]
    refine ⟨rfl, rfl, rfl, rfl, rfl, rfl, rfl, rfl, .inl rfl, .inl ⟨rfl, rfl, rfl⟩, fun h => ?_⟩
    rw [hrt, hqueued] at h
    exact absurd h (by decide)
  · rw [claimAgentTask_other hpick]
    exact .refl r

/-- A run with an issue or a chat session keeps its issue. -/
theorem Kept.issueID_eq {r r' : AgentTask} (h : Kept r r')
    (hlinked : r.issueID ≠ none ∨ r.chatSessionID ≠ none) : r'.issueID = r.issueID := by
  rcases h.issueID with hi | hquick
  · exact hi
  · simp only [AgentTask.quickCreateShaped, Bool.and_eq_true, Option.isNone_iff_eq_none] at hquick
    rcases hlinked with hi | hc
    · exact absurd hquick.1.1 hi
    · exact absurd hquick.1.2 hc

theorem Follows.kept {p p' c c' : AgentTask} (h : Follows p c) (hp : Kept p p')
    (hc : Kept c c') : Follows p' c' := by
  rcases hp.failed h.failed with ⟨hfailed, hreason, -⟩
  have hcissue : c'.issueID = c.issueID := hc.issueID_eq h.linked
  have hpissue : p'.issueID = p.issueID := hp.issueID_eq (by
    rw [← h.issueID, ← h.chatSessionID]
    exact h.linked)
  obtain ⟨hctrigger, hccoalesced, hcattribution⟩ :=
    hc.batch.resolve_right fun hroot => by simpa [hroot.2] using h.retryOf
  obtain ⟨hptrigger, hpcoalesced, hpattribution⟩ :=
    hp.batch.resolve_right fun hroot => hroot.1 h.failed
  exact {
    retryOf := by rw [hc.retryOf, hp.id, h.retryOf]
    failed := hfailed
    retryable := by rw [hreason]; exact h.retryable
    attempt := by rw [hc.attempt, hp.attempt, h.attempt]
    budget := by rw [hc.attempt, hc.maxAttempts]; exact h.budget
    maxAttempts := by rw [hc.maxAttempts, hp.maxAttempts, h.maxAttempts]
    agentID := by rw [hc.agentID, hp.agentID, h.agentID]
    issueID := by rw [hcissue, hpissue, h.issueID]
    chatSessionID := by rw [hc.chatSessionID, hp.chatSessionID, h.chatSessionID]
    linked := by rw [hcissue, hc.chatSessionID]; exact h.linked
    triggerCommentID := by rw [hctrigger, hptrigger, h.triggerCommentID]
    coalescedCommentIDs := by rw [hccoalesced, hpcoalesced, h.coalescedCommentIDs]
    attribution := by rw [hcattribution, hpattribution, h.attribution]
    chatInputTaskID := by rw [hc.chatInputTaskID, hp.chatInputTaskID, h.chatInputTaskID]
    autopilotRunID := by rw [hc.autopilotRunID, hp.autopilotRunID]; exact h.autopilotRunID }

/-! ## Slots -/

/-- The copies of the row that `HandleFailedTasks` has yet to reach. -/
def State.pending (s : State) (id : UUID) : Nat := s.swept.countP fun t => t.id == id

/-- One for a failed row, zero for any other key. -/
def failures (q : TaskTable) (id : UUID) : Nat :=
  q.rows.countP fun t => t.status == .failed && t.id == id

/-- The sweeper's copy agrees with the row on what decides about a retry. -/
structure Copies (p t : AgentTask) : Prop where
  id : t.id = p.id
  status : p.status = .failed ∧ t.status = .failed
  failureReason : t.failureReason = p.failureReason
  attempt : t.attempt = p.attempt
  maxAttempts : t.maxAttempts = p.maxAttempts
  autopilotRunID : t.autopilotRunID = p.autopilotRunID
  issueID : t.issueID = p.issueID
  chatSessionID : t.chatSessionID = p.chatSessionID

/-- Clones and sweepers' copies share the one slot of a failed row. -/
structure Inv (s : State) : Prop where
  budget : ∀ t ∈ s.sys.queue.rows, 1 ≤ t.attempt ∧ t.attempt ≤ t.maxAttempts
  follows : ∀ c ∈ s.sys.queue.rows, ∀ id, c.retryOfTaskID = some id →
    ∃ p ∈ s.sys.queue.rows, p.id = id ∧ Follows p c
  slots : ∀ id, retries s.sys.queue id + s.pending id ≤ failures s.sys.queue id
  copies : ∀ p ∈ s.swept, ∃ t ∈ s.sys.queue.rows, Copies p t

theorem failures_at {q : TaskTable} {t : AgentTask} (ht : t ∈ q.rows) :
    failures q t.id = if t.status = .failed then 1 else 0 := by
  rw [failures, countP_at q ht fun t => t.status == .failed]
  simp

theorem failures_le (q : TaskTable) (id : UUID) : failures q id ≤ 1 := by
  by_cases hid : ∃ t ∈ q.rows, t.id = id
  · rcases hid with ⟨t, ht, rfl⟩
    rw [failures_at ht]
    split <;> omega
  · have hzero : failures q id = 0 := by
      rw [failures, List.countP_eq_zero]
      intro t ht
      have hne : t.id ≠ id := fun h => hid ⟨t, ht, h⟩
      simp [hne]
    omega

/-- Along a chain each run has one attempt more than the one before, within one budget. -/
theorem chain_bound {q : TaskTable} (hbudget : ∀ t ∈ q.rows, 1 ≤ t.attempt ∧ t.attempt ≤ t.maxAttempts)
    (hfollows : ∀ c ∈ q.rows, ∀ id, c.retryOfTaskID = some id →
      ∃ p ∈ q.rows, p.id = id ∧ Follows p c)
    (t : AgentTask) (chain : List AgentTask) (h : IsRetryChain q (t :: chain)) :
    t.attempt + chain.length ≤ t.maxAttempts ∧
      ∀ t' ∈ t :: chain, t'.maxAttempts = t.maxAttempts ∧ t'.chatInputTaskID = t.chatInputTaskID := by
  induction chain generalizing t with
  | nil =>
    have ht := hbudget t (h.1 t List.mem_cons_self)
    constructor
    · simpa using ht.2
    · simp
  | cons c chain ih =>
    have hlink : c.retryOfTaskID = some t.id := (List.isChain_cons_cons.1 h.2).1
    have hrest : IsRetryChain q (c :: chain) :=
      ⟨fun x hx => h.1 x (List.mem_cons_of_mem t hx), (List.isChain_cons_cons.1 h.2).2⟩
    have hmem : t ∈ q.rows ∧ c ∈ q.rows :=
      ⟨h.1 t List.mem_cons_self, h.1 c (List.mem_cons_of_mem t List.mem_cons_self)⟩
    have hf : Follows t c := by
      rcases hfollows c hmem.2 t.id hlink with ⟨p, hp, hid, hf⟩
      rwa [q.eq_of_key hp hmem.1 hid] at hf
    have hattempt := hf.attempt
    have hmax := hf.maxAttempts
    rcases ih c hrest with ⟨hlen, hsame⟩
    constructor
    · simp only [List.length_cons]
      omega
    · intro t' ht'
      rcases List.mem_cons.1 ht' with rfl | ht'
      · exact ⟨rfl, rfl⟩
      · rw [(hsame t' ht').1, (hsame t' ht').2]
        exact ⟨hmax, hf.chatInputTaskID⟩

/-- What the invariant says about chains. -/
theorem Inv.retriesBounded {s : State} (hinv : Inv s) : RetriesBounded s.sys.queue := by
  -- a chain with a member has a first run
  have hbound : ∀ chain, IsRetryChain s.sys.queue chain → ∀ t ∈ chain,
      (chain.length : Int) ≤ t.maxAttempts ∧ ∀ t' ∈ chain, t'.chatInputTaskID = t.chatInputTaskID := by
    intro chain hchain t ht
    cases chain with
    | nil => simp at ht
    | cons first chain =>
      have hfirst := hinv.budget first (hchain.1 first List.mem_cons_self)
      rcases chain_bound hinv.budget hinv.follows first chain hchain with ⟨hlen, hsame⟩
      have hmax := (hsame t ht).1
      constructor
      · simp only [List.length_cons]
        omega
      · intro t' ht'
        rw [(hsame t' ht').2, (hsame t ht).2]
  constructor
  · intro id
    have hslots := hinv.slots id
    have hone := failures_le s.sys.queue id
    omega
  · exact hinv.follows
  · exact fun chain hchain t ht => (hbound chain hchain t ht).1
  · exact fun chain hchain t ht => (hbound chain hchain t ht).2

/-! ## What a step may do -/

theorem Copies.kept {p t t' : AgentTask} (h : Copies p t) (hk : Kept t t') : Copies p t' := by
  rcases hk.failed h.status.2 with ⟨hfailed, hreason, hissue⟩
  exact ⟨hk.id.trans h.id, ⟨h.status.1, hfailed⟩, hreason.trans h.failureReason,
    hk.attempt.trans h.attempt, hk.maxAttempts.trans h.maxAttempts,
    hk.autopilotRunID.trans h.autopilotRunID, hissue.trans h.issueID,
    hk.chatSessionID.trans h.chatSessionID⟩

theorem retries_kept {q q' : TaskTable} {f : AgentTask → AgentTask}
    (hrows : q'.rows = q.rows.map f) (hf : ∀ t ∈ q.rows, Kept t (f t)) (id : UUID) :
    retries q' id = retries q id := by
  rw [retries, retries, hrows, List.countP_map]
  refine List.countP_congr fun t ht => ?_
  simp [(hf t ht).retryOf]

/-- A step that changes rows in place: each copy that a sweeper receives comes with a new
failure. -/
theorem Inv.map {s s' : State} (hinv : Inv s) {f : AgentTask → AgentTask}
    (hrows : s'.sys.queue.rows = s.sys.queue.rows.map f)
    (hf : ∀ t ∈ s.sys.queue.rows, Kept t (f t))
    (hslots : ∀ id, s'.pending id + failures s.sys.queue id ≤
      s.pending id + failures s'.sys.queue id)
    (hswept : ∀ p ∈ s'.swept, p ∈ s.swept ∨ ∃ t ∈ s.sys.queue.rows, Copies p (f t)) : Inv s' := by
  have hmem : ∀ t ∈ s.sys.queue.rows, f t ∈ s'.sys.queue.rows := by
    intro t ht
    rw [hrows]
    exact List.mem_map.2 ⟨t, ht, rfl⟩
  have hcases : ∀ t' ∈ s'.sys.queue.rows, ∃ t ∈ s.sys.queue.rows, t' = f t ∧ Kept t t' := by
    intro t' ht'
    rw [hrows] at ht'
    rcases List.mem_map.1 ht' with ⟨t, ht, rfl⟩
    exact ⟨t, ht, rfl, hf t ht⟩
  constructor
  · intro t' ht'
    rcases hcases t' ht' with ⟨t, ht, -, hk⟩
    rw [hk.attempt, hk.maxAttempts]
    exact hinv.budget t ht
  · intro c' hc' id hid
    rcases hcases c' hc' with ⟨c, hc, rfl, hk⟩
    rw [hk.retryOf] at hid
    rcases hinv.follows c hc id hid with ⟨p, hp, hpid, hfollows⟩
    exact ⟨f p, hmem p hp, (hf p hp).id.trans hpid, hfollows.kept (hf p hp) hk⟩
  · intro id
    have hold := hinv.slots id
    have hnew := hslots id
    rw [retries_kept hrows hf]
    omega
  · intro p hp
    rcases hswept p hp with hp | ⟨t, ht, hcopies⟩
    · rcases hinv.copies p hp with ⟨t, ht, hcopies⟩
      exact ⟨f t, hmem t ht, hcopies.kept (hf t ht)⟩
    · exact ⟨f t, hmem t ht, hcopies⟩

/-- Failed rows stay failed. -/
theorem failures_kept {q q' : TaskTable} {f : AgentTask → AgentTask}
    (hrows : q'.rows = q.rows.map f) (hf : ∀ t ∈ q.rows, Kept t (f t)) (id : UUID) :
    failures q id ≤ failures q' id := by
  rw [failures, failures, hrows, List.countP_map]
  refine List.countP_mono_left fun t ht hfailed => ?_
  simp only [Bool.and_eq_true, beq_iff_eq, Function.comp_apply] at hfailed ⊢
  exact ⟨((hf t ht).failed hfailed.1).1, (hf t ht).id.trans hfailed.2⟩

/-- A row that starts a chain. -/
structure StartsChain (row : AgentTask) : Prop where
  retryOf : row.retryOfTaskID = none
  budget : 1 ≤ row.attempt ∧ row.attempt ≤ row.maxAttempts

theorem failures_append {q q' : TaskTable} {row : AgentTask} (hrows : q'.rows = q.rows ++ [row])
    (id : UUID) : failures q id ≤ failures q' id := by
  rw [failures, failures, hrows, List.countP_append]
  omega

/-- A step that adds one row and leaves the sweepers' copies, or drops some. -/
theorem Inv.append {s s' : State} (hinv : Inv s) {row : AgentTask}
    (hrows : s'.sys.queue.rows = s.sys.queue.rows ++ [row])
    (hbudget : 1 ≤ row.attempt ∧ row.attempt ≤ row.maxAttempts)
    (hfollows : ∀ id, row.retryOfTaskID = some id →
      ∃ p ∈ s.sys.queue.rows, p.id = id ∧ Follows p row)
    (hslots : ∀ id, retries s'.sys.queue id + s'.pending id ≤ failures s.sys.queue id)
    (hswept : ∀ p ∈ s'.swept, p ∈ s.swept) : Inv s' := by
  have hmem : ∀ t, t ∈ s'.sys.queue.rows ↔ t ∈ s.sys.queue.rows ∨ t = row := by
    intro t
    rw [hrows]
    simp
  constructor
  · intro t ht
    rcases (hmem t).1 ht with ht | rfl
    · exact hinv.budget t ht
    · exact hbudget
  · intro c hc id hid
    rcases (hmem c).1 hc with hc | rfl
    · rcases hinv.follows c hc id hid with ⟨p, hp, hpid, hf⟩
      exact ⟨p, (hmem p).2 (.inl hp), hpid, hf⟩
    · rcases hfollows id hid with ⟨p, hp, hpid, hf⟩
      exact ⟨p, (hmem p).2 (.inl hp), hpid, hf⟩
  · intro id
    have hnew := hslots id
    have hold := failures_append hrows id
    omega
  · intro p hp
    rcases hinv.copies p (hswept p hp) with ⟨t, ht, hcopies⟩
    exact ⟨t, (hmem t).2 (.inl ht), hcopies⟩

theorem Inv.start {s s' : State} (hinv : Inv s) {row : AgentTask}
    (hrows : s'.sys.queue.rows = s.sys.queue.rows ++ [row]) (hrow : StartsChain row)
    (hswept : s'.swept = s.swept) : Inv s' := by
  refine hinv.append hrows hrow.budget ?_ ?_ (fun p hp => hswept ▸ hp)
  · intro id hid
    simp [hrow.retryOf] at hid
  · intro id
    have hold := hinv.slots id
    have hpending : s'.pending id = s.pending id := by rw [State.pending, hswept, State.pending]
    rw [retries_append hrows, hrow.retryOf, hpending]
    simpa using hold

/-- The clone of an eligible run. -/
theorem follows_createRetryTask {now : Timestamp} {id : UUID} {p : AgentTask}
    (helig : sweeperRetryEligible p = true) : Follows p (createRetryTask now id p) := by
  simp only [sweeperRetryEligible, retryEligible, Bool.and_eq_true, beq_iff_eq, decide_eq_true_eq,
    Bool.or_eq_true, Option.isNone_iff_eq_none, Option.isSome_iff_ne_none,
    List.contains_eq_mem] at helig
  rcases helig with ⟨hfailed, ⟨⟨hreason, hattempt⟩, hrun⟩, hlinked⟩
  have hreason' : ∃ reason ∈ retryableReasons, p.failureReason = some reason := by
    cases hr : p.failureReason with
    | none =>
      -- the empty reason is not retryable
      simp [hr, retryableReasons] at hreason
    | some reason => exact ⟨reason, by simpa [hr] using hreason, rfl⟩
  exact ⟨rfl, hfailed, hreason', rfl, hattempt, rfl, rfl, rfl, rfl, hlinked, rfl, rfl, rfl, rfl,
    hrun, hrun⟩

/-- A clone takes the free slot of its failed row. -/
theorem Inv.retry {s s' : State} (hinv : Inv s) {p : AgentTask} (hp : p ∈ s.sys.queue.rows)
    (helig : sweeperRetryEligible p = true) {now : Timestamp} {childID : UUID}
    (hrows : s'.sys.queue.rows = s.sys.queue.rows ++ [createRetryTask now childID p])
    (hpending : ∀ id, s'.pending id ≤ s.pending id)
    (hfree : retries s.sys.queue p.id + s'.pending p.id < failures s.sys.queue p.id)
    (hswept : ∀ x ∈ s'.swept, x ∈ s.swept) : Inv s' := by
  have hfollows : Follows p (createRetryTask now childID p) := follows_createRetryTask helig
  have hbudget := hinv.budget p hp
  refine hinv.append hrows ⟨?_, hfollows.budget⟩ ?_ ?_ hswept
  · rw [hfollows.attempt]
    omega
  · intro id hid
    exact ⟨p, hp, Option.some.inj (hfollows.retryOf.symm.trans hid), hfollows⟩
  · intro id
    rw [retries_append hrows, hfollows.retryOf]
    by_cases hid : p.id = id
    · subst hid
      simp only [if_true]
      omega
    · have hold := hinv.slots id
      have hle := hpending id
      simp only [Option.some.injEq, if_neg hid]
      omega

/-- The copy and the row are retried alike. -/
theorem Copies.eligible {p t : AgentTask} (h : Copies p t) :
    sweeperRetryEligible p = sweeperRetryEligible t := by
  simp only [sweeperRetryEligible, retryEligible, h.status.1, h.status.2, h.failureReason,
    h.attempt, h.maxAttempts, h.autopilotRunID, h.issueID, h.chatSessionID]

/-- A run that `FailTask` wants to retry is eligible once it has failed. -/
theorem sweeperRetryEligible_failed {c : FailTaskCall} {classify : String → String}
    {now : Timestamp} {r : AgentTask} (h : wantRetry (some r) (c.reason classify) = true) :
    sweeperRetryEligible ((c.update classify now).set r) = true := by
  simp only [wantRetry, Option.any_some] at h
  have hreason : text (c.reason classify) = some (c.reason classify) := by
    refine if_neg fun hempty => ?_
    rw [hempty] at h
    simp [retryEligible, retryableReasons] at h
  simpa [sweeperRetryEligible, FailTaskCall.update, failAgentTask, hreason, retryEligible] using h

/-! ## The steps -/

theorem startsChain_insert {now : Timestamp} {q : TaskTable} {stmt : InsertStmt} {row : AgentTask}
    (hstmt : ∀ id parentID, stmt ≠ .createRetryTask id parentID)
    (h : stmt.row now q = some row) : StartsChain row := by
  cases stmt with
  | createRetryTask id parentID => exact absurd rfl (hstmt id parentID)
  | _ =>
    simp only [InsertStmt.row, Option.some.injEq] at h
    rw [← h]
    have hfirst : (1 : Int) ≤ 1 ∧ (1 : Int) ≤ 2 := by decide
    exact ⟨rfl, hfirst⟩

/-- An update of rows in place: no copy changes hands, so it must only keep the failures. -/
theorem Inv.update {s : State} (hinv : Inv s) {sys : Task.State} {u : Update AgentTask}
    (hrows : sys.queue.rows = s.sys.queue.rows.map u.apply)
    (hkept : ∀ t ∈ s.sys.queue.rows, Kept t (u.apply t)) : Inv { s with sys := sys } := by
  refine hinv.map hrows hkept (fun id => ?_) fun p hp => .inl hp
  exact Nat.add_le_add_left (failures_kept hrows hkept id) _

theorem Inv.sameQueue {s : State} (hinv : Inv s) {sys : Task.State}
    (hqueue : sys.queue = s.sys.queue) : Inv { s with sys := sys } := by
  refine hinv.map (f := id) (by simp [hqueue]) (fun t _ => .refl t) (fun id => ?_)
    fun p hp => .inl hp
  simp only [hqueue]
  exact Nat.le_refl _

/-- A callback that fails a run and retries it: the failure frees a slot that nothing claims,
and the clone takes it. -/
theorem inv_failRetry {cfg : Task.Config} {s : State} (hinv : Inv s) {c : FailTaskCall}
    {r : AgentTask} {failed q : TaskTable} (hr : r ∈ s.sys.queue.rows)
    (hsel : (c.update cfg.classify s.sys.now).sel r = true)
    (hwant : wantRetry (getAgentTask s.sys.queue c.taskID) (c.reason cfg.classify) = true)
    (hupd : s.sys.queue.update? (c.update cfg.classify s.sys.now) = some failed)
    (hins : failed.insert?
      (createRetryTask s.sys.now c.childID ((c.update cfg.classify s.sys.now).set r)) = some q) :
    Inv { s with sys := { s.sys with queue := q } } := by
  have hkept : ∀ t ∈ s.sys.queue.rows, Kept t ((c.update cfg.classify s.sys.now).apply t) :=
    fun t _ => kept_fail c cfg.classify s.sys.now t
  have hrows := Table.update?_rows hupd
  have hfailed : Inv { s with sys := { s.sys with queue := failed } } := hinv.update hrows hkept
  rcases FailTaskCall.sel_iff.1 hsel with ⟨hid, hactive⟩
  have happly := Update.apply_of_sel hsel
  have hmem : (c.update cfg.classify s.sys.now).set r ∈ failed.rows := by
    rw [hrows, ← happly]
    exact List.mem_map.2 ⟨r, hr, rfl⟩
  -- before its failure the run had no slot, so nobody has taken it
  have hnone : retries s.sys.queue r.id + s.pending r.id = 0 := by
    have hslots := hinv.slots r.id
    have hlive : r.status ≠ .failed := by
      intro hf
      rw [hf] at hactive
      exact absurd hactive (by decide)
    rw [failures_at hr, if_neg hlive] at hslots
    omega
  refine hfailed.retry hmem ?_ (Table.insert?_rows hins) (fun id => Nat.le_refl _) ?_
    fun x hx => hx
  · have hget : getAgentTask s.sys.queue c.taskID = some r := getAgentTask_eq_some.2 ⟨hr, hid⟩
    rw [hget] at hwant
    exact sweeperRetryEligible_failed hwant
  · have hone : failures failed r.id = 1 := by
      have hfail := failures_at hmem
      exact hfail
    show retries failed r.id + s.pending r.id < failures failed r.id
    rw [hone, retries_kept hrows hkept]
    omega

/-- A step of the queue. -/
theorem inv_queue {cfg : Task.Config} {s : State} (hinv : Inv s) {step : Task.Step}
    {sys : Task.State} (hsteps : steps s.sys step = true) (h : Task.next cfg s.sys step = some sys) :
    Inv { s with sys := sys } := by
  cases next_effect h with
  | tick | lock | count | release => exact hinv.sameQueue rfl
  | @insert stmt row q hrow hins =>
    refine hinv.start (Table.insert?_rows hins) (startsChain_insert ?_ hrow) rfl
    rintro id parentID rfl
    simp [steps] at hsteps
  | @update stmt q hadm hupd =>
    exact hinv.update (Table.update?_rows hupd) fun t ht => kept_update hadm hsteps ht
  | @claim a locked pick running q _ _ hpick hupd =>
    rcases claim_pick hpick with ⟨t, ht, hid, -, hqueued⟩
    exact hinv.update (Table.update?_rows hupd) fun r hr => kept_claim ht hid hqueued hr
  | @fail c r failed _ _ _ hupd =>
    exact hinv.update (Table.update?_rows hupd) fun t _ => kept_fail c cfg.classify s.sys.now t
  | failRetry hr hsel hwant hupd hins => exact inv_failRetry hinv hr hsel hwant hupd hins

theorem countP_split {P Q R : AgentTask → Bool} {rows : List AgentTask}
    (h : ∀ t ∈ rows, (P t = true ↔ Q t = true ∨ R t = true) ∧ ¬(Q t = true ∧ R t = true)) :
    rows.countP P = rows.countP Q + rows.countP R := by
  induction rows with
  | nil => rfl
  | cons t rows ih =>
    have hrest := ih fun x hx => h x (List.mem_cons_of_mem t hx)
    rcases h t List.mem_cons_self with ⟨hor, hnot⟩
    simp only [List.countP_cons, hrest]
    cases hq : Q t <;> cases hr : R t <;> simp [hq, hr] at hor hnot <;> simp [hor] <;> omega

/-- The copies that a sweep hands out. -/
theorem pending_sweep (s : State) (sys : Task.State) {u : Update AgentTask}
    (hset : ∀ t ∈ s.sys.queue.rows, u.sel t = true → (u.set t).id = t.id) (id : UUID) :
    State.pending
        { sys := sys, swept := s.swept ++ (s.sys.queue.rows.filter u.sel).map u.set } id =
      s.pending id + s.sys.queue.rows.countP fun t => u.sel t && t.id == id := by
  rw [State.pending, List.countP_append, List.countP_map, List.countP_filter]
  refine congrArg (s.pending id + ·) (List.countP_congr fun t ht => ?_)
  by_cases hsel : u.sel t = true
  · simp [hsel, hset t ht hsel]
  · simp [hsel]

/-- The rows that it fails are counted by the same predicate. -/
theorem failures_sweep {q q' : TaskTable} {u : Update AgentTask}
    (hrows : q'.rows = q.rows.map u.apply)
    (hset : ∀ t ∈ q.rows, u.sel t = true → (u.set t).id = t.id)
    (hfails : ∀ t ∈ q.rows, u.sel t = true → t.status ≠ .failed ∧ (u.set t).status = .failed)
    (id : UUID) :
    failures q' id = failures q id + q.rows.countP fun t => u.sel t && t.id == id := by
  rw [failures, hrows, List.countP_map, failures]
  refine countP_split fun t ht => ?_
  by_cases hsel : u.sel t = true
  · rcases hfails t ht hsel with ⟨hlive, hfailed⟩
    simp [hsel, hlive, hfailed, hset t ht hsel]
  · simp [hsel]

/-- A sweep hands `HandleFailedTasks` a copy of each row that it fails. -/
theorem inv_sweep {s : State} (hinv : Inv s) {stmt : UpdateStmt} (hsweeps : sweeps stmt = true)
    (hadm : stmt.admits s.sys.now s.sys.queue = true) {q : TaskTable}
    (hupd : s.sys.queue.update? (stmt.update s.sys.now s.sys.queue) = some q) :
    Inv { sys := { s.sys with queue := q }
          swept := s.swept ++
            (s.sys.queue.rows.filter (stmt.update s.sys.now s.sys.queue).sel).map
              (stmt.update s.sys.now s.sys.queue).set } := by
  have hkept : ∀ t ∈ s.sys.queue.rows, Kept t ((stmt.update s.sys.now s.sys.queue).apply t) :=
    fun t ht => kept_sweep hsweeps hadm ht
  have hfails : ∀ t ∈ s.sys.queue.rows, (stmt.update s.sys.now s.sys.queue).sel t = true →
      t.status ≠ .failed ∧ ((stmt.update s.sys.now s.sys.queue).set t).status = .failed := by
    intro t _ hsel
    rcases sweeps_sel hsweeps hsel with ⟨hlive, hfailed⟩
    refine ⟨fun hf => ?_, hfailed⟩
    rw [hf] at hlive
    exact absurd hlive (by decide)
  generalize stmt.update s.sys.now s.sys.queue = u at hupd hkept hfails
  have hrows := Table.update?_rows hupd
  have hset : ∀ t ∈ s.sys.queue.rows, u.sel t = true → (u.set t).id = t.id := by
    intro t ht hsel
    have hid := (hkept t ht).id
    rwa [Update.apply_of_sel hsel] at hid
  refine hinv.map hrows hkept (fun id => ?_) fun p hp => ?_
  · rw [pending_sweep s _ hset, failures_sweep hrows hset hfails]
    omega
  · rcases List.mem_append.1 hp with hp | hp
    · exact .inl hp
    · -- a new copy is what the row becomes
      rcases List.mem_map.1 hp with ⟨t, ht, rfl⟩
      rcases List.mem_filter.1 ht with ⟨ht, hsel⟩
      refine .inr ⟨t, ht, ?_⟩
      rw [Update.apply_of_sel hsel]
      have hf := (hfails t ht hsel).2
      exact ⟨rfl, ⟨hf, hf⟩, rfl, rfl, rfl, rfl, rfl, rfl⟩

theorem inv_handleFailed {s : State} (hinv : Inv s) {i : Nat} {parent : AgentTask}
    (hparent : s.swept[i]? = some parent) {childID : UUID} :
    Inv { sys :=
            match maybeRetryFailedTask s.sys.now s.sys.queue parent childID with
            | some q => { s.sys with queue := q }
            | none => s.sys
          swept := s.swept.eraseIdx i } := by
  have herase : ∀ p ∈ s.swept.eraseIdx i, p ∈ s.swept := fun p hp => List.mem_of_mem_eraseIdx hp
  have hpending : ∀ id, (s.swept.eraseIdx i).countP (fun t => t.id == id) +
      (if parent.id = id then 1 else 0) = s.pending id := by
    intro id
    have hcount := countP_eraseIdx hparent fun t => t.id == id
    simpa [State.pending] using hcount
  cases hretry : maybeRetryFailedTask s.sys.now s.sys.queue parent childID with
  | none =>
    refine hinv.map (f := id) (by simp) (fun t _ => .refl t) (fun id => ?_)
      fun p hp => .inl (herase p hp)
    have hle := hpending id
    simp only [State.pending] at hle ⊢
    omega
  | some q =>
    simp only [maybeRetryFailedTask, Option.ite_none_right_eq_some, Option.bind_eq_some_iff] at hretry
    rcases hretry with ⟨helig, p, hget, hins⟩
    rcases getAgentTask_eq_some.1 hget with ⟨hp, hid⟩
    rcases hinv.copies parent (List.mem_of_getElem? hparent) with ⟨t, ht, hcopies⟩
    have htp : t = p := s.sys.queue.eq_of_key ht hp (hcopies.id.trans hid.symm)
    subst htp
    refine hinv.retry hp ?_ (Table.insert?_rows hins) (fun id => ?_) ?_ herase
    · rwa [← hcopies.eligible]
    · have hle := hpending id
      simp only [State.pending] at hle ⊢
      omega
    · have hslots := hinv.slots t.id
      have hle := hpending t.id
      rw [if_pos hid.symm] at hle
      simp only [State.pending] at hle hslots ⊢
      omega

theorem inv_step {cfg : Task.Config} {s s' : State} (hinv : Inv s) {a : Act}
    (h : next cfg s a = some s') : Inv s' := by
  cases a with
  | queue step =>
    simp only [next, Option.ite_none_right_eq_some, Option.map_eq_some_iff] at h
    rcases h with ⟨hsteps, sys, hsys, rfl⟩
    exact inv_queue hinv hsteps hsys
  | sendDirectChat id p =>
    simp only [next, Option.map_eq_some_iff] at h
    rcases h with ⟨q, hq, rfl⟩
    have hfirst : (1 : Int) ≤ 1 ∧ (1 : Int) ≤ 2 := by decide
    exact hinv.start (createDirectChatTask_rows hq).1 ⟨rfl, hfirst⟩ rfl
  | sweep stmt =>
    simp only [next, Option.ite_none_right_eq_some, Bool.and_eq_true, Option.map_eq_some_iff] at h
    rcases h with ⟨⟨hsweeps, hadm⟩, q, hupd, rfl⟩
    exact inv_sweep hinv hsweeps hadm hupd
  | handleFailed i childID =>
    simp only [next, Option.map_eq_some_iff] at h
    rcases h with ⟨parent, hparent, rfl⟩
    exact inv_handleFailed hinv hparent

theorem inv_reachable {cfg : Task.Config} : ∀ s, (machine cfg).Reachable s → Inv s := by
  refine Machine.invariant ?_ fun s a s' _ hinv hn => inv_step hinv hn
  intro s hs
  have hrows : s.sys.queue.rows = [] := by
    rw [hs.1.1]
    rfl
  constructor
  · simp [hrows]
  · simp [hrows]
  · intro id
    simp [retries, failures, State.pending, hrows, hs.2]
  · simp [hs.2]

/-- In every reachable state the system retries form chains of at most `max_attempts` runs
without branches, whose runs agree on everything a retry inherits. -/
theorem retry_chains_bounded (cfg : Task.Config) (s : State) (hs : (machine cfg).Reachable s) :
    RetriesBounded s.sys.queue :=
  (inv_reachable s hs).retriesBounded

/-- A chat task and an issue task are claimed, the daemon dies, and its restart fails both;
a late callback for the first finds nothing to fail. -/
def recoveredRun : List Act :=
  [.queue (.insert (.createAgentTask 1 { agentID := 7, runtimeID := 3, issueID := some 10 })),
    .sendDirectChat 2 { agentID := 8, runtimeID := 3, chatSessionID := 20 },
    .queue (.lockAgent 7), .queue (.countRunningTasks 7), .queue (.claimAgentTask 7 [] 1),
    .queue (.lockAgent 8), .queue (.countRunningTasks 8), .queue (.claimAgentTask 8 [] 2),
    .sweep (.recoverOrphanedTasksForRuntime 3), .handleFailed 1 4, .handleFailed 0 3,
    .queue (.lockAgent 8), .queue (.countRunningTasks 8), .queue (.claimAgentTask 8 [] 4),
    .queue (.failTask { taskID := 4, failureReason := "timeout", childID := 5 })]

theorem retry_chains_bounded_recoveredRun :
    ∃ s, (machine ⟨fun _ => 1, id⟩).run State.empty recoveredRun = some s ∧
      s.sys.queue.rows.any (fun t => t.retryOfTaskID == some 2 && t.status == .failed) = true ∧
      RetriesBounded s.sys.queue := by
  rcases Machine.reachable_of_run (machine ⟨fun _ => 1, id⟩) (init_empty _) recoveredRun
    (fun s => s.sys.queue.rows.any fun t => t.retryOfTaskID == some 2 && t.status == .failed)
    (by decide) with ⟨s, hrun, hs, hretry⟩
  exact ⟨s, hrun, hretry, retry_chains_bounded _ s hs⟩

end Orynx.Retry
