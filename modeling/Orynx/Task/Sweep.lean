import Mathlib.Data.List.Induction
import Orynx.Chat.Settle
import Orynx.Issue.ChildDone
import Orynx.Routing.Outcome

/-! # Sweeping failed tasks

`HandleFailedTasks` of `server/internal/service/task.go` goes through rows that have just failed.
It retries a row where it can, and moves an issue that is in progress back to `todo` where it
finds no active task, once for an issue and not after a retry.

* `Loop`: what the loop has done to the queue, over every list of failed rows;
* `retried_eq`, `issues_eq`: where no two rows compete for a slot, what is retried and what is
  reset, said of the rows alone;
* `orderFree_iff`: when every order of the rows has the same outcome.
-/

namespace Orynx.Sweep

open Lib Orynx.Task
open Autopilot (IssueStatus)
open ChildDone (Issue IssueTable updateIssueStatusStmt)

/-! ## The loop -/

/-- The event `task:failed`. -/
structure TaskFailed where
  workspaceID : UUID
  taskID : UUID
  agentID : UUID
  issueID : Option UUID
  failureReason : String
deriving DecidableEq, Repr

/-- `retried` are the rows that were retried, `updated` the broadcast issues. -/
structure State where
  tasks : TaskTable
  issues : IssueTable
  processedIssues : List UUID := []
  retriedIssues : List UUID := []
  retried : List AgentTask := []
  updated : List UUID := []
  events : List TaskFailed := []

/-- `HasActiveTaskForIssue`. -/
def hasActiveTaskForIssue (q : TaskTable) (issueID : UUID) : Bool :=
  q.rows.any fun t => t.issueID == some issueID && (t.status == .queued || t.status.active)

/-- `MaybeRetryFailedTask` and what the loop notes of it. -/
def retry (now : Timestamp) (s : State) (t : AgentTask) : State :=
  match Chat.maybeRetryFailedTask now s.tasks t (Routing.newTaskID s.tasks) with
  | none => s
  | some q =>
    { s with
      tasks := q
      retried := s.retried ++ [t]
      retriedIssues := t.issueID.toList ++ s.retriedIssues }

/-- An issue in progress that is seen for the first time and has no retry is reset, unless a task
is active on it. -/
def resetIfStuck (s : State) (t : AgentTask) : State :=
  match t.issueID with
  | none => s
  | some issueID =>
    match s.issues.get? issueID with
    | none => s
    | some issue =>
      if issue.status = .inProgress ∧ issueID ∉ s.processedIssues ∧
          issueID ∉ s.retriedIssues then
        let s := { s with processedIssues := issueID :: s.processedIssues }
        if hasActiveTaskForIssue s.tasks issueID then s
        else
          { s with
            issues := s.issues.exec (updateIssueStatusStmt issueID issue.workspaceId .todo)
            updated := s.updated ++ [issueID] }
      else s

/-- `resolve` is `ResolveTaskWorkspaceID`, for tasks without an issue. -/
def publish (resolve : AgentTask → Option UUID) (s : State) (t : AgentTask) : State :=
  match ((t.issueID.bind s.issues.get?).map fun issue => issue.workspaceId).or (resolve t) with
  | none => s
  | some workspaceID =>
    let reason := t.failureReason.getD ""
    { s with
      events := s.events ++ [{
        workspaceID := workspaceID
        taskID := t.id
        agentID := t.agentID
        issueID := t.issueID
        failureReason := if reason = "" then "agent_error" else reason }] }

section Loop

variable (resolve : AgentTask → Option UUID) (now : Timestamp)

def handleFailedTask (s : State) (t : AgentTask) : State :=
  publish resolve (resetIfStuck (retry now s t) t) t

def handleFailedTasks (q : TaskTable) (issues : IssueTable) (tasks : List AgentTask) : State :=
  tasks.foldl (handleFailedTask resolve now) { tasks := q, issues := issues }

end Loop

/-- Rows that a bulk statement has failed and returned. -/
structure JustFailed (q : TaskTable) (l : List AgentTask) : Prop where
  mem : ∀ t ∈ l, t ∈ q.rows
  failed : ∀ t ∈ l, t.status = .failed
  nodup : l.Nodup

/-! ## What is asked of an order -/

/-- The new rows, whatever key they have drawn. -/
def retryChildren (q q' : TaskTable) : Set AgentTask :=
  {c | ∃ r ∈ q'.rows, r ∉ q.rows ∧ { r with id := 0 } = c}

def inProgress (issues : IssueTable) (issueID : UUID) : Bool :=
  (issues.get? issueID).any fun issue => issue.status == .inProgress

def isTodo (issues : IssueTable) (issueID : UUID) : Bool :=
  (issues.get? issueID).any fun issue => issue.status == .todo

/-- Issues in progress that the batch touches are reset if no task is active on them afterwards. -/
def Settled (issues : IssueTable) (l : List AgentTask) (s : State) : Prop :=
  ∀ issueID, inProgress issues issueID = true → (∃ t ∈ l, t.issueID = some issueID) →
    (isTodo s.issues issueID = true ↔ hasActiveTaskForIssue s.tasks issueID = false)

/-- Every order retries the same tasks and settles the issues. -/
def OrderFree (resolve : AgentTask → Option UUID) (now : Timestamp) (q : TaskTable)
    (issues : IssueTable) (l : List AgentTask) : Prop :=
  ∀ l', l.Perm l' →
    retryChildren q (handleFailedTasks resolve now q issues l').tasks =
      retryChildren q (handleFailedTasks resolve now q issues l).tasks ∧
    Settled issues l' (handleFailedTasks resolve now q issues l')

/-! ## The condition -/

/-- What a retry of the row takes of the index of pending tasks. -/
def slot (t : AgentTask) : Option (UUID × UUID) := t.issueID.map fun issue => (issue, t.agentID)

def slotFree (q : TaskTable) (t : AgentTask) : Bool :=
  (slot t).all fun k => q.rows.all fun r => r.pendingKey != some k

/-- The row is retried if it comes first. -/
def canRetry (q : TaskTable) (t : AgentTask) : Bool := sweeperRetryEligible t && slotFree q t

/-- No two rows are retried into one slot. -/
def Apart (q : TaskTable) (l : List AgentTask) : Prop :=
  ∀ t ∈ l, ∀ t' ∈ l, canRetry q t = true → canRetry q t' = true → slot t = slot t' →
    slot t ≠ none → t = t'

/-- Of the rows of a stuck issue all are retried or none. -/
def Whole (q : TaskTable) (issues : IssueTable) (l : List AgentTask) : Prop :=
  ∀ t ∈ l, ∀ t' ∈ l, t.issueID = t'.issueID →
    (∃ issueID, t.issueID = some issueID ∧ inProgress issues issueID = true ∧
      hasActiveTaskForIssue q issueID = false) →
    canRetry q t = canRetry q t'

/-! ## One retry -/

section Retry

variable (now : Timestamp) {s : State} {t : AgentTask}

@[simp] theorem slot_clone (id : UUID) (p : AgentTask) :
    (createRetryTask now id p).pendingKey = slot p := rfl

theorem slotFree_iff {q : TaskTable} {t : AgentTask} :
    slotFree q t = true ↔ ∀ k, slot t = some k → ∀ r ∈ q.rows, r.pendingKey ≠ some k := by
  unfold slotFree
  cases slot t with
  | none => simp
  | some k => simp

theorem insert_isSome_iff (q : TaskTable) (t : AgentTask) :
    (q.insert? (createRetryTask now (Routing.newTaskID q) t)).isSome = true ↔
      slotFree q t = true := by
  rw [Table.insert?_isSome, slotFree_iff]
  constructor
  · rintro ⟨-, hindex⟩ k hk r hr
    exact hindex k hk r hr
  · intro hfree
    exact ⟨fun r hr => Routing.newTaskID_ne hr, hfree⟩

theorem maybeRetry_isSome_iff (ht : t ∈ s.tasks.rows) :
    (Chat.maybeRetryFailedTask now s.tasks t (Routing.newTaskID s.tasks)).isSome = true ↔
      canRetry s.tasks t = true := by
  unfold Chat.maybeRetryFailedTask canRetry
  rw [getAgentTask_eq_some.2 ⟨ht, rfl⟩, Option.bind_some, Bool.and_eq_true]
  cases sweeperRetryEligible t with
  | false => simp
  | true =>
    rw [if_pos rfl, insert_isSome_iff]
    exact ⟨fun h => ⟨rfl, h⟩, And.right⟩

/-- The row is retried, or nothing is done. -/
theorem retry_cases (ht : t ∈ s.tasks.rows) :
    (canRetry s.tasks t = false ∧ retry now s t = s) ∨
    ∃ q, canRetry s.tasks t = true ∧
      q.rows = s.tasks.rows ++ [createRetryTask now (Routing.newTaskID s.tasks) t] ∧
      retry now s t = { s with
        tasks := q
        retried := s.retried ++ [t]
        retriedIssues := t.issueID.toList ++ s.retriedIssues } := by
  have hiff := maybeRetry_isSome_iff now ht
  unfold retry
  cases hretry : Chat.maybeRetryFailedTask now s.tasks t (Routing.newTaskID s.tasks) with
  | none =>
    rw [hretry] at hiff
    exact .inl ⟨by simpa using hiff, rfl⟩
  | some q =>
    rw [hretry] at hiff
    unfold Chat.maybeRetryFailedTask at hretry
    obtain ⟨-, hretry⟩ := Option.ite_none_right_eq_some.1 hretry
    rw [getAgentTask_eq_some.2 ⟨ht, rfl⟩, Option.bind_some] at hretry
    exact .inr ⟨q, hiff.1 rfl, Table.insert?_rows hretry, rfl⟩

end Retry

/-! ## What the reset leaves alone -/

section Frame

variable (resolve : AgentTask → Option UUID) (s : State) (t : AgentTask)

/-- The queue and what is noted of retries. -/
def State.queue (s : State) : TaskTable × List AgentTask × List UUID :=
  (s.tasks, s.retried, s.retriedIssues)

theorem queue_resetIfStuck : (resetIfStuck s t).queue = s.queue := by
  unfold resetIfStuck
  cases t.issueID with
  | none => rfl
  | some issueID =>
    dsimp only
    cases s.issues.get? issueID with
    | none => rfl
    | some issue =>
      dsimp only
      by_cases hstuck : issue.status = .inProgress ∧ issueID ∉ s.processedIssues ∧
          issueID ∉ s.retriedIssues
      · rw [if_pos hstuck]
        cases hasActiveTaskForIssue s.tasks issueID with
        | false => rfl
        | true => rfl
      · rw [if_neg hstuck]

theorem publish_eq : ∃ events, publish resolve s t = { s with events := events } := by
  unfold publish
  cases ((t.issueID.bind s.issues.get?).map fun issue => issue.workspaceId).or (resolve t) with
  | none => exact ⟨s.events, rfl⟩
  | some workspaceID => exact ⟨_, rfl⟩

theorem queue_publish : (publish resolve s t).queue = s.queue := by
  obtain ⟨events, h⟩ := publish_eq resolve s t
  rw [h]
  rfl

theorem queue_handleFailedTask (now : Timestamp) :
    (handleFailedTask resolve now s t).queue = (retry now s t).queue := by
  unfold handleFailedTask
  rw [queue_publish, queue_resetIfStuck]

theorem retried_handleFailedTask (now : Timestamp) :
    (handleFailedTask resolve now s t).retried = (retry now s t).retried :=
  congrArg (fun x => x.2.1) (queue_handleFailedTask resolve s t now)

end Frame

/-! ## What the loop does to the queue -/

section Loop

variable {resolve : AgentTask → Option UUID} {now : Timestamp} {q : TaskTable}
  {issues : IssueTable} {l : List AgentTask}

theorem handleFailedTasks_append (l : List AgentTask) (t : AgentTask) :
    handleFailedTasks resolve now q issues (l ++ [t]) =
      handleFailedTask resolve now (handleFailedTasks resolve now q issues l) t := by
  unfold handleFailedTasks
  rw [List.foldl_append]
  rfl

theorem JustFailed.init {t : AgentTask} (h : JustFailed q (l ++ [t])) : JustFailed q l :=
  ⟨fun r hr => h.mem r (List.mem_append_left _ hr),
    fun r hr => h.failed r (List.mem_append_left _ hr), (List.nodup_append.1 h.nodup).1⟩

theorem JustFailed.last {t : AgentTask} (h : JustFailed q (l ++ [t])) : t ∉ l := by
  intro ht
  exact (List.nodup_append.1 h.nodup).2.2 t ht t (List.mem_singleton_self t) rfl

theorem JustFailed.perm {l' : List AgentTask} (h : JustFailed q l) (hp : l.Perm l') :
    JustFailed q l' :=
  ⟨fun r hr => h.mem r (hp.mem_iff.2 hr), fun r hr => h.failed r (hp.mem_iff.2 hr),
    hp.nodup_iff.1 h.nodup⟩

/-- The queue has grown by the clones of the retried rows. -/
structure Grown (now : Timestamp) (q : TaskTable) (l : List AgentTask) (s : State) : Prop where
  keeps : ∀ r ∈ q.rows, r ∈ s.tasks.rows
  clones : ∀ r ∈ s.tasks.rows, r ∈ q.rows ∨ ∃ p ∈ s.retried, r = createRetryTask now r.id p
  cloned : ∀ p ∈ s.retried, ∃ r ∈ s.tasks.rows, r ∉ q.rows ∧ r = createRetryTask now r.id p
  retried : ∀ p ∈ s.retried, p ∈ l
  retriedIssues : ∀ issueID, issueID ∈ s.retriedIssues ↔ ∃ p ∈ s.retried, p.issueID = some issueID
  apart : s.retried.Pairwise fun p p' => slot p = slot p' → slot p = none

/-- The keys that are pending are those of the queue before and the slots of the retries. -/
theorem Grown.pending_iff {s : State} (h : Grown now q l s) (k : UUID × UUID) :
    (∃ r ∈ s.tasks.rows, r.pendingKey = some k) ↔
      (∃ r ∈ q.rows, r.pendingKey = some k) ∨ ∃ p ∈ s.retried, slot p = some k := by
  constructor
  · rintro ⟨r, hr, hk⟩
    rcases h.clones r hr with hq | ⟨p, hp, hclone⟩
    · exact .inl ⟨r, hq, hk⟩
    · rw [hclone, slot_clone] at hk
      exact .inr ⟨p, hp, hk⟩
  · rintro (⟨r, hr, hk⟩ | ⟨p, hp, hk⟩)
    · exact ⟨r, h.keeps r hr, hk⟩
    · obtain ⟨r, hr, -, hclone⟩ := h.cloned p hp
      refine ⟨r, hr, ?_⟩
      rw [hclone, slot_clone]
      exact hk

/-- An issue has an active task if it had one or a row of it was retried. -/
theorem Grown.active_iff {s : State} (h : Grown now q l s) (issueID : UUID) :
    hasActiveTaskForIssue s.tasks issueID = true ↔
      hasActiveTaskForIssue q issueID = true ∨ ∃ p ∈ s.retried, p.issueID = some issueID := by
  unfold hasActiveTaskForIssue
  rw [List.any_eq_true, List.any_eq_true]
  constructor
  · rintro ⟨r, hr, hactive⟩
    rcases h.clones r hr with hq | ⟨p, hp, hclone⟩
    · exact .inl ⟨r, hq, hactive⟩
    · refine .inr ⟨p, hp, ?_⟩
      rw [Bool.and_eq_true, beq_iff_eq, hclone] at hactive
      exact hactive.1
  · rintro (⟨r, hr, hactive⟩ | ⟨p, hp, hissue⟩)
    · exact ⟨r, h.keeps r hr, hactive⟩
    · obtain ⟨r, hr, -, hclone⟩ := h.cloned p hp
      refine ⟨r, hr, ?_⟩
      rw [hclone, Bool.and_eq_true, beq_iff_eq]
      exact ⟨hissue, rfl⟩

theorem Grown.of_queue {s s' : State} (h : Grown now q l s) (hq : s'.queue = s.queue) :
    Grown now q l s' := by
  obtain ⟨htasks, hq⟩ := Prod.mk.inj hq
  obtain ⟨hretried, hissues⟩ := Prod.mk.inj hq
  constructor
  · rw [htasks]
    exact h.keeps
  · rw [htasks, hretried]
    exact h.clones
  · rw [htasks, hretried]
    exact h.cloned
  · rw [hretried]
    exact h.retried
  · rw [hretried, hissues]
    exact h.retriedIssues
  · rw [hretried]
    exact h.apart

theorem Grown.retry {s : State} (h : Grown now q l s) {t : AgentTask} (ht : t ∈ q.rows) :
    Grown now q (l ++ [t]) (retry now s t) := by
  rcases retry_cases now (h.keeps t ht) with ⟨-, hsame⟩ | ⟨q', hcan, hrows, hretry⟩
  · rw [hsame]
    exact { h with retried := fun p hp => List.mem_append_left _ (h.retried p hp) }
  · rw [hretry]
    have hfree := slotFree_iff.1 (Bool.and_eq_true _ _ ▸ hcan).2
    constructor
    · intro r hr
      dsimp only
      rw [hrows]
      exact List.mem_append_left _ (h.keeps r hr)
    · intro r hr
      dsimp only at hr ⊢
      rw [hrows] at hr
      rcases List.mem_append.1 hr with hr | hr
      · rcases h.clones r hr with hq | ⟨p, hp, hclone⟩
        · exact .inl hq
        · exact .inr ⟨p, List.mem_append_left _ hp, hclone⟩
      · obtain rfl := List.mem_singleton.1 hr
        exact .inr ⟨t, List.mem_append_right _ (List.mem_singleton_self t), rfl⟩
    · intro p hp
      dsimp only
      rw [hrows]
      rcases List.mem_append.1 hp with hp | hp
      · obtain ⟨r, hr, hnew, hclone⟩ := h.cloned p hp
        exact ⟨r, List.mem_append_left _ hr, hnew, hclone⟩
      · obtain rfl := List.mem_singleton.1 hp
        refine ⟨_, List.mem_append_right _ (List.mem_singleton_self _), ?_, rfl⟩
        intro hold
        exact Routing.newTaskID_ne (h.keeps _ hold) rfl
    · intro p hp
      rcases List.mem_append.1 hp with hp | hp
      · exact List.mem_append_left _ (h.retried p hp)
      · exact List.mem_append_right _ hp
    · intro issueID
      dsimp only
      rw [List.mem_append, h.retriedIssues]
      constructor
      · rintro (hissue | ⟨p, hp, hissue⟩)
        · refine ⟨t, List.mem_append_right _ (List.mem_singleton_self t), ?_⟩
          simpa using hissue
        · exact ⟨p, List.mem_append_left _ hp, hissue⟩
      · rintro ⟨p, hp, hissue⟩
        rcases List.mem_append.1 hp with hp | hp
        · exact .inr ⟨p, hp, hissue⟩
        · obtain rfl := List.mem_singleton.1 hp
          refine .inl ?_
          rw [hissue]
          exact List.mem_singleton_self issueID
    · -- the slot of the row was free, so no retry has taken it
      dsimp only
      rw [List.pairwise_append]
      refine ⟨h.apart, List.pairwise_singleton _ _, ?_⟩
      intro p hp p' hp' hslot
      obtain rfl := List.mem_singleton.1 hp'
      by_contra htaken
      obtain ⟨k, hk⟩ := Option.ne_none_iff_exists'.1 htaken
      obtain ⟨r, hr, hrk⟩ := (h.pending_iff k).2 (.inr ⟨p, hp, hk⟩)
      exact hfree k (hslot ▸ hk) r hr hrk

theorem grown (resolve : AgentTask → Option UUID) (now : Timestamp) (issues : IssueTable)
    (hl : JustFailed q l) : Grown now q l (handleFailedTasks resolve now q issues l) := by
  induction l using List.reverseRecOn with
  | nil =>
    refine ⟨fun r hr => hr, fun r hr => .inl hr, ?_, ?_, ?_, List.Pairwise.nil⟩
    · intro p hp
      cases hp
    · intro p hp
      cases hp
    · intro issueID
      simp [handleFailedTasks]
  | append_singleton l t ih =>
    rw [handleFailedTasks_append]
    have hlast : t ∈ l ++ [t] := List.mem_append_right _ (List.mem_singleton_self t)
    exact ((ih hl.init).retry (hl.mem t hlast)).of_queue (queue_handleFailedTask resolve _ t now)

/-- The children of a call are the clones of the rows that it retried. -/
theorem mem_retryChildren {s : State} (h : Grown now q l s) (c : AgentTask) :
    c ∈ retryChildren q s.tasks ↔ ∃ p ∈ s.retried, createRetryTask now 0 p = c := by
  constructor
  · rintro ⟨r, hr, hnew, rfl⟩
    obtain ⟨p, hp, hclone⟩ := (h.clones r hr).resolve_left hnew
    refine ⟨p, hp, ?_⟩
    rw [hclone]
    rfl
  · rintro ⟨p, hp, rfl⟩
    obtain ⟨r, hr, hnew, hclone⟩ := h.cloned p hp
    refine ⟨r, hr, hnew, ?_⟩
    rw [hclone]
    rfl

/-- A clone names its parent. -/
theorem retried_of_children {s s' : State} {l' : List AgentTask} (hl : JustFailed q l)
    (h : Grown now q l s) (hl' : JustFailed q l') (h' : Grown now q l' s')
    (hsame : retryChildren q s.tasks = retryChildren q s'.tasks) {p : AgentTask}
    (hp : p ∈ s.retried) : p ∈ s'.retried := by
  have hchild : createRetryTask now 0 p ∈ retryChildren q s'.tasks := by
    rw [← hsame]
    exact (mem_retryChildren h _).2 ⟨p, hp, rfl⟩
  obtain ⟨p', hp', hclone⟩ := (mem_retryChildren h' _).1 hchild
  have hid : p'.id = p.id := Option.some.inj (congrArg AgentTask.retryOfTaskID hclone)
  have hrow : p' = p :=
    q.eq_of_key (hl'.mem p' (h'.retried p' hp')) (hl.mem p (h.retried p hp)) hid
  exact hrow ▸ hp'

end Loop

/-! ## Rows that do not compete -/

section Apart

variable {resolve : AgentTask → Option UUID} {now : Timestamp} {q : TaskTable}
  {issues : IssueTable} {l : List AgentTask}

theorem Apart.init {t : AgentTask} (h : Apart q (l ++ [t])) : Apart q l :=
  fun r hr r' hr' => h r (List.mem_append_left _ hr) r' (List.mem_append_left _ hr')

theorem Apart.perm {l' : List AgentTask} (h : Apart q l) (hp : l.Perm l') : Apart q l' :=
  fun r hr r' hr' => h r (hp.mem_iff.2 hr) r' (hp.mem_iff.2 hr')

theorem Whole.perm {l' : List AgentTask} (h : Whole q issues l) (hp : l.Perm l') :
    Whole q issues l' :=
  fun r hr r' hr' => h r (hp.mem_iff.2 hr) r' (hp.mem_iff.2 hr')

/-- At its turn a row is retried if it would have been at first. -/
theorem canRetry_now {s : State} (h : Grown now q l s)
    (hretried : s.retried = l.filter (canRetry q)) {t : AgentTask} (hnew : t ∉ l)
    (hapart : Apart q (l ++ [t])) : canRetry s.tasks t = canRetry q t := by
  rw [Bool.eq_iff_iff]
  unfold canRetry
  rw [Bool.and_eq_true, Bool.and_eq_true, slotFree_iff, slotFree_iff]
  constructor
  · rintro ⟨helig, hfree⟩
    exact ⟨helig, fun k hk r hr => hfree k hk r (h.keeps r hr)⟩
  · rintro ⟨helig, hfree⟩
    refine ⟨helig, fun k hk r hr hrk => ?_⟩
    rcases (h.pending_iff k).1 ⟨r, hr, hrk⟩ with ⟨r', hr', hk'⟩ | ⟨p, hp, hpk⟩
    · exact hfree k hk r' hr' hk'
    · -- another row of the list has that slot
      rw [hretried] at hp
      obtain ⟨hpl, hpcan⟩ := List.mem_filter.1 hp
      have hcan : canRetry q t = true := by
        unfold canRetry
        rw [Bool.and_eq_true, slotFree_iff]
        exact ⟨helig, hfree⟩
      have heq := hapart t (List.mem_append_right _ (List.mem_singleton_self t)) p
        (List.mem_append_left _ hpl) hcan hpcan (hk.trans hpk.symm) (by rw [hk]; simp)
      exact hnew (heq ▸ hpl)

/-- What is retried is what would be retried first. -/
theorem retried_eq (resolve : AgentTask → Option UUID) (now : Timestamp) (issues : IssueTable)
    (hl : JustFailed q l) (hapart : Apart q l) :
    (handleFailedTasks resolve now q issues l).retried = l.filter (canRetry q) := by
  induction l using List.reverseRecOn with
  | nil => rfl
  | append_singleton l t ih =>
    have ih := ih hl.init hapart.init
    have hgrown := grown resolve now issues hl.init
    have hcan := canRetry_now hgrown ih hl.last hapart
    have hmem : t ∈ (handleFailedTasks resolve now q issues l).tasks.rows :=
      hgrown.keeps t (hl.mem t (List.mem_append_right _ (List.mem_singleton_self t)))
    rw [handleFailedTasks_append, List.filter_append, ← ih, retried_handleFailedTask]
    rcases retry_cases now hmem with ⟨hnot, hsame⟩ | ⟨q', hyes, -, hretry⟩
    · rw [hsame, List.filter_singleton, ← hcan, hnot]
      exact (List.append_nil _).symm
    · rw [hretry, List.filter_singleton, ← hcan, hyes]
      rfl

/-- The first row of the list on an issue. -/
def firstOn (l : List AgentTask) (issueID : UUID) : Option AgentTask :=
  l.find? fun t => t.issueID == some issueID

/-- The loop looks at an issue in progress whose first row is not retried. -/
def looksAt (q : TaskTable) (issues : IssueTable) (l : List AgentTask) (issueID : UUID) : Bool :=
  inProgress issues issueID && (firstOn l issueID).any fun t => !canRetry q t

/-- It resets the issue where nothing is active. -/
def resets (q : TaskTable) (issues : IssueTable) (l : List AgentTask) (issueID : UUID) : Bool :=
  looksAt q issues l issueID && !hasActiveTaskForIssue q issueID

/-- The issues and the marks of the loop, said of the rows alone. -/
structure Reset (q : TaskTable) (issues : IssueTable) (l : List AgentTask) (s : State) :
    Prop where
  row : ∀ issueID, s.issues.get? issueID = (issues.get? issueID).map fun r =>
    if resets q issues l issueID then { r with status := .todo } else r
  processed : ∀ issueID, issueID ∈ s.processedIssues ↔ looksAt q issues l issueID = true

theorem firstOn_append {t : AgentTask} (issueID : UUID) :
    firstOn (l ++ [t]) issueID =
      (firstOn l issueID).or (if t.issueID = some issueID then some t else none) := by
  unfold firstOn
  rw [List.find?_append, List.find?_singleton]
  simp

/-- A row on another issue, or on one that has had its first row, is not looked at. -/
theorem looksAt_append_of_some {t f : AgentTask} {issueID : UUID}
    (hfirst : firstOn l issueID = some f) :
    looksAt q issues (l ++ [t]) issueID = looksAt q issues l issueID := by
  unfold looksAt
  rw [firstOn_append, hfirst, Option.some_or]

theorem looksAt_append_of_ne {t : AgentTask} {issueID : UUID} (hne : t.issueID ≠ some issueID) :
    looksAt q issues (l ++ [t]) issueID = looksAt q issues l issueID := by
  unfold looksAt
  rw [firstOn_append, if_neg hne, Option.or_none]

/-- The first row of an issue decides. -/
theorem looksAt_append_first (q : TaskTable) (issues : IssueTable) {t : AgentTask}
    {issueID : UUID} (ht : t.issueID = some issueID) (hfirst : firstOn l issueID = none) :
    looksAt q issues (l ++ [t]) issueID = (inProgress issues issueID && !canRetry q t) := by
  unfold looksAt
  rw [firstOn_append, hfirst, if_pos ht, Option.none_or, Option.any_some]

theorem looksAt_of_none {issueID : UUID} (hfirst : firstOn l issueID = none) :
    looksAt q issues l issueID = false := by
  unfold looksAt
  rw [hfirst, Option.any_none, Bool.and_false]

theorem Reset.of_same {s s' : State} {t : AgentTask} (h : Reset q issues l s)
    (hissues : s'.issues = s.issues) (hprocessed : s'.processedIssues = s.processedIssues)
    (hlooks : ∀ issueID, t.issueID = some issueID →
      looksAt q issues (l ++ [t]) issueID = looksAt q issues l issueID) :
    Reset q issues (l ++ [t]) s' := by
  have hall : ∀ issueID, looksAt q issues (l ++ [t]) issueID = looksAt q issues l issueID := by
    intro issueID
    by_cases ht : t.issueID = some issueID
    · exact hlooks issueID ht
    · exact looksAt_append_of_ne ht
  constructor
  · intro issueID
    unfold resets
    rw [hissues, hall]
    exact h.row issueID
  · intro issueID
    rw [hprocessed, hall]
    exact h.processed issueID

/-- An issue that is not in progress is left alone. -/
theorem resetIfStuck_of_not {s : State} {t : AgentTask} {issueID : UUID}
    (ht : t.issueID = some issueID)
    (hnot : inProgress s.issues issueID = false ∨ issueID ∈ s.processedIssues ∨
      issueID ∈ s.retriedIssues) : resetIfStuck s t = s := by
  unfold resetIfStuck
  rw [ht]
  dsimp only
  cases hissue : s.issues.get? issueID with
  | none => rfl
  | some issue =>
    refine if_neg ?_
    rintro ⟨hstatus, hprocessed, hretried⟩
    rcases hnot with hnot | hnot | hnot
    · unfold inProgress at hnot
      rw [hissue, Option.any_some, hstatus] at hnot
      cases hnot
    · exact hprocessed hnot
    · exact hretried hnot

/-- The issue that the loop looks at. -/
theorem resetIfStuck_of_stuck {s : State} {t : AgentTask} {issueID : UUID} {issue : Issue}
    (ht : t.issueID = some issueID) (hissue : s.issues.get? issueID = some issue)
    (hstatus : issue.status = .inProgress) (hprocessed : issueID ∉ s.processedIssues)
    (hretried : issueID ∉ s.retriedIssues) :
    (resetIfStuck s t).processedIssues = issueID :: s.processedIssues ∧
      (resetIfStuck s t).issues = if hasActiveTaskForIssue s.tasks issueID then s.issues
        else s.issues.exec (updateIssueStatusStmt issueID issue.workspaceId .todo) := by
  unfold resetIfStuck
  rw [ht]
  dsimp only
  rw [hissue]
  dsimp only
  rw [if_pos ⟨hstatus, hprocessed, hretried⟩]
  cases hasActiveTaskForIssue s.tasks issueID with
  | false => exact ⟨rfl, rfl⟩
  | true => exact ⟨rfl, rfl⟩

theorem get?_todo {t : IssueTable} {issueID : UUID} {issue : Issue}
    (hissue : t.get? issueID = some issue) (x : UUID) :
    (t.exec (updateIssueStatusStmt issueID issue.workspaceId .todo)).get? x =
      (t.get? x).map fun r => if x = issueID then { r with status := .todo } else r := by
  rw [ChildDone.get?_exec (ChildDone.status_key issueID issue.workspaceId .todo)]
  cases hx : t.get? x with
  | none => rfl
  | some r =>
    have hid : r.id = x := (Table.get?_eq_some.1 hx).2
    rw [Option.map_some, Option.map_some]
    by_cases hxi : x = issueID
    · subst hxi
      obtain rfl := Option.some.inj (hissue.symm.trans hx)
      rw [if_pos rfl, ChildDone.status_self hid rfl]
    · rw [if_neg hxi, ChildDone.status_other (hid ▸ hxi)]

theorem inProgress_of_row {s : State} (h : Reset q issues l s) {issueID : UUID}
    (hlooks : looksAt q issues l issueID = false) :
    s.issues.get? issueID = issues.get? issueID := by
  rw [h.row issueID]
  have hresets : resets q issues l issueID = false := by
    unfold resets
    rw [hlooks, Bool.false_and]
  rw [hresets]
  exact Option.map_id'

theorem Reset.step {s s₁ : State} {t : AgentTask} (h : Reset q issues l s)
    (hissues : s₁.issues = s.issues) (hprocessed : s₁.processedIssues = s.processedIssues)
    (hgrown : Grown now q (l ++ [t]) s₁)
    (hretried : s₁.retried = (l ++ [t]).filter (canRetry q)) :
    Reset q issues (l ++ [t]) (resetIfStuck s₁ t) := by
  cases ht : t.issueID with
  | none =>
    have hsame : resetIfStuck s₁ t = s₁ := by
      unfold resetIfStuck
      rw [ht]
    rw [hsame]
    refine h.of_same hissues hprocessed fun issueID hissue => ?_
    rw [ht] at hissue
    cases hissue
  | some issueID =>
    -- who is among the retried keeps the issue from being looked at
    have hkept : ∀ p ∈ l ++ [t], p.issueID = some issueID → canRetry q p = true →
        issueID ∈ s₁.retriedIssues := by
      intro p hp hissue hcan
      refine (hgrown.retriedIssues issueID).2 ⟨p, ?_, hissue⟩
      rw [hretried]
      exact List.mem_filter.2 ⟨hp, hcan⟩
    have hleft : ∀ b, looksAt q issues (l ++ [t]) issueID = b →
        looksAt q issues l issueID = b → resetIfStuck s₁ t = s₁ →
        Reset q issues (l ++ [t]) (resetIfStuck s₁ t) := by
      intro b hnow hbefore hsame
      rw [hsame]
      refine h.of_same hissues hprocessed fun x hx => ?_
      obtain rfl := Option.some.inj (ht.symm.trans hx)
      rw [hnow, hbefore]
    cases hfirst : firstOn l issueID with
    | some f =>
      have hf : f.issueID = some issueID := by simpa using List.find?_some hfirst
      refine hleft _ (looksAt_append_of_some hfirst) rfl (resetIfStuck_of_not ht ?_)
      cases hcan : canRetry q f with
      | true =>
        exact .inr (.inr (hkept f (List.mem_append_left _ (List.mem_of_find?_eq_some hfirst))
          hf hcan))
      | false =>
        cases hlooks : looksAt q issues l issueID with
        | true =>
          refine .inr (.inl ?_)
          rw [hprocessed, h.processed]
          exact hlooks
        | false =>
          refine .inl ?_
          unfold inProgress
          rw [hissues, inProgress_of_row h hlooks]
          unfold looksAt at hlooks
          rw [hfirst, Option.any_some, hcan, Bool.not_false, Bool.and_true] at hlooks
          exact hlooks
    | none =>
      have hbefore : looksAt q issues l issueID = false := looksAt_of_none hfirst
      have hnow := looksAt_append_first q issues ht hfirst
      have hrow : s₁.issues.get? issueID = issues.get? issueID := by
        rw [hissues]
        exact inProgress_of_row h hbefore
      cases hcan : canRetry q t with
      | true =>
        rw [hcan, Bool.not_true, Bool.and_false] at hnow
        exact hleft false hnow hbefore (resetIfStuck_of_not ht (.inr (.inr
          (hkept t (List.mem_append_right _ (List.mem_singleton_self t)) ht hcan))))
      | false =>
        rw [hcan, Bool.not_false, Bool.and_true] at hnow
        cases hprogress : inProgress issues issueID with
        | false =>
          rw [hprogress] at hnow
          refine hleft false hnow hbefore (resetIfStuck_of_not ht (.inl ?_))
          unfold inProgress at hprogress ⊢
          rw [hrow]
          exact hprogress
        | true =>
          rw [hprogress] at hnow
          -- the first row of the issue, not retried
          have hnone : ¬ ∃ p ∈ s₁.retried, p.issueID = some issueID := by
            rintro ⟨p, hp, hissue⟩
            rw [hretried] at hp
            obtain ⟨hp, hpcan⟩ := List.mem_filter.1 hp
            rcases List.mem_append.1 hp with hp | hp
            · have habsent := List.find?_eq_none.1 hfirst p hp
              simp [hissue] at habsent
            · obtain rfl := List.mem_singleton.1 hp
              rw [hcan] at hpcan
              cases hpcan
          have hactive : hasActiveTaskForIssue s₁.tasks issueID =
              hasActiveTaskForIssue q issueID := by
            rw [Bool.eq_iff_iff, hgrown.active_iff]
            exact ⟨fun hor => hor.resolve_right hnone, .inl⟩
          obtain ⟨issue, hissue, hstatus⟩ : ∃ issue, issues.get? issueID = some issue ∧
              issue.status = .inProgress := by
            unfold inProgress at hprogress
            obtain ⟨issue, hissue, hstatus⟩ := (Option.any_eq_true _ _).1 hprogress
            exact ⟨issue, hissue, by simpa using hstatus⟩
          have hunprocessed : issueID ∉ s₁.processedIssues := by
            rw [hprocessed, h.processed, hbefore]
            exact Bool.false_ne_true
          have hunretried : issueID ∉ s₁.retriedIssues := by
            rw [hgrown.retriedIssues]
            exact hnone
          obtain ⟨hmarked, hset⟩ := resetIfStuck_of_stuck ht (hrow.trans hissue) hstatus
            hunprocessed hunretried
          rw [hactive] at hset
          constructor
          · intro x
            rw [hset]
            by_cases hx : x = issueID
            · subst hx
              unfold resets
              rw [hnow, Bool.true_and]
              cases hasActiveTaskForIssue q x with
              | true =>
                rw [if_pos rfl, hrow]
                exact Option.map_id'.symm
              | false =>
                rw [if_neg Bool.false_ne_true, get?_todo (hrow.trans hissue), hrow]
                simp
            · have hother : resets q issues (l ++ [t]) x = resets q issues l x := by
                unfold resets
                rw [looksAt_append_of_ne]
                rw [ht]
                exact fun heq => hx (Option.some.inj heq).symm
              rw [hother, ← h.row x, ← hissues]
              cases hasActiveTaskForIssue q issueID with
              | true => rw [if_pos rfl]
              | false =>
                rw [if_neg Bool.false_ne_true, get?_todo (hrow.trans hissue)]
                simp [hx]
          · intro x
            rw [hmarked, List.mem_cons, hprocessed, h.processed]
            by_cases hx : x = issueID
            · subst hx
              rw [hnow]
              exact ⟨fun _ => rfl, fun _ => .inl rfl⟩
            · rw [looksAt_append_of_ne]
              · exact ⟨fun hor => hor.resolve_left hx, .inr⟩
              · rw [ht]
                exact fun heq => hx (Option.some.inj heq).symm

theorem reset (resolve : AgentTask → Option UUID) (now : Timestamp) (issues : IssueTable)
    (hl : JustFailed q l) (hapart : Apart q l) :
    Reset q issues l (handleFailedTasks resolve now q issues l) := by
  induction l using List.reverseRecOn with
  | nil =>
    have hnone : ∀ issueID, looksAt q issues [] issueID = false := fun _ => looksAt_of_none rfl
    constructor
    · intro issueID
      unfold resets
      rw [hnone, Bool.false_and]
      exact Option.map_id'.symm
    · intro issueID
      rw [hnone]
      simp [handleFailedTasks]
  | append_singleton l t ih =>
    have hmem : t ∈ q.rows := hl.mem t (List.mem_append_right _ (List.mem_singleton_self t))
    have hgrown := (grown resolve now issues hl.init).retry hmem
    have hretried := retried_eq resolve now issues hl hapart
    rw [handleFailedTasks_append] at hretried ⊢
    rw [retried_handleFailedTask] at hretried
    have hkept : (retry now (handleFailedTasks resolve now q issues l) t).issues =
        (handleFailedTasks resolve now q issues l).issues ∧
      (retry now (handleFailedTasks resolve now q issues l) t).processedIssues =
        (handleFailedTasks resolve now q issues l).processedIssues := by
      rcases retry_cases now ((grown resolve now issues hl.init).keeps t hmem) with
        ⟨-, hsame⟩ | ⟨q', -, -, hretry⟩
      · rw [hsame]
        exact ⟨rfl, rfl⟩
      · rw [hretry]
        exact ⟨rfl, rfl⟩
    have hstep := (ih hl.init hapart.init).step hkept.1 hkept.2 hgrown hretried
    unfold handleFailedTask
    obtain ⟨events, hpublish⟩ := publish_eq resolve
      (resetIfStuck (retry now (handleFailedTasks resolve now q issues l) t) t) t
    rw [hpublish]
    exact ⟨hstep.row, hstep.processed⟩

/-! ## The outcome of one order -/

/-- The row of an issue in progress is in `todo` where the loop resets it. -/
theorem isTodo_iff {s : State} (h : Reset q issues l s) {issueID : UUID}
    (hprogress : inProgress issues issueID = true) :
    isTodo s.issues issueID = resets q issues l issueID := by
  unfold inProgress at hprogress
  obtain ⟨issue, hissue, hstatus⟩ := (Option.any_eq_true _ _).1 hprogress
  rw [beq_iff_eq] at hstatus
  unfold isTodo
  rw [h.row issueID, hissue, Option.map_some, Option.any_some]
  cases resets q issues l issueID with
  | true => rfl
  | false =>
    rw [if_neg Bool.false_ne_true, hstatus]
    rfl

/-- Afterwards a task is active if one was, or a row of the issue can be retried. -/
theorem active_after {s : State} (hgrown : Grown now q l s)
    (hretried : s.retried = l.filter (canRetry q)) (issueID : UUID) :
    hasActiveTaskForIssue s.tasks issueID = true ↔ hasActiveTaskForIssue q issueID = true ∨
      ∃ p ∈ l, canRetry q p = true ∧ p.issueID = some issueID := by
  rw [hgrown.active_iff, hretried]
  simp only [List.mem_filter, and_assoc]

theorem settled_of_whole (hl : JustFailed q l) (hapart : Apart q l)
    (hwhole : Whole q issues l) : Settled issues l (handleFailedTasks resolve now q issues l) := by
  rintro issueID hprogress ⟨t, ht, hissue⟩
  have hafter := active_after (grown resolve now issues hl)
    (retried_eq resolve now issues hl hapart) issueID
  rw [isTodo_iff (reset resolve now issues hl hapart) hprogress]
  have hsome : (firstOn l issueID).isSome := by
    unfold firstOn
    rw [List.find?_isSome]
    exact ⟨t, ht, by simpa using hissue⟩
  obtain ⟨f, hf⟩ := Option.isSome_iff_exists.1 hsome
  have hfl : f ∈ l := List.mem_of_find?_eq_some hf
  have hfissue : f.issueID = some issueID := by simpa using List.find?_some hf
  unfold resets looksAt
  rw [hprogress, hf, Option.any_some, Bool.true_and, Bool.and_eq_true, Bool.not_eq_true',
    Bool.not_eq_true', ← Bool.not_eq_true, ← Bool.not_eq_true, ← Bool.not_eq_true, hafter,
    not_or]
  constructor
  · rintro ⟨hcan, hactive⟩
    refine ⟨hactive, ?_⟩
    rintro ⟨p, hp, hpcan, hpissue⟩
    have hsame := hwhole f hfl p hp (hfissue.trans hpissue.symm)
      ⟨issueID, hfissue, hprogress, by simpa using hactive⟩
    exact hcan (hsame.trans hpcan)
  · rintro ⟨hactive, hnone⟩
    exact ⟨fun hcan => hnone ⟨f, hfl, hcan, hfissue⟩, hactive⟩

end Apart

/-! ## Every order -/

section Order

variable {resolve : AgentTask → Option UUID} {now : Timestamp} {q : TaskTable}
  {issues : IssueTable} {l : List AgentTask}

theorem mem_retried_foldl {s : State} {p : AgentTask} (hp : p ∈ s.retried)
    (rest : List AgentTask) : p ∈ (rest.foldl (handleFailedTask resolve now) s).retried := by
  induction rest generalizing s with
  | nil => exact hp
  | cons t rest ih =>
    refine ih ?_
    rw [retried_handleFailedTask]
    unfold retry
    cases Chat.maybeRetryFailedTask now s.tasks t (Routing.newTaskID s.tasks) with
    | none => exact hp
    | some q' => exact List.mem_append_left _ hp

/-- A row that can be retried is, where it comes first. -/
theorem first_retried (resolve : AgentTask → Option UUID) (now : Timestamp)
    (issues : IssueTable) {t : AgentTask} (ht : t ∈ q.rows) (hcan : canRetry q t = true)
    (rest : List AgentTask) :
    t ∈ (handleFailedTasks resolve now q issues (t :: rest)).retried := by
  refine mem_retried_foldl ?_ rest
  rw [retried_handleFailedTask]
  have hmem : t ∈ ({ tasks := q, issues := issues } : State).tasks.rows := ht
  rcases retry_cases now hmem with ⟨hnot, -⟩ | ⟨q', -, -, hretry⟩
  · rw [show canRetry q t = false from hnot] at hcan
    cases hcan
  · rw [hretry]
    exact List.mem_append_right _ (List.mem_singleton_self t)

theorem apart_of_orderFree (hl : JustFailed q l) (h : OrderFree resolve now q issues l) :
    Apart q l := by
  intro t ht t' ht' hcan hcan' hslot hsome
  by_contra hne
  have hp := List.perm_cons_erase ht
  have hp' := List.perm_cons_erase ht'
  have hgrown := grown resolve now issues (hl.perm hp)
  have hgrown' := grown resolve now issues (hl.perm hp')
  have hsame := ((h _ hp').1).trans ((h _ hp).1).symm
  -- the second row is retried where it comes first, so also where it does not
  have hfirst := first_retried resolve now issues (hl.mem t ht) hcan (l.erase t)
  have hsecond := retried_of_children (hl.perm hp') hgrown' (hl.perm hp) hgrown hsame
    (first_retried resolve now issues (hl.mem t' ht') hcan' (l.erase t'))
  have hsymm : Std.Symm fun p p' : AgentTask => slot p = slot p' → slot p = none :=
    ⟨fun p p' hpp' heq => heq.trans (hpp' heq.symm)⟩
  exact hsome (hgrown.apart.forall hfirst hsecond hne hslot)

theorem not_settled_of_first {t p : AgentTask} {rest : List AgentTask} {issueID : UUID}
    (hl : JustFailed q (t :: rest)) (hapart : Apart q (t :: rest))
    (ht : t.issueID = some issueID) (hnot : canRetry q t = false) (hp : p ∈ t :: rest)
    (hpissue : p.issueID = some issueID) (hcan : canRetry q p = true)
    (hprogress : inProgress issues issueID = true)
    (hactive : hasActiveTaskForIssue q issueID = false) :
    ¬ Settled issues (t :: rest) (handleFailedTasks resolve now q issues (t :: rest)) := by
  intro hsettled
  have hafter := (active_after (grown resolve now issues hl)
    (retried_eq resolve now issues hl hapart) issueID).2 (.inr ⟨p, hp, hcan, hpissue⟩)
  have hiff := hsettled issueID hprogress ⟨t, List.mem_cons_self, ht⟩
  rw [isTodo_iff (reset resolve now issues hl hapart) hprogress] at hiff
  have hfirst : firstOn (t :: rest) issueID = some t := by simp [firstOn, ht]
  have hresets : resets q issues (t :: rest) issueID = true := by
    unfold resets looksAt
    rw [hfirst, Option.any_some, hnot, hprogress, hactive]
    rfl
  rw [hiff.1 hresets] at hafter
  cases hafter

theorem whole_of_orderFree (hl : JustFailed q l) (h : OrderFree resolve now q issues l) :
    Whole q issues l := by
  have hapart := apart_of_orderFree hl h
  rintro t ht t' ht' hissue ⟨issueID, htissue, hprogress, hactive⟩
  have ht'issue : t'.issueID = some issueID := hissue.symm.trans htissue
  cases hcan : canRetry q t with
  | true =>
    cases hcan' : canRetry q t' with
    | true => rfl
    | false =>
      have hp := List.perm_cons_erase ht'
      exact absurd (h _ hp).2 (not_settled_of_first (hl.perm hp) (hapart.perm hp) ht'issue hcan'
        (hp.mem_iff.1 ht) htissue hcan hprogress hactive)
  | false =>
    cases hcan' : canRetry q t' with
    | false => rfl
    | true =>
      have hp := List.perm_cons_erase ht
      exact absurd (h _ hp).2 (not_settled_of_first (hl.perm hp) (hapart.perm hp) htissue hcan
        (hp.mem_iff.1 ht') ht'issue hcan' hprogress hactive)

theorem orderFree_of (hl : JustFailed q l) (hapart : Apart q l) (hwhole : Whole q issues l) :
    OrderFree resolve now q issues l := by
  intro l' hp
  have hl' := hl.perm hp
  refine ⟨?_, settled_of_whole hl' (hapart.perm hp) (hwhole.perm hp)⟩
  ext c
  rw [mem_retryChildren (grown resolve now issues hl'),
    mem_retryChildren (grown resolve now issues hl),
    retried_eq resolve now issues hl' (hapart.perm hp), retried_eq resolve now issues hl hapart]
  simp only [List.mem_filter, hp.mem_iff]

end Order

/-- The order of a batch does not matter if and only if no two rows are retried into one slot
and no stuck issue has both a row that is retried and one that is not. In any order, an issue has
an active task afterwards if it had one or a row of it was retried. -/
theorem orderFree_iff (resolve : AgentTask → Option UUID) (now : Timestamp) (q : TaskTable)
    (issues : IssueTable) (l : List AgentTask) (hl : JustFailed q l) :
    (OrderFree resolve now q issues l ↔ Apart q l ∧ Whole q issues l) ∧
    ∀ issueID,
      hasActiveTaskForIssue (handleFailedTasks resolve now q issues l).tasks issueID = true ↔
        hasActiveTaskForIssue q issueID = true ∨
          ∃ p ∈ (handleFailedTasks resolve now q issues l).retried, p.issueID = some issueID := by
  refine ⟨⟨?_, ?_⟩, (grown resolve now issues hl).active_iff⟩
  · intro h
    exact ⟨apart_of_orderFree hl h, whole_of_orderFree hl h⟩
  · rintro ⟨hapart, hwhole⟩
    exact orderFree_of hl hapart hwhole

/-- Rows of three agents on one issue, failed with their runtime; the first has no attempt
left. -/
def spent : AgentTask :=
  { id := 1, agentID := 1, runtimeID := 1, issueID := some 7, status := .failed, createdAt := 0
    attempt := 2, failureReason := some "runtime_offline" }

def lost : AgentTask :=
  { id := 2, agentID := 2, runtimeID := 1, issueID := some 7, status := .failed, createdAt := 0
    failureReason := some "runtime_offline" }

def lostToo : AgentTask := { lost with id := 3, agentID := 3 }

def offline : TaskTable := ⟨[spent, lost, lostToo], by decide, by decide⟩

def underWay : IssueTable := ⟨[{ id := 7, status := .inProgress }], by decide, by decide⟩

theorem orderFree_two_retries :
    OrderFree (fun _ => none) 0 offline underWay [lost, lostToo] := by
  have hall : ∀ t ∈ [lost, lostToo], canRetry offline t = true := by decide +kernel
  have hrows : JustFailed offline [lost, lostToo] := ⟨by decide, by decide, by decide⟩
  refine (orderFree_iff (fun _ => none) 0 offline underWay [lost, lostToo] hrows).1.2 ⟨?_, ?_⟩
  · unfold Apart
    decide +kernel
  · intro t ht t' ht' _ _
    rw [hall t ht, hall t' ht']

/-- The issue of a row without attempts moves to `todo`, and then another row of it is
retried. -/
theorem spent_row_resets :
    ¬ ∀ (q : TaskTable) (issues : IssueTable) (l : List AgentTask), JustFailed q l →
      OrderFree (fun _ => none) 0 q issues l := by
  intro h
  have hrows : JustFailed offline [spent, lost] := ⟨by decide, by decide, by decide⟩
  have hsettled := (h offline underWay [spent, lost] hrows [spent, lost] (List.Perm.refl _)).2 7
    (by decide) ⟨spent, by decide, rfl⟩
  have hreset : isTodo (handleFailedTasks (fun _ => none) 0 offline underWay
      [spent, lost]).issues 7 = true := by decide +kernel
  have hactive : hasActiveTaskForIssue (handleFailedTasks (fun _ => none) 0 offline underWay
      [spent, lost]).tasks 7 = true := by decide +kernel
  rw [hsettled.1 hreset] at hactive
  cases hactive

end Orynx.Sweep
