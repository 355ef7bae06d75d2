import Orynx.Issue.ChildDone
import Orynx.Lib.Machine
import Orynx.Lib.Parties
import Orynx.Routing.Outcome

/-! # Waking the parent of a closed stage

The children of one parent are completed side by side. Each completion commits its status and then
runs `notifyParentOfChildDone`, one statement a step, beside the steps of the task queue. The
parent is open, and its agent can run below the run cap.

* `Woken`: a notification that closed a stage has posted its comment, and after a comment the
  agent's task is claimed, or one is queued;
* `keepsWake`: the notification leaves its wake to no task that was claimed before its comment, and
  the queue loses none that a comment waits for;
* `parent_woken`: then all is woken in every run, and the first step that does not do so leaves
  a comment that wakes nobody;
* `dispatched_task_swallows_wake`: a task claimed before the comment makes the wake be dropped.
-/

namespace Orynx.StageWake

open Lib
open Autopilot (IssueStatus)
open ChildDone
open Orynx.Task (AgentTask TaskTable)

/-! ## Notifications -/

/-- The parent, the agent that works on it, and `GetSquadInWorkspace`. -/
structure Config where
  queue : Task.Config
  autoAdvance : Bool
  parentId : UUID
  agentId : UUID
  leaderOf : UUID → Option UUID

/-- The assignee, or the leader of the squad. -/
def Config.executingAgent (cfg : Config) (parent : Issue) : Option UUID :=
  match parent.assigneeType, parent.assigneeId with
  | some .agent, some id => some id
  | some .squad, some id => cfg.leaderOf id
  | _, _ => none

/-- `EnqueueTaskForMention` or `EnqueueTaskForSquadLeader`. -/
def Config.enqueue (cfg : Config) (env : Routing.Env) (now : Timestamp) (q : TaskTable)
    (parent : Issue) (comment : UUID) :
    Except Routing.EnqueueError (TaskTable × Option AgentTask) :=
  match parent.assigneeType, parent.assigneeId with
  | some .agent, some id => Routing.enqueueTaskForMention env now q id comment
  | some .squad, some id =>
    match cfg.leaderOf id with
    | some leader => Routing.enqueueTaskForSquadLeader env now q leader (some id) comment
    | none => .error .agentNotFound
  | _, _ => .error .noAssignee

/-- The next statement of a notification, with what it has read; `closed` is the barrier as it was
evaluated. -/
inductive Phase where
  | loadParent
  | listChildren (parent : Issue)
  | closeEpic (parent : Issue) (closed : Bool)
  | createComment (parent : Issue)
  | checkPending (parent : Issue) (comment : UUID)
  | enqueue (parent : Issue) (comment : UUID)
  | done
deriving DecidableEq, Repr

/-- The notification of one completion. `after` are the siblings as the completion left them;
`posted` says that the comment is there, and `claimed` that a task of the agent was claimed since:
these are history. -/
structure Notifier where
  completed : Issue
  after : List Issue
  phase : Phase := .loadParent
  posted : Bool := false
  claimed : Bool := false
deriving DecidableEq, Repr

/-! ## The machine -/

structure State where
  issues : IssueTable
  sys : Task.State
  notifiers : List Notifier

/-- The comment, or the end. -/
def commentIf (closed : Bool) (parent : Issue) : Phase :=
  if closed then .createComment parent else .done

/-- The agent is there, not archived and has a runtime. -/
def runnable (env : Routing.Env) (agent : UUID) : Bool :=
  (env.agent agent).any fun a => !a.archived && a.runtimeID.isSome

def Notifier.exec (cfg : Config) (s : State) (env : Routing.Env) (comment : UUID) (n : Notifier) :
    Option (State × Notifier) :=
  match n.phase with
  | .loadParent =>
    match n.completed.parentIssueId.bind s.issues.get? with
    | none => some (s, { n with phase := .done })
    | some parent =>
      if parentListens parent then some (s, { n with phase := .listChildren parent })
      else some (s, { n with phase := .done })
  | .listChildren parent =>
    let children := listChildIssues s.issues parent.id
    let closed := stageBarrierClosed children n.completed
    if cfg.autoAdvance && parent.status != .inReview && allChildrenTerminal children then
      some (s, { n with phase := .closeEpic parent closed })
    else some (s, { n with phase := commentIf closed parent })
  | .closeEpic parent closed =>
    some ({ s with
      issues := s.issues.exec (updateIssueStatusStmt parent.id parent.workspaceId .inReview) },
      { n with phase := commentIf closed parent })
  | .createComment parent =>
    some (s, { n with phase := .checkPending parent comment, posted := true })
  | .checkPending parent comment =>
    match cfg.executingAgent parent with
    | none => some (s, { n with phase := .done })
    | some agent =>
      if !runnable env agent ||
          Task.hasPendingTaskForIssueAndAgent s.sys.queue parent.id agent env.headSHA then
        some (s, { n with phase := .done })
      else some (s, { n with phase := .enqueue parent comment })
  | .enqueue parent comment =>
    match cfg.enqueue env s.sys.now s.sys.queue parent comment with
    | .error _ => some (s, { n with phase := .done })
    | .ok (q, _) => some ({ s with sys := { s.sys with queue := q } }, { n with phase := .done })
  | .done => none

/-- A task of the parent's agent on the parent. -/
def Config.owns (cfg : Config) (t : AgentTask) : Bool :=
  t.issueID == some cfg.parentId && t.agentID == cfg.agentId

def Config.ownsQueued (cfg : Config) (t : AgentTask) : Bool := cfg.owns t && t.status == .queued

def State.hasQueued (cfg : Config) (s : State) : Bool := s.sys.queue.rows.any cfg.ownsQueued

def State.hasDispatched (cfg : Config) (s : State) : Bool :=
  s.sys.queue.rows.any fun t => cfg.owns t && t.status == .dispatched

/-- The step claims a task of the agent. -/
def State.claims (cfg : Config) (s : State) : Task.Step → Bool
  | .claimAgentTask _ _ pick => s.sys.queue.rows.any fun t => t.id == pick && cfg.owns t
  | _ => false

def Notifier.witness (n : Notifier) (claims : Bool) : Notifier :=
  { n with claimed := n.claimed || n.posted && claims }

/-- What is assumed of everything a notification reads: it is about the parent, its agent can run,
and the run cap is not reached. -/
def State.assumes (cfg : Config) (s : State) (env : Routing.Env) : Bool :=
  env.issue.id == cfg.parentId && runnable env cfg.agentId &&
    !Routing.issueRunCapExceeded env s.sys.now s.sys.queue

inductive Act where
  | complete (id : UUID) (status : IssueStatus)
  | queue (step : Task.Step)
  | step (i : Nat) (env : Routing.Env) (comment : UUID)

def next (cfg : Config) (s : State) : Act → Option State
  | .complete id status =>
    match s.issues.get? id with
    | none => none
    | some prev =>
      if prev.parentIssueId = some cfg.parentId ∧ completes prev.status status then
        let issues := s.issues.exec (updateIssueStatusStmt id prev.workspaceId status)
        some { s with
          issues := issues
          notifiers := s.notifiers ++
            [{ completed := { prev with status := status }
               after := listChildIssues issues cfg.parentId }] }
      else none
  | .queue step =>
    (Task.next cfg.queue s.sys step).map fun sys =>
      { s with sys := sys, notifiers := s.notifiers.map fun n => n.witness (s.claims cfg step) }
  | .step i env comment =>
    match s.notifiers[i]? with
    | none => none
    | some n =>
      if s.assumes cfg env then
        (n.exec cfg s env comment).map fun (s', n') => { s' with notifiers := s.notifiers.set i n' }
      else none

/-- The parent is open, not parked, and worked on by the agent. -/
def Config.Parent (cfg : Config) (q : IssueTable) : Prop :=
  ∃ r, q.get? cfg.parentId = some r ∧ parentListens r = true ∧
    cfg.executingAgent r = some cfg.agentId ∧ r.parentIssueId ≠ some cfg.parentId

/-- Any issues below such a parent, and any queue. -/
def machine (cfg : Config) : Machine State Act where
  Init s := cfg.Parent s.issues ∧ s.notifiers = []
  next := next cfg

/-! ## The property -/

/-- The completion made every sibling of its stage and below terminal, up to some stage, or every
sibling of an unstaged set. -/
def Notifier.Closes (n : Notifier) : Prop :=
  (∀ c ∈ n.after, c.stage = none ∧ c.status.terminal = true) ∨
    ∃ S t, n.completed.stage = some t ∧ t ≤ S ∧
      ∀ c ∈ n.after, ∀ u, c.stage = some u → u ≤ S → c.status.terminal = true

/-- A notification that is over has posted for a closed stage, and its comment has woken the agent
or will. -/
def State.Woken (cfg : Config) (s : State) : Prop :=
  ∀ n ∈ s.notifiers, n.phase = .done →
    (n.Closes → n.posted = true) ∧
      (n.posted = true → n.claimed = true ∨ s.hasQueued cfg = true)

/-- No task of the agent has been claimed since the comment. -/
def Notifier.waits (n : Notifier) : Bool := n.phase == .done && n.posted && !n.claimed

/-- The attribution does not refuse the task. -/
def Config.attributed (cfg : Config) (env : Routing.Env) (q : TaskTable) (comment : UUID) : Bool :=
  (env.agent cfg.agentId).any fun a =>
    (Routing.issueAttribution env q a .delegation (some comment) none).toBool

/-- A notification that finds a pending task, or enqueues one, meets none that was claimed before
its comment, and the queue keeps the task that a comment waits for until it is claimed. -/
def keepsWake (cfg : Config) (s : State) : Act → Bool
  | .complete _ _ => true
  | .queue (.update stmt) =>
    !s.notifiers.any Notifier.waits ||
      s.sys.queue.rows.any fun t =>
        cfg.ownsQueued ((stmt.update s.sys.now s.sys.queue).apply t)
  | .queue _ => true
  | .step i env _ =>
    match s.notifiers[i]? with
    | none => true
    | some n =>
      match n.phase with
      | .checkPending _ _ =>
        n.claimed || !s.hasDispatched cfg ||
          !Task.hasPendingTaskForIssueAndAgent s.sys.queue cfg.parentId cfg.agentId env.headSHA
      | .enqueue _ comment =>
        n.claimed || s.hasQueued cfg ||
          !s.hasDispatched cfg && cfg.attributed env s.sys.queue comment
      | _ => true

/-! ## Siblings -/

section Siblings

variable {l l' l'' : List Issue} {completed : Issue} {q : IssueTable} {x : UUID}

/-- The same siblings in the same stages, and those that were terminal still are. -/
def Grown (l l' : List Issue) : Prop :=
  ∃ f : Issue → Issue, l' = l.map f ∧
    ∀ c ∈ l, (f c).stage = c.stage ∧ (c.status.terminal = true → (f c).status.terminal = true)

theorem Grown.refl (l : List Issue) : Grown l l :=
  ⟨id, (List.map_id l).symm, fun _ _ => ⟨rfl, fun h => h⟩⟩

theorem Grown.trans (h : Grown l l') (h' : Grown l' l'') : Grown l l'' := by
  rcases h with ⟨f, rfl, hf⟩
  rcases h' with ⟨g, rfl, hg⟩
  refine ⟨g ∘ f, List.map_map, fun c hc => ?_⟩
  have hgf := hg (f c) (List.mem_map.2 ⟨c, hc, rfl⟩)
  exact ⟨hgf.1.trans (hf c hc).1, fun hterm => hgf.2 ((hf c hc).2 hterm)⟩

/-- A closed barrier stays closed. -/
theorem stageBarrierClosed_grown (h : Grown l l')
    (hclosed : stageBarrierClosed l completed = true) :
    stageBarrierClosed l' completed = true := by
  rcases h with ⟨f, rfl, hf⟩
  have hstaged : siblingsAreStaged (l.map f) = siblingsAreStaged l := by
    rw [siblingsAreStaged, siblingsAreStaged, List.any_map, Bool.eq_iff_iff, List.any_eq_true,
      List.any_eq_true]
    refine exists_congr fun c => and_congr_right fun hc => ?_
    rw [Function.comp_apply, (hf c hc).1]
  unfold stageBarrierClosed at hclosed ⊢
  rw [hstaged]
  split at hclosed
  · rename_i hs
    rw [if_pos hs]
    split at hclosed
    · exact hclosed
    · simp only [List.all_map, List.all_eq_true, Function.comp_apply] at hclosed ⊢
      intro c hc
      rw [(hf c hc).1]
      have hbelow := hclosed c hc
      cases hstage : c.stage with
      | none => rfl
      | some t =>
        rw [hstage] at hbelow
        simp only [Option.all_some, Bool.or_eq_true] at hbelow ⊢
        exact hbelow.imp_right (hf c hc).2
  · rename_i hs
    rw [if_neg hs]
    simp only [List.all_map, List.all_eq_true, Function.comp_apply] at hclosed ⊢
    exact fun c hc => (hf c hc).2 (hclosed c hc)

theorem closed_of_closes {n : Notifier} (hmem : n.completed ∈ n.after) (h : n.Closes) :
    stageBarrierClosed n.after n.completed = true := by
  unfold stageBarrierClosed
  rcases h with hall | ⟨S, t, ht, htS, hbelow⟩
  · have hunstaged : siblingsAreStaged n.after = false := by
      rw [siblingsAreStaged, List.any_eq_false]
      intro c hc
      rw [(hall c hc).1]
      exact Bool.false_ne_true
    rw [hunstaged, if_neg Bool.false_ne_true, List.all_eq_true]
    exact fun c hc => (hall c hc).2
  · have hstaged : siblingsAreStaged n.after = true := by
      rw [siblingsAreStaged, List.any_eq_true]
      exact ⟨n.completed, hmem, by rw [ht]; rfl⟩
    rw [hstaged, if_pos rfl, ht]
    simp only [List.all_eq_true]
    intro c hc
    cases hstage : c.stage with
    | none => rfl
    | some u =>
      rw [Option.all_some, Bool.or_eq_true, Bool.not_eq_true', decide_eq_false_iff_not]
      by_cases hut : u ≤ t
      · exact .inr (hbelow c hc u hstage (Int.le_trans hut htS))
      · exact .inl hut

theorem children_exec (w : UUID) (st : IssueStatus) (p : UUID) :
    listChildIssues (q.exec (updateIssueStatusStmt x w st)) p =
      (listChildIssues q p).map (updateIssueStatusStmt x w st).apply := by
  rw [listChildIssues, listChildIssues, exec_rows (status_key x w st), List.filter_map]
  congr 1
  refine List.filter_congr fun r _ => ?_
  rw [Function.comp_apply, status_parent]

/-- A status that is terminal, or that no child gets, undoes no completion. -/
theorem grown_exec (w : UUID) (st : IssueStatus) (p : UUID)
    (h : st.terminal = true ∨ ∀ c ∈ listChildIssues q p, c.id ≠ x) :
    Grown (listChildIssues q p) (listChildIssues (q.exec (updateIssueStatusStmt x w st)) p) := by
  refine ⟨_, children_exec w st p, fun c hc => ?_⟩
  rcases h with hterm | hne
  · unfold Update.apply
    split
    · exact ⟨rfl, fun _ => hterm⟩
    · exact ⟨rfl, fun h => h⟩
  · rw [status_other (hne c hc)]
    exact ⟨rfl, fun h => h⟩

end Siblings

/-! ## The queue -/

section Queue

variable {cfg : Config} {s : State}

theorem owns_eq_true {t : AgentTask} :
    cfg.owns t = true ↔ t.issueID = some cfg.parentId ∧ t.agentID = cfg.agentId := by
  simp [Config.owns]

theorem hasQueued_eq_true : s.hasQueued cfg = true ↔
    ∃ t ∈ s.sys.queue.rows, cfg.owns t = true ∧ t.status = .queued := by
  simp [State.hasQueued, Config.ownsQueued]

theorem hasDispatched_eq_true : s.hasDispatched cfg = true ↔
    ∃ t ∈ s.sys.queue.rows, cfg.owns t = true ∧ t.status = .dispatched := by
  simp [State.hasDispatched]

/-- The agent has one pending task at most. -/
theorem not_queued_of_dispatched (h : s.hasDispatched cfg = true) : s.hasQueued cfg = false := by
  rcases hasDispatched_eq_true.1 h with ⟨t, ht, howns, hd⟩
  by_contra hq
  rcases hasQueued_eq_true.1 (by simpa using hq) with ⟨t', ht', howns', hq'⟩
  have ho := owns_eq_true.1 howns
  have ho' := owns_eq_true.1 howns'
  have heq : t = t' := Task.pending_unique ht ht' (by rw [hd]; rfl) (by rw [hq']; rfl)
    (by rw [ho.1]; exact Option.some_ne_none _) ⟨ho.1.trans ho'.1.symm, ho.2.trans ho'.2.symm⟩
  rw [heq, hq'] at hd
  cases hd

/-- What is pending and not dispatched is queued. -/
theorem queued_of_pending {sha : String}
    (h : Task.hasPendingTaskForIssueAndAgent s.sys.queue cfg.parentId cfg.agentId sha = true)
    (hd : s.hasDispatched cfg = false) : s.hasQueued cfg = true := by
  simp only [Task.hasPendingTaskForIssueAndAgent, List.any_eq_true, Bool.and_eq_true,
    beq_iff_eq] at h
  rcases h with ⟨t, ht, ⟨⟨hissue, hagent⟩, hpending⟩, -⟩
  have howns : cfg.owns t = true := owns_eq_true.2 ⟨hissue, hagent⟩
  rcases Task.TaskStatus.pending_cases.1 hpending with hq | hdisp
  · exact hasQueued_eq_true.2 ⟨t, ht, howns, hq⟩
  · rw [hasDispatched_eq_true.2 ⟨t, ht, howns, hdisp⟩] at hd
    cases hd

/-- A step of the queue that is no update keeps the queued task or claims it. -/
theorem queued_step {sys : Task.State} {step : Task.Step}
    (hn : Task.next cfg.queue s.sys step = some sys)
    (hstmt : ∀ stmt, step ≠ .update stmt) (hq : s.hasQueued cfg = true) :
    s.claims cfg step = true ∨ sys.queue.rows.any cfg.ownsQueued = true := by
  have hkeep : ∀ {q q' : TaskTable} {row : AgentTask}, q.insert? row = some q' →
      q.rows.any cfg.ownsQueued = true → q'.rows.any cfg.ownsQueued = true := by
    intro q q' row hins hany
    rcases List.any_eq_true.1 hany with ⟨t, ht, hown⟩
    exact List.any_eq_true.2 ⟨t, (Table.mem_insert? hins).2 (.inl ht), hown⟩
  cases Task.next_effect hn with
  | tick _ => exact .inr hq
  | lock _ => exact .inr hq
  | count _ => exact .inr hq
  | release _ => exact .inr hq
  | insert _ hins => exact .inr (hkeep hins hq)
  | update => exact absurd rfl (hstmt _)
  | @claim a locked pick running q hcounted hcap hpicked hupd =>
    rcases hasQueued_eq_true.1 hq with ⟨t, ht, howns, hstatus⟩
    by_cases hpick : t.id = pick
    · refine .inl (List.any_eq_true.2 ⟨t, ht, ?_⟩)
      rw [Bool.and_eq_true, beq_iff_eq]
      exact ⟨hpick, howns⟩
    · refine .inr (List.any_eq_true.2 ⟨t, (Table.mem_update? hupd).2 ⟨t, ht, ?_⟩, ?_⟩)
      · exact Task.claimAgentTask_other hpick
      · simp [Config.ownsQueued, howns, hstatus]
  | @fail c r failed hmem hsel hwant hupd =>
    rcases hasQueued_eq_true.1 hq with ⟨t, ht, howns, hstatus⟩
    refine .inr (List.any_eq_true.2 ⟨t, (Table.mem_update? hupd).2 ⟨t, ht, ?_⟩, ?_⟩)
    · refine Update.apply_of_not_sel (Bool.eq_false_iff.2 fun hsel => ?_)
      rw [Task.FailTaskCall.sel_iff, hstatus] at hsel
      cases hsel.2
    · simp [Config.ownsQueued, howns, hstatus]
  | @failRetry c r failed q hmem hsel hwant hupd hins =>
    rcases hasQueued_eq_true.1 hq with ⟨t, ht, howns, hstatus⟩
    refine .inr (hkeep hins (List.any_eq_true.2 ⟨t, (Table.mem_update? hupd).2 ⟨t, ht, ?_⟩, ?_⟩))
    · refine Update.apply_of_not_sel (Bool.eq_false_iff.2 fun hsel => ?_)
      rw [Task.FailTaskCall.sel_iff, hstatus] at hsel
      cases hsel.2
    · simp [Config.ownsQueued, howns, hstatus]

end Queue

/-! ## The enqueue -/

section Enqueue

variable {cfg : Config} {env : Routing.Env} {now : Timestamp} {q : TaskTable} {comment : UUID}

/-- A path gets through when the agent can run, the attribution does not refuse and the pair has
nothing pending. -/
theorem createTask_isOk {p : Routing.EnqueueParams} {a : Routing.Agent}
    (ha : env.agent p.agentID = some a) (hrun : runnable env p.agentID = true)
    (hattr : (Routing.issueAttribution env q a p.agentAuthoredSource p.triggerCommentID
      p.actorUserID).toBool = true)
    (hfree : ∀ t ∈ q.rows, t.status.pending = true → t.issueID = some env.issue.id →
      t.agentID ≠ p.agentID) :
    ∃ r, Routing.createTask env now q p = .ok r := by
  simp only [runnable, ha, Option.any_some, Bool.and_eq_true, Bool.not_eq_true',
    Option.isSome_iff_exists] at hrun
  rcases hrun with ⟨harchived, runtimeID, hruntime⟩
  have hagent : Routing.runnableAgent env p.agentID = .ok (a, runtimeID) := by
    simp [Routing.runnableAgent, ha, harchived, hruntime]
  cases hres : Routing.issueAttribution env q a p.agentAuthoredSource p.triggerCommentID
      p.actorUserID with
  | error e =>
    rw [hres] at hattr
    cases hattr
  | ok attr =>
    unfold Routing.createTask
    simp only [hagent, hres, bind, Except.bind]
    split
    · rename_i e hins
      exfalso
      unfold Task.insertStmt at hins
      split at hins
      · cases hins
      · rename_i hnone
        refine Option.isSome_iff_ne_none.1 (Table.insert?_isSome.2 ⟨?_, ?_⟩) hnone
        · exact fun t ht => Routing.newTaskID_ne ht
        · intro k hk t ht hkt
          obtain rfl : (env.issue.id, p.agentID) = k := Option.some.inj hk
          rcases Task.AgentTask.pendingKey_eq_some.1 hkt with ⟨hpending, hissue, hagentt⟩
          exact hfree t ht hpending hissue hagentt
    · exact ⟨_, rfl⟩

variable (env now q comment) in
/-- Both paths are the mention's, with parameters of their own. -/
theorem enqueue_eq {parent : Issue} (hexec : cfg.executingAgent parent = some cfg.agentId) :
    ∃ p : Routing.EnqueueParams,
      p.agentID = cfg.agentId ∧ p.triggerCommentID = some comment ∧
        p.coalescedCommentIDs = [] ∧ p.actorUserID = none ∧
          cfg.enqueue env now q parent comment =
            Routing.enqueueMentionTaskWithCommentPlan env now q p := by
  unfold Config.executingAgent at hexec
  unfold Config.enqueue
  split at hexec
  · rename_i id _ _
    obtain rfl : id = cfg.agentId := Option.some.inj hexec
    exact ⟨_, rfl, rfl, rfl, rfl, rfl⟩
  · simp only [hexec]
    exact ⟨_, rfl, rfl, rfl, rfl, rfl⟩
  · cases hexec

/-- Below the cap an enqueue that gets through adds a queued task of the agent. -/
theorem enqueue_ok {parent : Issue} {r : TaskTable × Option AgentTask}
    (hexec : cfg.executingAgent parent = some cfg.agentId) (hissue : env.issue.id = cfg.parentId)
    (hcap : Routing.issueRunCapExceeded env now q = false)
    (h : cfg.enqueue env now q parent comment = .ok r) :
    ∃ row, cfg.owns row = true ∧ row.status = .queued ∧ q.insert? row = some r.1 := by
  rcases enqueue_eq env now q comment hexec with ⟨p, hagent, htrigger, hcoalesced, -, heq⟩
  rw [heq] at h
  rcases Routing.enqueueMention_ok htrigger hcoalesced h with ⟨hover, -⟩ | ⟨-, row, hrow, -, hins⟩
  · rw [hover] at hcap
    cases hcap
  · exact ⟨row, owns_eq_true.2 ⟨hissue ▸ hrow.issueID, hagent ▸ hrow.agentID⟩, hrow.status, hins⟩

/-- It gets through when the attribution lets it and the agent has no pending task. -/
theorem enqueue_isOk {parent : Issue} (hexec : cfg.executingAgent parent = some cfg.agentId)
    (hissue : env.issue.id = cfg.parentId) (hrun : runnable env cfg.agentId = true)
    (hcap : Routing.issueRunCapExceeded env now q = false)
    (hattr : cfg.attributed env q comment = true)
    (hfree : ∀ t ∈ q.rows, t.status.pending = true → cfg.owns t = false) :
    ∃ r, cfg.enqueue env now q parent comment = .ok r := by
  rcases enqueue_eq env now q comment hexec with ⟨p, hagent, htrigger, -, hactor, heq⟩
  rcases (Option.any_eq_true _ _).1 hattr with ⟨a, ha, hok⟩
  have hfree' : ∀ t ∈ q.rows, t.status.pending = true → t.issueID = some env.issue.id →
      t.agentID ≠ p.agentID := by
    intro t ht hpending hi hat
    have howns : cfg.owns t = true := owns_eq_true.2 ⟨hi.trans (hissue ▸ rfl), hat.trans hagent⟩
    rw [hfree t ht hpending] at howns
    cases howns
  have hcreated : ∃ r, Routing.createTask env now q { p with agentAuthoredSource := .delegation } =
      .ok r := by
    refine createTask_isOk (a := a) (hagent ▸ ha) (hagent ▸ hrun) ?_ hfree'
    rw [htrigger, hactor]
    exact hok
  rcases hcreated with ⟨r, hr⟩
  rw [heq, Routing.enqueueMentionTaskWithCommentPlan, hcap, if_neg Bool.false_ne_true, hr]
  exact ⟨_, rfl⟩

/-- It does not when the attribution refuses. -/
theorem attributed_of_ok {parent : Issue} {r : TaskTable × Option AgentTask}
    (hexec : cfg.executingAgent parent = some cfg.agentId)
    (hcap : Routing.issueRunCapExceeded env now q = false)
    (h : cfg.enqueue env now q parent comment = .ok r) :
    cfg.attributed env q comment = true := by
  rcases enqueue_eq env now q comment hexec with ⟨p, hagent, htrigger, -, hactor, heq⟩
  rw [heq, Routing.enqueueMentionTaskWithCommentPlan, hcap, if_neg Bool.false_ne_true] at h
  unfold Routing.createTask at h
  cases hload : env.agent cfg.agentId with
  | none => simp [Routing.runnableAgent, hagent, hload, bind, Except.bind, Except.map] at h
  | some a =>
    cases hres : Routing.issueAttribution env q a .delegation (some comment) none with
    | ok attr => simp [Config.attributed, hload, hres, Except.toBool]
    | error e =>
      exfalso
      simp only [Routing.runnableAgent, hagent, hload, htrigger, hactor, bind, Except.bind] at h
      split at h
      · cases h
      · rename_i x hx
        obtain rfl : a = x.1 := by
          split at hx
          · cases hx
          · split at hx
            · cases hx
            · exact congrArg Prod.fst (Except.ok.inj hx)
        rw [hres] at h
        cases h

end Enqueue

/-! ## What holds of every notification -/

/-- The parent as the notification read it. -/
def Phase.parent : Phase → Option Issue
  | .listChildren p | .closeEpic p _ | .createComment p | .checkPending p _ | .enqueue p _ => some p
  | .loadParent | .done => none

/-- The statements after the comment. -/
def Phase.commented : Phase → Bool
  | .checkPending _ _ | .enqueue _ _ => true
  | _ => false

/-- The comment is there or to come. -/
def Notifier.Posts (n : Notifier) : Prop :=
  match n.phase with
  | .closeEpic _ closed => closed = true
  | .done => n.posted = true
  | _ => True

structure Notifier.Sound (cfg : Config) (s : State) (n : Notifier) : Prop where
  below : n.completed.parentIssueId = some cfg.parentId
  mem : n.completed ∈ n.after
  grown : Grown n.after (listChildIssues s.issues cfg.parentId)
  parent : ∀ p, n.phase.parent = some p →
    p.id = cfg.parentId ∧ cfg.executingAgent p = some cfg.agentId
  posts : n.Closes → n.Posts
  posted : n.phase ≠ .done → n.posted = n.phase.commented
  woken : n.waits = true → s.hasQueued cfg = true

structure Inv (cfg : Config) (s : State) : Prop where
  parent : cfg.Parent s.issues
  sound : ∀ n ∈ s.notifiers, n.Sound cfg s

section Steps

variable {cfg : Config} {s s' : State} {n n' : Notifier} {env : Routing.Env} {comment : UUID}

theorem waits_eq_true : n.waits = true ↔
    n.phase = .done ∧ n.posted = true ∧ n.claimed = false := by
  simp [Notifier.waits, and_assoc]

/-- Other parties complete siblings and queue tasks. -/
theorem Notifier.Sound.mono (h : n.Sound cfg s)
    (hgrown : Grown (listChildIssues s.issues cfg.parentId)
      (listChildIssues s'.issues cfg.parentId))
    (hq : s.hasQueued cfg = true → s'.hasQueued cfg = true) : n.Sound cfg s' :=
  { h with
    grown := h.grown.trans hgrown
    woken := fun hw => hq (h.woken hw) }

theorem woken_of_sound (h : ∀ n ∈ s.notifiers, n.Sound cfg s) : s.Woken cfg := by
  intro n hn hdone
  refine ⟨fun hcloses => ?_, fun hposted => ?_⟩
  · have hposts := (h n hn).posts hcloses
    rw [Notifier.Posts, hdone] at hposts
    exact hposts
  · by_cases hclaimed : n.claimed = true
    · exact .inl hclaimed
    · exact .inr ((h n hn).woken (waits_eq_true.2 ⟨hdone, hposted, by simpa using hclaimed⟩))

/-- A notification that waits beside an empty queue is not woken. -/
theorem not_woken (hn : n ∈ s.notifiers) (hw : n.waits = true) (hq : s.hasQueued cfg = false) :
    ¬ s.Woken cfg := by
  intro hwoken
  rcases waits_eq_true.1 hw with ⟨hdone, hposted, hclaimed⟩
  rcases (hwoken n hn hdone).2 hposted with hc | hq'
  · rw [hclaimed] at hc
    cases hc
  · rw [hq] at hq'
    cases hq'

/-- The parent's row is moved to a status it listens in, or not at all. -/
theorem Config.Parent.exec {q : IssueTable} (h : cfg.Parent q) (x w : UUID) (st : IssueStatus)
    (hst : x = cfg.parentId → st = .inReview) :
    cfg.Parent (q.exec (updateIssueStatusStmt x w st)) := by
  rcases h with ⟨r, hr, hlistens, hexec, hself⟩
  refine ⟨(updateIssueStatusStmt x w st).apply r, ?_, ?_, ?_, ?_⟩
  · rw [get?_exec (status_key x w st), hr]
    rfl
  · by_cases hx : r.id = x
    · rw [hst (hx ▸ (Table.get?_eq_some.1 hr).2)]
      unfold Update.apply
      split
      · simp only [parentListens, Bool.and_eq_true] at hlistens ⊢
        exact ⟨⟨rfl, rfl⟩, hlistens.2⟩
      · exact hlistens
    · rw [status_other hx]
      exact hlistens
  · unfold Update.apply
    split
    · exact hexec
    · exact hexec
  · rw [status_parent]
    exact hself

/-- What a notification does to the issues and to the queue. -/
theorem exec_state (h : n.exec cfg s env comment = some (s', n')) :
    s' = s ∨
      (∃ p closed, n.phase = .closeEpic p closed ∧ s' = { s with
        issues := s.issues.exec (updateIssueStatusStmt p.id p.workspaceId .inReview) }) ∨
      ∃ p c r, n.phase = .enqueue p c ∧ cfg.enqueue env s.sys.now s.sys.queue p c = .ok r ∧
        s' = { s with sys := { s.sys with queue := r.1 } } := by
  cases hphase : n.phase with
  | loadParent =>
    simp only [Notifier.exec, hphase] at h
    split at h
    · exact .inl (congrArg Prod.fst (Option.some.inj h)).symm
    · split at h
      · exact .inl (congrArg Prod.fst (Option.some.inj h)).symm
      · exact .inl (congrArg Prod.fst (Option.some.inj h)).symm
  | listChildren p =>
    simp only [Notifier.exec, hphase] at h
    split at h
    · exact .inl (congrArg Prod.fst (Option.some.inj h)).symm
    · exact .inl (congrArg Prod.fst (Option.some.inj h)).symm
  | closeEpic p closed =>
    simp only [Notifier.exec, hphase] at h
    exact .inr (.inl ⟨p, closed, rfl, (congrArg Prod.fst (Option.some.inj h)).symm⟩)
  | createComment p =>
    simp only [Notifier.exec, hphase] at h
    exact .inl (congrArg Prod.fst (Option.some.inj h)).symm
  | checkPending p c =>
    simp only [Notifier.exec, hphase] at h
    split at h
    · exact .inl (congrArg Prod.fst (Option.some.inj h)).symm
    · split at h
      · exact .inl (congrArg Prod.fst (Option.some.inj h)).symm
      · exact .inl (congrArg Prod.fst (Option.some.inj h)).symm
  | enqueue p c =>
    simp only [Notifier.exec, hphase] at h
    split at h
    · exact .inl (congrArg Prod.fst (Option.some.inj h)).symm
    · rename_i q r henq
      exact .inr (.inr ⟨p, c, (q, r), rfl, henq, (congrArg Prod.fst (Option.some.inj h)).symm⟩)
  | done =>
    simp only [Notifier.exec, hphase] at h
    cases h

theorem assumes_eq_true : s.assumes cfg env = true ↔
    env.issue.id = cfg.parentId ∧ runnable env cfg.agentId = true ∧
      Routing.issueRunCapExceeded env s.sys.now s.sys.queue = false := by
  simp [State.assumes, and_assoc]

/-- The parent stays the parent, closed stages stay closed and queued tasks stay queued. -/
theorem exec_frame (hparent : cfg.Parent s.issues) (hsound : n.Sound cfg s)
    (hassumes : s.assumes cfg env = true) (h : n.exec cfg s env comment = some (s', n')) :
    cfg.Parent s'.issues ∧
      Grown (listChildIssues s.issues cfg.parentId) (listChildIssues s'.issues cfg.parentId) ∧
        (s.hasQueued cfg = true → s'.hasQueued cfg = true) := by
  rcases assumes_eq_true.1 hassumes with ⟨hissue, -, hcap⟩
  rcases exec_state h with rfl | ⟨p, closed, hphase, rfl⟩ | ⟨p, c, r, hphase, henq, rfl⟩
  · exact ⟨hparent, .refl _, fun hq => hq⟩
  · have hp := (hsound.parent p (by rw [hphase]; rfl)).1
    refine ⟨hparent.exec _ _ _ fun _ => rfl, grown_exec _ _ _ (.inr fun c hc hid => ?_),
      fun hq => hq⟩
    -- the parent is no child of its own
    rcases hparent with ⟨r, hr, -, -, hself⟩
    rcases List.mem_filter.1 hc with ⟨hcrow, hcparent⟩
    obtain rfl : r = c := s.issues.eq_of_key (Table.get?_eq_some.1 hr).1 hcrow
      ((Table.get?_eq_some.1 hr).2.trans (hid.trans hp).symm)
    exact hself (beq_iff_eq.1 hcparent)
  · have hexec := (hsound.parent p (by rw [hphase]; rfl)).2
    rcases enqueue_ok hexec hissue hcap henq with ⟨row, -, -, hins⟩
    refine ⟨hparent, .refl _, fun hq => ?_⟩
    rcases hasQueued_eq_true.1 hq with ⟨t, ht, hown⟩
    exact hasQueued_eq_true.2 ⟨t, (Table.mem_insert? hins).2 (.inl ht), hown⟩

/-- The notification goes on, and keeps its promise of a comment. -/
theorem Notifier.Sound.goto (h : n.Sound cfg s) {phase : Phase}
    (hparent : ∀ p, phase.parent = some p →
      p.id = cfg.parentId ∧ cfg.executingAgent p = some cfg.agentId)
    (hposts : n.Closes → ({ n with phase := phase } : Notifier).Posts)
    (hposted : phase ≠ .done → n.posted = phase.commented)
    (hwoken : phase = .done → n.posted = true → n.claimed = false → s.hasQueued cfg = true) :
    ({ n with phase := phase } : Notifier).Sound cfg s where
  below := h.below
  mem := h.mem
  grown := h.grown
  parent := hparent
  posts := hposts
  posted := hposted
  woken hw := by
    rcases waits_eq_true.1 hw with ⟨hdone, hp, hc⟩
    exact hwoken hdone hp hc

/-- To the comment, if the stage was closed. -/
theorem Notifier.Sound.commentIf (h : n.Sound cfg s) {p : Issue} {closed : Bool}
    (hp : p.id = cfg.parentId ∧ cfg.executingAgent p = some cfg.agentId)
    (hclosed : n.Closes → closed = true) (hposted : n.posted = false) :
    ({ n with phase := StageWake.commentIf closed p } : Notifier).Sound cfg s := by
  cases closed with
  | true =>
    refine h.goto (fun p' hp' => ?_) (fun _ => trivial) (fun _ => hposted) fun h => by cases h
    obtain rfl : p = p' := Option.some.inj hp'
    exact hp
  | false =>
    refine h.goto (fun _ h => by cases h) (fun hc => by cases hclosed hc) (fun h => absurd rfl h)
      fun _ hp => ?_
    rw [hposted] at hp
    cases hp

/-- A step that keeps the wake goes on soundly. -/
theorem exec_sound (hparent : cfg.Parent s.issues) (hsound : n.Sound cfg s)
    (hassumes : s.assumes cfg env = true) {i : Nat} (hi : s.notifiers[i]? = some n)
    (hkeeps : keepsWake cfg s (.step i env comment) = true)
    (h : n.exec cfg s env comment = some (s', n')) : n'.Sound cfg s' := by
  rcases assumes_eq_true.1 hassumes with ⟨hissue, hrun, hcap⟩
  have hframe := exec_frame hparent hsound hassumes h
  rcases hparent with ⟨r, hr, hlistens, hexec, -⟩
  have hrid : r.id = cfg.parentId := (Table.get?_eq_some.1 hr).2
  cases hphase : n.phase with
  | loadParent =>
    have hposted := hsound.posted (by simp [hphase])
    simp only [Notifier.exec, hphase, hsound.below, Option.bind_some, hr, hlistens, if_true,
      Option.some.injEq, Prod.mk.injEq] at h
    rcases h with ⟨rfl, rfl⟩
    refine hsound.goto (fun p hp => ?_) (fun _ => trivial) (fun _ => ?_) fun h => by cases h
    · obtain rfl : r = p := Option.some.inj hp
      exact ⟨hrid, hexec⟩
    · rw [hposted, hphase]
      rfl
  | listChildren p =>
    have hp := hsound.parent p (by rw [hphase]; rfl)
    have hposted : n.posted = false := by
      rw [hsound.posted (by simp [hphase]), hphase]
      rfl
    -- later completions leave a closed barrier closed
    have hclosed : n.Closes →
        stageBarrierClosed (listChildIssues s.issues p.id) n.completed = true := fun hc =>
      stageBarrierClosed_grown (hp.1 ▸ hsound.grown) (closed_of_closes hsound.mem hc)
    simp only [Notifier.exec, hphase] at h
    split at h
    · simp only [Option.some.injEq, Prod.mk.injEq] at h
      rcases h with ⟨rfl, rfl⟩
      refine hsound.goto (fun p' hp' => ?_) hclosed (fun _ => hposted) fun h => by cases h
      obtain rfl : p = p' := Option.some.inj hp'
      exact hp
    · simp only [Option.some.injEq, Prod.mk.injEq] at h
      rcases h with ⟨rfl, rfl⟩
      exact hsound.commentIf hp hclosed hposted
  | closeEpic p closed =>
    have hp := hsound.parent p (by rw [hphase]; rfl)
    have hposted : n.posted = false := by
      rw [hsound.posted (by simp [hphase]), hphase]
      rfl
    have hclosed : n.Closes → closed = true := fun hc => by
      have hposts := hsound.posts hc
      rw [Notifier.Posts, hphase] at hposts
      exact hposts
    simp only [Notifier.exec, hphase, Option.some.injEq, Prod.mk.injEq] at h
    rcases h with ⟨rfl, rfl⟩
    exact (hsound.mono hframe.2.1 hframe.2.2).commentIf hp hclosed hposted
  | createComment p =>
    have hp := hsound.parent p (by rw [hphase]; rfl)
    simp only [Notifier.exec, hphase, Option.some.injEq, Prod.mk.injEq] at h
    rcases h with ⟨rfl, rfl⟩
    refine { hsound with
      parent := fun p' hp' => ?_
      posts := fun _ => trivial
      posted := fun _ => rfl
      woken := fun hw => by cases (waits_eq_true.1 hw).1 }
    obtain rfl : p = p' := Option.some.inj hp'
    exact hp
  | checkPending p c =>
    have hp := hsound.parent p (by rw [hphase]; rfl)
    have hposted : n.posted = true := by
      rw [hsound.posted (by simp [hphase]), hphase]
      rfl
    simp only [Notifier.exec, hphase, hp.2, hp.1, hrun, Bool.not_true, Bool.false_or] at h
    simp only [keepsWake, hi, hphase, Bool.or_eq_true, Bool.not_eq_true'] at hkeeps
    split at h
    · rename_i hpending
      simp only [Option.some.injEq, Prod.mk.injEq] at h
      rcases h with ⟨rfl, rfl⟩
      refine hsound.goto (fun _ h => by cases h) (fun _ => hposted) (fun h => absurd rfl h)
        fun _ _ hunclaimed => ?_
      rcases hkeeps with (hclaimed | hd) | hno
      · rw [hunclaimed] at hclaimed
        cases hclaimed
      · exact queued_of_pending hpending hd
      · rw [hpending] at hno
        cases hno
    · simp only [Option.some.injEq, Prod.mk.injEq] at h
      rcases h with ⟨rfl, rfl⟩
      refine hsound.goto (fun p' hp' => ?_) (fun _ => trivial) (fun _ => hposted)
        fun h => by cases h
      obtain rfl : p = p' := Option.some.inj hp'
      exact hp
  | enqueue p c =>
    have hp := hsound.parent p (by rw [hphase]; rfl)
    have hposted : n.posted = true := by
      rw [hsound.posted (by simp [hphase]), hphase]
      rfl
    simp only [keepsWake, hi, hphase, Bool.or_eq_true, Bool.and_eq_true,
      Bool.not_eq_true'] at hkeeps
    simp only [Notifier.exec, hphase] at h
    split at h
    · rename_i e hfailed
      simp only [Option.some.injEq, Prod.mk.injEq] at h
      rcases h with ⟨rfl, rfl⟩
      refine hsound.goto (fun _ h => by cases h) (fun _ => hposted) (fun h => absurd rfl h)
        fun _ _ hunclaimed => ?_
      rcases hkeeps with (hclaimed | hq) | ⟨hd, hattr⟩
      · rw [hunclaimed] at hclaimed
        cases hclaimed
      · exact hq
      · -- with nothing pending the enqueue would have got through
        by_contra hq
        have hfree : ∀ t ∈ s.sys.queue.rows, t.status.pending = true → cfg.owns t = false := by
          intro t ht hpending
          by_contra howns
          have howns : cfg.owns t = true := by simpa using howns
          rcases Task.TaskStatus.pending_cases.1 hpending with hst | hst
          · exact hq (hasQueued_eq_true.2 ⟨t, ht, howns, hst⟩)
          · rw [hasDispatched_eq_true.2 ⟨t, ht, howns, hst⟩] at hd
            cases hd
        rcases enqueue_isOk hp.2 hissue hrun hcap hattr hfree with ⟨r, hok⟩
        rw [hfailed] at hok
        cases hok
    · rename_i q row henq
      simp only [Option.some.injEq, Prod.mk.injEq] at h
      rcases h with ⟨rfl, rfl⟩
      refine (hsound.mono hframe.2.1 hframe.2.2).goto (fun _ h => by cases h) (fun _ => hposted)
        (fun h => absurd rfl h) fun _ _ _ => ?_
      rcases enqueue_ok hp.2 hissue hcap henq with ⟨row, howns, hst, hins⟩
      exact hasQueued_eq_true.2 ⟨row, (Table.mem_insert? hins).2 (.inr rfl), howns, hst⟩
  | done =>
    simp only [Notifier.exec, hphase] at h
    cases h

/-- A task was claimed, or the others still wait for theirs. -/
theorem Notifier.Sound.witness (h : n.Sound cfg s) {claims : Bool} {sys : Task.State}
    (hkeep : n.waits = true → claims = true ∨ sys.queue.rows.any cfg.ownsQueued = true)
    {notifiers : List Notifier} :
    (n.witness claims).Sound cfg { s with sys := sys, notifiers := notifiers } where
  below := h.below
  mem := h.mem
  grown := h.grown
  parent := h.parent
  posts := h.posts
  posted := h.posted
  woken hw := by
    rcases waits_eq_true.1 hw with ⟨hdone, hposted, hclaimed⟩
    simp only [Notifier.witness, Bool.or_eq_false_iff, Bool.and_eq_false_iff] at hclaimed
    rcases hkeep (waits_eq_true.2 ⟨hdone, hposted, hclaimed.1⟩) with hc | hq
    · rcases hclaimed.2 with hp | hc'
      · cases hp.symm.trans hposted
      · cases hc'.symm.trans hc
    · exact hq

theorem inv_next (hinv : Inv cfg s) {a : Act} (hkeeps : keepsWake cfg s a = true)
    (h : next cfg s a = some s') : Inv cfg s' := by
  cases a with
  | complete id status =>
    simp only [next] at h
    split at h
    · cases h
    · rename_i prev hprev
      rw [Option.ite_none_right_eq_some] at h
      rcases h with ⟨⟨hbelow, hcompletes⟩, h⟩
      obtain rfl := Option.some.inj h
      have hrow := (Table.get?_eq_some.1 hprev).1
      have hid : prev.id = id := (Table.get?_eq_some.1 hprev).2
      have hterm : status.terminal = true := (Bool.and_eq_true_iff.1 hcompletes).2
      have hother : id ≠ cfg.parentId := by
        intro hid
        rcases hinv.parent with ⟨r, hr, -, -, hself⟩
        rw [hid, hr] at hprev
        obtain rfl := Option.some.inj hprev
        exact hself hbelow
      refine ⟨hinv.parent.exec _ _ _ fun h => absurd h hother, fun n hn => ?_⟩
      rcases List.mem_append.1 hn with hn | hn
      · exact (hinv.sound n hn).mono (grown_exec _ _ _ (.inl hterm)) fun hq => hq
      · rcases List.mem_singleton.1 hn with rfl
        refine ⟨hbelow, ?_, .refl _, (fun _ h => by cases h), fun _ => trivial, fun _ => rfl,
          fun hw => by cases (waits_eq_true.1 hw).1⟩
        rw [children_exec]
        refine List.mem_map.2 ⟨prev, List.mem_filter.2 ⟨hrow, beq_iff_eq.2 hbelow⟩, ?_⟩
        exact Update.apply_of_sel (by simp [updateIssueStatusStmt, hid])
  | queue step =>
    rcases Option.map_eq_some_iff.1 h with ⟨sys, hsys, rfl⟩
    refine ⟨hinv.parent, fun n' hn' => ?_⟩
    rcases List.mem_map.1 hn' with ⟨n, hn, rfl⟩
    refine (hinv.sound n hn).witness fun hw => ?_
    have hq := (hinv.sound n hn).woken hw
    cases step with
    | update stmt =>
      right
      simp only [keepsWake, Bool.or_eq_true, Bool.not_eq_true'] at hkeeps
      rcases hkeeps with hnone | hkept
      · rw [List.any_eq_false] at hnone
        exact absurd hw (hnone n hn)
      · cases Task.next_effect hsys with
        | update hadm hupd =>
          rcases List.any_eq_true.1 hkept with ⟨t, ht, hown⟩
          exact List.any_eq_true.2 ⟨_, (Table.mem_update? hupd).2 ⟨t, ht, rfl⟩, hown⟩
    | _ => exact queued_step hsys (fun _ h => by cases h) hq
  | step i env comment =>
    simp only [next] at h
    split at h
    · cases h
    · rename_i n hi
      rw [Option.ite_none_right_eq_some] at h
      rcases h with ⟨hassumes, h⟩
      rcases Option.map_eq_some_iff.1 h with ⟨⟨t, n'⟩, hexec, rfl⟩
      have hsound := hinv.sound n (List.mem_of_getElem? hi)
      have hframe := exec_frame hinv.parent hsound hassumes hexec
      refine ⟨hframe.1, Parties.forall_set n' ?_ fun m hm => ?_⟩
      · exact (exec_sound hinv.parent hsound hassumes hi hkeeps hexec).mono (.refl _) fun hq => hq
      · exact (hinv.sound m hm).mono hframe.2.1 hframe.2.2

/-- A step that loses the wake leaves a comment that wakes nobody. -/
theorem not_woken_next (hinv : Inv cfg s) {a : Act} (hloses : keepsWake cfg s a = false)
    (h : next cfg s a = some s') : ¬ s'.Woken cfg := by
  cases a with
  | complete id status => cases hloses
  | queue step =>
    rcases Option.map_eq_some_iff.1 h with ⟨sys, hsys, rfl⟩
    cases step with
    | update stmt =>
      simp only [keepsWake, Bool.or_eq_false_iff, Bool.not_eq_false', List.any_eq_true] at hloses
      rcases hloses with ⟨⟨n, hn, hw⟩, hgone⟩
      refine not_woken (List.mem_map.2 ⟨n, hn, rfl⟩) ?_ ?_
      · simpa [Notifier.witness, Notifier.waits, State.claims] using hw
      · cases Task.next_effect hsys with
        | update hadm hupd =>
          rw [State.hasQueued, Table.update?_rows hupd, List.any_map]
          exact hgone
    | _ => cases hloses
  | step i env comment =>
    simp only [next] at h
    split at h
    · cases h
    · rename_i n hi
      rw [Option.ite_none_right_eq_some] at h
      rcases h with ⟨hassumes, h⟩
      rcases Option.map_eq_some_iff.1 h with ⟨⟨t, n'⟩, hexec, rfl⟩
      rcases assumes_eq_true.1 hassumes with ⟨hissue, hrun, hcap⟩
      have hsound := hinv.sound n (List.mem_of_getElem? hi)
      have hmem : n' ∈ s.notifiers.set i n' :=
        List.mem_of_getElem? (Parties.getElem?_set hi n')
      simp only [keepsWake, hi] at hloses
      cases hphase : n.phase with
      | checkPending p c =>
        have hp := hsound.parent p (by rw [hphase]; rfl)
        have hposted : n.posted = true := by
          rw [hsound.posted (by simp [hphase]), hphase]
          rfl
        simp only [hphase, Bool.or_eq_false_iff, Bool.not_eq_false'] at hloses
        simp only [Notifier.exec, hphase, hp.2, hp.1, hloses.2, Bool.or_true, if_true,
          Option.some.injEq, Prod.mk.injEq] at hexec
        rcases hexec with ⟨rfl, rfl⟩
        exact not_woken hmem (waits_eq_true.2 ⟨rfl, hposted, hloses.1.1⟩)
          (not_queued_of_dispatched hloses.1.2)
      | enqueue p c =>
        have hp := hsound.parent p (by rw [hphase]; rfl)
        have hposted : n.posted = true := by
          rw [hsound.posted (by simp [hphase]), hphase]
          rfl
        simp only [hphase, Bool.or_eq_false_iff, Bool.and_eq_false_iff,
          Bool.not_eq_false'] at hloses
        simp only [Notifier.exec, hphase] at hexec
        split at hexec
        · simp only [Option.some.injEq, Prod.mk.injEq] at hexec
          rcases hexec with ⟨rfl, rfl⟩
          exact not_woken hmem (waits_eq_true.2 ⟨rfl, hposted, hloses.1.1⟩) hloses.1.2
        · -- the enqueue has no way through
          rename_i q row henq
          exfalso
          rcases hloses.2 with hd | hattr
          · rcases hasDispatched_eq_true.1 hd with ⟨t, ht, howns, hst⟩
            rcases enqueue_ok hp.2 hissue hcap henq with ⟨row, hrow, hqueued, hins⟩
            have ht' := owns_eq_true.1 howns
            have hrow' := owns_eq_true.1 hrow
            exact Routing.insert?_pending hins ht (by rw [hst]; rfl) hqueued ht'.1 hrow'.1
              (ht'.2.trans hrow'.2.symm)
          · rw [attributed_of_ok hp.2 hcap henq] at hattr
            cases hattr
      | _ =>
        simp only [hphase] at hloses
        cases hloses

end Steps

/-! ## Runs -/

/-- A closed stage posts its comment, and the comment wakes the agent, as long as each notification
keeps its wake. The first step that does not leaves a comment that wakes nobody. -/
theorem parent_woken (cfg : Config) :
    (∀ s, (machine cfg).ReachableUnder (fun s a => keepsWake cfg s a = true) s → s.Woken cfg) ∧
      ∀ s a s', (machine cfg).ReachableUnder (fun s a => keepsWake cfg s a = true) s →
        keepsWake cfg s a = false → next cfg s a = some s' → ¬ s'.Woken cfg := by
  have hinv : ∀ s, (machine cfg).ReachableUnder (fun s a => keepsWake cfg s a = true) s →
      Inv cfg s := by
    refine Machine.invariant_under ?_ fun s a s' _ hinv hkeeps h => inv_next hinv hkeeps h
    rintro s ⟨hparent, hnone⟩
    refine ⟨hparent, fun n hn => ?_⟩
    rw [hnone] at hn
    cases hn
  exact ⟨fun s hs => woken_of_sound (hinv s hs).sound,
    fun s a s' hs hloses h => not_woken_next (hinv s hs) hloses h⟩

/-- Agent 7 works on issue 10. -/
def agentParent : Config :=
  { queue := ⟨fun _ => 1, id⟩, autoAdvance := false, parentId := 10, agentId := 7
    leaderOf := fun _ => none }

/-- Issue 10 has a child in each of two stages. -/
def stagedChildren : IssueTable :=
  (Table.ofRows?
    [{ id := 10, status := .inProgress, assigneeType := some .agent, assigneeId := some 7 },
      { id := 11, status := .inProgress, parentIssueId := some 10, stage := some 1 },
      { id := 12, status := .todo, parentIssueId := some 10, stage := some 2 }]).getD .empty

def stagedState : State := ⟨stagedChildren, .empty, []⟩

theorem init_stagedState : (machine agentParent).Init stagedState :=
  ⟨⟨{ id := 10, status := .inProgress, assigneeType := some .agent, assigneeId := some 7 },
    by decide⟩, rfl⟩

/-- Child 11 is done, and comment 60 says so. -/
def closeStage (env : Routing.Env) : List Act :=
  .complete 11 .done :: List.replicate 3 (.step 0 env 60)

/-- The agent's task 1 is claimed. -/
def claimTask : List Act :=
  [.queue (.lockAgent 7), .queue (.countRunningTasks 7), .queue (.claimAgentTask 7 [] 1)]

theorem parent_woken_closeStage :
    (∃ s : State, s.notifiers.any (fun n => n.phase == .done && n.claimed) = true ∧
      s.Woken agentParent) ∧
      ∃ s a s', keepsWake agentParent s a = false ∧ next agentParent s a = some s' ∧
        ¬ s'.Woken agentParent := by
  let env := Routing.mentionEnv "" none
  constructor
  · rcases Machine.reachableUnder_of_run (machine agentParent) (keepsWake agentParent)
      init_stagedState (closeStage env ++ .step 0 env 60 :: .step 0 env 60 :: claimTask)
      (fun s => s.notifiers.any fun n => n.phase == .done && n.claimed) (by decide) with
      ⟨s, hs, hclaimed⟩
    exact ⟨s, hclaimed, (parent_woken agentParent).1 s hs⟩
  · rcases Machine.reachableUnder_of_run (machine agentParent) (keepsWake agentParent)
      init_stagedState
      (.queue (.insert (.createAgentTask 1 { agentID := 7, runtimeID := 3, issueID := some 10 })) ::
        claimTask ++ closeStage env)
      (fun s => !keepsWake agentParent s (.step 0 env 60) &&
        (next agentParent s (.step 0 env 60)).isSome) (by decide) with ⟨s, hs, hstate⟩
    simp only [Bool.and_eq_true, Bool.not_eq_true', Option.isSome_iff_exists] at hstate
    rcases hstate with ⟨hloses, s', hs'⟩
    exact ⟨s, .step 0 env 60, s', hloses, hs', (parent_woken agentParent).2 s _ s' hs hloses hs'⟩

/-- The agent's task is dispatched when the stage closes: the pending check finds it, the
notification ends, and nothing is queued. -/
theorem dispatched_task_swallows_wake :
    ¬ ∀ (cfg : Config) (s : State), (machine cfg).Reachable s → s.Woken cfg := by
  intro hclaim
  rcases Machine.reachable_of_run (machine agentParent) init_stagedState
    (.queue (.insert (.createAgentTask 1 { agentID := 7, runtimeID := 3, issueID := some 10 })) ::
      claimTask ++ closeStage (Routing.mentionEnv "" none) ++
        [.step 0 (Routing.mentionEnv "" none) 60])
    (fun s => !s.hasQueued agentParent && s.notifiers.any Notifier.waits) (by decide) with
    ⟨s, -, hs, hstate⟩
  simp only [Bool.and_eq_true, Bool.not_eq_true', List.any_eq_true] at hstate
  rcases hstate with ⟨hq, n, hn, hw⟩
  exact not_woken hn hw hq (hclaim agentParent s hs)

end Orynx.StageWake
