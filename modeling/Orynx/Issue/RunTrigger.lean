import Orynx.Autopilot.Store
import Orynx.Issue.Update
import Orynx.Routing.Outcome

/-! # Runs that an issue write starts

`UpdateIssue`, `BatchUpdateIssues` and `PreviewIssueTrigger` of `server/internal/handler`, with
`WillEnqueueRun` of `server/internal/service/issue_trigger.go` between them and the gates of
`agent_access.go` and `squad.go` around it. A request has the fields that decide about runs, and its
caller is resolved when it comes in. What wakes the parent of a closed issue is left out.

* `dispatchIssueRun_spec`: what the write asks of a run behind the predicate;
* `mem_updateIssue_enqueued`, `exists_updateIssue_enqueued`: the tasks of a write are those of the
  runs that it `Starts`;
* `canInvoke_of_validateAssigneePair`: an assignee that is accepted may be invoked.
-/

namespace Orynx.RunTrigger

open Lib Orynx.Task Orynx.Attribution
open Autopilot (IssueStatus)
open IssueUpdate (AssigneeType)
open Routing (EnqueueParams enqueueIssueTaskWithCommentPlan enqueueMentionTaskWithCommentPlan
  issueRunCapExceeded createTask runnableAgent issueAttribution)

/-! ## What a request reads -/

/-- `public_to`, or anything else. -/
inductive PermissionMode where
  | ownerOnly
  | publicTo
deriving DecidableEq, Repr

structure Agent where
  workspaceId : UUID
  ownerId : Option UUID
  permissionMode : PermissionMode
  archived : Bool := false
  runtimeId : Option UUID
deriving DecidableEq, Repr

inductive TargetType where
  | workspace
  | member
  | team
deriving DecidableEq, Repr

structure InvocationTarget where
  targetType : TargetType
  targetId : Option UUID := none
deriving DecidableEq, Repr

structure Squad where
  workspaceId : UUID
  leaderId : UUID
  archived : Bool := false
deriving DecidableEq, Repr

structure Issue where
  id : UUID
  workspaceId : UUID
  status : IssueStatus
  priority : Int := 0
  assigneeType : Option AssigneeType := none
  assigneeId : Option UUID := none
  creatorType : ActorType
  creatorId : Option UUID
  originType : Option OriginType := none
  originId : Option UUID := none
deriving DecidableEq, Repr

/-- The columns that attribution reads. -/
def Issue.provenance (issue : Issue) : Attribution.Issue where
  id := issue.id
  creatorType := issue.creatorType
  creatorID := issue.creatorId
  originType := issue.originType
  originID := issue.originId

/-- The rows by their ids. `online` is the status of a runtime, `failClosed` the attribution policy
of a workspace where it can be read, and `reviewSha` the head under review of an issue. -/
structure Store where
  agent : UUID → Option Agent
  targets : UUID → List InvocationTarget
  isMember : UUID → UUID → Bool
  squad : UUID → Option Squad
  online : UUID → Bool
  failClosed : UUID → Option Bool
  issue : UUID → Option Issue
  tasks : TaskTable
  autopilot : UUID → AutopilotFacts
  reviewSha : UUID → String
  maxIssueRuns : Option Int
  issue_id : ∀ {k r}, issue k = some r → r.id = k

namespace Store

def getAgentInWorkspace (w : Store) (id workspaceId : UUID) : Option Agent :=
  (w.agent id).filter fun a => a.workspaceId == workspaceId

def getSquadInWorkspace (w : Store) (id workspaceId : UUID) : Option Squad :=
  (w.squad id).filter fun s => s.workspaceId == workspaceId

def getIssueInWorkspace (w : Store) (id workspaceId : UUID) : Option Issue :=
  (w.issue id).filter fun r => r.workspaceId == workspaceId

theorem id_of_getIssueInWorkspace {w : Store} {id workspaceId : UUID} {r : Issue}
    (h : w.getIssueInWorkspace id workspaceId = some r) : r.id = id :=
  w.issue_id (Option.filter_eq_some_iff.1 h).1

def setIssue (w : Store) (issue : Issue) : Store :=
  { w with
    issue := fun k => if k = issue.id then some issue else w.issue k
    issue_id := fun {k r} h => by
      split at h
      · rename_i hk
        rw [hk, ← Option.some.inj h]
      · exact w.issue_id h }

/-- What the enqueue paths read of an agent. -/
def routingAgent (w : Store) (a : Agent) : Routing.Agent where
  archived := a.archived
  runtimeID := a.runtimeId
  policy := ⟨some a.workspaceId, w.failClosed a.workspaceId, a.ownerId⟩

def env (w : Store) (issue : Issue) : Routing.Env where
  issue := issue.provenance
  assigneeID := issue.assigneeId
  priority := issue.priority
  agent id := (w.agent id).map w.routingAgent
  comment _ := none
  autopilot := w.autopilot issue.id
  headSHA := w.reviewSha issue.id
  maxIssueRuns := w.maxIssueRuns

end Store

/-! ## Callers -/

inductive Actor where
  | member (userId : UUID)
  | agent (agentId : UUID)
deriving DecidableEq, Repr

/-- What authentication has put into the headers: a task token's agent and task, or a user with what
the client says. -/
inductive Headers where
  | taskToken (agentId taskId : UUID)
  | client (userId : UUID) (agentId taskId : Option UUID)
deriving DecidableEq, Repr

def Headers.taskId : Headers → Option UUID
  | .taskToken _ taskId => some taskId
  | .client _ _ taskId => taskId

/-- A client is an agent only if it names one of the workspace with a task of its own. -/
def resolveActor (w : Store) (workspaceId : UUID) : Headers → Actor
  | .taskToken agentId _ => .agent agentId
  | .client userId (some agentId) (some taskId) =>
    if (w.getAgentInWorkspace agentId workspaceId).isSome &&
        (getAgentTask w.tasks taskId).any (fun t => t.agentID == agentId) then .agent agentId
    else .member userId
  | .client userId _ _ => .member userId

/-- Members are their own originators; an agent acts for the one of its task. -/
def invokeOriginatorFromRequest (w : Store) (r : Headers) : Actor → Option UUID
  | .member userId => some userId
  | .agent _ =>
    (r.taskId.bind (getAgentTask w.tasks)).bind fun t => t.attribution.originatorUserID

/-- A caller as it is resolved; `runningOn` is the issue of its task. -/
structure Caller where
  actor : Actor
  originator : Option UUID
  runningOn : Option UUID
deriving DecidableEq, Repr

def resolveCaller (w : Store) (workspaceId : UUID) (r : Headers) : Caller :=
  let actor := resolveActor w workspaceId r
  { actor := actor
    originator := invokeOriginatorFromRequest w r actor
    runningOn := (r.taskId.bind (getAgentTask w.tasks)).bind fun t => t.issueID }

def Caller.isAgentRunningOnIssue (c : Caller) (issue : Issue) : Bool :=
  match c.actor with
  | .member _ => false
  | .agent _ => c.runningOn == some issue.id

/-- `memberActorUserID`. -/
def Caller.memberUserId (c : Caller) : Option UUID :=
  match c.actor with
  | .member userId => some userId
  | .agent _ => none

/-! ## Gates -/

/-- The user on whose permission an actor invokes. -/
def effectiveUser (actor : Actor) (originator : Option UUID) : Option UUID :=
  match actor with
  | .member userId => some userId
  | .agent _ => originator

def canInvokeAgent (w : Store) (agentId : UUID) (agent : Agent) (actor : Actor)
    (originator : Option UUID) (workspaceId : UUID) : Bool :=
  let user := effectiveUser actor originator
  if user.isSome && agent.ownerId == user then true
  else if agent.permissionMode != .publicTo then false
  else
    let workspaceBroad := match actor with
      | .member _ => false
      | .agent _ => true
    (w.targets agentId).any fun t =>
      match t.targetType with
      | .workspace => user.any (fun u => w.isMember u workspaceId) || workspaceBroad
      | .member => user.isSome && t.targetId == user
      | .team => false

def Caller.canInvoke (c : Caller) (w : Store) (workspaceId agentId : UUID) (agent : Agent) : Bool :=
  canInvokeAgent w agentId agent c.actor c.originator workspaceId

inductive AssigneeError where
  | unpaired
  | memberNotFound
  | agentNotFound
  | agentArchived
  | agentPrivate
  | squadNotFound
  | squadArchived
  | leaderArchived
  | leaderPrivate
deriving DecidableEq, Repr

/-- `none` if the pair is accepted. -/
def validateAssigneePair (w : Store) (c : Caller) (workspaceId : UUID) :
    Option AssigneeType → Option UUID → Option AssigneeError
  | none, none => none
  | none, some _ | some _, none => some .unpaired
  | some .member, some id => if w.isMember id workspaceId then none else some .memberNotFound
  | some .agent, some id =>
    match w.getAgentInWorkspace id workspaceId with
    | none => some .agentNotFound
    | some agent =>
      if agent.archived then some .agentArchived
      else if c.canInvoke w workspaceId id agent then none
      else some .agentPrivate
  | some .squad, some id =>
    match w.getSquadInWorkspace id workspaceId with
    | none => some .squadNotFound
    | some squad =>
      if squad.archived then some .squadArchived
      else
        match (w.agent squad.leaderId).filter fun a => !a.archived with
        | none => some .leaderArchived
        | some leader =>
          if c.canInvoke w workspaceId squad.leaderId leader then none else some .leaderPrivate

/-- `AgentReadiness`. -/
def agentReadiness (w : Store) (agent : Agent) : Bool :=
  !agent.archived && agent.runtimeId.any w.online

/-! ## The predicate -/

inductive RunEnqueueSource where
  | assign
  | status
deriving DecidableEq, Repr

/-- The checks that belong to a request. -/
structure IssueTriggerProbe where
  canAccessAgent : UUID → Agent → Bool := fun _ _ => true
  isSelfLoop : Bool

structure IssueTriggerInput where
  issue : Issue
  prevStatus : IssueStatus
  isCreate : Bool := false
  assigneeChanged : Bool
  statusChanged : Bool

inductive RunnerType where
  | agent
  | squad
deriving DecidableEq, Repr

structure IssueRunTrigger where
  issueId : UUID
  agentId : UUID
  assigneeType : RunnerType
  source : RunEnqueueSource
deriving DecidableEq, Repr

def hasPendingRun (w : Store) (issueId agentId : UUID) : Bool :=
  hasPendingTaskForIssueAndAgent w.tasks issueId agentId (w.reviewSha issueId)

/-- Backlog parks: assigning into it starts nothing, leaving it does. -/
def IssueTriggerInput.source (i : IssueTriggerInput) (probe : IssueTriggerProbe) :
    Option RunEnqueueSource :=
  if i.isCreate || i.assigneeChanged then
    if i.issue.status = .backlog then none else some .assign
  else if i.statusChanged && i.prevStatus == .backlog && !i.issue.status.terminal then
    if probe.isSelfLoop then none else some .status
  else none

/-- The agent that would run: the assignee, or the leader of the squad. -/
def runner (w : Store) (issue : Issue) : Option (RunnerType × UUID × Agent) :=
  match issue.assigneeType, issue.assigneeId with
  | some .agent, some id =>
    ((w.agent id).filter fun a => a.runtimeId.isSome && !a.archived).map fun a => (.agent, id, a)
  | some .squad, some id =>
    (w.getSquadInWorkspace id issue.workspaceId).bind fun squad =>
      ((w.agent squad.leaderId).filter (agentReadiness w)).map fun a => (.squad, squad.leaderId, a)
  | _, _ => none

def willEnqueueRun (w : Store) (i : IssueTriggerInput) (probe : IssueTriggerProbe) :
    Option IssueRunTrigger :=
  (i.source probe).bind fun source =>
    (runner w i.issue).bind fun (type, agentId, agent) =>
      if !probe.canAccessAgent agentId agent then none
      else if source == .status && hasPendingRun w i.issue.id agentId then none
      else some ⟨i.issue.id, agentId, type, source⟩

def writeProbe (c : Caller) (issue : Issue) : IssueTriggerProbe where
  isSelfLoop := c.isAgentRunningOnIssue issue

def previewProbe (w : Store) (c : Caller) (workspaceId : UUID) (issue : Issue) :
    IssueTriggerProbe where
  canAccessAgent := c.canInvoke w workspaceId
  isSelfLoop := c.isAgentRunningOnIssue issue

/-! ## The enqueue -/

/-- The human that the squad gate judges an agent's request by: the one the issue came from. -/
def leaderOriginator (w : Store) (c : Caller) (issue : Issue) : Option UUID :=
  match c.actor with
  | .member userId => some userId
  | .agent _ =>
    (attributionForIssueTask w.tasks (w.autopilot issue.id) issue.provenance none .commentSource
      none).userID

def canEnqueueSquadLeader (w : Store) (c : Caller) (issue : Issue) (leaderId : UUID) : Bool :=
  (w.agent leaderId).any fun leader =>
    canInvokeAgent w leaderId leader c.actor (leaderOriginator w c issue) issue.workspaceId

/-- The task of an enqueue whose error is dropped. -/
def created (r : Except Routing.EnqueueError (TaskTable × Option AgentTask)) :
    Option (TaskTable × AgentTask) :=
  match r with
  | .ok (q, some task) => some (q, task)
  | _ => none

def enqueueSquadLeaderTask (w : Store) (now : Timestamp) (c : Caller) (issue : Issue) :
    Option (TaskTable × AgentTask) :=
  (issue.assigneeId.bind fun id => (w.getSquadInWorkspace id issue.workspaceId).map fun s => (id, s)).bind
    fun (squadId, squad) =>
      if !canEnqueueSquadLeader w c issue squad.leaderId then none
      else if hasPendingRun w issue.id squad.leaderId then none
      else
        created (enqueueMentionTaskWithCommentPlan (w.env issue) now w.tasks
          { agentID := squad.leaderId, agentAuthoredSource := .delegation, isLeader := true
            squadID := some squadId, actorUserID := c.memberUserId })

def dispatchIssueRun (w : Store) (now : Timestamp) (c : Caller) (issue : Issue)
    (trigger : IssueRunTrigger) : Option (TaskTable × AgentTask) :=
  match trigger.assigneeType with
  | .agent =>
    created (enqueueIssueTaskWithCommentPlan (w.env issue) now w.tasks none [] false
      c.memberUserId none)
  | .squad => enqueueSquadLeaderTask w now c issue

/-! ## Writes -/

/-- The fields of a request that decide about runs. -/
structure Updates where
  status : Option IssueStatus := none
  assigneeType : Option (Option AssigneeType) := none
  assigneeId : Option (Option UUID) := none
  suppressRun : Bool := false
deriving DecidableEq, Repr

def Updates.touchesAssignee (u : Updates) : Bool := u.assigneeType.isSome || u.assigneeId.isSome

def Updates.apply (u : Updates) (prev : Issue) : Issue :=
  { prev with
    status := u.status.getD prev.status
    assigneeType := u.assigneeType.getD prev.assigneeType
    assigneeId := u.assigneeId.getD prev.assigneeId }

/-- The write as the predicate sees it. -/
def Updates.input (u : Updates) (prev : Issue) : IssueTriggerInput :=
  let issue := u.apply prev
  { issue := issue
    prevStatus := prev.status
    assigneeChanged := (u.assigneeType.join.isSome || u.assigneeId.join.isSome) &&
      (prev.assigneeType != issue.assigneeType || prev.assigneeId != issue.assigneeId)
    statusChanged := u.status.isSome && prev.status != issue.status }

/-- A task, and the store it was enqueued in. -/
structure Enqueued where
  store : Store
  task : AgentTask

structure Written where
  store : Store
  enqueued : List Enqueued

/-- Whether the pair that results is accepted. -/
def Updates.accepted (u : Updates) (w : Store) (c : Caller) (workspaceId : UUID) (prev : Issue) :
    Bool :=
  !u.touchesAssignee ||
    (validateAssigneePair w c workspaceId (u.apply prev).assigneeType
      (u.apply prev).assigneeId).isNone

/-- `UpdateIssue`, and the loop body of `BatchUpdateIssues`. -/
def updateIssue (w : Store) (now : Timestamp) (c : Caller) (workspaceId : UUID) (u : Updates)
    (id : UUID) : Written :=
  match w.getIssueInWorkspace id workspaceId with
  | none => ⟨w, []⟩
  | some prev =>
    if !u.accepted w c workspaceId prev then ⟨w, []⟩
    else
      let issue := u.apply prev
      let w' := w.setIssue issue
      match willEnqueueRun w' (u.input prev) (writeProbe c issue) with
      | none => ⟨w', []⟩
      | some trigger =>
        if u.suppressRun then ⟨w', []⟩
        else
          match dispatchIssueRun w' now c issue trigger with
          | none => ⟨w', []⟩
          | some (tasks, task) => ⟨{ w' with tasks := tasks }, [⟨w', task⟩]⟩

def batchUpdateIssues (now : Timestamp) (c : Caller) (workspaceId : UUID) (u : Updates) :
    Store → List UUID → Written
  | w, [] => ⟨w, []⟩
  | w, id :: ids =>
    let first := updateIssue w now c workspaceId u id
    let rest := batchUpdateIssues now c workspaceId u first.store ids
    ⟨rest.store, first.enqueued ++ rest.enqueued⟩

/-! ## The preview -/

/-- The assignee and the status that are asked about. -/
structure IssueTriggerPreviewRequest where
  issueIds : List UUID
  assignee : Option (AssigneeType × UUID) := none
  status : Option IssueStatus := none
deriving DecidableEq, Repr

/-- The write that is previewed. -/
def IssueTriggerPreviewRequest.updates (req : IssueTriggerPreviewRequest) : Updates where
  status := req.status
  assigneeType := req.assignee.map fun a => some a.1
  assigneeId := req.assignee.map fun a => some a.2

def maxPreviewTriggerIssues : Nat := 500

/-- The issue as it would be, with the changes marked. -/
def IssueTriggerPreviewRequest.input (req : IssueTriggerPreviewRequest) (loaded : Issue) :
    IssueTriggerInput :=
  let post := match req.assignee with
    | some (type, id) => { loaded with assigneeType := some type, assigneeId := some id }
    | none => loaded
  { issue := match req.status with
      | some status => { post with status := status }
      | none => post
    prevStatus := loaded.status
    assigneeChanged := req.assignee.any fun (type, id) =>
      loaded.assigneeType != some type || loaded.assigneeId != some id
    statusChanged := req.status.any fun status => loaded.status != status }

def previewOne (w : Store) (c : Caller) (workspaceId : UUID) (req : IssueTriggerPreviewRequest)
    (id : UUID) : Option IssueRunTrigger :=
  (w.getIssueInWorkspace id workspaceId).bind fun loaded =>
    let i := req.input loaded
    willEnqueueRun w i (previewProbe w c workspaceId i.issue)

/-- Of existing issues; `none` if there are too many. -/
def previewIssueTrigger (w : Store) (c : Caller) (workspaceId : UUID)
    (req : IssueTriggerPreviewRequest) : Option (List IssueRunTrigger) :=
  if maxPreviewTriggerIssues < req.issueIds.length then none
  else some (req.issueIds.filterMap (previewOne w c workspaceId req))

/-! ## Behind the predicate -/

/-- The pair has a pending row, of whichever head. -/
def slotTaken (w : Store) (issueId agentId : UUID) : Bool :=
  hasPendingTaskForIssueAndAgent w.tasks issueId agentId ""

/-- Somebody is accountable for the run. -/
def attributed (w : Store) (c : Caller) (issue : Issue) (agent : Agent) : Bool :=
  ((Enqueue.issueTask (w.autopilot issue.id) issue.provenance none .commentSource
    c.memberUserId).resolve w.tasks (w.routingAgent agent).policy).isSome

/-- What stands between the predicate and the row: the run cap, the pending row of the pair, the
attribution and, for a squad, the gate of its leader. -/
def getsThrough (w : Store) (now : Timestamp) (c : Caller) (issue : Issue) (type : RunnerType)
    (agentId : UUID) (agent : Agent) : Bool :=
  !issueRunCapExceeded (w.env issue) now w.tasks && !slotTaken w issue.id agentId &&
    attributed w c issue agent && (type == .agent || canEnqueueSquadLeader w c issue agentId)

section Enqueue

variable {w : Store} {now : Timestamp} {c : Caller} {issue : Issue} {type : RunnerType}
  {agentId workspaceId : UUID} {agent : Agent}

theorem insert?_isSome_of_fresh {env : Routing.Env} {q : TaskTable} {trigger : Option UUID}
    {row : AgentTask} (hrow : Routing.FreshRow env now q agentId trigger row) :
    (q.insert? row).isSome = true ↔
      hasPendingTaskForIssueAndAgent q env.issue.id agentId "" = false := by
  rw [Table.insert?_isSome, Bool.eq_false_iff, Ne, Routing.hasPending_iff]
  have hkey : row.pendingKey = some (env.issue.id, agentId) := by
    refine AgentTask.pendingKey_eq_some.2 ⟨?_, hrow.issueID, hrow.agentID⟩
    rw [hrow.status]
    rfl
  constructor
  · rintro ⟨-, hindex⟩ ⟨t, ht, hissue, hagent, hpending, -⟩
    exact hindex _ hkey t ht (AgentTask.pendingKey_eq_some.2 ⟨hpending, hissue, hagent⟩)
  · intro hfree
    refine ⟨fun t ht heq => Routing.newTaskID_ne ht (heq.trans hrow.id), ?_⟩
    intro k hk t ht htk
    obtain rfl := Option.some.inj (hkey.symm.trans hk)
    rcases AgentTask.pendingKey_eq_some.1 htk with ⟨hpending, hissue, hagent⟩
    exact hfree ⟨t, ht, hissue, hagent, hpending, rfl⟩

theorem createTask_exists {env : Routing.Env} {q : TaskTable} {p : EnqueueParams} :
    (∃ r, createTask env now q p = .ok r) ↔
      (∃ a attr, runnableAgent env p.agentID = .ok a ∧ issueAttribution env q a.1
        p.agentAuthoredSource p.triggerCommentID p.actorUserID = .ok attr) ∧
      hasPendingTaskForIssueAndAgent q env.issue.id p.agentID "" = false := by
  constructor
  · rintro ⟨⟨q', row⟩, hcreate⟩
    rcases Routing.createTask_ok hcreate with ⟨hrow, -, hins⟩
    refine ⟨?_, (insert?_isSome_of_fresh hrow).1 (by rw [hins]; rfl)⟩
    unfold createTask at hcreate
    cases hagent : runnableAgent env p.agentID with
    | error e => simp [hagent, bind, Except.bind] at hcreate
    | ok a =>
      cases hattr : issueAttribution env q a.1 p.agentAuthoredSource p.triggerCommentID
          p.actorUserID with
      | error e => simp [hagent, hattr, bind, Except.bind] at hcreate
      | ok attr => exact ⟨a, attr, rfl, hattr⟩
  · rintro ⟨⟨⟨a, runtimeID⟩, attr, hagent, hattr⟩, hfree⟩
    unfold createTask
    simp only [hagent, hattr, bind, Except.bind]
    split
    · rename_i e hins
      -- the row is fresh and its slot free, so the insert goes through
      have hok (row : AgentTask)
          (hrow : Routing.FreshRow env now q p.agentID p.triggerCommentID row) :
          insertStmt q row ≠ .error e := by
        rcases Option.isSome_iff_exists.1 ((insert?_isSome_of_fresh hrow).2 hfree) with ⟨q', hq'⟩
        simp [insertStmt, hq']
      exact absurd hins (hok _ ⟨rfl, rfl, rfl, rfl, rfl, rfl, rfl⟩)
    · exact ⟨_, rfl⟩

/-- Without a trigger comment the label of the call site says nothing. -/
theorem issueAttribution_exists (src : Source) {a : Routing.Agent}
    (hpolicy : a.policy = (w.routingAgent agent).policy) :
    (∃ attr, issueAttribution (w.env issue) w.tasks a src none c.memberUserId = .ok attr) ↔
      attributed w c issue agent = true := by
  have hlabel : (Enqueue.issueTask (w.autopilot issue.id) issue.provenance none src
        c.memberUserId).attribution w.tasks =
      (Enqueue.issueTask (w.autopilot issue.id) issue.provenance none .commentSource
        c.memberUserId).attribution w.tasks := by
    cases hm : c.memberUserId <;> rfl
  have heq : (Enqueue.issueTask (w.env issue).autopilot (w.env issue).issue
        ((none : Option UUID).map (w.env issue).comment) src c.memberUserId).resolve w.tasks
        a.policy =
      (Enqueue.issueTask (w.autopilot issue.id) issue.provenance none .commentSource
        c.memberUserId).resolve w.tasks (w.routingAgent agent).policy := by
    rw [hpolicy, Enqueue.resolve, Enqueue.resolve, ← hlabel]
    rfl
  rw [attributed, issueAttribution, heq]
  cases (Enqueue.issueTask (w.autopilot issue.id) issue.provenance none .commentSource
    c.memberUserId).resolve w.tasks (w.routingAgent agent).policy <;> simp

theorem runnableAgent_iff {a : Routing.Agent × UUID} (hagent : w.agent agentId = some agent) :
    runnableAgent (w.env issue) agentId = .ok a ↔
      agent.archived = false ∧ agent.runtimeId = some a.2 ∧ a.1 = w.routingAgent agent := by
  rcases a with ⟨a, runtimeID⟩
  have henv : (w.env issue).agent agentId = some (w.routingAgent agent) := by
    show (w.agent agentId).map w.routingAgent = _
    rw [hagent, Option.map_some]
  rw [runnableAgent, henv]
  cases harchived : agent.archived with
  | true => simp [Store.routingAgent, harchived]
  | false =>
    cases hruntime : agent.runtimeId with
    | none => simp [Store.routingAgent, harchived, hruntime]
    | some r =>
      simp [Store.routingAgent, harchived, hruntime, and_comm, eq_comm]

/-- The agent of the enqueue: it is there, runs and is not archived. -/
structure Runs (w : Store) (agentId : UUID) (agent : Agent) : Prop where
  found : w.agent agentId = some agent
  archived : agent.archived = false
  runtime : agent.runtimeId.isSome = true

theorem createTask_exists_iff {p : EnqueueParams} (hruns : Runs w p.agentID agent)
    (htrigger : p.triggerCommentID = none) (hactor : p.actorUserID = c.memberUserId) :
    (∃ r, createTask (w.env issue) now w.tasks p = .ok r) ↔
      attributed w c issue agent = true ∧ slotTaken w issue.id p.agentID = false := by
  rw [createTask_exists]
  refine and_congr_left' ?_
  rw [htrigger, hactor]
  constructor
  · rintro ⟨a, attr, ha, hattr⟩
    have hpolicy : a.1.policy = (w.routingAgent agent).policy := by
      rw [((runnableAgent_iff hruns.found).1 ha).2.2]
    exact (issueAttribution_exists _ hpolicy).1 ⟨attr, hattr⟩
  · intro hattributed
    rcases Option.isSome_iff_exists.1 hruns.runtime with ⟨r, hr⟩
    rcases (issueAttribution_exists p.agentAuthoredSource (a := w.routingAgent agent)
      rfl).2 hattributed with ⟨attr, hattr⟩
    exact ⟨(w.routingAgent agent, r), attr,
      (runnableAgent_iff hruns.found).2 ⟨hruns.archived, hr, rfl⟩, hattr⟩

/-- A task that an enqueue has created: a fresh row of the agent, and the table with it. -/
structure Fresh (w : Store) (issueId agentId : UUID) (tasks : TaskTable) (task : AgentTask) :
    Prop where
  issueID : task.issueID = some issueId
  agentID : task.agentID = agentId
  insert : w.tasks.insert? task = some tasks

variable (now c issue) in
theorem created_iff {p : EnqueueParams} {r : Option (TaskTable × AgentTask)}
    (hruns : Runs w p.agentID agent) (htrigger : p.triggerCommentID = none)
    (hactor : p.actorUserID = c.memberUserId)
    (hr : r = created (if issueRunCapExceeded (w.env issue) now w.tasks then .ok (w.tasks, none)
      else (createTask (w.env issue) now w.tasks p).map fun x => (x.1, some x.2))) :
    (r.isSome = true ↔ issueRunCapExceeded (w.env issue) now w.tasks = false ∧
      attributed w c issue agent = true ∧ slotTaken w issue.id p.agentID = false) ∧
      ∀ tasks task, r = some (tasks, task) → Fresh w issue.id p.agentID tasks task := by
  subst hr
  rw [← createTask_exists_iff hruns htrigger hactor]
  cases hcap : issueRunCapExceeded (w.env issue) now w.tasks with
  | true => simp [created]
  | false =>
    cases hcreate : createTask (w.env issue) now w.tasks p with
    | error e => simp [created, Except.map]
    | ok x =>
      rcases x with ⟨q', row⟩
      refine ⟨by simp [created, Except.map], fun tasks task h => ?_⟩
      obtain ⟨rfl, rfl⟩ : q' = tasks ∧ row = task := by simpa [created, Except.map] using h
      rcases Routing.createTask_ok hcreate with ⟨hrow, -, hins⟩
      exact ⟨hrow.issueID, hrow.agentID, hins⟩

theorem slotTaken_of_pending (h : hasPendingRun w issue.id agentId = true) :
    slotTaken w issue.id agentId = true := by
  rcases Routing.hasPending_iff.1 h with ⟨t, ht, hissue, hagent, hpending, -⟩
  exact Routing.hasPending_iff.2 ⟨t, ht, hissue, hagent, hpending, rfl⟩

/-- Where the runner comes from. -/
theorem runner_cases (h : runner w issue = some (type, agentId, agent)) :
    Runs w agentId agent ∧
      ((type = .agent ∧ issue.assigneeId = some agentId) ∨
        type = .squad ∧ ∃ id squad, issue.assigneeId = some id ∧
          w.getSquadInWorkspace id issue.workspaceId = some squad ∧ squad.leaderId = agentId) := by
  unfold runner at h
  split at h
  · rename_i id htype hid
    rcases Option.map_eq_some_iff.1 h with ⟨a, ha, heq⟩
    rcases Option.filter_eq_some_iff.1 ha with ⟨hfound, hready⟩
    obtain ⟨rfl, rfl, rfl⟩ : .agent = type ∧ id = agentId ∧ a = agent := by simpa using heq
    rw [Bool.and_eq_true, Bool.not_eq_true'] at hready
    exact ⟨⟨hfound, hready.2, hready.1⟩, .inl ⟨rfl, hid⟩⟩
  · rename_i id htype hid
    rcases Option.bind_eq_some_iff.1 h with ⟨squad, hsquad, hleader⟩
    rcases Option.map_eq_some_iff.1 hleader with ⟨a, ha, heq⟩
    rcases Option.filter_eq_some_iff.1 ha with ⟨hfound, hready⟩
    obtain ⟨rfl, rfl, rfl⟩ : .squad = type ∧ squad.leaderId = agentId ∧ a = agent := by
      simpa using heq
    rw [agentReadiness, Bool.and_eq_true, Bool.not_eq_true', Option.any_eq_true] at hready
    rcases hready with ⟨harchived, r, hr, -⟩
    exact ⟨⟨hfound, harchived, by rw [hr]; rfl⟩, .inr ⟨rfl, id, squad, hid, hsquad, rfl⟩⟩
  · cases h

variable (w now c issue) in
/-- The enqueue creates a task exactly where nothing stands in its way. -/
theorem dispatchIssueRun_spec (trigger : IssueRunTrigger)
    (hrunner : runner w issue = some (trigger.assigneeType, trigger.agentId, agent)) :
    ((dispatchIssueRun w now c issue trigger).isSome = true ↔
      getsThrough w now c issue trigger.assigneeType trigger.agentId agent = true) ∧
      ∀ tasks task, dispatchIssueRun w now c issue trigger = some (tasks, task) →
        Fresh w issue.id trigger.agentId tasks task := by
  rcases runner_cases hrunner with ⟨hruns, ⟨htype, hid⟩ | ⟨htype, id, squad, hid, hsquad, hleader⟩⟩
  · have hdispatch : dispatchIssueRun w now c issue trigger =
        created (if issueRunCapExceeded (w.env issue) now w.tasks then .ok (w.tasks, none)
          else (createTask (w.env issue) now w.tasks
            { agentID := trigger.agentId, agentAuthoredSource := .commentSource
              actorUserID := c.memberUserId }).map fun x => (x.1, some x.2)) := by
      have hassignee : (w.env issue).assigneeID = some trigger.agentId := hid
      rw [dispatchIssueRun, htype]
      simp only [enqueueIssueTaskWithCommentPlan, hassignee]
    have hcreated := created_iff now c issue
      (p := { agentID := trigger.agentId, agentAuthoredSource := .commentSource
              actorUserID := c.memberUserId }) hruns rfl rfl hdispatch
    refine ⟨hcreated.1.trans ?_, hcreated.2⟩
    simp [getsThrough, htype, and_comm, and_assoc]
  · have hdispatch : dispatchIssueRun w now c issue trigger =
        if !canEnqueueSquadLeader w c issue trigger.agentId then none
        else if hasPendingRun w issue.id trigger.agentId then none
        else created (if issueRunCapExceeded (w.env issue) now w.tasks then .ok (w.tasks, none)
          else (createTask (w.env issue) now w.tasks
            { agentID := trigger.agentId, agentAuthoredSource := .delegation, isLeader := true
              squadID := some id, actorUserID := c.memberUserId }).map
                fun x => (x.1, some x.2)) := by
      rw [dispatchIssueRun, htype]
      simp only [enqueueSquadLeaderTask, hid, hsquad, Option.bind_some, Option.map_some, hleader,
        enqueueMentionTaskWithCommentPlan]
    have hcreated := created_iff now c issue
      (p := { agentID := trigger.agentId, agentAuthoredSource := .delegation, isLeader := true
              squadID := some id, actorUserID := c.memberUserId }) hruns rfl rfl rfl
    rw [hdispatch]
    cases hgate : canEnqueueSquadLeader w c issue trigger.agentId with
    | false => simp [getsThrough, htype, hgate]
    | true =>
      cases hpending : hasPendingRun w issue.id trigger.agentId with
      | true => simp [getsThrough, slotTaken_of_pending hpending]
      | false =>
        simp only [Bool.not_true, Bool.false_eq_true, if_false]
        refine ⟨hcreated.1.trans ?_, hcreated.2⟩
        simp [getsThrough, hgate, and_comm, and_assoc]

end Enqueue

/-! ## What a write starts -/

section Writes

variable {w : Store} {now : Timestamp} {c : Caller} {workspaceId : UUID} {u : Updates}
  {prev : Issue} {type : RunnerType} {id agentId : UUID} {agent : Agent}

theorem willEnqueueRun_eq_some {i : IssueTriggerInput} {probe : IssueTriggerProbe}
    {t : IssueRunTrigger} :
    willEnqueueRun w i probe = some t ↔
      ∃ source type agentId agent, i.source probe = some source ∧
        runner w i.issue = some (type, agentId, agent) ∧
        probe.canAccessAgent agentId agent = true ∧
        (source = .status → hasPendingRun w i.issue.id agentId = false) ∧
        t = ⟨i.issue.id, agentId, type, source⟩ := by
  constructor
  · intro h
    rcases Option.bind_eq_some_iff.1 h with ⟨source, hsource, hrun⟩
    rcases Option.bind_eq_some_iff.1 hrun with ⟨⟨type, agentId, agent⟩, hrunner, hchecks⟩
    simp only [Option.ite_none_left_eq_some, Option.some.injEq] at hchecks
    rcases hchecks with ⟨haccess, hpending, rfl⟩
    refine ⟨source, type, agentId, agent, hsource, hrunner, by simpa using haccess, ?_, rfl⟩
    rintro rfl
    simpa using hpending
  · rintro ⟨source, type, agentId, agent, hsource, hrunner, haccess, hpending, rfl⟩
    refine Option.bind_eq_some_iff.2 ⟨source, hsource, Option.bind_eq_some_iff.2
      ⟨_, hrunner, ?_⟩⟩
    simp only [Option.ite_none_left_eq_some, and_true]
    refine ⟨by simpa using haccess, ?_⟩
    cases source with
    | assign => simp
    | status => simp [hpending rfl]

/-- The write is made, and a run of the agent comes with it. -/
structure Starts (w : Store) (now : Timestamp) (c : Caller) (workspaceId : UUID) (u : Updates)
    (prev : Issue) (source : RunEnqueueSource) (type : RunnerType) (agentId : UUID)
    (agent : Agent) : Prop where
  accepted : u.accepted w c workspaceId prev = true
  asked : u.suppressRun = false
  source : (u.input prev).source (writeProbe c (u.apply prev)) = some source
  runner : runner w (u.apply prev) = some (type, agentId, agent)
  through : getsThrough w now c (u.apply prev) type agentId agent = true

theorem not_slotTaken_of_getsThrough {issue : Issue}
    (h : getsThrough w now c issue type agentId agent = true) :
    slotTaken w issue.id agentId = false := by
  simp only [getsThrough, Bool.and_eq_true, Bool.not_eq_true'] at h
  exact h.1.1.2

theorem not_hasPendingRun_of_getsThrough {issue : Issue}
    (h : getsThrough w now c issue type agentId agent = true) :
    hasPendingRun w issue.id agentId = false := by
  have hslot := not_slotTaken_of_getsThrough h
  rw [Bool.eq_false_iff] at hslot ⊢
  exact fun hpending => hslot (slotTaken_of_pending hpending)

variable (now) in
/-- An accepted write changes its issue, and leaves one task or none. -/
theorem updateIssue_accepted (hprev : w.getIssueInWorkspace id workspaceId = some prev)
    (haccepted : u.accepted w c workspaceId prev = true) :
    updateIssue w now c workspaceId u id = ⟨w.setIssue (u.apply prev), []⟩ ∨
      ∃ source type agent tasks task,
        Starts w now c workspaceId u prev source type task.agentID agent ∧
        updateIssue w now c workspaceId u id =
          ⟨{ w.setIssue (u.apply prev) with tasks := tasks }, [⟨w.setIssue (u.apply prev), task⟩]⟩ ∧
        task.issueID = some prev.id ∧ w.tasks.insert? task = some tasks := by
  simp only [updateIssue, hprev, haccepted, Bool.not_true, Bool.false_eq_true, if_false]
  cases htrigger : willEnqueueRun (w.setIssue (u.apply prev)) (u.input prev)
      (writeProbe c (u.apply prev)) with
  | none => exact .inl rfl
  | some trigger =>
    cases hsuppress : u.suppressRun with
    | true => exact .inl rfl
    | false =>
      cases hdispatch : dispatchIssueRun (w.setIssue (u.apply prev)) now c (u.apply prev)
          trigger with
      | none => exact .inl (by simp [hdispatch])
      | some r =>
        rcases r with ⟨tasks, task⟩
        rcases willEnqueueRun_eq_some.1 htrigger with
          ⟨source, type, agentId, agent, hsource, hrunner, -, -, rfl⟩
        have hspec := dispatchIssueRun_spec (w.setIssue (u.apply prev)) now c (u.apply prev)
          ⟨prev.id, agentId, type, source⟩ hrunner
        rcases hspec with ⟨hiff, hfresh⟩
        have hthrough := hiff.1 (Option.isSome_iff_exists.2 ⟨_, hdispatch⟩)
        have hnew := hfresh _ _ hdispatch
        have hagent : task.agentID = agentId := hnew.agentID
        refine .inr ⟨source, type, agent, tasks, task, ⟨haccepted, hsuppress, hsource,
          by rw [hagent]; exact hrunner, by rw [hagent]; exact hthrough⟩, ?_, hnew.issueID,
          hnew.insert⟩
        simp [hdispatch]

theorem updateIssue_refused (hprev : w.getIssueInWorkspace id workspaceId = some prev)
    (haccepted : u.accepted w c workspaceId prev = false) :
    updateIssue w now c workspaceId u id = ⟨w, []⟩ := by
  simp [updateIssue, hprev, haccepted]

theorem updateIssue_absent (hprev : w.getIssueInWorkspace id workspaceId = none) :
    updateIssue w now c workspaceId u id = ⟨w, []⟩ := by
  rw [updateIssue, hprev]

/-- The tasks of a write are those of the runs that it starts, enqueued with the issue changed. -/
theorem mem_updateIssue_enqueued (hprev : w.getIssueInWorkspace id workspaceId = some prev)
    {e : Enqueued} (he : e ∈ (updateIssue w now c workspaceId u id).enqueued) :
    ∃ source type agent, Starts w now c workspaceId u prev source type e.task.agentID agent ∧
      e.store = w.setIssue (u.apply prev) ∧ e.task.issueID = some prev.id := by
  cases haccepted : u.accepted w c workspaceId prev with
  | false =>
    rw [updateIssue_refused hprev haccepted] at he
    cases he
  | true =>
    rcases updateIssue_accepted now hprev haccepted with
      heq | ⟨source, type, agent, tasks, task, hstarts, heq, hissue, -⟩
    · rw [heq] at he
      cases he
    · rw [heq, List.mem_singleton] at he
      subst he
      exact ⟨source, type, agent, hstarts, rfl, hissue⟩

/-- A run that starts leaves its task. -/
theorem exists_updateIssue_enqueued (hprev : w.getIssueInWorkspace id workspaceId = some prev)
    {source : RunEnqueueSource} (h : Starts w now c workspaceId u prev source type agentId agent) :
    ∃ e ∈ (updateIssue w now c workspaceId u id).enqueued, e.task.agentID = agentId := by
  have htrigger : willEnqueueRun (w.setIssue (u.apply prev)) (u.input prev)
      (writeProbe c (u.apply prev)) = some ⟨prev.id, agentId, type, source⟩ :=
    willEnqueueRun_eq_some.2 ⟨source, type, agentId, agent, h.source, h.runner, rfl,
      fun _ => not_hasPendingRun_of_getsThrough h.through, rfl⟩
  rcases dispatchIssueRun_spec (w.setIssue (u.apply prev)) now c (u.apply prev)
    ⟨prev.id, agentId, type, source⟩ h.runner with ⟨hiff, hfresh⟩
  rcases Option.isSome_iff_exists.1 (hiff.2 h.through) with ⟨⟨tasks, task⟩, hdispatch⟩
  refine ⟨⟨w.setIssue (u.apply prev), task⟩, ?_, (hfresh _ _ hdispatch).agentID⟩
  simp [updateIssue, hprev, h.accepted, htrigger, h.asked, hdispatch]

end Writes

/-! ## Gates passed -/

section Gates

variable {w : Store} {c : Caller} {workspaceId : UUID} {issue : Issue} {type : RunnerType}
  {agentId : UUID} {agent : Agent}

/-- The caller may invoke whoever runs for an assignee that it was allowed to set. -/
theorem canInvoke_of_validateAssigneePair
    (hvalid : validateAssigneePair w c workspaceId issue.assigneeType issue.assigneeId = none)
    (hws : issue.workspaceId = workspaceId)
    (hrunner : runner w issue = some (type, agentId, agent)) :
    c.canInvoke w workspaceId agentId agent = true := by
  rcases runner_cases hrunner with ⟨hruns, -⟩
  unfold runner at hrunner
  split at hrunner
  · rename_i id htype hid
    rcases Option.map_eq_some_iff.1 hrunner with ⟨a, ha, heq⟩
    obtain ⟨rfl, rfl, rfl⟩ : .agent = type ∧ id = agentId ∧ a = agent := by simpa using heq
    rw [htype, hid, validateAssigneePair] at hvalid
    split at hvalid
    · cases hvalid
    · rename_i a' ha'
      obtain rfl : a' = a := Option.some.inj
        ((Option.filter_eq_some_iff.1 ha').1.symm.trans hruns.found)
      rw [hruns.archived] at hvalid
      simpa using hvalid
  · rename_i id htype hid
    rcases Option.bind_eq_some_iff.1 hrunner with ⟨squad, hsquad, hleader⟩
    rcases Option.map_eq_some_iff.1 hleader with ⟨a, ha, heq⟩
    obtain ⟨rfl, rfl, rfl⟩ : .squad = type ∧ squad.leaderId = agentId ∧ a = agent := by
      simpa using heq
    rw [htype, hid, validateAssigneePair, ← hws, hsquad] at hvalid
    have hleader : (w.agent squad.leaderId).filter (fun a => !a.archived) = some a :=
      Option.filter_eq_some_iff.2 ⟨hruns.found, by rw [hruns.archived]; rfl⟩
    rw [hws] at hvalid
    simp only [hleader] at hvalid
    cases harchived : squad.archived with
    | true => simp [harchived] at hvalid
    | false => simpa [harchived] using hvalid
  · cases hrunner

end Gates

end Orynx.RunTrigger
