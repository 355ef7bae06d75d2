import Orynx.Attribution.Enqueue

/-! # From a comment to its agents

`enqueueCommentAgentTriggers` of `server/internal/handler/comment.go` and the enqueue
paths of `server/internal/service/task.go` under it. A resolved trigger is folded into
the queued row of its pair, left to the active run, or enqueued afresh, and the
outcome is reported per agent.

A call is one function of the queue, `now` and `Env`, which holds what else it reads.
Database calls other than the inserts do not fail; an insert fails by constraint.
-/

namespace Orynx.Routing

open Orynx.Task Orynx.Attribution

/-! ## What a call reads -/

/-- The columns of an agent that the enqueue paths read. -/
structure Agent where
  archived : Bool := false
  runtimeID : Option UUID
  policy : FallbackPolicy
deriving DecidableEq, Repr

/-- One issue, and the lookups of a call about it; `maxIssueRuns` is the parsed
`ORYNX_MAX_ISSUE_RUNS`. -/
structure Env where
  issue : Issue
  assigneeID : Option UUID := none
  priority : Int := 0
  agent : UUID → Option Agent
  comment : UUID → Option Comment
  autopilot : AutopilotFacts := {}
  headSHA : String := ""
  maxIssueRuns : Option Int := none
  escalationDelay : Nat := 0

/-! ## The run cap -/

def issueRunWindow : Nat := 30 * 60

def defaultIssueRunCap : Nat := 25

def issueRunCap (env : Env) : Nat :=
  match env.maxIssueRuns with
  | some n => if 0 < n then n.toNat else defaultIssueRunCap
  | none => defaultIssueRunCap

/-- The rows of the issue created inside the window. -/
def recentRuns (env : Env) (now : Timestamp) (q : TaskTable) : Nat :=
  q.rows.countP fun t =>
    t.issueID == some env.issue.id && decide (now < t.createdAt + issueRunWindow)

/-- `issueRunCapExceeded`; `ListTasksByIssue` returns the newest 1000 rows. -/
def issueRunCapExceeded (env : Env) (now : Timestamp) (q : TaskTable) : Bool :=
  decide (issueRunCap env ≤ min 1000 (recentRuns env now q))

/-! ## Enqueue paths -/

inductive EnqueueError where
  | noAssignee
  | agentNotFound
  | agentArchived
  | agentNoRuntime
  | attributionFailClosed
  | create (e : DbError)
deriving DecidableEq, Repr

/-- A primary key no row has. -/
def newTaskID (q : TaskTable) : UUID := (q.rows.map fun t => t.id).foldr max 0 + 1

/-- What distinguishes the paths that end in `CreateAgentTask`. -/
structure EnqueueParams where
  agentID : UUID
  agentAuthoredSource : Source
  triggerCommentID : Option UUID := none
  coalescedCommentIDs : List UUID := []
  isLeader : Bool := false
  squadID : Option UUID := none
  forceFreshSession : Bool := false
  actorUserID : Option UUID := none
  rerunOfTaskID : Option UUID := none
deriving DecidableEq, Repr

/-- The agent a path enqueues for, with its runtime: loaded, not archived, runnable. -/
def runnableAgent (env : Env) (agentID : UUID) : Except EnqueueError (Agent × UUID) :=
  match env.agent agentID with
  | none => .error .agentNotFound
  | some agent =>
    if agent.archived then .error .agentArchived
    else
      match agent.runtimeID with
      | none => .error .agentNoRuntime
      | some runtimeID => .ok (agent, runtimeID)

/-- The attribution of an issue-backed enqueue, or its refusal. -/
def issueAttribution (env : Env) (q : TaskTable) (agent : Agent) (agentAuthoredSource : Source)
    (triggerCommentID actorUserID : Option UUID) : Except EnqueueError Result :=
  match (Enqueue.issueTask env.autopilot env.issue (triggerCommentID.map env.comment)
      agentAuthoredSource actorUserID).resolve q agent.policy with
  | none => .error .attributionFailClosed
  | some attr => .ok attr

/-- The common part of the paths, behind their guards. -/
def createTask (env : Env) (now : Timestamp) (q : TaskTable) (p : EnqueueParams) :
    Except EnqueueError (TaskTable × AgentTask) := do
  let (agent, runtimeID) ← runnableAgent env p.agentID
  let attr ← issueAttribution env q agent p.agentAuthoredSource p.triggerCommentID p.actorUserID
  let row := createAgentTask now (newTaskID q)
    { agentID := p.agentID, runtimeID := runtimeID, issueID := some env.issue.id,
      priority := env.priority, triggerCommentID := p.triggerCommentID,
      coalescedCommentIDs := p.coalescedCommentIDs, forceFreshSession := p.forceFreshSession,
      isLeaderTask := p.isLeader, squadID := p.squadID, headSHA := env.headSHA,
      attribution := attr.columns, rerunOfTaskID := p.rerunOfTaskID }
  match insertStmt q row with
  | .error e => .error (.create e)
  | .ok q' => .ok (q', row)

/-- `enqueueMentionTaskWithCommentPlan`. At the cap it returns the zero task and no
error. -/
def enqueueMentionTaskWithCommentPlan (env : Env) (now : Timestamp) (q : TaskTable)
    (p : EnqueueParams) : Except EnqueueError (TaskTable × Option AgentTask) :=
  if issueRunCapExceeded env now q then .ok (q, none)
  else
    (createTask env now q { p with agentAuthoredSource := .delegation }).map
      fun r => (r.1, some r.2)

/-- `enqueueIssueTaskWithCommentPlan`: for the issue's assignee. -/
def enqueueIssueTaskWithCommentPlan (env : Env) (now : Timestamp) (q : TaskTable)
    (triggerCommentID : Option UUID) (coalescedCommentIDs : List UUID)
    (forceFreshSession : Bool) (actorUserID rerunOfTaskID : Option UUID) :
    Except EnqueueError (TaskTable × Option AgentTask) :=
  match env.assigneeID with
  | none => .error .noAssignee
  | some assigneeID =>
    if issueRunCapExceeded env now q then .ok (q, none)
    else
      (createTask env now q
        { agentID := assigneeID, agentAuthoredSource := .commentSource,
          triggerCommentID := triggerCommentID, coalescedCommentIDs := coalescedCommentIDs,
          forceFreshSession := forceFreshSession, actorUserID := actorUserID,
          rerunOfTaskID := rerunOfTaskID }).map
        fun r => (r.1, some r.2)

def enqueueTaskForIssue (env : Env) (now : Timestamp) (q : TaskTable) (triggerCommentID : UUID) :
    Except EnqueueError (TaskTable × Option AgentTask) :=
  enqueueIssueTaskWithCommentPlan env now q (some triggerCommentID) [] false none none

def enqueueTaskForMention (env : Env) (now : Timestamp) (q : TaskTable)
    (agentID triggerCommentID : UUID) : Except EnqueueError (TaskTable × Option AgentTask) :=
  enqueueMentionTaskWithCommentPlan env now q
    { agentID := agentID, agentAuthoredSource := .delegation,
      triggerCommentID := some triggerCommentID }

def enqueueTaskForThreadParent (env : Env) (now : Timestamp) (q : TaskTable)
    (agentID triggerCommentID : UUID) : Except EnqueueError (TaskTable × Option AgentTask) :=
  enqueueTaskForMention env now q agentID triggerCommentID

def enqueueTaskForSquadLeader (env : Env) (now : Timestamp) (q : TaskTable) (leaderID : UUID)
    (squadID : Option UUID) (triggerCommentID : UUID) :
    Except EnqueueError (TaskTable × Option AgentTask) :=
  enqueueMentionTaskWithCommentPlan env now q
    { agentID := leaderID, agentAuthoredSource := .delegation,
      triggerCommentID := some triggerCommentID, isLeader := true, squadID := squadID }

/-- `EnqueueDeferredAssigneeFallback`, which the run cap does not guard. -/
def enqueueDeferredAssigneeFallback (env : Env) (now : Timestamp) (q : TaskTable)
    (agentID : UUID) (squadID escalationForTaskID : Option UUID) (triggerCommentID : UUID)
    (fireAt : Timestamp) : Except EnqueueError TaskTable := do
  let (agent, runtimeID) ← runnableAgent env agentID
  let attr ← issueAttribution env q agent .commentSource (some triggerCommentID) none
  let row := createDeferredAgentTask now (newTaskID q)
    { agentID := agentID, runtimeID := runtimeID, issueID := env.issue.id,
      priority := env.priority, triggerCommentID := some triggerCommentID,
      isLeaderTask := squadID.isSome, squadID := squadID,
      escalationForTaskID := escalationForTaskID, fireAt := fireAt, attribution := attr.columns }
  match insertStmt q row with
  | .error e => .error (.create e)
  | .ok q' => .ok q'

/-! ## Triggers -/

/-- `commentAgentTriggerSource`. -/
inductive TriggerSource where
  | issueAssignee
  | mentionSquadLeader
  | mentionAgent
  | threadParent
  | conversation
deriving DecidableEq, Repr

/-- `commentEscalationFallback`. -/
structure EscalationFallback where
  agentID : UUID
  squadID : Option UUID := none
deriving DecidableEq, Repr

/-- `commentAgentTrigger`; `policy` is what the loaded agent row says about
attribution. -/
structure CommentAgentTrigger where
  agentID : UUID
  policy : FallbackPolicy
  source : TriggerSource
  squadID : Option UUID := none
  escalationFallback : Option EscalationFallback := none
  alreadyPending : Bool
deriving DecidableEq, Repr

/-- The best-effort second half of a routed reply: the assignee is woken later unless
the primary run gets somewhere. -/
def escalate (env : Env) (now : Timestamp) (q : TaskTable) (primary : Option AgentTask)
    (triggerCommentID : UUID) (fallback : Option EscalationFallback) : TaskTable :=
  match fallback with
  | none => q
  | some fb =>
    if env.escalationDelay = 0 then q
    else
      match enqueueDeferredAssigneeFallback env now q fb.agentID fb.squadID
          (primary.map fun t => t.id) triggerCommentID (now + env.escalationDelay) with
      | .ok q' => q'
      | .error _ => q

/-- `enqueueSingleCommentTrigger`. -/
def enqueueSingleCommentTrigger (env : Env) (now : Timestamp) (q : TaskTable)
    (triggerCommentID : UUID) (trigger : CommentAgentTrigger) :
    Except EnqueueError TaskTable :=
  let routed (r : Except EnqueueError (TaskTable × Option AgentTask)) :=
    r.map fun p => escalate env now p.1 p.2 triggerCommentID trigger.escalationFallback
  match trigger.source with
  | .issueAssignee =>
    match trigger.squadID with
    | some squadID =>
      (enqueueTaskForSquadLeader env now q trigger.agentID (some squadID) triggerCommentID).map
        Prod.fst
    | none => (enqueueTaskForIssue env now q triggerCommentID).map Prod.fst
  | .mentionSquadLeader =>
    (enqueueTaskForSquadLeader env now q trigger.agentID trigger.squadID triggerCommentID).map
      Prod.fst
  | .mentionAgent =>
    (enqueueTaskForMention env now q trigger.agentID triggerCommentID).map Prod.fst
  | .threadParent => routed (enqueueTaskForThreadParent env now q trigger.agentID triggerCommentID)
  | .conversation =>
    match trigger.squadID with
    | some squadID =>
      routed
        (enqueueTaskForSquadLeader env now q trigger.agentID (some squadID) triggerCommentID)
    | none => routed (enqueueTaskForThreadParent env now q trigger.agentID triggerCommentID)

/-- `commentMergeResult`. -/
inductive CommentMergeResult where
  | succeeded
  | noPendingTask
  | attributionBlocked
  | error
deriving DecidableEq, Repr

/-- The attribution a merge moves the queued row to. -/
def mergeAttribution (env : Env) (q : TaskTable) (trigger : CommentAgentTrigger)
    (newTriggerCommentID : UUID) : Option Result :=
  (Enqueue.triggerComment (env.comment newTriggerCommentID)
    (if trigger.source = .issueAssignee then .commentSource else .delegation)).resolve q
    trigger.policy

/-- `mergeCommentIntoPendingTask` of the handler. -/
def mergeCommentIntoPendingTask (env : Env) (q : TaskTable) (trigger : CommentAgentTrigger)
    (newTriggerCommentID : UUID) : CommentMergeResult × TaskTable :=
  match mergeAttribution env q trigger newTriggerCommentID with
  | none => (.attributionBlocked, q)
  | some attr =>
    match mergeTarget q env.issue.id trigger.agentID with
    | none => (.noPendingTask, q)
    | some target =>
      match updateStmt q
          (Task.mergeCommentIntoPendingTask target.id newTriggerCommentID attr.columns) with
      | .ok q' => (.succeeded, q')
      | .error _ => (.error, q)

inductive DispatchStatus where
  | queued
  | coalesced
  | deferred
  | blocked
deriving DecidableEq, Repr

inductive DispatchReasonCode where
  | queued
  | coalesced
  | deferred
  | attributionBlocked
  | internalError
deriving DecidableEq, Repr

/-- `commentEnqueueResult`. -/
structure CommentEnqueueResult where
  status : DispatchStatus
  reason : DispatchReasonCode
  execSquadID : Option UUID
deriving DecidableEq, Repr

/-- `commentEnqueueFailureReason`. -/
def commentEnqueueFailureReason : EnqueueError → DispatchReasonCode
  | .attributionFailClosed => .attributionBlocked
  | _ => .internalError

/-- The fresh enqueue at the end of the loop body. -/
def enqueueFresh (env : Env) (now : Timestamp) (q : TaskTable) (triggerCommentID : UUID)
    (trigger : CommentAgentTrigger) : TaskTable × CommentEnqueueResult :=
  match enqueueSingleCommentTrigger env now q triggerCommentID trigger with
  | .error e => (q, ⟨.blocked, commentEnqueueFailureReason e, trigger.squadID⟩)
  | .ok q' => (q', ⟨.queued, .queued, trigger.squadID⟩)

/-- The loop body of `enqueueCommentAgentTriggers`. -/
def enqueueCommentAgentTrigger (env : Env) (now : Timestamp) (q : TaskTable)
    (triggerCommentID : UUID) (trigger : CommentAgentTrigger) :
    TaskTable × CommentEnqueueResult :=
  if trigger.alreadyPending then
    match mergeCommentIntoPendingTask env q trigger triggerCommentID with
    | (.succeeded, q') => (q', ⟨.coalesced, .coalesced, trigger.squadID⟩)
    | (.attributionBlocked, q') => (q', ⟨.blocked, .attributionBlocked, trigger.squadID⟩)
    | (.error, q') => (q', ⟨.blocked, .internalError, trigger.squadID⟩)
    | (.noPendingTask, q') =>
      -- an active run reconciles when it completes
      if hasActiveTaskForIssueAndAgent q' env.issue.id trigger.agentID then
        (q', ⟨.deferred, .deferred, trigger.squadID⟩)
      else enqueueFresh env now q' triggerCommentID trigger
  else enqueueFresh env now q triggerCommentID trigger

/-- `enqueueCommentAgentTriggers`: the results by executing agent. -/
def enqueueCommentAgentTriggers (env : Env) (now : Timestamp) (triggerCommentID : UUID) :
    TaskTable → List CommentAgentTrigger → TaskTable × List (UUID × CommentEnqueueResult)
  | q, [] => (q, [])
  | q, trigger :: triggers =>
    let handled := enqueueCommentAgentTrigger env now q triggerCommentID trigger
    let rest := enqueueCommentAgentTriggers env now triggerCommentID handled.1 triggers
    (rest.1, (trigger.agentID, handled.2) :: rest.2)

end Orynx.Routing
