import Mathlib.Data.List.Sort
import Orynx.Routing.Outcome
import Orynx.Task.Plan

/-! # The routed comments of one pair

One (issue, agent) pair, with every party that handles its comments: the requests that
post them, and the completions that replay what a run was not given
(`reconcileCommentsOnCompletion` of `server/internal/handler/daemon.go`). A handling is
cut at its statements, so that a claim, a completion or another handling can come in
between; the loop body of `enqueueCommentAgentTriggers` is what is left when none does
(`handle_uninterrupted`). The other parties are the steps of the task queue.
-/

namespace Orynx.Routing.Delivery

open Lib Orynx.Task Orynx.Attribution

/-! ## Comments -/

/-- The (issue, agent) pair that is followed. -/
structure Pair where
  issueID : UUID
  agentID : UUID
deriving DecidableEq, Repr

/-- The row is a run of the pair. -/
def Pair.owns (p : Pair) (t : AgentTask) : Bool :=
  t.issueID == some p.issueID && t.agentID == p.agentID

/-- A comment that routes to the agent, and the path it takes there. -/
structure RoutedComment where
  id : UUID
  createdAt : Timestamp
  authorType : ActorType
  source : TriggerSource
deriving DecidableEq, Repr

/-- `keepExplicitMentionTriggers`, on the one trigger for the agent. -/
def TriggerSource.explicitMention : TriggerSource → Bool
  | .mentionAgent | .mentionSquadLeader => true
  | _ => false

/-- What a completion replays: every comment of a member, and an agent's explicit
mention. A comment an agent posts without one has no mention target whose outcome could
be reported either. -/
def RoutedComment.earnsFollowUp (c : RoutedComment) : Bool :=
  c.authorType == .member ||
    (c.authorType == .agent && TriggerSource.explicitMention c.source)

/-- `ORDER BY created_at ASC, id ASC`. -/
def RoutedComment.before (c d : RoutedComment) : Bool :=
  decide (c.createdAt < d.createdAt) || (c.createdAt == d.createdAt && decide (c.id ≤ d.id))

/-- The `created_at > since OR id = ANY(planned)` of the reconciliation query. -/
def covers (t : AgentTask) (c : RoutedComment) : Bool :=
  decide (t.createdAt < c.createdAt) || t.plan.contains c.id

/-- `ListReconcilableCommentsForIssueSince`, for the run `t`. -/
def listReconcilableCommentsForIssueSince (comments : List RoutedComment) (t : AgentTask) :
    List RoutedComment :=
  (comments.filter fun c =>
    (c.authorType == .member || c.authorType == .agent) && covers t c).insertionSort
      fun c d => c.before d = true

/-- The comments `reconcileCommentsOnCompletion` hands to
`enqueueCommentAgentTriggers`: those the receipt does not name, and of the agents' only
the explicit mentions. -/
def commentsToReplay (comments : List RoutedComment) (t : AgentTask) : List RoutedComment :=
  (listReconcilableCommentsForIssueSince comments t).filter fun c =>
    !t.deliveredCommentIDs.contains c.id && c.earnsFollowUp

/-! ## Handlings -/

/-- How far the handling of one comment has come. -/
inductive Point where
  | resolve
  | merge (trigger : CommentAgentTrigger)
  | check (trigger : CommentAgentTrigger)
  | enqueue (trigger : CommentAgentTrigger)
deriving DecidableEq, Repr

/-- A request in flight: one that posted a comment, a completion before it has listed
the comments to replay, or one that replays them in turn. -/
inductive Call where
  | create (c : RoutedComment) (point : Point)
  | reconcile (task : AgentTask)
  | replay (c : RoutedComment) (rest : List RoutedComment) (point : Point)
deriving DecidableEq, Repr

/-- What a statement makes of a handling. -/
inductive Progress where
  | goto (point : Point)
  | done (status : DispatchStatus)
deriving DecidableEq, Repr

/-- `computeCommentAgentTriggers`, as far as the pair goes; `trigger` is what it finds on
the comment's path. -/
def resolve (p : Pair) (env : Env) (trigger : CommentAgentTrigger) (q : TaskTable)
    (c : RoutedComment) : Point → Option (TaskTable × Progress)
  | .resolve =>
    if env.issue.id = p.issueID ∧ trigger.agentID = p.agentID ∧ trigger.source = c.source then
      let pending := hasPendingTaskForIssueAndAgentExcludingTriggerComment q p.issueID p.agentID
        c.id env.headSHA
      let trigger := { trigger with alreadyPending := pending }
      some (q, .goto (if pending then .merge trigger else .enqueue trigger))
    else none
  | _ => none

/-- `mergeCommentIntoPendingTask` and `commentMergeTerminalOutcome`. -/
def merge (p : Pair) (env : Env) (q : TaskTable) (c : RoutedComment) :
    Point → Option (TaskTable × Progress)
  | .merge trigger =>
    if env.issue.id = p.issueID then
      match Routing.mergeCommentIntoPendingTask env q trigger c.id with
      | (.succeeded, q') => some (q', .done .coalesced)
      | (.attributionBlocked, q') => some (q', .done .blocked)
      | (.error, q') => some (q', .done .blocked)
      | (.noPendingTask, q') => some (q', .goto (.check trigger))
    else none
  | _ => none

/-- `hasActiveTaskForIssueAndAgent` and `decidePostMergeMiss`. -/
def check (p : Pair) (q : TaskTable) : Point → Option (TaskTable × Progress)
  | .check trigger =>
    if hasActiveTaskForIssueAndAgent q p.issueID p.agentID then some (q, .done .deferred)
    else some (q, .goto (.enqueue trigger))
  | _ => none

/-- The path of an assignee's trigger leads to the issue's assignee. -/
def assigneeResolved (env : Env) (trigger : CommentAgentTrigger) : Prop :=
  trigger.source = .issueAssignee → trigger.squadID = none →
    env.assigneeID = some trigger.agentID

instance (env : Env) (trigger : CommentAgentTrigger) :
    Decidable (assigneeResolved env trigger) :=
  inferInstanceAs (Decidable (_ → _ → _))

/-- `enqueueSingleCommentTrigger` and what is recorded after it. -/
def enqueue (p : Pair) (env : Env) (now : Timestamp) (q : TaskTable) (c : RoutedComment) :
    Point → Option (TaskTable × Progress)
  | .enqueue trigger =>
    if env.issue.id = p.issueID ∧ assigneeResolved env trigger then
      let r := enqueueFresh env now q c.id trigger
      some (r.1, .done r.2.status)
    else none
  | _ => none

/-- Run the points of a handling back to back. -/
def handle (p : Pair) (env : Env) (now : Timestamp) (q : TaskTable) (c : RoutedComment)
    (trigger : CommentAgentTrigger) : Option (TaskTable × DispatchStatus) :=
  let close : Option (TaskTable × Progress) → Option (TaskTable × DispatchStatus)
    | some (q', .done status) => some (q', status)
    | _ => none
  if trigger.alreadyPending then
    match merge p env q c (.merge trigger) with
    | some (q₁, .goto point) =>
      match check p q₁ point with
      | some (q₂, .goto point) => close (enqueue p env now q₂ c point)
      | r => close r
    | r => close r
  else close (enqueue p env now q c (.enqueue trigger))

/-- Without interruption the points are the loop body of
`enqueueCommentAgentTriggers`. -/
theorem handle_uninterrupted {p : Pair} {env : Env} (now : Timestamp) (q : TaskTable)
    (c : RoutedComment) {trigger : CommentAgentTrigger} (hissue : env.issue.id = p.issueID)
    (hagent : trigger.agentID = p.agentID) (hassignee : assigneeResolved env trigger) :
    handle p env now q c trigger =
      some ((enqueueCommentAgentTrigger env now q c.id trigger).1,
        (enqueueCommentAgentTrigger env now q c.id trigger).2.status) := by
  have henqueue : ∀ q, enqueue p env now q c (.enqueue trigger) =
      some ((enqueueFresh env now q c.id trigger).1,
        .done (enqueueFresh env now q c.id trigger).2.status) := by
    intro q
    simp [enqueue, hissue, hassignee]
  unfold handle enqueueCommentAgentTrigger
  cases hpending : trigger.alreadyPending with
  | false => simp [henqueue]
  | true =>
    simp only [if_true, merge, hissue]
    cases hmerge : Routing.mergeCommentIntoPendingTask env q trigger c.id with
    | mk result q' =>
      cases result with
      | succeeded | attributionBlocked | error => simp
      | noPendingTask =>
        simp only [check, hagent]
        by_cases hactive : hasActiveTaskForIssueAndAgent q' p.issueID p.agentID = true
        · simp [hactive]
        · simp [hactive, henqueue]

/-! ## The machine -/

structure State where
  sys : Task.State
  comments : List RoutedComment
  calls : List Call
  reported : List RoutedComment

/-- A statement of some other party, or a step of a request about the pair. A request
is named by its position among those in flight. -/
inductive Act where
  | queue (step : Task.Step)
  | comment (id : UUID) (authorType : ActorType) (source : TriggerSource)
  | completeTask (id : UUID) (sessionID workDir : Option String)
  | list (i : Nat)
  | resolve (i : Nat) (env : Env) (trigger : CommentAgentTrigger)
  | merge (i : Nat) (env : Env)
  | check (i : Nat)
  | enqueue (i : Nat) (env : Env)

/-- The comment a request is at, and how far it has come with it. -/
def Call.current : Call → Option (RoutedComment × Point)
  | .create c point => some (c, point)
  | .reconcile _ => none
  | .replay c _ point => some (c, point)

def Call.goto (point : Point) : Call → Call
  | .create c _ => .create c point
  | .reconcile t => .reconcile t
  | .replay c rest _ => .replay c rest point

/-- The replay of a list of comments. -/
def replayOf : List RoutedComment → Option Call
  | [] => none
  | c :: rest => some (.replay c rest .resolve)

/-- What is left of a request once its current comment is done. -/
def Call.rest : Call → Option Call
  | .replay _ rest _ => replayOf rest
  | _ => none

/-- The comment whose outcome a finished handling reports: a replay reports none. -/
def Call.report (status : DispatchStatus) : Call → List RoutedComment
  | .create c _ => if c.earnsFollowUp ∧ status ≠ .blocked then [c] else []
  | _ => []

/-- Replace the request at a position, or take it out. -/
def replaceAt (calls : List Call) (i : Nat) : Option Call → List Call
  | some call => calls.set i call
  | none => calls.eraseIdx i

/-- Take the handling of request `i` one statement further. -/
def State.advance (s : State) (i : Nat)
    (f : RoutedComment → Point → Option (TaskTable × Progress)) : Option State := do
  let call ← s.calls[i]?
  let (c, point) ← call.current
  let (q, progress) ← f c point
  let s := { s with sys := { s.sys with queue := q } }
  match progress with
  | .goto point => return { s with calls := replaceAt s.calls i (some (call.goto point)) }
  | .done status =>
    return { s with
      calls := replaceAt s.calls i call.rest
      reported := s.reported ++ call.report status }

/-- `CompleteTask` of the service: a run that is not running any more is returned as it
is. -/
def completeTask (now : Timestamp) (q : TaskTable) (id : UUID)
    (sessionID workDir : Option String) : Option (TaskTable × AgentTask) :=
  match updateOne q (completeAgentTask now id sessionID workDir) with
  | .ok r => some r
  | .error .noRows => (getAgentTask q id).map fun t => (q, t)
  | .error .uniqueViolation => none

/-- The only statement that completes a run is the one of `CompleteTask`. -/
def completes : Task.Step → Bool
  | .update stmt => stmt.completes
  | _ => false

def next (cfg : Config) (p : Pair) (s : State) : Act → Option State
  | .queue step =>
    if completes step then none
    else (Task.next cfg s.sys step).map fun sys => { s with sys := sys }
  | .comment id authorType source =>
    if s.comments.any fun c => c.id == id then none
    else
      let c := ⟨id, s.sys.now, authorType, source⟩
      some { s with comments := s.comments ++ [c], calls := s.calls ++ [.create c .resolve] }
  | .completeTask id sessionID workDir =>
    (completeTask s.sys.now s.sys.queue id sessionID workDir).map fun r =>
      -- the handler then reconciles the row it was given
      { s with
        sys := { s.sys with queue := r.1 }
        calls := if p.owns r.2 then s.calls ++ [.reconcile r.2] else s.calls }
  | .list i =>
    match s.calls[i]? with
    | some (.reconcile task) =>
      some { s with calls := replaceAt s.calls i (replayOf (commentsToReplay s.comments task)) }
    | _ => none
  | .resolve i env trigger => s.advance i (Delivery.resolve p env trigger s.sys.queue)
  | .merge i env => s.advance i (Delivery.merge p env s.sys.queue)
  | .check i => s.advance i fun _ => Delivery.check p s.sys.queue
  | .enqueue i env => s.advance i (Delivery.enqueue p env s.sys.now s.sys.queue)

/-- The pair from its first comment on. -/
def machine (cfg : Config) (p : Pair) : Machine State Act where
  Init s := (Task.machine cfg).Init s.sys ∧ s.comments = [] ∧ s.calls = [] ∧ s.reported = []
  next := next cfg p

def State.empty : State := ⟨Task.State.empty, [], [], []⟩

theorem init_empty (cfg : Config) (p : Pair) : (machine cfg p).Init State.empty :=
  ⟨Task.init_empty cfg, rfl, rfl, rfl⟩

end Orynx.Routing.Delivery
