import Orynx.Approval.Gate
import Orynx.Issue.InvokePermission

/-! # What a decision starts

`DecideApproval` of `server/internal/handler/approval.go`, as one call over the approvals, the
policies and the issues, agents and tasks around them. The events that it publishes are left out:
those who listen write inbox rows, activities and autopilot runs, and no tasks.

* `tasks_decideApproval`: the tasks stay what they are;
* `willEnqueueRun_unblocked`: the shared predicate, if it were asked, would refuse a run;
* `resumes_iff`: so what a decision is to do about the work it does only if it is a rejection.
-/

namespace Orynx.Approval.Resume

open Lib Orynx.Task
open RunTrigger (Headers Store RunnerType agentReadiness canInvokeAgent resolveActor runner
  willEnqueueRun)

structure Server where
  approvals : ApprovalTable
  policies : PolicyTable
  store : Store

structure DecideBody where
  decision : String
  learn : Bool := false
deriving DecidableEq, Repr

/-- A request whose body decodes or does not. The id and the time are those of the policy that is
put in. -/
structure Call where
  headers : Headers
  workspaceId : UUID
  issueId : UUID
  approvalId : UUID
  body : Option DecideBody
  policyId : UUID
  now : Int
deriving DecidableEq, Repr

inductive Reply where
  | error (status : Nat) (message : String)
  | ok (decided : IssueApproval)
deriving DecidableEq, Repr

def decisionStatus : String → Option Status
  | "approve" => some .approved
  | "reject" => some .rejected
  | _ => none

/-- An approval becomes a policy, if it may be learned and the row goes in. -/
def Server.learn (s : Server) (c : Call) (userId : UUID) (decided : IssueApproval) : Server :=
  match classifyCommand decided.command with
  | (.operational, actionClass) =>
    { s with
      policies := (s.policies.insert?
        { id := c.policyId
          workspaceId := c.workspaceId
          agentId := decided.requestedByAgent
          actionClass := actionClass
          sourceApprovalId := decided.id
          createdByMember := userId
          createdAt := c.now }).getD s.policies }
  | (.security, _) => s

/-- A blocked issue goes back to todo. -/
def Server.unblock (s : Server) (issue : RunTrigger.Issue) : Server :=
  if issue.status = .blocked then
    { s with store := s.store.setIssue { issue with status := .todo } }
  else s

def Server.decideApproval (s : Server) (c : Call) : Server × Reply :=
  match s.store.getIssueInWorkspace c.issueId c.workspaceId with
  | none => (s, .error 404 "issue not found")
  | some issue =>
    match resolveActor s.store c.workspaceId c.headers with
    -- an agent may not approve what it asked for
    | .agent _ => (s, .error 403 "only a member can approve or reject")
    | .member userId =>
      match c.body with
      | none => (s, .error 400 "invalid request body")
      | some body =>
        match decisionStatus body.decision with
        | none => (s, .error 400 "decision must be approve or reject")
        | some status =>
          match Approval.decideApproval s.approvals status userId c.approvalId c.workspaceId with
          | none => (s, .error 409 "approval is not pending (already decided or not found)")
          | some (approvals, decided) =>
            let s := { s with approvals := approvals }
            if status = .approved then
              let s := if body.learn then s.learn c userId decided else s
              (s.unblock issue, .ok decided)
            else (s, .ok decided)

/-! ## The property -/

/-- The work on the issue waits for nothing but the decision: its agent is ready, the member may
invoke it, it has no task of the issue and the cap leaves room for one. -/
structure Waiting (s : Server) (now : Timestamp) (c : Call) (issue : RunTrigger.Issue)
    (type : RunnerType) (agentId : UUID) (agent : RunTrigger.Agent) : Prop where
  found : s.store.getIssueInWorkspace c.issueId c.workspaceId = some issue
  unfinished : issue.status.terminal = false
  runs : runner s.store issue = some (type, agentId, agent)
  ready : agentReadiness s.store agent = true
  invocable : ∃ userId, resolveActor s.store c.workspaceId c.headers = .member userId ∧
    canInvokeAgent s.store agentId agent (.member userId) (some userId) c.workspaceId = true
  free : ∀ t ∈ s.store.tasks.rows, t.issueID = some issue.id → t.agentID = agentId →
    t.status ≠ .queued ∧ t.status.active = false
  cap : Routing.issueRunCapExceeded (s.store.env issue) now s.store.tasks = false
  pending : ∃ r, s.approvals.get? c.approvalId = some r ∧ r.issueId = issue.id ∧
    r.status = .pending

/-- An approval queues the agent, a rejection nobody. -/
structure Resumes (s s' : Server) (issueId agentId : UUID) (decision : String) : Prop where
  approve : decision = "approve" → ∃ t ∈ s'.store.tasks.rows, t.issueID = some issueId ∧
    t.agentID = agentId ∧ t.status = .queued
  reject : decision = "reject" → ∀ t ∈ s'.store.tasks.rows, t ∈ s.store.tasks.rows

/-! ## What a call does -/

section Calls

variable {s s' : Server} {now : Timestamp} {c : Call} {issue : RunTrigger.Issue} {type : RunnerType}
  {agentId : UUID} {agent : RunTrigger.Agent}

theorem learn_kept (s : Server) (c : Call) (userId : UUID) (decided : IssueApproval) :
    (s.learn c userId decided).store = s.store ∧
      (s.learn c userId decided).approvals = s.approvals := by
  unfold Server.learn
  split
  · exact ⟨rfl, rfl⟩
  · exact ⟨rfl, rfl⟩

theorem unblock_kept (s : Server) (issue : RunTrigger.Issue) :
    (s.unblock issue).store.tasks = s.store.tasks ∧
      (s.unblock issue).approvals = s.approvals := by
  unfold Server.unblock
  split
  · exact ⟨rfl, rfl⟩
  · exact ⟨rfl, rfl⟩

theorem decisionStatus_eq_some {decision : String} {status : Status}
    (h : decisionStatus decision = some status) :
    decision = "approve" ∧ status = .approved ∨ decision = "reject" ∧ status = .rejected := by
  unfold decisionStatus at h
  split at h
  · exact .inl ⟨rfl, (Option.some.inj h).symm⟩
  · exact .inr ⟨rfl, (Option.some.inj h).symm⟩
  · cases h

/-- Everything an accepted decision does. -/
theorem decideApproval_ok {decided : IssueApproval}
    (h : s.decideApproval c = (s', .ok decided)) :
    ∃ issue userId body status approvals,
      s.store.getIssueInWorkspace c.issueId c.workspaceId = some issue ∧
      resolveActor s.store c.workspaceId c.headers = .member userId ∧ c.body = some body ∧
      decisionStatus body.decision = some status ∧
      Approval.decideApproval s.approvals status userId c.approvalId c.workspaceId =
        some (approvals, decided) ∧
      s'.approvals = approvals ∧ s'.store.tasks = s.store.tasks := by
  unfold Server.decideApproval at h
  split at h
  · simp at h
  rename_i issue hissue
  split at h
  · simp at h
  rename_i userId hactor
  split at h
  · simp at h
  rename_i body hbody
  split at h
  · simp at h
  rename_i status hstatus
  split at h
  · simp at h
  rename_i approvals decided' hdecide
  have hsame : s'.approvals = approvals ∧ s'.store.tasks = s.store.tasks ∧ decided' = decided := by
    dsimp only at h
    split at h
    · simp only [Prod.mk.injEq, Reply.ok.injEq] at h
      rcases h with ⟨rfl, hdecided⟩
      rcases unblock_kept (if body.learn then
        Server.learn { s with approvals := approvals } c userId decided' else
        { s with approvals := approvals }) issue with ⟨htasks, happrovals⟩
      rw [htasks, happrovals]
      split
      · have hkept := learn_kept { s with approvals := approvals } c userId decided'
        exact ⟨hkept.2, by rw [hkept.1], hdecided⟩
      · exact ⟨rfl, rfl, hdecided⟩
    · simp only [Prod.mk.injEq, Reply.ok.injEq] at h
      rcases h with ⟨rfl, hdecided⟩
      exact ⟨rfl, rfl, hdecided⟩
  rcases hsame with ⟨happrovals, htasks, rfl⟩
  exact ⟨issue, userId, body, status, approvals, hissue, hactor, hbody, hstatus, hdecide,
    happrovals, htasks⟩

/-- Whatever is decided, no task comes or goes. -/
theorem tasks_decideApproval {decided : IssueApproval}
    (h : s.decideApproval c = (s', .ok decided)) : s'.store.tasks = s.store.tasks := by
  rcases decideApproval_ok h with ⟨_, _, _, _, _, -, -, -, -, -, -, htasks⟩
  exact htasks

/-- Leaving blocked starts nothing: the predicate asks for an issue that leaves backlog. -/
theorem willEnqueueRun_unblocked (w : Store) (issue : RunTrigger.Issue)
    (probe : RunTrigger.IssueTriggerProbe) :
    willEnqueueRun w { issue := { issue with status := .todo }, prevStatus := .blocked
                       assigneeChanged := false, statusChanged := true } probe = none := by
  simp [willEnqueueRun, RunTrigger.IssueTriggerInput.source]

/-- A decision does what it is to do about waiting work only if it is a rejection. -/
theorem resumes_iff {decided : IssueApproval} {body : DecideBody}
    (hwaiting : Waiting s now c issue type agentId agent) (hbody : c.body = some body)
    (h : s.decideApproval c = (s', .ok decided)) :
    Resumes s s' issue.id agentId body.decision ↔ body.decision = "reject" := by
  rcases decideApproval_ok h with
    ⟨_, _, body', status, _, -, -, hbody', hstatus, -, -, htasks⟩
  obtain rfl : body' = body := Option.some.inj (hbody'.symm.trans hbody)
  constructor
  · intro hresumes
    rcases decisionStatus_eq_some hstatus with ⟨happrove, -⟩ | ⟨hreject, -⟩
    · -- the queued task would have been there before
      rcases hresumes.approve happrove with ⟨t, ht, hissue, hagent, hqueued⟩
      rw [htasks] at ht
      exact absurd hqueued (hwaiting.free t ht hissue hagent).1
    · exact hreject
  · intro hreject
    constructor
    · intro happrove
      rw [hreject] at happrove
      exact absurd happrove (by decide)
    · intro _ t ht
      rw [htasks] at ht
      exact ht

end Calls

/-! ## A blocked issue -/

def blockedIssue : RunTrigger.Issue :=
  { RunTrigger.parkedIssue with
    status := .blocked, assigneeType := some .agent, assigneeId := some 5 }

/-- The agent of member 1 has asked whether it may push. -/
def asked : Server where
  approvals :=
    { rows := [{ id := 40, workspaceId := 9, issueId := 7, actionKey := "k", command := "git push"
                 requestedByAgent := some 5, createdAt := 1 }]
      key_nodup := by decide
      index_nodup := by decide }
  policies := Table.empty
  store := RunTrigger.office.setIssue blockedIssue

def answer (decision : String) : Call where
  headers := RunTrigger.user 1
  workspaceId := 9
  issueId := 7
  approvalId := 40
  body := some { decision := decision }
  policyId := 50
  now := 2

def privateAgent : RunTrigger.Agent :=
  { workspaceId := 9, ownerId := some 1, permissionMode := .ownerOnly, runtimeId := some 4 }

theorem waiting_asked (decision : String) :
    Waiting asked 100 (answer decision) blockedIssue .agent 5 privateAgent where
  found := rfl
  unfinished := by decide
  runs := by decide +kernel
  ready := by decide +kernel
  invocable := ⟨1, rfl, rfl⟩
  free := by decide +kernel
  cap := by decide +kernel
  pending := ⟨asked.approvals.rows.head (by decide), rfl, rfl, rfl⟩

/-- The reply takes the decision. -/
def Reply.accepted : Reply → Bool
  | .ok _ => true
  | .error _ _ => false

theorem ok_of_accepted {s : Server} {c : Call} (h : (s.decideApproval c).2.accepted = true) :
    ∃ s' decided, s.decideApproval c = (s', .ok decided) := by
  cases hdecide : s.decideApproval c with
  | mk s' reply =>
    rw [hdecide] at h
    cases reply with
    | ok decided => exact ⟨s', decided, rfl⟩
    | error status message => simp [Reply.accepted] at h

theorem resumes_iff_rejected :
    ∃ s' decided, asked.decideApproval (answer "reject") = (s', .ok decided) ∧
      Resumes asked s' 7 5 "reject" := by
  rcases ok_of_accepted (s := asked) (c := answer "reject") (by decide +kernel) with
    ⟨s', decided, h⟩
  exact ⟨s', decided, h, (resumes_iff (waiting_asked _) rfl h).2 rfl⟩

/-- The member approves, the issue goes to todo, and nobody is queued. -/
theorem approved_not_resumed :
    ∃ s' decided, asked.decideApproval (answer "approve") = (s', .ok decided) ∧
      Waiting asked 100 (answer "approve") blockedIssue .agent 5 privateAgent ∧
      ¬Resumes asked s' 7 5 "approve" := by
  rcases ok_of_accepted (s := asked) (c := answer "approve") (by decide +kernel) with
    ⟨s', decided, h⟩
  refine ⟨s', decided, h, waiting_asked _, fun hresumes => ?_⟩
  rcases hresumes.approve rfl with ⟨t, ht, hissue, -, -⟩
  rw [tasks_decideApproval h] at ht
  have hother : ∀ t ∈ asked.store.tasks.rows, t.issueID ≠ some 7 := by decide +kernel
  exact hother t ht hissue

end Orynx.Approval.Resume
