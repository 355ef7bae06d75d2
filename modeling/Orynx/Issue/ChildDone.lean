import Orynx.Issue.Update

/-! # Parents and their children

What `notifyParentOfChildDone` of `server/internal/handler/issue_child_done.go` asks of an issue,
of its parent and of its siblings.
-/

namespace Orynx.ChildDone

open Lib
open Autopilot (IssueStatus)
open IssueUpdate (AssigneeType)

/-! ## Rows -/

structure Issue where
  id : UUID
  workspaceId : UUID := 1
  number : Int := 0
  status : IssueStatus := .todo
  parentIssueId : Option UUID := none
  stage : Option Int := none
  assigneeType : Option AssigneeType := none
  assigneeId : Option UUID := none
deriving DecidableEq, Repr

def issueSchema : Schema Issue UUID Unit where
  key := Issue.id
  index _ := none

abbrev IssueTable := Table issueSchema

@[simp] theorem issueSchema_key (r : Issue) : issueSchema.key r = r.id := rfl

def listChildIssues (q : IssueTable) (id : UUID) : List Issue :=
  q.rows.filter fun r => r.parentIssueId == some id

def getIssueByNumber (q : IssueTable) (workspaceId : UUID) (number : Int) : Option Issue :=
  q.rows.find? fun r => r.workspaceId == workspaceId && r.number == number

/-! ## Writes -/

/-- `UpdateIssueStatus`. -/
def updateIssueStatusStmt (id workspaceId : UUID) (status : IssueStatus) : Update Issue where
  sel r := r.id == id && r.workspaceId == workspaceId
  set r := { r with status := status }

section Writes

variable {q : IssueTable} {u : Update Issue}

theorem exec_rows (hkey : ∀ r, (u.apply r).id = r.id) : (q.exec u).rows = q.rows.map u.apply :=
  Table.update?_rows (Table.update?_eq_exec hkey fun _ => rfl)

theorem get?_exec (hkey : ∀ r, (u.apply r).id = r.id) (x : UUID) :
    (q.exec u).get? x = (q.get? x).map u.apply :=
  Table.get?_update? hkey (Table.update?_eq_exec hkey fun _ => rfl) x

theorem status_key (x w : UUID) (st : IssueStatus) (r : Issue) :
    ((updateIssueStatusStmt x w st).apply r).id = r.id := by
  unfold Update.apply
  split <;> rfl

theorem status_parent (x w : UUID) (st : IssueStatus) (r : Issue) :
    ((updateIssueStatusStmt x w st).apply r).parentIssueId = r.parentIssueId := by
  unfold Update.apply
  split <;> rfl

theorem status_other {x w : UUID} {st : IssueStatus} {r : Issue} (h : r.id ≠ x) :
    (updateIssueStatusStmt x w st).apply r = r :=
  Update.apply_of_not_sel (by simp [updateIssueStatusStmt, h])

theorem status_self {x w : UUID} {r : Issue} (hid : r.id = x) (hw : r.workspaceId = w)
    (st : IssueStatus) : (updateIssueStatusStmt x w st).apply r = { r with status := st } :=
  Update.apply_of_sel (by simp [updateIssueStatusStmt, hid, hw])

theorem status_workspace (x w : UUID) (st : IssueStatus) (r : Issue) :
    ((updateIssueStatusStmt x w st).apply r).workspaceId = r.workspaceId := by
  unfold Update.apply
  split <;> rfl

end Writes

/-! ## Guards -/

/-- The transition that a parent hears of. -/
def completes (prev status : IssueStatus) : Bool := !prev.terminal && status.terminal

/-- The parent is not closed, not parked and not a member's. -/
def parentListens (parent : Issue) : Bool :=
  !parent.status.terminal && parent.status != .backlog && parent.assigneeType != some .member

def allChildrenTerminal (children : List Issue) : Bool :=
  !children.isEmpty && children.all fun c => c.status.terminal

def siblingsAreStaged (children : List Issue) : Bool := children.any fun c => c.stage.isSome

/-- The completed issue closes its stage, or the whole set where there are no stages. -/
def stageBarrierClosed (children : List Issue) (completed : Issue) : Bool :=
  if siblingsAreStaged children then
    match completed.stage with
    | none => false
    | some s => children.all fun c => c.stage.all fun t => !decide (t ≤ s) || c.status.terminal
  else children.all fun c => c.status.terminal

end Orynx.ChildDone
