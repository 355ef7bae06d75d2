import Mathlib.Data.Rat.Defs
import Orynx.Autopilot.Store
import Orynx.Lib.Machine
import Orynx.Lib.Table

/-! # Updates of some fields of an issue

`UpdateIssue` and `BatchUpdateIssues` of `server/internal/handler/issue.go` send the fields that
change. Five columns are merged by the statement, `COALESCE(narg, column)`; the other seven are
filled in from the row as the handler loaded it and written in any case.

* `col_updateIssueStmt`: what a column holds after the statement;
* `Kept`: the issues that a request has updated hold what it sent;
* `writesBackCurrent`: what a request writes back without having sent it is still in the row;
* `updates_kept`: requests for different fields keep each other's values as long as this is so,
  and not a step longer;
* `dates_lost`: two requests that both load first lose a date.
-/

namespace Orynx.IssueUpdate

open Lib
open Autopilot (IssueStatus)

/-! ## Rows -/

inductive Priority where
  | urgent
  | high
  | medium
  | low
  | none
deriving DecidableEq, Repr

inductive AssigneeType where
  | member
  | agent
  | squad
deriving DecidableEq, Repr

/-- Dates are days. -/
structure Issue where
  id : UUID
  workspaceId : UUID
  title : String
  description : Option String := none
  status : IssueStatus := .backlog
  priority : Priority := .none
  assigneeType : Option AssigneeType := none
  assigneeId : Option UUID := none
  position : Rat := 0
  startDate : Option Int := none
  dueDate : Option Int := none
  parentIssueId : Option UUID := none
  projectId : Option UUID := none
  stage : Option Int := none
deriving DecidableEq, Repr

def issueSchema : Schema Issue UUID Unit where
  key := Issue.id
  index _ := none

abbrev IssueTable := Table issueSchema

@[simp] theorem issueSchema_key (r : Issue) : issueSchema.key r = r.id := rfl

/-- `GetIssueInWorkspace`. -/
def getIssueInWorkspace (q : IssueTable) (id workspaceId : UUID) : Option Issue :=
  q.rows.find? fun r => r.id == id && r.workspaceId == workspaceId

/-! ## Requests and the statement -/

/-- The fields of the body: the first five are absent or a value, the others may be `null`. -/
structure UpdateIssueRequest where
  title : Option String := none
  description : Option String := none
  status : Option IssueStatus := none
  priority : Option Priority := none
  position : Option Rat := none
  assigneeType : Option (Option AssigneeType) := none
  assigneeId : Option (Option UUID) := none
  startDate : Option (Option Int) := none
  dueDate : Option (Option Int) := none
  parentIssueId : Option (Option UUID) := none
  projectId : Option (Option UUID) := none
  stage : Option (Option Int) := none
deriving DecidableEq, Repr

structure UpdateIssueParams where
  id : UUID
  title : Option String
  description : Option String
  status : Option IssueStatus
  priority : Option Priority
  assigneeType : Option AssigneeType
  assigneeId : Option UUID
  position : Option Rat
  startDate : Option Int
  dueDate : Option Int
  parentIssueId : Option UUID
  projectId : Option UUID
  stage : Option Int
deriving DecidableEq, Repr

/-- The nullable parameters start from the loaded row and are overridden by what was sent. -/
def updateIssueParams (prevIssue : Issue) (req : UpdateIssueRequest) : UpdateIssueParams where
  id := prevIssue.id
  title := req.title
  description := req.description
  status := req.status
  priority := req.priority
  assigneeType := req.assigneeType.getD prevIssue.assigneeType
  assigneeId := req.assigneeId.getD prevIssue.assigneeId
  position := req.position
  startDate := req.startDate.getD prevIssue.startDate
  dueDate := req.dueDate.getD prevIssue.dueDate
  parentIssueId := req.parentIssueId.getD prevIssue.parentIssueId
  projectId := req.projectId.getD prevIssue.projectId
  stage := req.stage.getD prevIssue.stage

/-- What the handler checks without a query: the parent is another issue, the stage counts from
one, and the two columns of a touched assignee go together. -/
def accepts (prevIssue : Issue) (req : UpdateIssueRequest) : Bool :=
  let params := updateIssueParams prevIssue req
  req.parentIssueId != some (some prevIssue.id) &&
    req.stage.all (fun stage => stage.all (1 ≤ ·)) &&
    (req.assigneeType.isNone && req.assigneeId.isNone ||
      params.assigneeType.isSome == params.assigneeId.isSome)

/-- The statement `UpdateIssue`. -/
def updateIssueStmt (p : UpdateIssueParams) : Update Issue where
  sel r := r.id == p.id
  set r :=
    { r with
      title := p.title.getD r.title
      description := p.description.or r.description
      status := p.status.getD r.status
      priority := p.priority.getD r.priority
      assigneeType := p.assigneeType
      assigneeId := p.assigneeId
      position := p.position.getD r.position
      startDate := p.startDate
      dueDate := p.dueDate
      parentIssueId := p.parentIssueId
      projectId := p.projectId
      stage := p.stage }

/-- `hasMutation`. -/
def hasMutation (req : UpdateIssueRequest) : Bool := req != {}

/-! ## Columns -/

inductive Column where
  | title
  | description
  | status
  | priority
  | position
  | assigneeType
  | assigneeId
  | startDate
  | dueDate
  | parentIssueId
  | projectId
  | stage
deriving DecidableEq, Repr

def Column.all : List Column :=
  [.title, .description, .status, .priority, .position, .assigneeType, .assigneeId, .startDate,
    .dueDate, .parentIssueId, .projectId, .stage]

theorem Column.mem_all (c : Column) : c ∈ Column.all := by
  cases c <;> simp [Column.all]

/-- Written in any case, from the loaded row if it was not sent. -/
def Column.prefilled : Column → Bool
  | .title | .description | .status | .priority | .position => false
  | _ => true

/-- The two columns of the assignee are one field. -/
def Column.sameField (c c' : Column) : Bool :=
  c == c' || (c == .assigneeType && c' == .assigneeId) || (c == .assigneeId && c' == .assigneeType)

abbrev Column.Val : Column → Type
  | .title => String
  | .description => Option String
  | .status => IssueStatus
  | .priority => Priority
  | .position => Rat
  | .assigneeType => Option AssigneeType
  | .assigneeId | .parentIssueId | .projectId => Option UUID
  | .startDate | .dueDate | .stage => Option Int

instance Column.decEqVal : (c : Column) → DecidableEq c.Val
  | .title => inferInstanceAs (DecidableEq String)
  | .description => inferInstanceAs (DecidableEq (Option String))
  | .status => inferInstanceAs (DecidableEq IssueStatus)
  | .priority => inferInstanceAs (DecidableEq Priority)
  | .position => inferInstanceAs (DecidableEq Rat)
  | .assigneeType => inferInstanceAs (DecidableEq (Option AssigneeType))
  | .assigneeId | .parentIssueId | .projectId => inferInstanceAs (DecidableEq (Option UUID))
  | .startDate | .dueDate | .stage => inferInstanceAs (DecidableEq (Option Int))

/-- The value of a column. -/
def Issue.col (r : Issue) : (c : Column) → c.Val
  | .title => r.title
  | .description => r.description
  | .status => r.status
  | .priority => r.priority
  | .position => r.position
  | .assigneeType => r.assigneeType
  | .assigneeId => r.assigneeId
  | .startDate => r.startDate
  | .dueDate => r.dueDate
  | .parentIssueId => r.parentIssueId
  | .projectId => r.projectId
  | .stage => r.stage

/-- The value that a request sends for a column. -/
def UpdateIssueRequest.sent (req : UpdateIssueRequest) : (c : Column) → Option c.Val
  | .title => req.title
  | .description => req.description.map some
  | .status => req.status
  | .priority => req.priority
  | .position => req.position
  | .assigneeType => req.assigneeType
  | .assigneeId => req.assigneeId
  | .startDate => req.startDate
  | .dueDate => req.dueDate
  | .parentIssueId => req.parentIssueId
  | .projectId => req.projectId
  | .stage => req.stage

/-- No field is sent by both. -/
def UpdateIssueRequest.disjoint (req req' : UpdateIssueRequest) : Bool :=
  Column.all.all fun c => Column.all.all fun c' =>
    !c.sameField c' || (req.sent c).isNone || (req'.sent c').isNone

/-- A column holds what was sent, else what was loaded or, where the statement merges, what it
held. -/
theorem col_updateIssueStmt (prevIssue r : Issue) (req : UpdateIssueRequest) (c : Column) :
    ((updateIssueStmt (updateIssueParams prevIssue req)).set r).col c =
      (req.sent c).getD (if c.prefilled then prevIssue.col c else r.col c) := by
  cases c with
  | description =>
    cases hd : req.description with
    | none => simp [updateIssueStmt, updateIssueParams, Issue.col, UpdateIssueRequest.sent,
        Column.prefilled, hd]
    | some d => simp [updateIssueStmt, updateIssueParams, Issue.col, UpdateIssueRequest.sent, hd]
  | _ => rfl

/-! ## The machine -/

/-- What a request does next; `prevIssue` is the row as it was loaded. -/
inductive Phase where
  | load
  | update (prevIssue : Issue)
deriving DecidableEq, Repr

/-- `updated` is the history of the issues that the request has updated. -/
structure Request where
  workspaceId : UUID
  issueIds : List UUID
  updates : UpdateIssueRequest
  phase : Phase := .load
  updated : List UUID := []
deriving DecidableEq, Repr

def Request.updateIssue (workspaceId id : UUID) (updates : UpdateIssueRequest) : Request :=
  { workspaceId := workspaceId, issueIds := [id], updates := updates }

/-- `BatchUpdateIssues` answers at once if nothing is to be changed. -/
def Request.batchUpdateIssues (workspaceId : UUID) (issueIds : List UUID)
    (updates : UpdateIssueRequest) : Request :=
  { workspaceId := workspaceId, issueIds := if hasMutation updates then issueIds else []
    updates := updates }

/-- The next statement of a request. -/
def Request.step (q : IssueTable) (req : Request) : Option (IssueTable × Request) :=
  match req.phase with
  | .load =>
    match req.issueIds with
    | [] => none
    | id :: rest =>
      match getIssueInWorkspace q id req.workspaceId with
      | none => some (q, { req with issueIds := rest })
      | some prevIssue =>
        if accepts prevIssue req.updates then
          some (q, { req with issueIds := rest, phase := .update prevIssue })
        else some (q, { req with issueIds := rest })
  | .update prevIssue =>
    (q.update? (updateIssueStmt (updateIssueParams prevIssue req.updates))).map fun q' =>
      (q', { req with phase := .load, updated := prevIssue.id :: req.updated })

structure State where
  issues : IssueTable
  requests : List Request

/-- `refuse` is a request that a lookup or the database stops, `crash` one that is gone. -/
inductive Act where
  | step (i : Nat)
  | refuse (i : Nat)
  | crash (i : Nat)

def next (s : State) : Act → Option State
  | .step i =>
    match s.requests[i]? with
    | none => none
    | some req => (req.step s.issues).map fun (q, req') => ⟨q, s.requests.set i req'⟩
  | .refuse i =>
    (s.requests[i]?).map fun req => { s with requests := s.requests.set i { req with phase := .load } }
  | .crash i =>
    (s.requests[i]?).map fun req =>
      { s with requests := s.requests.set i { req with phase := .load, issueIds := [] } }

/-- Any table, and requests that send different fields. -/
def machine : Machine State Act where
  Init s := (∀ req ∈ s.requests, req.phase = .load ∧ req.updated = []) ∧
    s.requests.Pairwise fun req req' => req.updates.disjoint req'.updates = true
  next := next

/-! ## The property -/

/-- The row holds every value that the request sends. -/
def UpdateIssueRequest.PresentIn (req : UpdateIssueRequest) (r : Issue) : Prop :=
  ∀ c v, req.sent c = some v → r.col c = v

def Kept (s : State) : Prop :=
  ∀ req ∈ s.requests, ∀ id ∈ req.updated, ∃ r ∈ s.issues.rows, r.id = id ∧ req.updates.PresentIn r

/-- No request has anything left to do. -/
def State.finished (s : State) : Bool :=
  s.requests.all fun req => req.issueIds.isEmpty && req.phase == .load

/-- Nothing that the update writes back unsent has changed in the row. -/
def current (q : IssueTable) (prevIssue : Issue) (req : UpdateIssueRequest) : Bool :=
  q.rows.all fun r => r.id != prevIssue.id || Column.all.all fun c =>
    !c.prefilled || (req.sent c).isSome || r.col c == prevIssue.col c

def writesBackCurrent (s : State) : Act → Bool
  | .step i =>
    match s.requests[i]? with
    | some { phase := .update prevIssue, updates, .. } => current s.issues prevIssue updates
    | _ => true
  | _ => true

/-! ## The rows after an update -/

section Rows

variable {q q' : IssueTable} {prevIssue : Issue} {req : UpdateIssueRequest}

theorem row_update (h : q.update? (updateIssueStmt (updateIssueParams prevIssue req)) = some q')
    {r : Issue} (hr : r ∈ q.rows) :
    ∃ r' ∈ q'.rows, r'.id = r.id ∧ ∀ c, r'.col c =
      if r.id = prevIssue.id then
        (req.sent c).getD (if c.prefilled then prevIssue.col c else r.col c)
      else r.col c := by
  refine ⟨_, (Table.mem_update? h).2 ⟨r, hr, rfl⟩, ?_⟩
  by_cases hid : r.id = prevIssue.id
  · have hsel : (updateIssueStmt (updateIssueParams prevIssue req)).sel r = true := by
      simp [updateIssueStmt, updateIssueParams, hid]
    rw [Update.apply_of_sel hsel]
    refine ⟨rfl, fun c => ?_⟩
    rw [if_pos hid, col_updateIssueStmt]
  · have hsel : (updateIssueStmt (updateIssueParams prevIssue req)).sel r = false := by
      simp [updateIssueStmt, updateIssueParams, hid]
    rw [Update.apply_of_not_sel hsel]
    exact ⟨rfl, fun c => by rw [if_neg hid]⟩

theorem current_col (hcurrent : current q prevIssue req = true) {r : Issue} (hr : r ∈ q.rows)
    (hid : r.id = prevIssue.id) {c : Column} (hpre : c.prefilled = true)
    (hunsent : req.sent c = none) : r.col c = prevIssue.col c := by
  simp only [current, List.all_eq_true, Bool.or_eq_true, bne_iff_ne, ne_eq] at hcurrent
  rcases hcurrent r hr with hne | hcols
  · exact absurd hid hne
  · simpa [hpre, hunsent] using hcols c c.mem_all

/-- An update that writes back what is there changes the columns that it sends. -/
theorem row_update_current
    (h : q.update? (updateIssueStmt (updateIssueParams prevIssue req)) = some q')
    (hcurrent : current q prevIssue req = true) {r : Issue} (hr : r ∈ q.rows) :
    ∃ r' ∈ q'.rows, r'.id = r.id ∧ ∀ c, r'.col c =
      if r.id = prevIssue.id then (req.sent c).getD (r.col c) else r.col c := by
  rcases row_update h hr with ⟨r', hr', hid', hcol⟩
  refine ⟨r', hr', hid', fun c => ?_⟩
  rw [hcol c]
  by_cases hid : r.id = prevIssue.id
  · rw [if_pos hid, if_pos hid]
    cases hsent : req.sent c with
    | some v => rfl
    | none =>
      cases hpre : c.prefilled with
      | false => rfl
      | true => exact (current_col hcurrent hr hid hpre hsent).symm
  · rw [if_neg hid, if_neg hid]

end Rows

/-! ## The steps -/

/-- What a request does to the table: nothing, or the statement with what it had loaded. -/
theorem step_cases {q q' : IssueTable} {req req' : Request} (h : req.step q = some (q', req')) :
    req'.updates = req.updates ∧
      ((req.phase = .load ∧ q' = q ∧ req'.updated = req.updated ∧
          ∀ prevIssue, req'.phase = .update prevIssue → prevIssue ∈ q.rows) ∨
        ∃ prevIssue, req.phase = .update prevIssue ∧ req'.phase = .load ∧
          req'.updated = prevIssue.id :: req.updated ∧
          q.update? (updateIssueStmt (updateIssueParams prevIssue req.updates)) = some q') := by
  cases hphase : req.phase with
  | load =>
    cases hids : req.issueIds with
    | nil => simp [Request.step, hphase, hids] at h
    | cons id rest =>
      cases hget : getIssueInWorkspace q id req.workspaceId with
      | none =>
        simp only [Request.step, hphase, hids, hget, Option.some.injEq, Prod.mk.injEq] at h
        rcases h with ⟨rfl, rfl⟩
        exact ⟨rfl, .inl ⟨rfl, rfl, rfl, by simp⟩⟩
      | some prevIssue =>
        have hmem : prevIssue ∈ q.rows := List.mem_of_find?_eq_some hget
        cases haccepts : accepts prevIssue req.updates with
        | false =>
          simp only [Request.step, hphase, hids, hget, haccepts, Bool.false_eq_true, if_false,
            Option.some.injEq, Prod.mk.injEq] at h
          rcases h with ⟨rfl, rfl⟩
          exact ⟨rfl, .inl ⟨rfl, rfl, rfl, by simp⟩⟩
        | true =>
          simp only [Request.step, hphase, hids, hget, haccepts, if_true, Option.some.injEq,
            Prod.mk.injEq] at h
          rcases h with ⟨rfl, rfl⟩
          refine ⟨rfl, .inl ⟨rfl, rfl, rfl, fun x hx => ?_⟩⟩
          rw [← Phase.update.inj hx]
          exact hmem
  | update prevIssue =>
    simp only [Request.step, hphase, Option.map_eq_some_iff, Prod.mk.injEq] at h
    rcases h with ⟨q₁, hupd, rfl, rfl⟩
    exact ⟨rfl, .inr ⟨prevIssue, rfl, rfl, rfl, hupd⟩⟩

/-- The requests send different fields, and what a request has loaded is still there or has been
overwritten by another that sent it. -/
structure Inv (s : State) : Prop where
  disjoint : ∀ (i j : Nat) (req req' : Request), s.requests[i]? = some req →
    s.requests[j]? = some req' → i ≠ j → req.updates.disjoint req'.updates = true
  loaded : ∀ (i : Nat) (req : Request) (prevIssue : Issue), s.requests[i]? = some req → req.phase = .update prevIssue →
    ∃ r ∈ s.issues.rows, r.id = prevIssue.id ∧ ∀ c, r.col c = prevIssue.col c ∨
      ∃ (j : Nat) (req' : Request), s.requests[j]? = some req' ∧ prevIssue.id ∈ req'.updated ∧
        (req'.updates.sent c).isSome
  kept : Kept s

theorem disjoint_column {req req' : UpdateIssueRequest} (h : req.disjoint req' = true)
    (c : Column) : req.sent c = none ∨ req'.sent c = none := by
  simp only [UpdateIssueRequest.disjoint, List.all_eq_true, Bool.or_eq_true] at h
  simpa [Column.sameField] using h c c.mem_all c c.mem_all

/-- A request that changes at most its phase and what it has still to do. -/
theorem Inv.set {s : State} (hinv : Inv s) {i : Nat} {req req' : Request}
    (hi : s.requests[i]? = some req) (hupdates : req'.updates = req.updates)
    (hupdated : req'.updated = req.updated)
    (hphase : ∀ prevIssue, req'.phase = .update prevIssue → prevIssue ∈ s.issues.rows) :
    Inv { s with requests := s.requests.set i req' } := by
  have hlt : i < s.requests.length := (List.getElem?_eq_some_iff.1 hi).1
  -- a request is as it was, except for its phase
  have hback : ∀ {j : Nat} {x : Request}, (s.requests.set i req')[j]? = some x →
      ∃ y, s.requests[j]? = some y ∧ x.updates = y.updates ∧ x.updated = y.updated ∧
        (x.phase = y.phase ∨ (j = i ∧ x = req')) := by
    intro j x hj
    by_cases hji : i = j
    · subst hji
      rw [List.getElem?_set_self hlt, Option.some.injEq] at hj
      subst hj
      exact ⟨req, hi, hupdates, hupdated, .inr ⟨rfl, rfl⟩⟩
    · rw [List.getElem?_set_ne hji] at hj
      exact ⟨x, hj, rfl, rfl, .inl rfl⟩
  have hforth : ∀ {j : Nat} {y : Request}, s.requests[j]? = some y →
      ∃ x, (s.requests.set i req')[j]? = some x ∧ x.updates = y.updates ∧
        x.updated = y.updated := by
    intro j y hj
    by_cases hji : i = j
    · subst hji
      obtain rfl : req = y := Option.some.inj (hi.symm.trans hj)
      exact ⟨req', List.getElem?_set_self hlt, hupdates, hupdated⟩
    · exact ⟨y, by rwa [List.getElem?_set_ne hji], rfl, rfl⟩
  refine ⟨fun j k x x' hj hk hne => ?_, fun j x prevIssue hj hx => ?_, fun x hx id hid => ?_⟩
  · rcases hback hj with ⟨y, hy, hyx, -⟩
    rcases hback hk with ⟨y', hy', hyx', -⟩
    rw [hyx, hyx']
    exact hinv.disjoint j k y y' hy hy' hne
  · rcases hback hj with ⟨y, hy, -, -, hsame | ⟨-, rfl⟩⟩
    · rcases hinv.loaded j y prevIssue hy (hsame ▸ hx) with ⟨r, hr, hid, hcols⟩
      refine ⟨r, hr, hid, fun c => ?_⟩
      rcases hcols c with hcol | ⟨k, z, hk, hz, hsent⟩
      · exact .inl hcol
      · rcases hforth hk with ⟨x', hx', hu, hd⟩
        exact .inr ⟨k, x', hx', hd ▸ hz, hu ▸ hsent⟩
    · exact ⟨prevIssue, hphase prevIssue hx, rfl, fun c => .inl rfl⟩
  · rcases List.mem_iff_getElem?.1 hx with ⟨j, hj⟩
    rcases hback hj with ⟨y, hy, hyu, hyd, -⟩
    rw [hyd] at hid
    rw [hyu]
    exact hinv.kept y (List.mem_of_getElem? hy) id hid

/-- An update that writes back what is there. -/
theorem Inv.update {s : State} (hinv : Inv s) {i : Nat} {req req' : Request} {prevIssue : Issue}
    {q : IssueTable} (hi : s.requests[i]? = some req) (hphase : req.phase = .update prevIssue)
    (hcurrent : current s.issues prevIssue req.updates = true)
    (hupd : s.issues.update? (updateIssueStmt (updateIssueParams prevIssue req.updates)) = some q)
    (hupdates : req'.updates = req.updates) (hload : req'.phase = .load)
    (hupdated : req'.updated = prevIssue.id :: req.updated) :
    Inv ⟨q, s.requests.set i req'⟩ := by
  have hlt : i < s.requests.length := (List.getElem?_eq_some_iff.1 hi).1
  have hother : ∀ {j : Nat}, i ≠ j → (s.requests.set i req')[j]? = s.requests[j]? :=
    fun hij => List.getElem?_set_ne hij
  have hself : (s.requests.set i req')[i]? = some req' := List.getElem?_set_self hlt
  -- what another request has put into the issues stays
  have hkeeps : ∀ {x : UpdateIssueRequest}, req.updates.disjoint x = true ∨ x = req.updates →
      ∀ {id : UUID}, (∃ r ∈ s.issues.rows, r.id = id ∧ x.PresentIn r) →
        ∃ r ∈ q.rows, r.id = id ∧ x.PresentIn r := by
    rintro x hx id ⟨r, hr, hid, hpresent⟩
    rcases row_update_current hupd hcurrent hr with ⟨r', hr', hid', hcol⟩
    refine ⟨r', hr', hid'.trans hid, fun c v hv => ?_⟩
    rw [hcol c]
    by_cases hrow : r.id = prevIssue.id
    · rw [if_pos hrow]
      rcases hx with hdisjoint | rfl
      · rcases disjoint_column hdisjoint c with hnone | hnone
        · rw [hnone]
          exact hpresent c v hv
        · simp [hnone] at hv
      · rw [hv]
        rfl
    · rw [if_neg hrow]
      exact hpresent c v hv
  refine ⟨fun j k x x' hj hk hne => ?_, fun j x prev hj hx => ?_, fun x hx id hid => ?_⟩
  · have hback : ∀ {l : Nat} {z : Request}, (s.requests.set i req')[l]? = some z →
        ∃ y, s.requests[l]? = some y ∧ z.updates = y.updates := by
      intro l z hl
      by_cases hil : i = l
      · subst hil
        rw [hself, Option.some.injEq] at hl
        subst hl
        exact ⟨req, hi, hupdates⟩
      · exact ⟨z, by rwa [hother hil] at hl, rfl⟩
    rcases hback hj with ⟨y, hy, hyx⟩
    rcases hback hk with ⟨y', hy', hyx'⟩
    rw [hyx, hyx']
    exact hinv.disjoint j k y y' hy hy' hne
  · -- only requests that have loaded rely on the row, and this one is done
    have hij : i ≠ j := by
      rintro rfl
      rw [hself, Option.some.injEq] at hj
      subst hj
      simp [hload] at hx
    rw [hother hij] at hj
    rcases hinv.loaded j x prev hj hx with ⟨r, hr, hid, hcols⟩
    rcases row_update_current hupd hcurrent hr with ⟨r', hr', hid', hcol⟩
    refine ⟨r', hr', hid'.trans hid, fun c => ?_⟩
    by_cases hrow : r.id = prevIssue.id ∧ (req.updates.sent c).isSome
    · refine .inr ⟨i, req', hself, ?_, by rw [hupdates]; exact hrow.2⟩
      rw [hupdated, ← hid, hrow.1]
      exact List.mem_cons_self
    · have hsame : r'.col c = r.col c := by
        rw [hcol c]
        by_cases hrid : r.id = prevIssue.id
        · have hnone : req.updates.sent c = none := by
            simpa [hrid] using hrow
          rw [if_pos hrid, hnone]
          rfl
        · rw [if_neg hrid]
      rw [hsame]
      rcases hcols c with hcol | ⟨k, y, hk, hy, hsent⟩
      · exact .inl hcol
      · by_cases hik : i = k
        · subst hik
          obtain rfl : req = y := Option.some.inj (hi.symm.trans hk)
          refine .inr ⟨i, req', hself, ?_, by rw [hupdates]; exact hsent⟩
          rw [hupdated]
          exact List.mem_cons_of_mem _ hy
        · exact .inr ⟨k, y, by rwa [hother hik], hy, hsent⟩
  · rcases List.mem_iff_getElem?.1 hx with ⟨j, hj⟩
    by_cases hij : i = j
    · subst hij
      rw [hself, Option.some.injEq] at hj
      subst hj
      rw [hupdates]
      rw [hupdated, List.mem_cons] at hid
      rcases hid with rfl | hid
      · -- the issue has just got what the request sends
        rcases hinv.loaded i req prevIssue hi hphase with ⟨r, hr, hrid, -⟩
        rcases row_update_current hupd hcurrent hr with ⟨r', hr', hid', hcol⟩
        refine ⟨r', hr', hid'.trans hrid, fun c v hv => ?_⟩
        rw [hcol c, if_pos hrid, hv]
        rfl
      · exact hkeeps (.inr rfl) (hinv.kept req (List.mem_of_getElem? hi) id hid)
    · rw [hother hij] at hj
      exact hkeeps (.inl (hinv.disjoint i j req x hi hj hij))
        (hinv.kept x (List.mem_of_getElem? hj) id hid)

theorem inv_step {s s' : State} {a : Act} (hinv : Inv s) (hcond : writesBackCurrent s a = true)
    (h : next s a = some s') : Inv s' := by
  cases a with
  | step i =>
    cases hi : s.requests[i]? with
    | none => simp [next, hi] at h
    | some req =>
      simp only [next, hi, Option.map_eq_some_iff] at h
      rcases h with ⟨⟨q, req'⟩, hstep, rfl⟩
      rcases step_cases hstep with ⟨hupdates, ⟨-, rfl, hupdated, hphase⟩ |
        ⟨prevIssue, hphase, hload, hupdated, hupd⟩⟩
      · exact hinv.set hi hupdates hupdated hphase
      · have hcurrent : current s.issues prevIssue req.updates = true := by
          cases req with
          | mk workspaceId issueIds updates phase updated =>
            subst hphase
            simpa [writesBackCurrent, hi] using hcond
        exact hinv.update hi hphase hcurrent hupd hupdates hload hupdated
  | refuse i | crash i =>
    simp only [next, Option.map_eq_some_iff] at h
    rcases h with ⟨req, hi, rfl⟩
    exact hinv.set hi rfl rfl (by simp)

/-- An update that writes back what has changed undoes what another request has sent. -/
theorem not_kept_of_stale {s s' : State} {a : Act} (hinv : Inv s)
    (hcond : writesBackCurrent s a = false) (h : next s a = some s') : ¬ Kept s' := by
  intro hkept
  cases a with
  | step i =>
    cases hi : s.requests[i]? with
    | none => simp [next, hi] at h
    | some req =>
      simp only [next, hi, Option.map_eq_some_iff] at h
      rcases h with ⟨⟨q, req'⟩, hstep, rfl⟩
      have hstale : ∃ prevIssue, req.phase = .update prevIssue ∧
          current s.issues prevIssue req.updates = false := by
        cases req with
        | mk workspaceId issueIds updates phase updated =>
          cases phase with
          | load => simp [writesBackCurrent, hi] at hcond
          | update prevIssue => exact ⟨prevIssue, rfl, by simpa [writesBackCurrent, hi] using hcond⟩
      rcases hstale with ⟨prevIssue, hphase, hstale⟩
      rcases step_cases hstep with ⟨-, ⟨hload, -⟩ | ⟨prev, hprev, -, -, hupd⟩⟩
      · simp [hphase] at hload
      obtain rfl : prevIssue = prev := by simpa [hphase] using hprev
      -- a column of the row that the request has not sent and that is not as it was loaded
      simp only [current, List.all_eq_false, Bool.or_eq_true, bne_iff_ne, ne_eq, not_or,
        Decidable.not_not, Bool.not_eq_true, Bool.not_eq_false', beq_eq_false_iff_ne] at hstale
      rcases hstale with ⟨r, hr, hid, c, -, ⟨hpre, hunsent⟩, hdiffers⟩
      have hunsent : req.updates.sent c = none := by simpa using hunsent
      rcases hinv.loaded i req prevIssue hi hphase with ⟨r₁, hr₁, hid₁, hcols⟩
      obtain rfl : r₁ = r := s.issues.eq_of_key hr₁ hr (hid₁.trans hid.symm)
      rcases hcols c with hsame | ⟨j, x, hj, hx, hsent⟩
      · exact hdiffers hsame
      -- another request has sent it, and its value is in the row until now
      rcases Option.isSome_iff_exists.1 hsent with ⟨v, hv⟩
      have hij : i ≠ j := by
        rintro rfl
        obtain rfl : req = x := Option.some.inj (hi.symm.trans hj)
        simp [hunsent] at hv
      rcases hinv.kept x (List.mem_of_getElem? hj) prevIssue.id hx with ⟨r₂, hr₂, hid₂, hpresent⟩
      obtain rfl : r₂ = r₁ := s.issues.eq_of_key hr₂ hr (hid₂.trans hid.symm)
      have hxs : x ∈ s.requests.set i req' := by
        refine List.mem_of_getElem? (i := j) ?_
        rw [List.getElem?_set_ne hij]
        exact hj
      rcases hkept x hxs prevIssue.id hx with ⟨r', hr', hid', hpresent'⟩
      rcases row_update hupd hr with ⟨r'', hr'', hid'', hcol⟩
      obtain rfl : r' = r'' := q.eq_of_key hr' hr'' (hid'.trans (hid''.trans hid).symm)
      have hback : r'.col c = prevIssue.col c := by
        rw [hcol c, if_pos hid, hunsent, hpre]
        rfl
      exact hdiffers ((hpresent c v hv).trans ((hpresent' c v hv).symm.trans hback))
  | refuse i => simp [writesBackCurrent] at hcond
  | crash i => simp [writesBackCurrent] at hcond

/-! ## Runs -/

theorem disjoint_comm {req req' : UpdateIssueRequest} (h : req.disjoint req' = true) :
    req'.disjoint req = true := by
  simp only [UpdateIssueRequest.disjoint, List.all_eq_true, Bool.or_eq_true,
    Bool.not_eq_true'] at h ⊢
  intro c hc c' hc'
  have hsym : c'.sameField c = c.sameField c' := by
    cases c <;> cases c' <;> rfl
  have hpair := h c' hc' c hc
  rw [hsym] at hpair
  tauto

theorem inv_init {s : State} (hs : machine.Init s) : Inv s := by
  rcases hs with ⟨hfresh, hdisjoint⟩
  refine ⟨fun i j req req' hi hj hne => ?_, fun i req prevIssue hi hphase => ?_,
    fun req hreq id hid => ?_⟩
  · rcases List.getElem?_eq_some_iff.1 hi with ⟨hilt, rfl⟩
    rcases List.getElem?_eq_some_iff.1 hj with ⟨hjlt, rfl⟩
    have hpairs := List.pairwise_iff_getElem.1 hdisjoint
    rcases Nat.lt_or_gt_of_ne hne with hlt | hgt
    · exact hpairs i j hilt hjlt hlt
    · exact disjoint_comm (hpairs j i hjlt hilt hgt)
  · rw [(hfresh req (List.mem_of_getElem? hi)).1] at hphase
    simp at hphase
  · rw [(hfresh req hreq).2] at hid
    simp at hid

theorem inv_reachable : ∀ s,
    machine.ReachableUnder (fun s a => writesBackCurrent s a = true) s → Inv s :=
  Machine.invariant_under (fun _ hs => inv_init hs) fun _ _ _ _ hinv hcond h =>
    inv_step hinv hcond h

/-- Requests for different fields keep each other's values as long as what they write back is
what the row holds, and the first update that writes back something else loses a value. -/
theorem updates_kept (s : State) :
    (machine.ReachableUnder (fun s a => writesBackCurrent s a = true) s → Kept s) ∧
    ∀ a s', machine.ReachableUnder (fun s a => writesBackCurrent s a = true) s →
      writesBackCurrent s a = false → machine.next s a = some s' → ¬ Kept s' :=
  ⟨fun hs => (inv_reachable s hs).kept, fun _ _ hs hcond h =>
    not_kept_of_stale (inv_reachable s hs) hcond h⟩

/-- One issue. -/
def oneIssue : IssueTable :=
  ⟨[{ id := 1, workspaceId := 0, title := "Draft the release" }], by simp, by simp [issueSchema]⟩

/-- One request sets the start date and another the due date. -/
def twoDates : State :=
  ⟨oneIssue, [.updateIssue 0 1 { startDate := some (some 20) },
    .batchUpdateIssues 0 [1] { dueDate := some (some 27) }]⟩

theorem init_twoDates : machine.Init twoDates := by
  constructor
  · simp [twoDates, Request.updateIssue, Request.batchUpdateIssues]
  · simp only [twoDates, List.pairwise_cons, List.Pairwise.nil]
    decide

theorem updates_kept_twoDates :
    ∃ s : State, (s.finished && s.issues.rows.any fun r =>
      r.startDate == some 20 && r.dueDate == some 27) = true ∧ Kept s := by
  rcases Machine.reachableUnder_of_run machine writesBackCurrent init_twoDates
    [.step 0, .step 0, .step 1, .step 1]
    (fun s => s.finished && s.issues.rows.any fun r =>
      r.startDate == some 20 && r.dueDate == some 27) (by decide) with ⟨s, hs, hdates⟩
  exact ⟨s, hdates, (updates_kept s).1 hs⟩

/-- Both load the issue before either updates it. -/
theorem dates_lost :
    ¬ ∀ s : State, machine.Reachable s → s.finished = true → Kept s := by
  intro hclaim
  rcases Machine.reachable_of_run machine init_twoDates [.step 0, .step 1, .step 0, .step 1]
    (fun s => s.finished && s.issues.rows.all (fun r => r.startDate == none) &&
      s.requests.any fun req => req.updated == [1] && req.updates.startDate == some (some 20))
    (by decide) with ⟨s, -, hs, hlost⟩
  simp only [Bool.and_eq_true, List.all_eq_true, List.any_eq_true, beq_iff_eq] at hlost
  rcases hlost with ⟨⟨hfinished, hrows⟩, req, hreq, hupdated, hsent⟩
  rcases hclaim s hs hfinished req hreq 1 (by simp [hupdated]) with ⟨r, hr, -, hpresent⟩
  have hdate := hpresent .startDate (some 20) hsent
  simp [Issue.col, hrows r hr] at hdate

end Orynx.IssueUpdate
