import Orynx.Autopilot.Store
import Orynx.Issue.Hierarchy
import Orynx.Lib.Closure
import Orynx.Lib.Machine
import Orynx.Lib.Table
import Orynx.Lib.Waiting

/-! # The molecule spine

The issues of one workspace with their parents, the edges of `issue_dependency`, and the flag
`is_blocked`, which the spine keeps beside them. The operations of the handlers and services that
write any of these, each as a whole, with the spine on.

* `graph`: which open issue belongs to or is blocked by which;
* `mem_blockedTree`: `RecomputeWorkspaceBlocked` finds the issues that wait for somebody;
* `machine`: the operations in any order.
-/

namespace Orynx.Spine

open Lib Lib.Closure Lib.Forest Lib.Waiting Relation
open Autopilot (IssueStatus)

/-! ## Rows -/

structure Issue where
  id : UUID
  status : IssueStatus := .todo
  parentIssueId : Option UUID := none
  isBlocked : Bool := false
deriving DecidableEq, Repr

inductive DepType where
  | blocks
  | related
deriving DecidableEq, Repr

/-- `issueId` depends on `dependsOnId`. -/
structure IssueDependency where
  issueId : UUID
  dependsOnId : UUID
  depType : DepType := .blocks
deriving DecidableEq, Repr

def issueSchema : Schema Issue UUID Unit where
  key := Issue.id
  index _ := none

abbrev IssueTable := Table issueSchema

@[simp] theorem issueSchema_key (r : Issue) : issueSchema.key r = r.id := rfl

structure State where
  issues : IssueTable
  deps : List IssueDependency

/-! ## What the queries look at -/

/-- The issue is there and neither done nor cancelled. -/
def State.isOpen (s : State) (x : UUID) : Bool :=
  (s.issues.get? x).any fun r => !r.status.terminal

def State.parentOf (s : State) (x : UUID) : Option UUID :=
  (s.issues.get? x).bind Issue.parentIssueId

/-- The row is a `blocks` edge between the two. -/
def IssueDependency.isEdge (d : IssueDependency) (x y : UUID) : Bool :=
  d.issueId == x && d.dependsOnId == y && d.depType == .blocks

def State.hasEdge (s : State) (x y : UUID) : Bool := s.deps.any fun d => d.isEdge x y

/-- `ListChildIssues`. -/
def State.listChildIssues (s : State) (x : UUID) : List Issue :=
  s.issues.rows.filter fun c => c.parentIssueId == some x

/-- Open issues below open issues, and open issues blocked by open issues. -/
def State.graph (s : State) : Graph UUID where
  up x p := s.isOpen x = true ∧ s.isOpen p = true ∧ s.parentOf x = some p
  blocks x y := s.isOpen x = true ∧ s.isOpen y = true ∧ s.hasEdge x y = true

/-! ## `RecomputeWorkspaceBlocked` -/

/-- `directly_blocked`. -/
def State.directlyBlocked (s : State) : List UUID :=
  (s.deps.filter fun d =>
    d.depType == .blocks && s.isOpen d.issueId && s.isOpen d.dependsOnId).map
      IssueDependency.issueId

/-- The step of the recursion. -/
def State.openChildren (s : State) (x : UUID) : List UUID :=
  (s.issues.rows.filter fun c => c.parentIssueId == some x && !c.status.terminal).map Issue.id

/-- `blocked_tree`. -/
def State.blockedTree (s : State) : List UUID :=
  closure s.openChildren (s.issues.rows.map Issue.id).length s.directlyBlocked

def State.recomputeStmt (s : State) : Update Issue where
  sel r := r.isBlocked != s.blockedTree.contains r.id
  set r := { r with isBlocked := s.blockedTree.contains r.id }

def State.recomputeWorkspaceBlocked (s : State) : State :=
  { s with issues := s.issues.exec s.recomputeStmt }

/-! ## Statements and operations -/

/-- `UpdateIssueStatus`. -/
def updateIssueStatusStmt (id : UUID) (status : IssueStatus) : Update Issue where
  sel r := r.id == id
  set r := { r with status := status }

/-- `UpdateIssue`, as far as the spine looks at it. -/
def updateIssueStmt (id : UUID) (status : IssueStatus) (parentIssueId : Option UUID) :
    Update Issue where
  sel r := r.id == id
  set r := { r with status := status, parentIssueId := parentIssueId }

/-- `ON DELETE SET NULL` on the children. -/
def orphanStmt (id : UUID) : Update Issue where
  sel r := r.parentIssueId == some id
  set r := { r with parentIssueId := none }

/-- The handler's checks of a new parent: another issue that is there, and not below this one as
far as the walk looks. -/
def State.parentAllowed (s : State) (id p : UUID) : Bool :=
  p != id && (s.issues.get? p).isSome && !meets s.parentOf id Hierarchy.maxDepth p

/-- `UpdateIssue` for one issue, and each round of `BatchUpdateIssues`. -/
def State.updateIssue (s : State) (id : UUID) (status : Option IssueStatus)
    (parent : Option (Option UUID)) : Option State :=
  match s.issues.get? id with
  | none => none
  | some prevIssue =>
    if parent.all fun p => p.all fun p => s.parentAllowed id p then
      some { s with
        issues := s.issues.exec (updateIssueStmt id (status.getD prevIssue.status)
          (parent.getD prevIssue.parentIssueId)) }
    else none

/-- An id is made for one issue only. -/
def State.fresh (s : State) (id : UUID) : Bool :=
  (s.issues.rows.all fun r => r.id != id && r.parentIssueId != some id) &&
    s.deps.all fun d => d.issueId != id && d.dependsOnId != id

/-- `IssueService.Create`. -/
def State.createIssue (s : State) (id : UUID) (status : IssueStatus) (parent : Option UUID) :
    Option State :=
  if s.fresh id && parent.all fun p => (s.issues.get? p).isSome then
    (s.issues.insert? { id := id, status := status, parentIssueId := parent }).map fun q =>
      { s with issues := q }
  else none

/-- `DeleteIssue`; the edges stay. -/
def State.deleteIssue (s : State) (id : UUID) : Option State :=
  if (s.issues.get? id).isSome then
    some { s with issues := (s.issues.filter fun r => r.id != id).exec (orphanStmt id) }
  else none

/-- A status that the server writes where it finds the issue as `found` says. -/
def State.moveStatus (s : State) (id : UUID) (found : Issue → Bool) (status : IssueStatus) :
    Option State :=
  if (s.issues.get? id).any found then
    some { s with issues := s.issues.exec (updateIssueStatusStmt id status) }
  else none

/-- `advanceIssueToDone`, where a merged pull request closes the issue. -/
def State.advanceIssueToDone (s : State) (id : UUID) : Option State :=
  s.moveStatus id (fun r => !r.status.terminal) .done

/-- `allChildrenTerminal`. -/
def State.allChildrenTerminal (s : State) (id : UUID) : Bool :=
  !(s.listChildIssues id).isEmpty && (s.listChildIssues id).all fun c => c.status.terminal

/-- `autoCloseEpic`, as `notifyParentOfChildDone` calls it. -/
def State.autoCloseEpic (s : State) (id : UUID) : Option State :=
  s.moveStatus id (fun r => !r.status.terminal && r.status != .backlog && r.status != .inReview &&
    s.allChildrenTerminal id) .inReview

/-- The reset of a stuck issue in `HandleFailedTasks`. -/
def State.resetStuckIssue (s : State) (id : UUID) : Option State :=
  s.moveStatus id (fun r => r.status == .inProgress) .todo

/-- An approval sends a blocked issue back to work. -/
def State.approve (s : State) (id : UUID) : Option State :=
  s.moveStatus id (fun r => r.status == .blocked) .todo

/-- `autoAdvanceCompletedIssue`. -/
def State.autoAdvanceCompletedIssue (s : State) (id : UUID) : State :=
  (s.moveStatus id (fun r => r.status == .inProgress &&
    (s.listChildIssues id).all fun c => c.status.terminal) .inReview).getD s

/-- The end of `CompleteTask`: `advance` if the run counts as work on the issue and no other task
is active. -/
def State.completeTask (s : State) (issueId : Option UUID) (advance : Bool) : State :=
  match issueId with
  | none => s
  | some id =>
    let s' := if advance then s.autoAdvanceCompletedIssue id else s
    if (s'.issues.get? id).isSome then s'.recomputeWorkspaceBlocked else s'

/-- `CreateDependency`, which retypes an edge that is there. -/
def createDependency (deps : List IssueDependency) (d : IssueDependency) : List IssueDependency :=
  if deps.any fun e => e.issueId == d.issueId && e.dependsOnId == d.dependsOnId then
    deps.map fun e =>
      if e.issueId == d.issueId && e.dependsOnId == d.dependsOnId then
        { e with depType := d.depType }
      else e
  else deps ++ [d]

/-- `CreateIssueDependency` up to its recompute. -/
def State.addDependency (s : State) (d : IssueDependency) : Option State :=
  if (s.issues.get? d.issueId).isSome && (s.issues.get? d.dependsOnId).isSome &&
      d.issueId != d.dependsOnId then
    some { s with deps := createDependency s.deps d }
  else none

/-- `DeleteIssueDependency` up to its recompute. -/
def State.removeDependency (s : State) (issueId dependsOnId : UUID) : Option State :=
  if (s.issues.get? issueId).isSome && (s.issues.get? dependsOnId).isSome then
    some { s with
      deps := s.deps.filter fun d => !(d.issueId == issueId && d.dependsOnId == dependsOnId) }
  else none

/-! ## The machine -/

inductive Act where
  | createIssue (id : UUID) (status : IssueStatus) (parent : Option UUID)
  | deleteIssue (id : UUID)
  | updateIssue (id : UUID) (status : Option IssueStatus) (parent : Option (Option UUID))
  | advanceIssueToDone (id : UUID)
  | autoCloseEpic (id : UUID)
  | resetStuckIssue (id : UUID)
  | approve (id : UUID)
  | completeTask (issueId : Option UUID) (advance : Bool)
  | createIssueDependency (d : IssueDependency)
  | deleteIssueDependency (issueId dependsOnId : UUID)

def next (s : State) : Act → Option State
  | .createIssue id status parent => s.createIssue id status parent
  | .deleteIssue id => s.deleteIssue id
  | .updateIssue id status parent => s.updateIssue id status parent
  | .advanceIssueToDone id => s.advanceIssueToDone id
  | .autoCloseEpic id => s.autoCloseEpic id
  | .resetStuckIssue id => s.resetStuckIssue id
  | .approve id => s.approve id
  | .completeTask issueId advance => some (s.completeTask issueId advance)
  | .createIssueDependency d => (s.addDependency d).map State.recomputeWorkspaceBlocked
  | .deleteIssueDependency issueId dependsOnId =>
    (s.removeDependency issueId dependsOnId).map State.recomputeWorkspaceBlocked

def machine : Machine State Act where
  Init s := s.issues = Table.empty ∧ s.deps = []
  next := next

def State.empty : State := ⟨Table.empty, []⟩

theorem init_empty : machine.Init State.empty := ⟨rfl, rfl⟩

/-! ## Lookups after a statement -/

section Lookup

variable {t : IssueTable} {u : Update Issue} {id : UUID}

theorem get?_exec (hid : ∀ r, (u.apply r).id = r.id) (k : UUID) :
    (t.exec u).get? k = (t.get? k).map u.apply :=
  Table.get?_update? hid (Table.update?_eq_exec hid fun _ => rfl) k

/-- A statement for one issue. -/
theorem get?_exec_id (hsel : ∀ r, u.sel r = (r.id == id)) (hset : ∀ r, (u.set r).id = r.id)
    (k : UUID) : (t.exec u).get? k = if k = id then (t.get? k).map u.set else t.get? k := by
  have hid : ∀ r, (u.apply r).id = r.id := by
    intro r
    cases h : u.sel r with
    | true => rw [Update.apply_of_sel h, hset]
    | false => rw [Update.apply_of_not_sel h]
  rw [get?_exec hid]
  cases hget : t.get? k with
  | none => simp
  | some r =>
    have hrk : r.id = k := (Table.get?_eq_some.1 hget).2
    by_cases hk : k = id
    · have hr : u.sel r = true := by simp [hsel, hrk, hk]
      simp [Update.apply_of_sel hr, hk]
    · have hr : u.sel r = false := by simp [hsel, hrk, hk]
      simp [Update.apply_of_not_sel hr, hk]

end Lookup

section Graph

variable {s s' : State} {x : UUID}

theorem isOpen_eq_true : s.isOpen x = true ↔
    ∃ r, s.issues.get? x = some r ∧ r.status.terminal = false := by
  simp [State.isOpen, Option.any_eq_true]

theorem parentOf_eq_some {p : UUID} : s.parentOf x = some p ↔
    ∃ r, s.issues.get? x = some r ∧ r.parentIssueId = some p := by
  simp [State.parentOf, Option.bind_eq_some_iff]

theorem hasEdge_eq_true {y : UUID} : s.hasEdge x y = true ↔
    ∃ d ∈ s.deps, d.issueId = x ∧ d.dependsOnId = y ∧ d.depType = .blocks := by
  simp [State.hasEdge, IssueDependency.isEdge, and_assoc]

theorem graph_eq (hopen : ∀ k, s'.isOpen k = s.isOpen k)
    (hparent : ∀ k, s.isOpen k = true → s'.parentOf k = s.parentOf k)
    (hedge : ∀ a b, s'.hasEdge a b = s.hasEdge a b) : s'.graph = s.graph := by
  refine Lib.Waiting.Graph.ext ?_ ?_
  · funext a b
    simp only [State.graph, hopen]
    refine propext ⟨fun ⟨ha, hb, h⟩ => ⟨ha, hb, (hparent a ha) ▸ h⟩, fun ⟨ha, hb, h⟩ =>
      ⟨ha, hb, (hparent a ha).symm ▸ h⟩⟩
  · funext a b
    simp only [State.graph, hopen, hedge]

/-- The other issues and the edges among them are as before. -/
theorem graph_without_eq (hget : ∀ k, k ≠ x → s'.issues.get? k = s.issues.get? k)
    (hedge : ∀ a b, a ≠ x → b ≠ x → s'.hasEdge a b = s.hasEdge a b) :
    s'.graph.without x = s.graph.without x := by
  have hopen : ∀ k, k ≠ x → s'.isOpen k = s.isOpen k := fun k hk => by
    simp only [State.isOpen, hget k hk]
  have hparent : ∀ k, k ≠ x → s'.parentOf k = s.parentOf k := fun k hk => by
    simp only [State.parentOf, hget k hk]
  refine Lib.Waiting.Graph.ext ?_ ?_
  · funext a b
    refine propext (and_congr_right fun ha => and_congr_right fun hb => ?_)
    simp only [State.graph, hopen a ha, hopen b hb, hparent a ha]
  · funext a b
    refine propext (and_congr_right fun ha => and_congr_right fun hb => ?_)
    simp only [State.graph, hopen a ha, hopen b hb, hedge a b ha hb]

theorem mem_directlyBlocked : x ∈ s.directlyBlocked ↔ ∃ y, s.graph.blocks x y := by
  simp only [State.directlyBlocked, List.mem_map, List.mem_filter, Bool.and_eq_true, beq_iff_eq,
    State.graph, hasEdge_eq_true]
  constructor
  · rintro ⟨d, ⟨hd, ⟨htype, hx⟩, hy⟩, rfl⟩
    exact ⟨d.dependsOnId, hx, hy, d, hd, rfl, rfl, htype⟩
  · rintro ⟨y, hx, hy, d, hd, rfl, rfl, htype⟩
    exact ⟨d, ⟨hd, ⟨htype, hx⟩, hy⟩, rfl⟩

theorem mem_openChildren {p : UUID} :
    x ∈ s.openChildren p ↔ s.isOpen x = true ∧ s.parentOf x = some p := by
  simp only [State.openChildren, List.mem_map, List.mem_filter, Bool.and_eq_true, beq_iff_eq,
    Bool.not_eq_true', isOpen_eq_true, parentOf_eq_some]
  constructor
  · rintro ⟨r, ⟨hr, hp, hopen⟩, rfl⟩
    have hget : s.issues.get? r.id = some r := Table.get?_eq_some.2 ⟨hr, rfl⟩
    exact ⟨⟨r, hget, hopen⟩, r, hget, hp⟩
  · rintro ⟨⟨r, hget, hopen⟩, r', hget', hp⟩
    obtain rfl : r = r' := Option.some.inj (hget.symm.trans hget')
    rcases Table.get?_eq_some.1 hget with ⟨hr, hid⟩
    exact ⟨r, ⟨hr, hp, hopen⟩, hid⟩

theorem mem_ids_of_isOpen (h : s.isOpen x = true) : x ∈ s.issues.rows.map Issue.id := by
  rcases isOpen_eq_true.1 h with ⟨r, hget, -⟩
  rcases Table.get?_eq_some.1 hget with ⟨hr, hid⟩
  exact List.mem_map.2 ⟨r, hr, hid⟩

/-- The recursion finds the open issues that wait for an open one. -/
theorem mem_blockedTree : x ∈ s.blockedTree ↔ s.graph.Blocked x := by
  have hclosure : x ∈ s.blockedTree ↔
      ∃ z ∈ s.directlyBlocked, ReflTransGen (fun a b => b ∈ s.openChildren a) z x := by
    refine mem_closure_iff (fun z hz => ?_) fun a b hb => ?_
    · rcases mem_directlyBlocked.1 hz with ⟨y, hopen, -⟩
      exact mem_ids_of_isOpen hopen
    · exact mem_ids_of_isOpen (mem_openChildren.1 hb).1
  rw [hclosure]
  clear hclosure
  constructor
  · rintro ⟨z, hz, hzx⟩
    rcases mem_directlyBlocked.1 hz with ⟨y, hzy⟩
    -- the recursion goes down, the waiting goes up
    have hup : s.isOpen x = true ∧ ReflTransGen s.graph.up x z := by
      induction hzx with
      | refl => exact ⟨hzy.1, .refl⟩
      | tail _ hbc ih =>
        rcases mem_openChildren.1 hbc with ⟨hopen, hparent⟩
        exact ⟨hopen, ih.2.head ⟨hopen, ih.1, hparent⟩⟩
    exact ⟨y, z, hup.2, hzy⟩
  · rintro ⟨y, z, hxz, hzy⟩
    refine ⟨z, mem_directlyBlocked.2 ⟨y, hzy⟩, ?_⟩
    induction hxz using ReflTransGen.head_induction_on with
    | refl => exact .refl
    | head hab _ ih => exact ih.tail (mem_openChildren.2 ⟨hab.1, hab.2.2⟩)

/-! ## What the operations do to the graph -/

theorem get?_recompute (k : UUID) : s.recomputeWorkspaceBlocked.issues.get? k =
    (s.issues.get? k).map fun r => { r with isBlocked := s.blockedTree.contains k } := by
  have hid : ∀ r, (s.recomputeStmt.apply r).id = r.id := by
    intro r
    unfold Update.apply State.recomputeStmt
    split <;> rfl
  rw [State.recomputeWorkspaceBlocked, get?_exec hid]
  cases hget : s.issues.get? k with
  | none => rfl
  | some r =>
    obtain rfl : r.id = k := (Table.get?_eq_some.1 hget).2
    simp only [Option.map_some, Option.some.injEq]
    cases hsel : s.recomputeStmt.sel r with
    | true => exact Update.apply_of_sel hsel
    | false =>
      -- a row that is left out has the value already
      have hsame : r.isBlocked = s.blockedTree.contains r.id := by
        simpa [State.recomputeStmt] using hsel
      rw [Update.apply_of_not_sel hsel, ← hsame]

@[simp] theorem isOpen_recompute (k : UUID) :
    s.recomputeWorkspaceBlocked.isOpen k = s.isOpen k := by
  rw [State.isOpen, get?_recompute, Option.any_map]
  rfl

@[simp] theorem parentOf_recompute (k : UUID) :
    s.recomputeWorkspaceBlocked.parentOf k = s.parentOf k := by
  rw [State.parentOf, get?_recompute, Option.bind_map]
  rfl

@[simp] theorem hasEdge_recompute (a b : UUID) :
    s.recomputeWorkspaceBlocked.hasEdge a b = s.hasEdge a b := rfl

@[simp] theorem graph_recompute : s.recomputeWorkspaceBlocked.graph = s.graph :=
  graph_eq isOpen_recompute (fun k _ => parentOf_recompute k) fun _ _ => rfl

end Graph

/-- The row of one issue is written, or put in; nothing else happens. -/
structure State.Puts (s : State) (x : UUID) (r : Issue) (s' : State) : Prop where
  deps : s'.deps = s.deps
  get? : ∀ k, s'.issues.get? k = if k = x then some r else s.issues.get? k

namespace State.Puts

variable {s s' : State} {x : UUID} {r : Issue} (h : s.Puts x r s')

include h

theorem isOpen_self : s'.isOpen x = !r.status.terminal := by
  simp [State.isOpen, h.get?]

theorem parentOf_self : s'.parentOf x = r.parentIssueId := by
  simp [State.parentOf, h.get?]

theorem get?_ne {k : UUID} (hk : k ≠ x) : s'.issues.get? k = s.issues.get? k := by
  rw [h.get?, if_neg hk]

theorem isOpen_ne {k : UUID} (hk : k ≠ x) : s'.isOpen k = s.isOpen k := by
  rw [State.isOpen, h.get?_ne hk, State.isOpen]

theorem parentOf_ne {k : UUID} (hk : k ≠ x) : s'.parentOf k = s.parentOf k := by
  rw [State.parentOf, h.get?_ne hk, State.parentOf]

theorem hasEdge (a b : UUID) : s'.hasEdge a b = s.hasEdge a b := by
  rw [State.hasEdge, h.deps, State.hasEdge]

theorem graph_without : s'.graph.without x = s.graph.without x :=
  graph_without_eq (fun _ hk => h.get?_ne hk) fun a b _ _ => h.hasEdge a b

/-- A row that stays open under its parent, or stays closed, leaves the graph as it is. -/
theorem graph_eq {prev : Issue} (hget : s.issues.get? x = some prev)
    (hstatus : r.status.terminal = prev.status.terminal)
    (hparent : r.status.terminal = false → r.parentIssueId = prev.parentIssueId) :
    s'.graph = s.graph := by
  have hopen : s.isOpen x = !prev.status.terminal := by simp [State.isOpen, hget]
  refine Spine.graph_eq (fun k => ?_) (fun k hk => ?_) h.hasEdge
  · by_cases hkx : k = x
    · rw [hkx, h.isOpen_self, hopen, hstatus]
    · exact h.isOpen_ne hkx
  · by_cases hkx : k = x
    · subst hkx
      rw [hopen, Bool.not_eq_true'] at hk
      rw [h.parentOf_self, hparent (hstatus.trans hk), State.parentOf, hget, Option.bind_some]
    · exact h.parentOf_ne hkx

end State.Puts

section Operations

variable {s s' : State} {id : UUID}

theorem puts_moveStatus {found : Issue → Bool} {status : IssueStatus}
    (h : s.moveStatus id found status = some s') :
    ∃ r, s.issues.get? id = some r ∧ found r = true ∧ s.Puts id { r with status := status } s' := by
  simp only [State.moveStatus, Option.ite_none_right_eq_some, Option.any_eq_true] at h
  rcases h with ⟨⟨r, hget, hfound⟩, hs⟩
  rw [← Option.some.inj hs]
  refine ⟨r, hget, hfound, rfl, fun k => ?_⟩
  rw [get?_exec_id (fun _ => rfl) fun _ => rfl]
  by_cases hk : k = id
  · rw [if_pos hk, if_pos hk, hk, hget]
    rfl
  · rw [if_neg hk, if_neg hk]

theorem puts_updateIssue {status : Option IssueStatus} {parent : Option (Option UUID)}
    (h : s.updateIssue id status parent = some s') :
    ∃ r, s.issues.get? id = some r ∧
      (∀ p, parent = some (some p) → s.parentAllowed id p = true) ∧
      s.Puts id { r with
        status := status.getD r.status
        parentIssueId := parent.getD r.parentIssueId } s' := by
  cases hget : s.issues.get? id with
  | none => simp [State.updateIssue, hget] at h
  | some r =>
    simp only [State.updateIssue, hget, Option.ite_none_right_eq_some, Option.some.injEq] at h
    rcases h with ⟨hallowed, rfl⟩
    refine ⟨r, rfl, ?_, rfl, fun k => ?_⟩
    · rintro p rfl
      simpa using hallowed
    rw [get?_exec_id (fun _ => rfl) fun _ => rfl]
    by_cases hk : k = id
    · rw [if_pos hk, if_pos hk, hk, hget]
      rfl
    · rw [if_neg hk, if_neg hk]

/-- `CompleteTask` moves an issue from `in_progress` to `in_review`, or leaves the statuses alone,
and recomputes if the task has an issue that is still there. -/
theorem completeTask_cases (s : State) (issueId : Option UUID) (advance : Bool) :
    s.completeTask issueId advance = s ∨
      ∃ s₁, (s₁ = s ∨ ∃ id found, (∀ r, found r = true → r.status = .inProgress) ∧
          s.moveStatus id found .inReview = some s₁) ∧
        s.completeTask issueId advance = s₁.recomputeWorkspaceBlocked := by
  cases issueId with
  | none => exact .inl rfl
  | some id =>
    let found (r : Issue) : Bool :=
      r.status == .inProgress && (s.listChildIssues id).all fun c => c.status.terminal
    have hfound : ∀ r, found r = true → r.status = .inProgress := by
      intro r hr
      simp only [found, Bool.and_eq_true, beq_iff_eq] at hr
      exact hr.1
    -- without the move the issue is looked up in the state as it was
    have hstay : s.completeTask (some id) false = s ∨
        s.completeTask (some id) false = s.recomputeWorkspaceBlocked := by
      cases hget : (s.issues.get? id).isSome with
      | true => exact .inr (by simp [State.completeTask, hget])
      | false => exact .inl (by simp [State.completeTask, hget])
    cases hmove : s.moveStatus id found .inReview with
    | none =>
      have hauto : s.autoAdvanceCompletedIssue id = s := by
        show (s.moveStatus id found .inReview).getD s = s
        rw [hmove, Option.getD_none]
      have hsame : s.completeTask (some id) advance = s.completeTask (some id) false := by
        simp only [State.completeTask, hauto, ite_self]
      rw [hsame]
      exact hstay.imp_right fun h => ⟨s, .inl rfl, h⟩
    | some s₁ =>
      cases advance with
      | false => exact hstay.imp_right fun h => ⟨s, .inl rfl, h⟩
      | true =>
        rcases puts_moveStatus hmove with ⟨r, -, -, hputs⟩
        refine .inr ⟨s₁, .inr ⟨id, found, hfound, hmove⟩, ?_⟩
        have hget : (s₁.issues.get? id).isSome = true := by simp [hputs.get?]
        have hauto : s.autoAdvanceCompletedIssue id = s₁ := by
          show (s.moveStatus id found .inReview).getD s = s₁
          rw [hmove, Option.getD_some]
        simp only [State.completeTask, hauto, if_true]
        rw [if_pos hget]

theorem fresh_get? (hfresh : s.fresh id = true) : s.issues.get? id = none := by
  simp only [State.fresh, Bool.and_eq_true, List.all_eq_true, bne_iff_ne, ne_eq] at hfresh
  refine Option.eq_none_iff_forall_ne_some.2 fun r hget => ?_
  rcases Table.get?_eq_some.1 hget with ⟨hr, hid⟩
  exact (hfresh.1 r hr).1 hid

/-- Nothing leads to an issue that is new. -/
theorem fresh_edges (hfresh : s.fresh id = true) (x : UUID) :
    s.parentOf x ≠ some id ∧ s.hasEdge x id = false ∧ s.hasEdge id x = false := by
  simp only [State.fresh, Bool.and_eq_true, List.all_eq_true, bne_iff_ne, ne_eq] at hfresh
  refine ⟨fun hp => ?_, ?_, ?_⟩
  · rcases parentOf_eq_some.1 hp with ⟨r, hget, hparent⟩
    exact (hfresh.1 r (Table.get?_eq_some.1 hget).1).2 hparent
  · rw [← Bool.not_eq_true, hasEdge_eq_true]
    rintro ⟨d, hd, -, hid, -⟩
    exact (hfresh.2 d hd).2 hid
  · rw [← Bool.not_eq_true, hasEdge_eq_true]
    rintro ⟨d, hd, hid, -, -⟩
    exact (hfresh.2 d hd).1 hid

theorem puts_createIssue {status : IssueStatus} {parent : Option UUID}
    (h : s.createIssue id status parent = some s') :
    s.fresh id = true ∧ (∀ p, parent = some p → (s.issues.get? p).isSome) ∧
      s.Puts id { id := id, status := status, parentIssueId := parent } s' := by
  simp only [State.createIssue, Option.ite_none_right_eq_some, Bool.and_eq_true,
    Option.map_eq_some_iff] at h
  rcases h with ⟨⟨hfresh, hparent⟩, q, hins, rfl⟩
  refine ⟨hfresh, fun p hp => by simpa [hp] using hparent, rfl, fun k => ?_⟩
  exact Table.get?_insert? hins k

/-- The issue is gone with everything that led to it. -/
theorem get?_deleteIssue (h : s.deleteIssue id = some s') (k : UUID) :
    s'.issues.get? k = if k = id then none else
      (s.issues.get? k).map fun r =>
        if r.parentIssueId = some id then { r with parentIssueId := none } else r := by
  simp only [State.deleteIssue, Option.ite_none_right_eq_some, Option.some.injEq] at h
  rcases h with ⟨-, rfl⟩
  have horphan : ∀ r, (orphanStmt id).apply r =
      if r.parentIssueId = some id then { r with parentIssueId := none } else r := by
    intro r
    by_cases hp : r.parentIssueId = some id
    · rw [if_pos hp, Update.apply_of_sel (by simp [orphanStmt, hp])]
      rfl
    · rw [if_neg hp, Update.apply_of_not_sel (by simp [orphanStmt, hp])]
  have hkept : ∀ r, ((orphanStmt id).apply r).id = r.id := by
    intro r
    rw [horphan]
    split <;> rfl
  rw [get?_exec hkept, Table.get?_filter]
  cases hget : s.issues.get? k with
  | none => simp
  | some r =>
    have hrk : r.id = k := (Table.get?_eq_some.1 hget).2
    by_cases hk : k = id
    · simp [Option.filter, hrk, hk]
    · simp [Option.filter, hrk, hk, horphan]

theorem deps_deleteIssue (h : s.deleteIssue id = some s') : s'.deps = s.deps := by
  simp only [State.deleteIssue, Option.ite_none_right_eq_some, Option.some.injEq] at h
  rw [← h.2]

/-- What is left has its parent, unless that is the issue. -/
theorem parentOf_deleteIssue (h : s.deleteIssue id = some s') (k p : UUID) :
    s'.parentOf k = some p ↔ k ≠ id ∧ p ≠ id ∧ s.parentOf k = some p := by
  rw [State.parentOf, get?_deleteIssue h, State.parentOf]
  by_cases hk : k = id
  · simp [hk]
  rw [if_neg hk]
  cases hget : s.issues.get? k with
  | none => simp
  | some r =>
    by_cases hp : r.parentIssueId = some id
    · simp only [Option.map_some, hp, if_true, Option.bind_some, Option.some.injEq]
      simp [eq_comm]
    · simp only [Option.map_some, if_neg hp, Option.bind_some]
      constructor
      · intro hrp
        refine ⟨hk, ?_, hrp⟩
        rintro rfl
        exact hp hrp
      · exact fun hrp => hrp.2.2

theorem graph_deleteIssue (h : s.deleteIssue id = some s') :
    s'.graph = s.graph.without id := by
  have hopen : ∀ k, s'.isOpen k = true ↔ k ≠ id ∧ s.isOpen k = true := by
    intro k
    rw [State.isOpen, get?_deleteIssue h]
    by_cases hk : k = id
    · simp [hk]
    · have hstatus : ∀ r : Issue, (if r.parentIssueId = some id then
          { r with parentIssueId := none } else r).status = r.status := by
        intro r
        split <;> rfl
      simp [hk, State.isOpen, Option.any_map, hstatus]
  refine Lib.Waiting.Graph.ext ?_ ?_
  · funext a b
    refine propext ⟨?_, ?_⟩
    · rintro ⟨ha, hb, hab⟩
      rw [hopen] at ha hb
      exact ⟨ha.1, hb.1, ha.2, hb.2, ((parentOf_deleteIssue h a b).1 hab).2.2⟩
    · rintro ⟨ha, hb, hoa, hob, hab⟩
      exact ⟨(hopen a).2 ⟨ha, hoa⟩, (hopen b).2 ⟨hb, hob⟩,
        (parentOf_deleteIssue h a b).2 ⟨ha, hb, hab⟩⟩
  · funext a b
    have hedge : s'.hasEdge a b = s.hasEdge a b := by
      rw [State.hasEdge, deps_deleteIssue h, State.hasEdge]
    refine propext ⟨?_, ?_⟩
    · rintro ⟨ha, hb, hab⟩
      rw [hopen] at ha hb
      exact ⟨ha.1, hb.1, ha.2, hb.2, hedge ▸ hab⟩
    · rintro ⟨ha, hb, hoa, hob, hab⟩
      exact ⟨(hopen a).2 ⟨ha, hoa⟩, (hopen b).2 ⟨hb, hob⟩, hedge.symm ▸ hab⟩

/-- The upsert decides the one edge. -/
theorem any_createDependency (deps : List IssueDependency) (d : IssueDependency) (a b : UUID) :
    ((createDependency deps d).any fun e => e.isEdge a b) =
      if a = d.issueId ∧ b = d.dependsOnId then d.depType == .blocks
      else deps.any fun e => e.isEdge a b := by
  have hother : ∀ e : IssueDependency, ¬ (a = d.issueId ∧ b = d.dependsOnId) →
      e.issueId = d.issueId → e.dependsOnId = d.dependsOnId → e.isEdge a b = false := by
    intro e hkey hi hd
    simp only [IssueDependency.isEdge, hi, hd, Bool.and_eq_false_iff, beq_eq_false_iff_ne]
    rw [not_and_or] at hkey
    exact .inl (hkey.imp Ne.symm Ne.symm)
  by_cases hany : (deps.any fun e =>
      e.issueId == d.issueId && e.dependsOnId == d.dependsOnId) = true
  · rw [createDependency, if_pos hany, List.any_map]
    by_cases hkey : a = d.issueId ∧ b = d.dependsOnId
    · -- the row that is there gets the type
      rcases List.any_eq_true.1 hany with ⟨e, he, hsame⟩
      rcases hkey with ⟨rfl, rfl⟩
      rw [if_pos ⟨rfl, rfl⟩]
      cases htype : d.depType with
      | blocks =>
        refine List.any_eq_true.2 ⟨e, he, ?_⟩
        simp only [Bool.and_eq_true, beq_iff_eq] at hsame
        simp [IssueDependency.isEdge, hsame]
      | related =>
        refine List.any_eq_false.2 fun e _ => ?_
        by_cases hsame : e.issueId = d.issueId ∧ e.dependsOnId = d.dependsOnId
        · simp [IssueDependency.isEdge, hsame]
        · simp only [Function.comp_apply, Bool.and_eq_true, beq_iff_eq, if_neg hsame,
            IssueDependency.isEdge]
          exact fun h => hsame h.1
    · rw [if_neg hkey]
      congr 1
      funext e
      by_cases hsame : e.issueId = d.issueId ∧ e.dependsOnId = d.dependsOnId
      · -- the row is not the one looked for, before and after
        simp only [Function.comp_apply, Bool.and_eq_true, beq_iff_eq, if_pos hsame]
        rw [hother e hkey hsame.1 hsame.2]
        exact hother { e with depType := d.depType } hkey hsame.1 hsame.2
      · simp only [Function.comp_apply, Bool.and_eq_true, beq_iff_eq, if_neg hsame]
  · rw [createDependency, if_neg hany, List.any_append]
    by_cases hkey : a = d.issueId ∧ b = d.dependsOnId
    · rcases hkey with ⟨rfl, rfl⟩
      have hnone : (deps.any fun e => e.isEdge d.issueId d.dependsOnId) = false := by
        refine List.any_eq_false.2 fun e he hedge => hany (List.any_eq_true.2 ⟨e, he, ?_⟩)
        exact (Bool.and_eq_true_iff.1 hedge).1
      rw [if_pos ⟨rfl, rfl⟩, hnone]
      simp [IssueDependency.isEdge]
    · rw [if_neg hkey, List.any_cons, hother d hkey rfl rfl]
      simp

theorem hasEdge_addDependency {d : IssueDependency} (h : s.addDependency d = some s')
    (a b : UUID) : s'.hasEdge a b =
      if a = d.issueId ∧ b = d.dependsOnId then d.depType == .blocks else s.hasEdge a b := by
  simp only [State.addDependency, Option.ite_none_right_eq_some, Option.some.injEq] at h
  rcases h with ⟨-, rfl⟩
  exact any_createDependency s.deps d a b

theorem hasEdge_removeDependency {x y : UUID} (h : s.removeDependency x y = some s') (a b : UUID) :
    s'.hasEdge a b = true → s.hasEdge a b = true := by
  simp only [State.removeDependency, Option.ite_none_right_eq_some, Option.some.injEq] at h
  rcases h with ⟨-, rfl⟩
  simp only [hasEdge_eq_true]
  rintro ⟨d, hd, hab⟩
  exact ⟨d, List.mem_of_mem_filter hd, hab⟩

end Operations

end Orynx.Spine
