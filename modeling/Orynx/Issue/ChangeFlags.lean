import Orynx.Issue.Update

/-! # The change flags of `issue:updated`

`UpdateIssue` and `BatchUpdateIssues` tell the clients which fields have changed. The flags are
computed from the decoded pointers of the body, where `null` is as good as absent, while the
write goes by the keys that the body holds.

* `flags_between_iff`: the flags of one write are those of the two rows unless the body clears
  the project, or the assignee and sets nothing of it;
* `flags_exact_iff`: the same of every event that the two handlers publish.
-/

namespace Orynx.IssueUpdate

open Lib

/-! ## Events -/

structure Flags where
  assigneeChanged : Bool
  statusChanged : Bool
  priorityChanged : Bool
  projectChanged : Bool
deriving DecidableEq, Repr

/-- What the event of `UpdateIssue` says besides. -/
structure Details where
  startDateChanged : Bool
  dueDateChanged : Bool
  descriptionChanged : Bool
  titleChanged : Bool
  prevTitle : String
  prevAssigneeType : Option AssigneeType
  prevAssigneeId : Option UUID
  prevStatus : Autopilot.IssueStatus
  prevPriority : Priority
  prevStartDate : Option Int
  prevDueDate : Option Int
  prevDescription : Option String
deriving DecidableEq, Repr

/-- The event `issue:updated`; that of a batch has no details. -/
structure IssueUpdated where
  issue : Issue
  flags : Flags
  details : Option Details
deriving DecidableEq, Repr

/-- A decoded pointer is not nil: the key is there and its value is not `null`. -/
def decoded {α : Type} (field : Option (Option α)) : Bool := field.join.isSome

/-- Both handlers compute the flags alike. -/
def changeFlags (req : UpdateIssueRequest) (prevIssue issue : Issue) : Flags where
  assigneeChanged := (decoded req.assigneeType || decoded req.assigneeId) &&
    (prevIssue.assigneeType != issue.assigneeType || prevIssue.assigneeId != issue.assigneeId)
  statusChanged := req.status.isSome && prevIssue.status != issue.status
  priorityChanged := req.priority.isSome && prevIssue.priority != issue.priority
  projectChanged := decoded req.projectId && prevIssue.projectId != issue.projectId

/-- `descriptionChanged` compares pointers, which are equal if both are nil. -/
def details (req : UpdateIssueRequest) (prevIssue issue : Issue) : Details where
  startDateChanged := prevIssue.startDate != issue.startDate
  dueDateChanged := prevIssue.dueDate != issue.dueDate
  descriptionChanged := req.description.isSome &&
    (prevIssue.description.isSome || issue.description.isSome)
  titleChanged := req.title.isSome && prevIssue.title != issue.title
  prevTitle := prevIssue.title
  prevAssigneeType := prevIssue.assigneeType
  prevAssigneeId := prevIssue.assigneeId
  prevStatus := prevIssue.status
  prevPriority := prevIssue.priority
  prevStartDate := prevIssue.startDate
  prevDueDate := prevIssue.dueDate
  prevDescription := prevIssue.description

/-! ## The handlers -/

/-- A write, with the tables around it and the event that it publishes. -/
structure Write where
  before : IssueTable
  after : IssueTable
  event : IssueUpdated

section Handlers

-- `lookups` are the checks that ask the database: the parent, the assignee pair, the project
variable (lookups : IssueTable → Issue → UpdateIssueRequest → Bool) (workspaceId : UUID)
  (req : UpdateIssueRequest)

/-- One issue is loaded, checked and written; `none` if it is refused. -/
def writeIssue (event : Issue → Issue → IssueUpdated) (q : IssueTable) (id : UUID) :
    Option Write :=
  (getIssueInWorkspace q id workspaceId).bind fun prevIssue =>
    if accepts prevIssue req && lookups q prevIssue req then
      (q.update? (updateIssueStmt (updateIssueParams prevIssue req))).bind fun q' =>
        (q'.get? prevIssue.id).map fun issue => ⟨q, q', event prevIssue issue⟩
    else none

def updateIssue (q : IssueTable) (id : UUID) : Option Write :=
  writeIssue lookups workspaceId req
    (fun prevIssue issue =>
      ⟨issue, changeFlags req prevIssue issue, some (details req prevIssue issue)⟩) q id

/-- The loop of `BatchUpdateIssues`: an issue that is refused is passed over. -/
def batchLoop : IssueTable → List UUID → List Write
  | _, [] => []
  | q, id :: ids =>
    match writeIssue lookups workspaceId req
        (fun prevIssue issue => ⟨issue, changeFlags req prevIssue issue, none⟩) q id with
    | none => batchLoop q ids
    | some w => w :: batchLoop w.after ids

def batchUpdateIssues (q : IssueTable) (ids : List UUID) : List Write :=
  if hasMutation req then batchLoop lookups workspaceId req q ids else []

end Handlers

/-! ## Exact flags -/

/-- A flag is up if the field differs. -/
structure Flags.Between (f : Flags) (r r' : Issue) : Prop where
  assignee : f.assigneeChanged ↔ (r.assigneeType, r.assigneeId) ≠ (r'.assigneeType, r'.assigneeId)
  status : f.statusChanged ↔ r.status ≠ r'.status
  priority : f.priorityChanged ↔ r.priority ≠ r'.priority
  project : f.projectChanged ↔ r.projectId ≠ r'.projectId

/-- The body clears the project that the row has. -/
def clearsProject (req : UpdateIssueRequest) (r : Issue) : Bool :=
  req.projectId == some none && r.projectId.isSome

/-- The body clears what the row has of an assignee, and sets nothing of it. -/
def clearsAssignee (req : UpdateIssueRequest) (r : Issue) : Bool :=
  !decoded req.assigneeType && !decoded req.assigneeId &&
    (req.assigneeType == some none && r.assigneeType.isSome ||
      req.assigneeId == some none && r.assigneeId.isSome)

/-- The flags are those of the stored rows before and after. -/
def Write.Exact (w : Write) : Prop :=
  ∃ r ∈ w.before.rows, ∃ r' ∈ w.after.rows,
    r.id = w.event.issue.id ∧ r'.id = w.event.issue.id ∧ w.event.flags.Between r r'

def Write.Clears (w : Write) (req : UpdateIssueRequest) : Prop :=
  ∃ r ∈ w.before.rows, r.id = w.event.issue.id ∧
    (clearsProject req r ∨ clearsAssignee req r)

section Fields

variable {α : Type} [DecidableEq α]

/-- A field that is prefilled changes by what is sent or by being cleared. -/
theorem getD_ne_iff (field : Option (Option α)) (v : Option α) :
    v ≠ field.getD v ↔
      (decoded field ∧ v ≠ field.getD v) ∨ (field == some none && v.isSome) := by
  rcases field with _ | _ | x
  · simp [decoded]
  · cases v <;> simp [decoded]
  · simp [decoded]

omit [DecidableEq α] in
/-- A merged field changes by what is sent. -/
theorem sent_of_ne {field : Option α} {v : α} (h : v ≠ field.getD v) : field.isSome := by
  cases field with
  | none => exact absurd rfl h
  | some x => rfl

end Fields

section Row

variable (req : UpdateIssueRequest) (r : Issue)

/-- The row after the statement that was prefilled from it. -/
abbrev written : Issue := (updateIssueStmt (updateIssueParams r req)).set r

theorem project_exact_iff :
    ((changeFlags req r (written req r)).projectChanged ↔
        r.projectId ≠ (written req r).projectId) ↔ clearsProject req r = false := by
  have hwritten : (written req r).projectId = req.projectId.getD r.projectId := rfl
  have hfield := getD_ne_iff req.projectId r.projectId
  unfold changeFlags clearsProject
  dsimp only
  rw [hwritten, Bool.and_eq_true, bne_iff_ne]
  rcases hp : req.projectId with _ | _ | x
  · simp [decoded]
  · cases r.projectId <;> simp [decoded]
  · simp [decoded]

theorem assignee_exact_iff :
    ((changeFlags req r (written req r)).assigneeChanged ↔
        (r.assigneeType, r.assigneeId) ≠
          ((written req r).assigneeType, (written req r).assigneeId)) ↔
      clearsAssignee req r = false := by
  have htype : (written req r).assigneeType = req.assigneeType.getD r.assigneeType := rfl
  have hid : (written req r).assigneeId = req.assigneeId.getD r.assigneeId := rfl
  have hpair : (r.assigneeType, r.assigneeId) ≠
      ((written req r).assigneeType, (written req r).assigneeId) ↔
      r.assigneeType ≠ req.assigneeType.getD r.assigneeType ∨
        r.assigneeId ≠ req.assigneeId.getD r.assigneeId := by
    rw [ne_eq, Prod.mk.injEq, htype, hid, not_and_or]
  rw [hpair]
  unfold changeFlags clearsAssignee
  dsimp only
  rw [htype, hid]
  -- nothing of the pair is sent: it changes where a `null` meets a value
  by_cases hsent : decoded req.assigneeType || decoded req.assigneeId
  · rw [hsent, Bool.true_and, Bool.or_eq_true, bne_iff_ne, bne_iff_ne]
    have hboth : (!decoded req.assigneeType && !decoded req.assigneeId) = false := by
      rw [← Bool.not_or, hsent]
      rfl
    rw [hboth, Bool.false_and]
    exact ⟨fun _ => rfl, fun _ => Iff.rfl⟩
  · rw [Bool.not_eq_true] at hsent
    obtain ⟨ht, hi⟩ := Bool.or_eq_false_iff.1 hsent
    rw [getD_ne_iff req.assigneeType, getD_ne_iff req.assigneeId, ht, hi]
    simp

theorem flags_between_iff :
    (changeFlags req r (written req r)).Between r (written req r) ↔
      ¬ (clearsProject req r ∨ clearsAssignee req r) := by
  rw [not_or, Bool.not_eq_true, Bool.not_eq_true, ← project_exact_iff, ← assignee_exact_iff]
  constructor
  · intro h
    exact ⟨h.project, h.assignee⟩
  · rintro ⟨hproject, hassignee⟩
    refine ⟨hassignee, ?_, ?_, hproject⟩
    · unfold changeFlags
      rw [Bool.and_eq_true, bne_iff_ne]
      exact ⟨And.right, fun h => ⟨sent_of_ne h, h⟩⟩
    · unfold changeFlags
      rw [Bool.and_eq_true, bne_iff_ne]
      exact ⟨And.right, fun h => ⟨sent_of_ne h, h⟩⟩

end Row

/-! ## Every event -/

section Events

variable {lookups : IssueTable → Issue → UpdateIssueRequest → Bool} {workspaceId : UUID}
  {req : UpdateIssueRequest}

/-- What a write took from the stored row and put in its place. -/
theorem writeIssue_spec {event : Issue → Issue → IssueUpdated} {q : IssueTable} {id : UUID}
    {w : Write} (h : writeIssue lookups workspaceId req event q id = some w) :
    ∃ r ∈ w.before.rows, r.id = id ∧ written req r ∈ w.after.rows ∧
      w.event = event r (written req r) := by
  unfold writeIssue at h
  obtain ⟨prevIssue, hload, h⟩ := Option.bind_eq_some_iff.1 h
  obtain ⟨-, h⟩ := Option.ite_none_right_eq_some.1 h
  obtain ⟨q', hupdate, h⟩ := Option.bind_eq_some_iff.1 h
  obtain ⟨issue, hissue, rfl⟩ := Option.map_eq_some_iff.1 h
  have hmem : prevIssue ∈ q.rows := List.mem_of_find?_eq_some hload
  have hid : prevIssue.id = id := by
    have hfound := List.find?_some hload
    rw [Bool.and_eq_true, beq_iff_eq] at hfound
    exact hfound.1
  have hwritten : written req prevIssue ∈ q'.rows := by
    refine (Table.mem_update? hupdate).2 ⟨prevIssue, hmem, Update.apply_of_sel ?_⟩
    simp [updateIssueStmt, updateIssueParams]
  -- the row that the statement returns is the one under this id
  have hreturned : issue = written req prevIssue :=
    q'.eq_of_key (Table.get?_eq_some.1 hissue).1 hwritten (Table.get?_eq_some.1 hissue).2
  subst hreturned
  exact ⟨prevIssue, hmem, hid, hwritten, rfl⟩

theorem write_exact_iff {event : Issue → Issue → IssueUpdated}
    (hissue : ∀ r r', (event r r').issue = r')
    (hflags : ∀ r r', (event r r').flags = changeFlags req r r') {q : IssueTable} {id : UUID}
    {w : Write} (h : writeIssue lookups workspaceId req event q id = some w) :
    w.Exact ↔ ¬ w.Clears req := by
  obtain ⟨r, hr, -, hr', hevent⟩ := writeIssue_spec h
  have hid : w.event.issue.id = r.id := by
    rw [hevent, hissue]
    rfl
  -- the rows of this id are these two
  have hbefore : ∀ x ∈ w.before.rows, x.id = w.event.issue.id → x = r := by
    intro x hx hxid
    exact w.before.eq_of_key hx hr (hxid.trans hid)
  have hafter : ∀ x ∈ w.after.rows, x.id = w.event.issue.id → x = written req r := by
    intro x hx hxid
    exact w.after.eq_of_key hx hr' (hxid.trans hid)
  have hexact : w.Exact ↔ (changeFlags req r (written req r)).Between r (written req r) := by
    unfold Write.Exact
    constructor
    · rintro ⟨x, hx, x', hx', hxid, hxid', hbetween⟩
      rw [hbefore x hx hxid, hafter x' hx' hxid', hevent, hflags] at hbetween
      exact hbetween
    · intro hbetween
      refine ⟨r, hr, written req r, hr', hid.symm, hid.symm, ?_⟩
      rw [hevent, hflags]
      exact hbetween
  have hclears : w.Clears req ↔ (clearsProject req r ∨ clearsAssignee req r) := by
    unfold Write.Clears
    constructor
    · rintro ⟨x, hx, hxid, hclear⟩
      rw [hbefore x hx hxid] at hclear
      exact hclear
    · intro hclear
      exact ⟨r, hr, hid.symm, hclear⟩
  rw [hexact, hclears]
  exact flags_between_iff req r

theorem batchLoop_exact_iff {q : IssueTable} {ids : List UUID} {w : Write}
    (hw : w ∈ batchLoop lookups workspaceId req q ids) : w.Exact ↔ ¬ w.Clears req := by
  induction ids generalizing q with
  | nil => cases hw
  | cons id ids ih =>
    unfold batchLoop at hw
    cases hone : writeIssue lookups workspaceId req
        (fun prevIssue issue => ⟨issue, changeFlags req prevIssue issue, none⟩) q id with
    | none =>
      simp only [hone] at hw
      exact ih hw
    | some first =>
      simp only [hone] at hw
      rcases List.mem_cons.1 hw with rfl | hw
      · exact write_exact_iff (fun _ _ => rfl) (fun _ _ => rfl) hone
      · exact ih hw

end Events

/-- Every event that the two handlers publish has exact flags, unless the body clears the
project, or the assignee and sets nothing of it. -/
theorem flags_exact_iff (lookups : IssueTable → Issue → UpdateIssueRequest → Bool)
    (workspaceId : UUID) (req : UpdateIssueRequest) (q : IssueTable) :
    (∀ id, ∀ w ∈ updateIssue lookups workspaceId req q id, (w.Exact ↔ ¬ w.Clears req)) ∧
    ∀ ids, ∀ w ∈ batchUpdateIssues lookups workspaceId req q ids,
      (w.Exact ↔ ¬ w.Clears req) := by
  constructor
  · intro id w hw
    exact write_exact_iff (fun _ _ => rfl) (fun _ _ => rfl) hw
  · intro ids w hw
    unfold batchUpdateIssues at hw
    by_cases hmutation : hasMutation req
    · rw [if_pos hmutation] at hw
      exact batchLoop_exact_iff hw
    · rw [if_neg hmutation] at hw
      cases hw

/-- An issue of a project that an agent works on. -/
def planned : IssueTable :=
  ⟨[{ id := 1, workspaceId := 9, title := "plan", assigneeType := some .agent
      assigneeId := some 7, projectId := some 5 }], by decide, by decide⟩

theorem flags_exact_priority :
    ∃ w ∈ updateIssue (fun _ _ _ => true) 9 { priority := some .high } planned 1, w.Exact := by
  obtain ⟨w, hw⟩ := Option.isSome_iff_exists.1
    (show (updateIssue (fun _ _ _ => true) 9 { priority := some .high } planned 1).isSome by
      decide +kernel)
  refine ⟨w, hw, ((flags_exact_iff (fun _ _ _ => true) 9 { priority := some .high } planned).1
    1 w hw).2 ?_⟩
  rintro ⟨r, -, -, hclears⟩
  simp [clearsProject, clearsAssignee] at hclears

/-- An issue leaves its project, and neither handler says so. -/
theorem cleared_project_unflagged :
    ¬ ∀ (req : UpdateIssueRequest) (q : IssueTable),
      (∀ id, ∀ w ∈ updateIssue (fun _ _ _ => true) 9 req q id, w.Exact) ∧
      ∀ ids, ∀ w ∈ batchUpdateIssues (fun _ _ _ => true) 9 req q ids, w.Exact := by
  intro h
  obtain ⟨w, hw, hflag⟩ := (Option.any_eq_true _ _).1
    (show (updateIssue (fun _ _ _ => true) 9 { projectId := some none } planned 1).any
        (fun w => !w.event.flags.projectChanged &&
          w.before.rows.all (fun r => r.projectId == some 5) &&
          w.after.rows.all (fun r => r.projectId == none)) by decide +kernel)
  obtain ⟨r, hr, r', hr', -, -, hbetween⟩ := (h { projectId := some none } planned).1 1 w hw
  simp only [Bool.and_eq_true, Bool.not_eq_true', List.all_eq_true, beq_iff_eq] at hflag
  obtain ⟨⟨hflag, hbefore⟩, hafter⟩ := hflag
  have hproject := hbetween.project
  rw [hflag, hbefore r hr, hafter r' hr'] at hproject
  exact absurd (hproject.2 (by decide)) (by decide)

end Orynx.IssueUpdate
