import Orynx.GitHub.Identifier
import Orynx.GitHub.PullRequest
import Orynx.Lib.Machine

/-! # Closing issues with pull requests

The rest of `mirrorPullRequestForWorkspace` of `server/internal/handler/github.go`: each issue that
a `pull_request` event names is linked to the pull request, and a terminal event moves those to done
whose pull requests are all over and of which one was merged to close it.

* `Named`, `LastNamed`: the issues an event names, and the identifier by which it does so last;
* `Closable`: nothing is open any more, and a merged pull request declared to close the issue;
* `closes_as_declared`: a link keeps the intent that a `closed` event declared until the pull
  request is open or closed again, a terminal event closes what it names and can be closed, and no
  event closes anything else;
* `first_declaration_not_final`: a pull request that is reopened declares anew, and an issue that
  its last event does not name is not looked at.
-/

namespace Orynx.GitHub.AutoClose

open Lib
open Autopilot (IssueStatus)
open ChildDone

/-! ## Links -/

/-- The address stands for the id of the pull request. -/
structure Link where
  issueId : UUID
  pullRequest : Address
  closeIntent : Bool
  referenceOnly : Bool
deriving DecidableEq, Repr

def linkSchema : Schema Link (UUID × Address) Unit where
  key l := (l.issueId, l.pullRequest)
  index _ := none

abbrev LinkTable := Table linkSchema

/-- The update of a link that is there already. -/
def Link.excluded (new : Link) (preserveCloseIntent : Bool) (old : Link) : Link :=
  { old with
    closeIntent := if preserveCloseIntent then old.closeIntent else new.closeIntent
    referenceOnly := if preserveCloseIntent then old.referenceOnly else new.referenceOnly }

def linkIssueToPullRequest (links : LinkTable) (row : Link) (preserveCloseIntent : Bool) :
    LinkTable :=
  links.upsert row (row.excluded preserveCloseIntent)

/-! ## The state -/

/-- `getIssuePrefix`, `workspaceAutoLinkPRsEnabled` and `autoCloseEpicsEnabled`. -/
structure Config where
  issuePrefix : UUID → String
  autoLinkPRs : UUID → Bool
  autoCloseEpics : Bool

structure State where
  issues : IssueTable
  pullRequests : PullRequestTable
  links : LinkTable

structure CloseAggregate where
  openCount : Nat
  mergedWithCloseIntentCount : Nat
deriving DecidableEq, Repr

def getIssuePullRequestCloseAggregate (s : State) (issueId : UUID) : CloseAggregate :=
  let linked := s.links.rows.filter fun l => l.issueId == issueId && !l.referenceOnly
  { openCount := linked.countP fun l =>
      (s.pullRequests.get? l.pullRequest).any fun pr => pr.state == .open_ || pr.state == .draft
    mergedWithCloseIntentCount := linked.countP fun l =>
      (s.pullRequests.get? l.pullRequest).any fun pr => pr.state == .merged && l.closeIntent }

/-! ## Writes to issues -/

/-- What `notifyParentOfChildDone` does to the issues: it may send the parent to review. -/
def notifyParentOfChildDone (cfg : Config) (q : IssueTable) (prev issue : Issue) : IssueTable :=
  match issue.parentIssueId.bind q.get? with
  | none => q
  | some parent =>
    if completes prev.status issue.status && parentListens parent && cfg.autoCloseEpics &&
        parent.status != .inReview && allChildrenTerminal (listChildIssues q parent.id) then
      q.exec (updateIssueStatusStmt parent.id parent.workspaceId .inReview)
    else q

def advanceIssueToDone (cfg : Config) (q : IssueTable) (issue : Issue) : IssueTable :=
  let stmt := updateIssueStatusStmt issue.id issue.workspaceId .done
  match (q.exec stmt).rows.find? stmt.sel with
  | none => q
  | some updated => notifyParentOfChildDone cfg (q.exec stmt) issue updated

/-- The loop body for an issue that was linked. -/
def reevaluate (cfg : Config) (s : State) (q : IssueTable) (issue : Issue) : IssueTable :=
  if issue.status.terminal then q
  else
    let counts := getIssuePullRequestCloseAggregate s issue.id
    if counts.openCount = 0 ∧ 0 < counts.mergedWithCloseIntentCount then
      advanceIssueToDone cfg q issue
    else q

/-! ## An event -/

def idents (d : Delivery) : List Identifier :=
  extractIdentifiers [d.payload.title, d.payload.body, d.payload.headRef]

def closingIdents (d : Delivery) : List Identifier :=
  extractClosingIdentifiers [d.payload.title, d.payload.body]

def qualifyingIdents (d : Delivery) : List Identifier :=
  extractIdentifiers [d.payload.title, d.payload.headRef] ++ closingIdents d

def terminal (d : Delivery) : Bool := d.state == .merged || d.state == .closed

def preserveCloseIntent (d : Delivery) : Bool := d.payload.action != "closed" && terminal d

/-- The issues that the event names, in the order of their identifiers. -/
def found (cfg : Config) (q : IssueTable) (d : Delivery) : List (Identifier × Issue) :=
  (idents d).filterMap fun id =>
    (lookupIssueByIdentifier q d.workspaceId (cfg.issuePrefix d.workspaceId) id).map (Prod.mk id)

def linkRow (d : Delivery) (x : Identifier × Issue) : Link where
  issueId := x.2.id
  pullRequest := d.address
  closeIntent := (closingIdents d).contains x.1 && !preserveCloseIntent d
  referenceOnly := !(qualifyingIdents d).contains x.1

def linkAll (d : Delivery) (links : LinkTable) (xs : List (Identifier × Issue)) : LinkTable :=
  xs.foldl (fun links x => linkIssueToPullRequest links (linkRow d x) (preserveCloseIntent d)) links

/-- The links do not change what is looked up, so the events' issues are all found first. -/
def mirrorPullRequestForWorkspace (cfg : Config) (s : State) (d : Delivery) : State :=
  let mirrored := { s with pullRequests := mirrorPullRequest s.pullRequests d }
  if cfg.autoLinkPRs d.workspaceId then
    let xs := found cfg s.issues d
    let linked := { mirrored with links := linkAll d s.links xs }
    if terminal d then
      { linked with issues := xs.foldl (fun q x => reevaluate cfg linked q x.2) s.issues }
    else linked
  else mirrored

/-! ## Histories -/

/-- A delivery, or a user creates an issue or moves one. -/
inductive Act where
  | deliver (d : Delivery)
  | createIssue (r : Issue)
  | moveStatus (id workspaceId : UUID) (status : IssueStatus)

def next (cfg : Config) (s : State) : Act → Option State
  | .deliver d => some (mirrorPullRequestForWorkspace cfg s d)
  | .createIssue r => (s.issues.insert? r).map fun q => { s with issues := q }
  | .moveStatus id w status =>
    some { s with issues := s.issues.exec (updateIssueStatusStmt id w status) }

/-- Any issues, with nothing mirrored yet. -/
def machine (cfg : Config) : Machine State Act where
  Init s := s.pullRequests = .empty ∧ s.links = .empty
  next := next cfg

/-! ## The property -/

def Named (cfg : Config) (s : State) (d : Delivery) (issue : Issue) : Prop :=
  ∃ id, (id, issue) ∈ found cfg s.issues d

/-- Of the identifiers by which the event names the issue, this is the last. -/
def LastNamed (cfg : Config) (s : State) (d : Delivery) (id : Identifier) (issue : Issue) : Prop :=
  ((found cfg s.issues d).filter fun x => x.2.id == issue.id).getLast? = some (id, issue)

def State.closeIntent (s : State) (x : UUID) (a : Address) : Option Bool :=
  (s.links.get? (x, a)).map Link.closeIntent

def statusOf (q : IssueTable) (x : UUID) : Option IssueStatus := (q.get? x).map Issue.status

/-- No pull request that works on the issue is open, and one that declared to close it was
merged. -/
structure Closable (s : State) (x : UUID) : Prop where
  settled : ∀ l ∈ s.links.rows, l.issueId = x → l.referenceOnly = false →
    ∀ pr, s.pullRequests.get? l.pullRequest = some pr → pr.state ≠ .open_ ∧ pr.state ≠ .draft
  merged : ∃ l ∈ s.links.rows, l.issueId = x ∧ l.referenceOnly = false ∧ l.closeIntent = true ∧
    ∃ pr, s.pullRequests.get? l.pullRequest = some pr ∧ pr.state = .merged

/-- The pull request is not open or closed again. -/
def quiet (a : Address) : Act → Bool
  | .deliver d => !(d.address == a) || preserveCloseIntent d
  | _ => true

/-! ## Links of an event -/

section Links

variable {d : Delivery} {links : LinkTable} {x : UUID} {a : Address}

theorem get?_link (row : Link) (preserve : Bool) (k : UUID × Address) :
    (linkIssueToPullRequest links row preserve).get? k =
      if k = (row.issueId, row.pullRequest) then
        some ((links.get? k).elim row (row.excluded preserve))
      else links.get? k :=
  Table.get?_upsert (fun _ => rfl) links row (row.excluded preserve) (fun _ h => h) k

/-- An event of another pull request leaves the link alone. -/
theorem get?_linkAll_other (ha : a ≠ d.address) (xs : List (Identifier × Issue)) :
    (linkAll d links xs).get? (x, a) = links.get? (x, a) := by
  induction xs generalizing links with
  | nil => rfl
  | cons y xs ih =>
    have hstep : linkAll d links (y :: xs) =
      linkAll d (linkIssueToPullRequest links (linkRow d y) (preserveCloseIntent d)) xs := rfl
    rw [hstep, ih, get?_link, if_neg]
    exact fun hk => ha (congrArg Prod.snd hk)

/-- After its end a pull request keeps the intents it has declared. -/
theorem intent_preserved (hpreserve : preserveCloseIntent d = true) {b : Bool}
    (h : (links.get? (x, a)).map Link.closeIntent = some b) (xs : List (Identifier × Issue)) :
    ((linkAll d links xs).get? (x, a)).map Link.closeIntent = some b := by
  induction xs generalizing links with
  | nil => exact h
  | cons y xs ih =>
    refine ih ?_
    rcases Option.map_eq_some_iff.1 h with ⟨l, hl, hb⟩
    rw [get?_link, hl, hpreserve]
    split
    · rw [Option.map_some, Option.elim_some, ← hb]
      rfl
    · rw [Option.map_some, hb]

/-- Until then the last identifier that names the issue decides. -/
theorem intent_declared (hpreserve : preserveCloseIntent d = false)
    (xs : List (Identifier × Issue)) :
    ((linkAll d links xs).get? (x, d.address)).map Link.closeIntent =
      ((xs.filter fun y => y.2.id == x).getLast?.map fun y => (closingIdents d).contains y.1).or
        ((links.get? (x, d.address)).map Link.closeIntent) := by
  induction xs generalizing links with
  | nil => rfl
  | cons y xs ih =>
    have hstep : linkAll d links (y :: xs) =
      linkAll d (linkIssueToPullRequest links (linkRow d y) (preserveCloseIntent d)) xs := rfl
    have hrow : (linkRow d y).closeIntent = (closingIdents d).contains y.1 := by
      rw [linkRow, hpreserve, Bool.not_false, Bool.and_true]
    rw [hstep, ih, get?_link, List.filter_cons, hpreserve]
    by_cases hy : y.2.id = x
    · have hk : ((x, d.address) : UUID × Address) =
        ((linkRow d y).issueId, (linkRow d y).pullRequest) := by rw [← hy]; rfl
      rw [if_pos hk, if_pos (by simp [hy]), List.getLast?_cons]
      cases hlast : (xs.filter fun y => y.2.id == x).getLast? with
      | some z => rfl
      | none =>
        rw [Option.map_none, Option.none_or, Option.getD_none, Option.map_some, Option.map_some,
          Option.some_or, ← hrow]
        cases links.get? (x, d.address) <;> rfl
    · rw [if_neg, if_neg (by simpa using hy)]
      exact fun hk => hy (congrArg Prod.fst hk).symm

end Links

/-! ## Moves of issues -/

/-- Issues stay in their workspaces, what was done stays so, and only `D` became it. -/
structure Advances (q q' : IssueTable) (D : UUID → Prop) : Prop where
  workspace : ∀ x, (q'.get? x).map Issue.workspaceId = (q.get? x).map Issue.workspaceId
  keeps : ∀ x, statusOf q x = some .done → statusOf q' x = some .done
  only : ∀ x, statusOf q' x = some .done → statusOf q x = some .done ∨ D x

section Moves

variable {cfg : Config} {s : State} {q q' q'' : IssueTable} {D : UUID → Prop} {issue : Issue}

theorem Advances.refl (q : IssueTable) (D : UUID → Prop) : Advances q q D :=
  ⟨fun _ => rfl, fun _ h => h, fun _ h => .inl h⟩

theorem Advances.trans (h : Advances q q' D) (h' : Advances q' q'' D) : Advances q q'' D where
  workspace x := (h'.workspace x).trans (h.workspace x)
  keeps x hx := h'.keeps x (h.keeps x hx)
  only x hx := (h'.only x hx).elim (h.only x) .inr

theorem Advances.mono {D' : UUID → Prop} (h : Advances q q' D) (hD : ∀ x, D x → D' x) :
    Advances q q' D' :=
  { h with only := fun x hx => (h.only x hx).imp_right (hD x) }

theorem workspace_exec (x w : UUID) (st : IssueStatus) (y : UUID) :
    ((q.exec (updateIssueStatusStmt x w st)).get? y).map Issue.workspaceId =
      (q.get? y).map Issue.workspaceId := by
  rw [get?_exec (status_key x w st), Option.map_map]
  congr 1
  exact funext fun r => status_workspace x w st r

theorem statusOf_exec_other {x y : UUID} (w : UUID) (st : IssueStatus) (h : y ≠ x) :
    statusOf (q.exec (updateIssueStatusStmt x w st)) y = statusOf q y := by
  rw [statusOf, get?_exec (status_key x w st), statusOf]
  cases hr : q.get? y with
  | none => rfl
  | some r =>
    have hid : r.id = y := (Table.get?_eq_some.1 hr).2
    rw [Option.map_some, status_other (hid ▸ h)]

theorem statusOf_exec_self {x w : UUID} (st : IssueStatus)
    (h : (q.get? x).map Issue.workspaceId = some w) :
    statusOf (q.exec (updateIssueStatusStmt x w st)) x = some st := by
  rcases Option.map_eq_some_iff.1 h with ⟨r, hr, hw⟩
  rw [statusOf, get?_exec (status_key x w st), hr, Option.map_some,
    status_self (Table.get?_eq_some.1 hr).2 hw]
  rfl

/-- The epic goes to review, from a status that is not done. -/
theorem notify_advances (prev : Issue) :
    Advances q (notifyParentOfChildDone cfg q prev issue) fun _ => False := by
  unfold notifyParentOfChildDone
  split
  · exact .refl q _
  · rename_i parent hparent
    split
    · rename_i hguard
      simp only [Bool.and_eq_true, parentListens, Bool.not_eq_true'] at hguard
      rcases Option.bind_eq_some_iff.1 hparent with ⟨x, -, hx⟩
      have hid : parent.id = x := (Table.get?_eq_some.1 hx).2
      have hstatus : statusOf q parent.id = some parent.status := by
        rw [statusOf, hid, hx]
        rfl
      have hreview : statusOf
          (q.exec (updateIssueStatusStmt parent.id parent.workspaceId .inReview)) parent.id =
            some .inReview := by
        refine statusOf_exec_self .inReview ?_
        rw [hid, hx]
        rfl
      refine ⟨workspace_exec _ _ _, fun y hy => ?_, fun y hy => ?_⟩
      · by_cases hyp : y = parent.id
        · rw [hyp, hstatus] at hy
          rw [Option.some.inj hy] at hguard
          exact absurd hguard.1.1.1.2.1.1 (by decide)
        · rwa [statusOf_exec_other _ _ hyp]
      · by_cases hyp : y = parent.id
        · rw [hyp, hreview] at hy
          cases hy
        · rw [statusOf_exec_other _ _ hyp] at hy
          exact .inl hy
    · exact .refl q _

theorem statusOf_exec_same {y : UUID} {st : IssueStatus} (x w : UUID) (h : statusOf q y = some st) :
    statusOf (q.exec (updateIssueStatusStmt x w st)) y = some st := by
  rcases Option.map_eq_some_iff.1 h with ⟨r, hr, hst⟩
  rw [statusOf, get?_exec (status_key x w st), hr, Option.map_some]
  unfold Update.apply
  split
  · rfl
  · exact congrArg some hst

theorem advance_advances :
    Advances q (advanceIssueToDone cfg q issue) fun x => x = issue.id := by
  unfold advanceIssueToDone
  simp only
  split
  · exact .refl q _
  · refine Advances.trans ⟨workspace_exec _ _ _, fun y hy => statusOf_exec_same _ _ hy,
      fun y hy => ?_⟩ ((notify_advances issue).mono fun _ h => h.elim)
    by_cases hyi : y = issue.id
    · exact .inr hyi
    · rw [statusOf_exec_other _ _ hyi] at hy
      exact .inl hy

theorem advance_done (hw : (q.get? issue.id).map Issue.workspaceId = some issue.workspaceId) :
    statusOf (advanceIssueToDone cfg q issue) issue.id = some .done := by
  have hdone := statusOf_exec_self .done hw
  unfold advanceIssueToDone
  simp only
  split
  · rename_i hnone
    -- the row is there, so the statement returns it
    have hw' := (workspace_exec issue.id issue.workspaceId .done issue.id).trans hw
    rcases Option.map_eq_some_iff.1 hw' with ⟨r, hr, hrw⟩
    rcases Table.get?_eq_some.1 hr with ⟨hmem, hid⟩
    have hid : r.id = issue.id := hid
    have hsel := List.find?_eq_none.1 hnone r hmem
    simp [updateIssueStatusStmt, hid, hrw] at hsel
  · exact (notify_advances issue).keeps _ hdone

theorem closable_iff {x : UUID} : Closable s x ↔
    (getIssuePullRequestCloseAggregate s x).openCount = 0 ∧
      0 < (getIssuePullRequestCloseAggregate s x).mergedWithCloseIntentCount := by
  simp only [getIssuePullRequestCloseAggregate, List.countP_eq_zero, List.countP_pos_iff,
    List.mem_filter, Bool.and_eq_true, beq_iff_eq, Bool.not_eq_true', Option.any_eq_true,
    Bool.or_eq_true]
  constructor
  · rintro ⟨hover, l, hl, hissue, href, hintent, pr, hpr, hmerged⟩
    refine ⟨?_, l, ⟨hl, hissue, href⟩, pr, hpr, hmerged, hintent⟩
    rintro l ⟨hl, hissue, href⟩ ⟨pr, hpr, hopen⟩
    have hstate := hover l hl hissue href pr hpr
    exact hopen.elim hstate.1 hstate.2
  · rintro ⟨hover, l, ⟨hl, hissue, href⟩, pr, hpr, hmerged, hintent⟩
    refine ⟨fun l hl hissue href pr hpr => ⟨fun ho => ?_, fun hd => ?_⟩,
      l, hl, hissue, href, hintent, pr, hpr, hmerged⟩
    · exact hover l ⟨hl, hissue, href⟩ ⟨pr, hpr, .inl ho⟩
    · exact hover l ⟨hl, hissue, href⟩ ⟨pr, hpr, .inr hd⟩

/-- The issue is closed if it is open and can be. -/
theorem reevaluate_eq [Decidable (Closable s issue.id)] :
    reevaluate cfg s q issue =
      if issue.status.terminal = false ∧ Closable s issue.id then advanceIssueToDone cfg q issue
      else q := by
  unfold reevaluate
  cases hterm : issue.status.terminal with
  | true => rw [if_pos rfl, if_neg fun h => by cases h.1]
  | false =>
    rw [if_neg Bool.false_ne_true]
    by_cases hc : Closable s issue.id
    · rw [if_pos (closable_iff.1 hc), if_pos ⟨rfl, hc⟩]
    · rw [if_neg fun h => hc (closable_iff.2 h), if_neg fun h => hc h.2]

/-- An open issue among those that were linked, and it can be closed. -/
def Closes (s : State) (xs : List (Identifier × Issue)) (x : UUID) : Prop :=
  ∃ y ∈ xs, y.2.id = x ∧ y.2.status.terminal = false ∧ Closable s x

theorem reevaluate_advances :
    Advances q (reevaluate cfg s q issue) fun x =>
      x = issue.id ∧ issue.status.terminal = false ∧ Closable s x := by
  classical
  rw [reevaluate_eq]
  split
  · rename_i h
    exact advance_advances.mono fun x hx => ⟨hx, h.1, hx ▸ h.2⟩
  · exact .refl q _

theorem fold_advances (xs : List (Identifier × Issue)) :
    Advances q (xs.foldl (fun q x => reevaluate cfg s q x.2) q) (Closes s xs) := by
  induction xs generalizing q with
  | nil => exact .refl q _
  | cons y xs ih =>
    refine (reevaluate_advances.mono fun x hx => ?_).trans (ih.mono fun x hx => ?_)
    · exact ⟨y, List.mem_cons_self, hx.1.symm, hx.2⟩
    · rcases hx with ⟨z, hz, hx⟩
      exact ⟨z, List.mem_cons_of_mem y hz, hx⟩

theorem fold_done {xs : List (Identifier × Issue)} {y : Identifier × Issue} (hy : y ∈ xs)
    (hw : (q.get? y.2.id).map Issue.workspaceId = some y.2.workspaceId)
    (hterm : y.2.status.terminal = false) (hc : Closable s y.2.id) :
    statusOf (xs.foldl (fun q x => reevaluate cfg s q x.2) q) y.2.id = some .done := by
  classical
  induction xs generalizing q with
  | nil => cases hy
  | cons z xs ih =>
    rw [List.foldl_cons]
    rcases List.mem_cons.1 hy with rfl | hy
    · refine (fold_advances xs).keeps _ ?_
      rw [reevaluate_eq, if_pos ⟨hterm, hc⟩]
      exact advance_done hw
    · exact ih hy ((reevaluate_advances.workspace _).trans hw)

end Moves

/-! ## Histories -/

section Runs

variable {cfg : Config} {s : State} {d : Delivery}

theorem row_of_found {x : Identifier × Issue} (hx : x ∈ found cfg s.issues d) :
    s.issues.get? x.2.id = some x.2 := by
  rcases List.mem_filterMap.1 hx with ⟨id, -, hid⟩
  rcases Option.map_eq_some_iff.1 hid with ⟨issue, hissue, rfl⟩
  unfold lookupIssueByIdentifier at hissue
  rw [Option.ite_none_right_eq_some] at hissue
  rcases Option.bind_eq_some_iff.1 hissue.2 with ⟨n, -, hn⟩
  exact Table.get?_eq_some.2 ⟨List.mem_of_find?_eq_some hn, rfl⟩

/-- The state in which a terminal event evaluates the issues it names. -/
def linked (cfg : Config) (s : State) (d : Delivery) : State where
  issues := s.issues
  pullRequests := mirrorPullRequest s.pullRequests d
  links := linkAll d s.links (found cfg s.issues d)

theorem mirror_eq (hauto : cfg.autoLinkPRs d.workspaceId = true) :
    mirrorPullRequestForWorkspace cfg s d =
      if terminal d then
        { linked cfg s d with
          issues := (found cfg s.issues d).foldl (fun q x => reevaluate cfg (linked cfg s d) q x.2)
            s.issues }
      else linked cfg s d := by
  unfold mirrorPullRequestForWorkspace
  simp only
  rw [if_pos hauto]
  rfl

theorem closable_mirror (hauto : cfg.autoLinkPRs d.workspaceId = true) {x : UUID} :
    Closable (mirrorPullRequestForWorkspace cfg s d) x ↔ Closable (linked cfg s d) x := by
  rw [mirror_eq hauto]
  split
  · exact ⟨fun h => ⟨h.settled, h.merged⟩, fun h => ⟨h.settled, h.merged⟩⟩
  · exact Iff.rfl

theorem links_mirror (hauto : cfg.autoLinkPRs d.workspaceId = true) :
    (mirrorPullRequestForWorkspace cfg s d).links = linkAll d s.links (found cfg s.issues d) := by
  rw [mirror_eq hauto]
  split <;> rfl

/-- The intents of a pull request that is quiet stay as they are. -/
theorem intent_kept (hauto : ∀ w, cfg.autoLinkPRs w = true) {x : UUID} {a : Address} {b : Bool}
    (h : s.closeIntent x a = some b) : ∀ t,
      ((machine cfg).startAt s).ReachableUnder (fun _ act => quiet a act = true) t →
        t.closeIntent x a = some b := by
  refine Machine.invariant_under ?_ ?_
  · rintro t rfl
    exact h
  · intro t act t' _ ht hquiet hn
    cases act with
    | createIssue r =>
      rcases Option.map_eq_some_iff.1 hn with ⟨q, -, rfl⟩
      exact ht
    | moveStatus id w status =>
      obtain rfl := Option.some.inj hn
      exact ht
    | deliver e =>
      obtain rfl := Option.some.inj hn
      rw [State.closeIntent, links_mirror (hauto _)]
      by_cases ha : a = e.address
      · have hpreserve : preserveCloseIntent e = true := by simpa [quiet, ha] using hquiet
        exact intent_preserved hpreserve ht _
      · rw [get?_linkAll_other ha]
        exact ht

theorem closing_iff {id : Identifier} : (closingIdents d).contains id = true ↔
    ClosesIn d.payload.title id ∨ ClosesIn d.payload.body id := by
  rw [List.contains_iff_mem, closingIdents, mem_extractClosingIdentifiers]
  simp

end Runs

/-! ## Examples of histories -/

/-- Every workspace has the prefix `MUL`. -/
def mulConfig : Config where
  issuePrefix _ := "MUL"
  autoLinkPRs _ := true
  autoCloseEpics := false

/-- Issue 1 is in progress, and nothing is mirrored. -/
def mulState : State where
  issues := (Table.ofRows? [{ id := 1, number := 1, status := .inProgress }]).getD .empty
  pullRequests := .empty
  links := .empty

def event (number : Int) (action state : String) (merged : Bool) (title body : String)
    (updatedAt : Int) : Delivery where
  workspaceId := 1
  payload :=
    { action := action, number := number, title := title, body := body, state := state,
      merged := merged, updatedAt := updatedAt, repoName := "web", repoOwner := "acme",
      installationId := 5 }

def merge : Delivery := event 8 "closed" "closed" true "Login" "Closes MUL-1" 110

def replay (cfg : Config) (s : State) (ds : List Delivery) : State :=
  ds.foldl (mirrorPullRequestForWorkspace cfg) s

def InOrder (ds : List Delivery) : Prop :=
  ds.Pairwise fun e e' => e.payload.updatedAt ≤ e'.payload.updatedAt

/-- The first terminal event of a pull request sets the intent it declares. -/
def FirstDeclares (cfg : Config) (s : State) : Prop :=
  ∀ ds d, InOrder (ds ++ [d]) → (∀ e ∈ ds, e.address = d.address → terminal e = false) →
    terminal d = true → ∀ id issue, LastNamed cfg (replay cfg s ds) d id issue →
      (replay cfg s (ds ++ [d])).closeIntent issue.id d.address =
        some ((closingIdents d).contains id)

/-- After it the events that are not `closed` leave the intent alone. -/
def LaterKeep (cfg : Config) (s : State) : Prop :=
  ∀ ds d ds', InOrder (ds ++ d :: ds') → (∀ e ∈ ds, e.address = d.address → terminal e = false) →
    terminal d = true → (∀ e ∈ ds', e.payload.action ≠ "closed") → ∀ x,
      (replay cfg s (ds ++ d :: ds')).closeIntent x d.address =
        (replay cfg s (ds ++ [d])).closeIntent x d.address

/-- Each name of an issue behind a closing keyword declares that the issue is closed. -/
def EachNameDeclares (cfg : Config) (s : State) : Prop :=
  ∀ d, terminal d = true → d.payload.action = "closed" →
    ∀ x ∈ found cfg s.issues d, (closingIdents d).contains x.1 = true →
      (replay cfg s [d]).closeIntent x.2.id d.address = some true

/-- A terminal event closes all that its pull request works on and that can be closed. -/
def ClosesLinked (cfg : Config) (s : State) : Prop :=
  ∀ ds d, InOrder (ds ++ [d]) → terminal d = true →
    ∀ l ∈ (replay cfg s (ds ++ [d])).links.rows, l.pullRequest = d.address →
      l.referenceOnly = false → Closable (replay cfg s (ds ++ [d])) l.issueId →
        (statusOf (replay cfg s ds).issues l.issueId).any (fun st => !st.terminal) = true →
          statusOf (replay cfg s (ds ++ [d])).issues l.issueId = some .done

/-- And it closes nothing else. -/
def ClosesNoOther (cfg : Config) (s : State) : Prop :=
  ∀ ds d x, InOrder (ds ++ [d]) → statusOf (replay cfg s (ds ++ [d])).issues x = some .done →
    statusOf (replay cfg s ds).issues x = some .done ∨
      terminal d = true ∧ ∃ l ∈ (replay cfg s (ds ++ [d])).links.rows,
        l.issueId = x ∧ l.pullRequest = d.address ∧ l.referenceOnly = false

/-- The issue's own pull request is open when another one is merged to close the issue. It is then
retitled, and closed under the new title. -/
def retitled : List Delivery :=
  [event 7 "opened" "open" false "MUL-1" "" 100, merge,
    event 7 "edited" "open" false "Login" "" 120, event 7 "closed" "closed" false "Login" "" 130]

end Orynx.GitHub.AutoClose
