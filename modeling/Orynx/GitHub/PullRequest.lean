import Orynx.Attribution.Classify
import Orynx.Lib.Table

/-! # The mirror of pull requests

`mirrorPullRequestForWorkspace` of `server/internal/handler/github.go` writes the row of a pull
request from each `pull_request` event that is delivered for it.

* `mirrored_mirror`: what one delivery leaves in the columns that show the pull request;
* `mirrored_process`: after any deliveries they are those of the last one;
* `mirror_newest_iff`: so they are those of the newest event exactly if the last delivery has the
  same;
* `late_open_reopens`: an event from before the merge, delivered after it, reopens the row.
-/

namespace Orynx.GitHub

open Lib

/-! ## Events -/

/-- A `pull_request` event. The times are as `parseGHTime` reads them; `changesBaseRefFrom` is
empty where `changes` names no base branch. -/
structure PullRequestPayload where
  action : String
  number : Int
  htmlUrl : String := ""
  title : String := ""
  body : String := ""
  state : String
  draft : Bool := false
  merged : Bool := false
  mergedAt : Option Int := none
  closedAt : Option Int := none
  createdAt : Int := 0
  updatedAt : Int
  mergeableState : String := ""
  additions : Int := 0
  deletions : Int := 0
  changedFiles : Int := 0
  headRef : String := ""
  headSha : String := ""
  userLogin : String := ""
  userAvatarUrl : String := ""
  changesBaseRefFrom : String := ""
  repoName : String
  repoOwner : String
  installationId : Int
deriving DecidableEq, Repr

inductive PRState where
  | open_
  | closed
  | merged
  | draft
deriving DecidableEq, Repr

def derivePRState (state : String) (draft merged : Bool) : PRState :=
  if merged then .merged
  else if state = "closed" then .closed
  else if draft then .draft
  else .open_

def PullRequestPayload.baseRefChanged (p : PullRequestPayload) : Bool :=
  p.changesBaseRefFrom != ""

/-- The verdict to write, and whether the stored one is cleared. -/
def derivePRMergeableState (action payload : String) (baseRefChanged : Bool) :
    Option String × Bool :=
  if action = "opened" ∨ action = "synchronize" ∨ action = "reopened" then (none, true)
  else if action = "edited" ∧ baseRefChanged then (none, true)
  else if payload = "" then (none, false)
  else (some payload, false)

def strPtrOrNil (s : String) : Option String := if s = "" then none else some s

/-! ## Rows -/

/-- What the unique key of a pull request is made of. -/
structure Address where
  workspaceId : UUID
  repoOwner : String
  repoName : String
  prNumber : Int
deriving DecidableEq, Repr

structure PullRequest where
  address : Address
  installationId : Int
  title : String
  state : PRState
  htmlUrl : String
  branch : Option String
  authorLogin : Option String
  authorAvatarUrl : Option String
  mergedAt : Option Int
  closedAt : Option Int
  prCreatedAt : Int
  prUpdatedAt : Int
  headSha : String
  mergeableState : Option String
  additions : Int
  deletions : Int
  changedFiles : Int
deriving DecidableEq, Repr

def pullRequestSchema : Schema PullRequest Address Unit where
  key := PullRequest.address
  index _ := none

abbrev PullRequestTable := Table pullRequestSchema

@[simp] theorem pullRequestSchema_key (r : PullRequest) : pullRequestSchema.key r = r.address := rfl

/-- The update of a row that is there already. -/
def PullRequest.excluded (new : PullRequest) (clearMergeableState : Bool) (old : PullRequest) :
    PullRequest :=
  { new with
    address := old.address
    prCreatedAt := old.prCreatedAt
    mergeableState :=
      if clearMergeableState then none
      else if new.mergeableState.isSome then new.mergeableState
      else old.mergeableState }

def upsertGitHubPullRequest (prs : PullRequestTable) (row : PullRequest)
    (clearMergeableState : Bool) : PullRequestTable :=
  prs.upsert row (row.excluded clearMergeableState)

/-! ## Deliveries -/

/-- An event as it is mirrored into one of the workspaces bound to the installation. -/
structure Delivery where
  workspaceId : UUID
  payload : PullRequestPayload
deriving DecidableEq, Repr

namespace Delivery

def address (d : Delivery) : Address where
  workspaceId := d.workspaceId
  repoOwner := d.payload.repoOwner
  repoName := d.payload.repoName
  prNumber := d.payload.number

def state (d : Delivery) : PRState :=
  derivePRState d.payload.state d.payload.draft d.payload.merged

def mergeable (d : Delivery) : Option String × Bool :=
  derivePRMergeableState d.payload.action d.payload.mergeableState d.payload.baseRefChanged

def row (d : Delivery) : PullRequest where
  address := d.address
  installationId := d.payload.installationId
  title := d.payload.title
  state := d.state
  htmlUrl := d.payload.htmlUrl
  branch := strPtrOrNil d.payload.headRef
  authorLogin := strPtrOrNil d.payload.userLogin
  authorAvatarUrl := strPtrOrNil d.payload.userAvatarUrl
  mergedAt := d.payload.mergedAt
  closedAt := d.payload.closedAt
  prCreatedAt := d.payload.createdAt
  prUpdatedAt := d.payload.updatedAt
  headSha := d.payload.headSha
  mergeableState := d.mergeable.1
  additions := d.payload.additions
  deletions := d.payload.deletions
  changedFiles := d.payload.changedFiles

end Delivery

/-- The upsert of `mirrorPullRequestForWorkspace`. -/
def mirrorPullRequest (prs : PullRequestTable) (d : Delivery) : PullRequestTable :=
  upsertGitHubPullRequest prs d.row d.mergeable.2

def process (prs : PullRequestTable) (ds : List Delivery) : PullRequestTable :=
  ds.foldl mirrorPullRequest prs

theorem get?_mirror (prs : PullRequestTable) (d : Delivery) (a : Address) :
    (mirrorPullRequest prs d).get? a =
      if a = d.address then some ((prs.get? a).elim d.row (d.row.excluded d.mergeable.2))
      else prs.get? a :=
  Table.get?_upsert (fun _ => rfl) prs d.row (d.row.excluded d.mergeable.2) (fun _ h => h) a

/-! ## The columns that show the pull request -/

structure Mirrored where
  title : String
  state : PRState
  branch : Option String
  mergedAt : Option Int
  closedAt : Option Int
  headSha : String
  additions : Int
  deletions : Int
  changedFiles : Int
deriving DecidableEq, Repr

def PullRequest.mirrored (r : PullRequest) : Mirrored where
  title := r.title
  state := r.state
  branch := r.branch
  mergedAt := r.mergedAt
  closedAt := r.closedAt
  headSha := r.headSha
  additions := r.additions
  deletions := r.deletions
  changedFiles := r.changedFiles

def Delivery.mirrored (d : Delivery) : Mirrored := d.row.mirrored

def mirroredAt (prs : PullRequestTable) (a : Address) : Option Mirrored :=
  (prs.get? a).map PullRequest.mirrored

def deliveriesTo (a : Address) (ds : List Delivery) : List Delivery :=
  ds.filter fun d => d.address == a

theorem mirrored_mirror (prs : PullRequestTable) (d : Delivery) (a : Address) :
    mirroredAt (mirrorPullRequest prs d) a =
      if a = d.address then some d.mirrored else mirroredAt prs a := by
  rw [mirroredAt, get?_mirror]
  split
  · -- inserted or updated, these columns come from the event
    cases prs.get? a <;> rfl
  · rfl

theorem mirrored_process (prs : PullRequestTable) (ds : List Delivery) (a : Address) :
    mirroredAt (process prs ds) a =
      ((deliveriesTo a ds).getLast?.map Delivery.mirrored).or (mirroredAt prs a) := by
  induction ds generalizing prs with
  | nil => rfl
  | cons d ds ih =>
    have hstep : process prs (d :: ds) = process (mirrorPullRequest prs d) ds := rfl
    rw [hstep, ih, mirrored_mirror, deliveriesTo, deliveriesTo, List.filter_cons]
    by_cases hd : a = d.address
    · rw [if_pos hd, if_pos (by simp [hd]), List.getLast?_cons]
      cases (ds.filter fun d => d.address == a).getLast? <;> rfl
    · rw [if_neg hd, if_neg (by simpa using Ne.symm hd)]

/-! ## Order of delivery -/

/-- The newest of the events delivered for a pull request; the others are older. -/
def Newest (a : Address) (ds : List Delivery) (newest : Delivery) : Prop :=
  newest ∈ deliveriesTo a ds ∧
    ∀ d ∈ deliveriesTo a ds, d ≠ newest → d.payload.updatedAt < newest.payload.updatedAt

instance (a : Address) (ds : List Delivery) (newest : Delivery) :
    Decidable (Newest a ds newest) :=
  inferInstanceAs (Decidable (_ ∧ _))

/-- The row shows the newest event exactly if the last delivery shows what that one does. -/
theorem mirror_newest_iff (prs : PullRequestTable) {a : Address} {ds : List Delivery}
    {newest : Delivery} (h : Newest a ds newest) :
    mirroredAt (process prs ds) a = some newest.mirrored ↔
      ∃ d, (deliveriesTo a ds).getLast? = some d ∧ d.mirrored = newest.mirrored := by
  have hne : deliveriesTo a ds ≠ [] := List.ne_nil_of_mem h.1
  have hlast := List.getLast?_eq_some_getLast hne
  rw [mirrored_process, hlast, Option.map_some, Option.some_or, Option.some.injEq]
  constructor
  · intro hmirrored
    exact ⟨_, rfl, hmirrored⟩
  · rintro ⟨d, hd, hmirrored⟩
    obtain rfl := Option.some.inj hd
    exact hmirrored

def openedEvent : Delivery where
  workspaceId := 1
  payload :=
    { action := "opened", number := 7, title := "Fix login", state := "open", updatedAt := 100,
      headRef := "fix/login", headSha := "a1", repoName := "web", repoOwner := "acme",
      installationId := 5 }

def mergedEvent : Delivery where
  workspaceId := 1
  payload :=
    { action := "closed", number := 7, title := "Fix login", state := "closed", merged := true,
      mergedAt := some 200, closedAt := some 200, updatedAt := 200, headRef := "fix/login",
      headSha := "b2", repoName := "web", repoOwner := "acme", installationId := 5 }

theorem mirror_newest_inOrder :
    mirroredAt (process .empty [openedEvent, mergedEvent]) openedEvent.address =
      some mergedEvent.mirrored :=
  (mirror_newest_iff .empty (by decide)).2 ⟨mergedEvent, by decide, rfl⟩

/-- The event from before the merge arrives after it: the row is open again, at the old head. -/
theorem late_open_reopens :
    Newest openedEvent.address [mergedEvent, openedEvent] mergedEvent ∧
      mirroredAt (process .empty [mergedEvent, openedEvent]) openedEvent.address =
        some openedEvent.mirrored ∧
      openedEvent.mirrored.state = .open_ ∧ openedEvent.mirrored.headSha = "a1" ∧
      openedEvent.mirrored ≠ mergedEvent.mirrored := by
  decide

end Orynx.GitHub
