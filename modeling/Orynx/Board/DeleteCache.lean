import Orynx.Board.Buckets
import Orynx.Lib.QueryClient

/-! # The caches of a deleted issue

`packages/core/issues/delete-cache.ts`, the keys of `queries.ts` and `useDeleteIssue` of
`mutations.ts`: a deleted issue is taken out of every cached list, by the event of the server and,
before the request, by the client that deletes it.

A cache is scanned by the beginning of its keys, and what the scan finds need not be of the shape
that its helper reads: `none` is where the code raises.
-/

namespace Orynx.Board

open Lib

/-! ## Keys -/

/-- An object in a key is known by its serialised form. -/
inductive Segment where
  | text (s : String)
  | id (id : UUID)
  | params (json : String)
deriving DecidableEq, Repr

abbrev QueryKey := List Segment

namespace issueKeys

def all (ws : UUID) : QueryKey := [.text "issues", .id ws]

def list (ws : UUID) : QueryKey := all ws ++ [.text "list"]

def listSorted (ws : UUID) (sort : String) : QueryKey := list ws ++ [.params sort]

def myAll (ws : UUID) : QueryKey := all ws ++ [.text "my"]

def myList (ws : UUID) (scope filter : String) : QueryKey :=
  myAll ws ++ [.text scope, .params filter]

def myListSorted (ws : UUID) (scope filter sort : String) : QueryKey :=
  myList ws scope filter ++ [.params sort]

def myAssigneeGroupsAll (ws : UUID) : QueryKey := myAll ws ++ [.text "assignee-groups"]

def myAssigneeGroups (ws : UUID) (scope filter : String) : QueryKey :=
  myAssigneeGroupsAll ws ++ [.text scope, .params filter]

def detail (ws id : UUID) : QueryKey := all ws ++ [.text "detail", .id id]

def children (ws id : UUID) : QueryKey := all ws ++ [.text "children", .id id]

def timeline (id : UUID) : QueryKey := [.text "issues", .text "timeline", .id id]

def reactions (id : UUID) : QueryKey := [.text "issues", .text "reactions", .id id]

def subscribers (id : UUID) : QueryKey := [.text "issues", .text "subscribers", .id id]

def usage (id : UUID) : QueryKey := [.text "issues", .text "usage", .id id]

def attachments (id : UUID) : QueryKey := [.text "issues", .text "attachments", .id id]

def tasks (id : UUID) : QueryKey := [.text "issues", .text "tasks", .id id]

end issueKeys

/-- `labelKeys.byIssue`. -/
def labelsByIssue (ws id : UUID) : QueryKey :=
  [.text "labels", .id ws, .text "issue", .id id]

/-! ## Data -/

/-- Of the further fields of an issue the parent is read. -/
structure WithParent (β : Type) where
  parentIssueId : Option UUID
  rest : β
deriving DecidableEq, Repr

variable {β : Type}

/-- What is cached: a bucketed list, a board grouped by assignees, a plain list or an issue. -/
inductive Data (β : Type) where
  | buckets (resp : Buckets (WithParent β))
  | groups (groups : List (List (Issue (WithParent β))))
  | rows (issues : List (Issue (WithParent β)))
  | issue (issue : Issue (WithParent β))

/-- The buckets of a response; reading one of `undefined` raises. -/
def Data.byStatus : Data β → Option (Buckets (WithParent β))
  | .buckets resp => some resp
  | .groups _ | .rows _ | .issue _ => none

/-- A list, whose methods are called. -/
def Data.array : Data β → Option (List (Issue (WithParent β)))
  | .rows issues => some issues
  | .buckets _ | .groups _ | .issue _ => none

abbrev Client (β : Type) := QueryClient Segment (Data β)

variable (qc : Client β)

/-! ## Metadata -/

/-- `collectParentId`, into a set that keeps the order in which its elements have come. -/
def collectParentId (parentIssueIds : List UUID) (parentId : Option UUID) : List UUID :=
  match parentId with
  | none => parentIssueIds
  | some p => if p ∈ parentIssueIds then parentIssueIds else parentIssueIds ++ [p]

def collectParentFromListCache (id : UUID) (parentIssueIds : List UUID)
    (e : QueryKey × Data β) : Option (List UUID) :=
  e.2.byStatus.map fun resp =>
    collectParentId parentIssueIds
      ((findIssueLocation resp id).bind fun loc => loc.2.rest.parentIssueId)

def parentIdFromChildrenKey (key : QueryKey) : Option UUID :=
  match key.getLast? with
  | some (.id p) => some p
  | some (.text _) | some (.params _) | none => none

/-- The child of a list of children, with its own parent and the one of the key. -/
def collectParentsOfChild (id : UUID) (parentIssueIds : List UUID) (e : QueryKey × Data β) :
    Option (List UUID) :=
  e.2.array.map fun issues =>
    match issues.find? (·.id == id) with
    | none => parentIssueIds
    | some child =>
      collectParentId (collectParentId parentIssueIds child.rest.parentIssueId)
        (parentIdFromChildrenKey e.1)

def parentOfDetail (data : Option (Data β)) : Option UUID :=
  match data with
  | some (.issue issue) => issue.rest.parentIssueId
  | some (.buckets _) | some (.groups _) | some (.rows _) | none => none

def collectDeletedIssueCacheMetadata (ws id : UUID) (c : qc.Cache) : Option (List UUID) := do
  let ids := collectParentId [] (parentOfDetail (qc.getQueryData c (issueKeys.detail ws id)))
  let ids ← (qc.getQueriesData c (issueKeys.list ws)).foldlM (collectParentFromListCache id) ids
  let ids ← (qc.getQueriesData c (issueKeys.myAll ws)).foldlM (collectParentFromListCache id) ids
  (qc.getQueriesData c (issueKeys.all ws ++ [.text "children"])).foldlM
    (collectParentsOfChild id) ids

/-! ## Pruning -/

def removeFromBuckets (id : UUID) (old : Data β) : Option (Data β) :=
  old.byStatus.map fun resp => .buckets (removeIssueFromBuckets resp id)

def removeFromChildren (id : UUID) (old : Data β) : Option (Data β) :=
  old.array.map fun issues => .rows (without id issues)

def pruneDeletedIssueFromListCaches (ws id : UUID) (c : qc.Cache) : Option qc.Cache := do
  let c ← qc.updateQueries (removeFromBuckets id) c
    ((qc.getQueriesData c (issueKeys.list ws)).map Prod.fst)
  qc.updateQueries (removeFromBuckets id) c
    ((qc.getQueriesData c (issueKeys.myAll ws)).map Prod.fst)

def pruneDeletedIssueFromParentChildrenCaches (ws id : UUID) (parentIssueIds : List UUID)
    (c : qc.Cache) : Option qc.Cache :=
  qc.updateQueries (removeFromChildren id) c (parentIssueIds.map (issueKeys.children ws))

/-- The keys besides the detail that are removed, each with all that begin like it. -/
def removedKeys (ws id : UUID) : List QueryKey :=
  [issueKeys.timeline id, issueKeys.reactions id, issueKeys.subscribers id, issueKeys.usage id,
    issueKeys.attachments id, issueKeys.tasks id, issueKeys.children ws id, labelsByIssue ws id]

def cleanupDeletedIssueCaches (ws id : UUID) (metadata : List UUID) (c : qc.Cache) :
    Option qc.Cache := do
  let c ← pruneDeletedIssueFromListCaches qc ws id c
  let c ← pruneDeletedIssueFromParentChildrenCaches qc ws id metadata c
  let c := qc.removeQueries c (issueKeys.detail ws id)
  some ((removedKeys ws id).foldl qc.removeQueries c)

/-- The handler of the event, which collects the metadata itself. -/
def onIssueDeleted (ws id : UUID) (c : qc.Cache) : Option qc.Cache := do
  let metadata ← collectDeletedIssueCacheMetadata qc ws id c
  cleanupDeletedIssueCaches qc ws id metadata c

/-! ## The mutation -/

structure DeleteContext (β : Type) where
  id : UUID
  metadata : List UUID
  prevLists : List (QueryKey × Data β)
  prevMyLists : List (QueryKey × Data β)
  prevDetail : Option (Data β)
  prevChildren : List (UUID × Option (Data β))

def onMutate (ws id : UUID) (c : qc.Cache) : Option (DeleteContext β × qc.Cache) := do
  let metadata ← collectDeletedIssueCacheMetadata qc ws id c
  let ctx : DeleteContext β := {
    id, metadata
    prevLists := qc.getQueriesData c (issueKeys.list ws)
    prevMyLists := qc.getQueriesData c (issueKeys.myAll ws)
    prevDetail := qc.getQueryData c (issueKeys.detail ws id)
    prevChildren := metadata.map fun p => (p, qc.getQueryData c (issueKeys.children ws p)) }
  let c ← pruneDeletedIssueFromListCaches qc ws id c
  let c ← pruneDeletedIssueFromParentChildrenCaches qc ws id metadata c
  some (ctx, qc.removeQueries c (issueKeys.detail ws id))

/-- The entries that `onError` sets, in its order. -/
def DeleteContext.snapshot (ctx : DeleteContext β) (ws : UUID) :
    List (QueryKey × Option (Data β)) :=
  ctx.prevLists.map (fun e => (e.1, some e.2)) ++ ctx.prevMyLists.map (fun e => (e.1, some e.2)) ++
    [(issueKeys.detail ws ctx.id, ctx.prevDetail)] ++
    ctx.prevChildren.map fun e => (issueKeys.children ws e.1, e.2)

def onError (ws : UUID) (ctx : DeleteContext β) (c : qc.Cache) : qc.Cache :=
  qc.restore c (ctx.snapshot ws)

end Orynx.Board
