import Mathlib.Logic.Basic

/-! # Attribution: who a run is on behalf of

The pure rules of `server/internal/attribution/attribution.go`. The callers in
`server/internal/service/task.go` read the facts from the database and pass them
in; the rules below turn facts into a `Result`, and `OwnerFallback` degrades an
unattributed one at the enqueue boundary.

A nullable `pgtype.UUID` is an `Option UUID`.
-/

namespace Orynx

/-- Row identifiers. -/
abbrev UUID := Nat

namespace Attribution

/-- The waterfall level that resolved the accountable human of a run. -/
inductive Source where
  | directHuman
  | delegation
  | commentSource
  | triggerOwner
  | ruleOwner
  | ownerFallback
  | backfill
  | unattributed
deriving DecidableEq, Repr

/-- `Source.Precise`: a compliance-grade attribution. -/
def Source.precise : Source → Bool
  | .directHuman | .delegation | .commentSource | .triggerOwner | .ruleOwner => true
  | .ownerFallback | .backfill | .unattributed => false

/-- The direct cause of a run, paired with the id of its evidence row. -/
inductive EvidenceKind where
  | comment
  | issueAssignment
  | autopilotRun
  | ruleVersion
  | rerun
  | chat
deriving DecidableEq, Repr

/-- The attribution stamped onto a queued run: `userID` authorizes
(`originator_user_id`), `accountableUserID` is the audit human. The retry and
rerun lineage of the source's `Result` is never set by the rules and is left out. -/
structure Result where
  userID : Option UUID := none
  accountableUserID : Option UUID := none
  source : Source
  delegatedFromTaskID : Option UUID := none
  ruleVersionID : Option UUID := none
  evidenceKind : Option EvidenceKind := none
  evidenceRefID : Option UUID := none
deriving DecidableEq, Repr

/-- A resolved originator is the accountable human. -/
def finalizeAttribution (r : Result) : Result :=
  match r.userID with
  | some u => { r with accountableUserID := some u }
  | none => r

/-- The `author_type` of a comment and the `creator_type` of an issue. -/
inductive ActorType where
  | member
  | agent
  | system
deriving DecidableEq, Repr

/-- What the caller fetched about a trigger comment. -/
structure CommentFacts where
  commentID : UUID
  authorType : ActorType
  authorID : Option UUID
  sourceTaskID : Option UUID := none
  parentOriginator : Option UUID := none
  parentAccountable : Option UUID := none
deriving DecidableEq, Repr

/-- Attribution of a comment-triggered run. -/
def classifyComment (f : CommentFacts) (agentAuthoredSource : Source) : Result :=
  match f.authorType with
  | .member =>
    finalizeAttribution
      { userID := f.authorID, source := .directHuman,
        evidenceKind := some .comment, evidenceRefID := some f.commentID }
  | .agent =>
    match f.sourceTaskID with
    | none =>
      -- no source task: the chain cannot be walked
      finalizeAttribution
        { source := .unattributed, evidenceKind := some .comment,
          evidenceRefID := some f.commentID }
    | some task =>
      match f.parentOriginator, f.parentAccountable with
      | some originator, _ =>
        finalizeAttribution
          { userID := some originator, source := agentAuthoredSource,
            delegatedFromTaskID := some task, evidenceKind := some .comment,
            evidenceRefID := some f.commentID }
      | none, some accountable =>
        -- the parent had no authorizing human but is accountable to someone
        finalizeAttribution
          { accountableUserID := some accountable, source := agentAuthoredSource,
            delegatedFromTaskID := some task, evidenceKind := some .comment,
            evidenceRefID := some f.commentID }
      | none, none =>
        finalizeAttribution
          { source := .unattributed, delegatedFromTaskID := some task,
            evidenceKind := some .comment, evidenceRefID := some f.commentID }
  | .system =>
    finalizeAttribution
      { source := .unattributed, evidenceKind := some .comment,
        evidenceRefID := some f.commentID }

/-- The `origin_type` of an issue. -/
inductive OriginType where
  | quickCreate
  | agentCreate
  | autopilot
deriving DecidableEq, Repr

/-- The facts for a run with no trigger comment. -/
structure DirectFacts where
  issueID : UUID
  creatorType : ActorType := .system
  creatorID : Option UUID := none
  actorUserID : Option UUID := none
  originType : Option OriginType := none
  originTaskID : Option UUID := none
  originOriginator : Option UUID := none
  originAccountable : Option UUID := none
deriving DecidableEq, Repr

/-- Attribution by the origin task of an agent-created issue. -/
def classifyOrigin (f : DirectFacts) : Result :=
  let r : Result :=
    { source := .unattributed, delegatedFromTaskID := f.originTaskID,
      evidenceKind := some .issueAssignment, evidenceRefID := some f.issueID }
  match f.originOriginator, f.originAccountable with
  | some originator, _ =>
    finalizeAttribution { r with userID := some originator, source := .delegation }
  | none, some accountable =>
    finalizeAttribution { r with accountableUserID := some accountable, source := .delegation }
  | none, none => finalizeAttribution r

/-- Attribution of a run with no trigger comment. -/
def classifyDirect (f : DirectFacts) : Result :=
  match f.actorUserID with
  | some actor =>
    finalizeAttribution
      { userID := some actor, source := .directHuman,
        evidenceKind := some .issueAssignment, evidenceRefID := some f.issueID }
  | none =>
    match f.creatorType, f.creatorID with
    | .member, some creator =>
      finalizeAttribution
        { userID := some creator, source := .directHuman,
          evidenceKind := some .issueAssignment, evidenceRefID := some f.issueID }
    | _, _ =>
      match f.originType with
      | some .quickCreate | some .agentCreate => classifyOrigin f
      | _ =>
        finalizeAttribution
          { source := .unattributed, evidenceKind := some .issueAssignment,
            evidenceRefID := some f.issueID }

/-- Attribution of a run a member triggered with neither issue nor comment: a chat
message or a quick-create request, which has no evidence row to point at. -/
def directHumanRun (userID : Option UUID) (evidenceKind : Option EvidenceKind)
    (evidenceRefID : Option UUID) : Result :=
  match userID with
  | none =>
    finalizeAttribution
      { source := .unattributed, evidenceKind := evidenceKind, evidenceRefID := evidenceRefID }
  | some user =>
    finalizeAttribution
      { userID := some user, source := .directHuman, evidenceKind := evidenceKind,
        evidenceRefID := evidenceRefID }

/-- Attribution of an autopilot run to the publisher of the active rule version. -/
def ruleOwner (publisherUserID ruleVersionID : Option UUID) (evidenceKind : EvidenceKind)
    (evidenceRefID : Option UUID) : Result :=
  match publisherUserID with
  | some publisher =>
    finalizeAttribution
      { accountableUserID := some publisher, source := .ruleOwner,
        ruleVersionID := ruleVersionID, evidenceKind := some evidenceKind,
        evidenceRefID := evidenceRefID }
  | none =>
    finalizeAttribution
      { source := .unattributed, ruleVersionID := ruleVersionID,
        evidenceKind := some evidenceKind, evidenceRefID := evidenceRefID }

/-- Attribution of an autopilot run to the member responsible for its trigger. -/
def triggerOwner (creatorUserID : Option UUID) (evidenceKind : EvidenceKind)
    (evidenceRefID : Option UUID) : Result :=
  match creatorUserID with
  | some creator =>
    finalizeAttribution
      { accountableUserID := some creator, source := .triggerOwner,
        evidenceKind := some evidenceKind, evidenceRefID := evidenceRefID }
  | none =>
    finalizeAttribution
      { source := .unattributed, evidenceKind := some evidenceKind,
        evidenceRefID := evidenceRefID }

/-- Degrade an unattributed result to the agent owner. -/
def ownerFallback (r : Result) (ownerUserID : Option UUID) : Result :=
  match r.source, ownerUserID with
  | .unattributed, some owner =>
    { r with source := .ownerFallback, accountableUserID := some owner }
  | _, _ => r

/-- The workspace policy and agent columns that `applyAttributionFallback` reads:
`failClosed` is `none` when the policy read fails. -/
structure FallbackPolicy where
  workspaceID : Option UUID
  failClosed : Option Bool
  ownerID : Option UUID
deriving DecidableEq, Repr

/-- `applyAttributionFallback`: a precise result passes, an unattributed one is
degraded to the agent owner or refused (`none` is `ErrAttributionFailClosed`). -/
def applyAttributionFallback (attr : Result) (agent : FallbackPolicy) : Option Result :=
  if attr.source ≠ .unattributed then some attr
  else if agent.workspaceID = none then none
  else
    match agent.failClosed with
    | none => none
    | some true => none
    | some false =>
      let fallback := ownerFallback attr agent.ownerID
      if fallback.source = .unattributed then none else some fallback

/-! ## What the rules guarantee -/

/-- The shape every rule produces: an originator is accountable, and an
unattributed result names nobody. -/
structure Result.WellFormed (r : Result) : Prop where
  originator_accountable : ∀ u, r.userID = some u → r.accountableUserID = some u
  unattributed_nobody : r.source = .unattributed → r.userID = none
  attributed_someone : r.source ≠ .unattributed → r.accountableUserID ≠ none

@[simp] theorem finalizeAttribution_source (r : Result) :
    (finalizeAttribution r).source = r.source := by
  unfold finalizeAttribution; split <;> rfl

@[simp] theorem finalizeAttribution_userID (r : Result) :
    (finalizeAttribution r).userID = r.userID := by
  unfold finalizeAttribution; split <;> simp_all

@[simp] theorem finalizeAttribution_delegatedFromTaskID (r : Result) :
    (finalizeAttribution r).delegatedFromTaskID = r.delegatedFromTaskID := by
  unfold finalizeAttribution; split <;> rfl

theorem finalizeAttribution_wellFormed {r : Result}
    (hnobody : r.source = .unattributed → r.userID = none)
    (hsomeone : r.source ≠ .unattributed → r.userID ≠ none ∨ r.accountableUserID ≠ none) :
    (finalizeAttribution r).WellFormed := by
  cases hu : r.userID with
  | none =>
    have hid : finalizeAttribution r = r := by simp [finalizeAttribution, hu]
    rw [hid]
    exact ⟨by simp [hu], fun _ => hu, fun h => (hsomeone h).resolve_left (by simp [hu])⟩
  | some u =>
    refine ⟨fun v hv => ?_, fun h => ?_, fun _ => ?_⟩
    · simpa [finalizeAttribution, hu] using hv
    · simpa [hu] using hnobody (by simpa using h)
    · simp [finalizeAttribution, hu]

end Attribution

end Orynx
