import Orynx.Task.Queries

/-! # Attribution at the enqueue boundary

Every enqueue path of `server/internal/service/task.go` and `autopilot.go` reads some
facts, applies one of the rules and then `applyAttributionFallback`. `Enqueue` lists the
paths; `Enqueue.resolve` is what the path stamps on the row, or nothing if the run is
refused.

* `Result.Traced`: what a resolved attribution says about the queue it was read from;
* `resolve_traced`: every path resolves to such a result.
-/

namespace Orynx.Attribution

open Orynx.Task

/-! ## The facts -/

/-- The columns of a comment that attribution reads. -/
structure Comment where
  id : UUID
  authorType : ActorType
  authorID : Option UUID
  sourceTaskID : Option UUID := none
deriving DecidableEq, Repr

/-- The columns of an issue that attribution reads. -/
structure Issue where
  id : UUID
  creatorType : ActorType
  creatorID : Option UUID
  originType : Option OriginType := none
  originID : Option UUID := none
deriving DecidableEq, Repr

/-- Who an autopilot trigger, or a version of an autopilot's rule, was published by. -/
structure Publication where
  id : UUID
  publishedByType : Option ActorType
  publishedByID : Option UUID
deriving DecidableEq, Repr

/-- What is on record about an autopilot run: the trigger that fired it and the active
version of its rule. -/
structure AutopilotFacts where
  trigger : Option Publication := none
  ruleVersion : Option Publication := none
deriving DecidableEq, Repr

/-- The member who published it. -/
def Publication.member (p : Publication) : Option UUID :=
  if p.publishedByType = some .member then p.publishedByID else none

/-- An agent has run this task, or never will: a comment or an issue can have come from
it. The daemon launches the agent only once the task is running. -/
def launched (t : AgentTask) : Bool := t.status == .running || t.status.terminal

/-! ## Resolution -/

/-- `attributionFromComment`: an agent's comment is traced to its source task. -/
def attributionFromComment (q : TaskTable) (comment : Comment) (agentAuthoredSource : Source) :
    Result :=
  let sourceTaskID := if comment.authorType = .agent then comment.sourceTaskID else none
  let parent := sourceTaskID.bind (getAgentTask q)
  classifyComment
    { commentID := comment.id, authorType := comment.authorType, authorID := comment.authorID,
      sourceTaskID := sourceTaskID,
      parentOriginator := parent.bind fun t => t.attribution.originatorUserID,
      parentAccountable := parent.bind fun t => t.attribution.accountableUserID }
    agentAuthoredSource

/-- `attributionFromTriggerComment`; `none` is a comment not found in the workspace. -/
def attributionFromTriggerComment (q : TaskTable) (comment : Option Comment)
    (agentAuthoredSource : Source) : Result :=
  match comment with
  | none => { source := .unattributed }
  | some c => attributionFromComment q c agentAuthoredSource

def ruleOwnerAttribution (ap : AutopilotFacts) (evidenceKind : EvidenceKind)
    (evidenceRefID : UUID) : Result :=
  match ap.ruleVersion with
  | none => ruleOwner none none evidenceKind (some evidenceRefID)
  | some ver => ruleOwner ver.member (some ver.id) evidenceKind (some evidenceRefID)

def triggerOwnerAttribution (ap : AutopilotFacts) (evidenceKind : EvidenceKind)
    (evidenceRefID : UUID) : Result :=
  match ap.trigger.bind Publication.member with
  | some publisher => triggerOwner (some publisher) evidenceKind (some evidenceRefID)
  | none => ruleOwnerAttribution ap evidenceKind evidenceRefID

/-- An issue that points at the task whose agent created it. -/
def Issue.originLinked (issue : Issue) : Bool :=
  !(issue.creatorType == .member && issue.creatorID.isSome) && issue.originID.isSome &&
    (issue.originType == some .quickCreate || issue.originType == some .agentCreate)

/-- The part of `attributionForIssueTask` that reads the issue's own provenance. -/
def attributionFromIssue (q : TaskTable) (ap : AutopilotFacts) (issue : Issue) : Result :=
  if issue.originType = some .autopilot ∧ issue.originID ≠ none then
    triggerOwnerAttribution ap .issueAssignment issue.id
  else if issue.originLinked then
    let origin := issue.originID.bind (getAgentTask q)
    classifyDirect
      { issueID := issue.id, creatorType := issue.creatorType, creatorID := issue.creatorID,
        originType := issue.originType, originTaskID := issue.originID,
        originOriginator := origin.bind fun t => t.attribution.originatorUserID,
        originAccountable := origin.bind fun t => t.attribution.accountableUserID }
  else
    classifyDirect
      { issueID := issue.id, creatorType := issue.creatorType, creatorID := issue.creatorID }

/-- `attributionForIssueTask`: the acting member, then the trigger comment unless the
system wrote it, then the issue. `trigger` is `some none` for a trigger comment that is
not found. -/
def attributionForIssueTask (q : TaskTable) (ap : AutopilotFacts) (issue : Issue)
    (trigger : Option (Option Comment)) (agentAuthoredSource : Source)
    (actorUserID : Option UUID) : Result :=
  match actorUserID with
  | some actor => classifyDirect { issueID := issue.id, actorUserID := some actor }
  | none =>
    match trigger with
    | some none => { source := .unattributed }
    | some (some c) =>
      if c.authorType ≠ .system then attributionFromComment q c agentAuthoredSource
      else attributionFromIssue q ap issue
    | none => attributionFromIssue q ap issue

/-- The enqueue paths, with the facts they have in hand. -/
inductive Enqueue where
  /-- `enqueueIssueTaskWithCommentPlan`, `enqueueMentionTaskWithCommentPlan`,
  `EnqueueDeferredAssigneeFallback` and reruns. -/
  | issueTask (ap : AutopilotFacts) (issue : Issue) (trigger : Option (Option Comment))
      (agentAuthoredSource : Source) (actorUserID : Option UUID)
  /-- `TriggerCommentAttribution`, for a merge. -/
  | triggerComment (comment : Option Comment) (agentAuthoredSource : Source)
  /-- `EnqueueQuickCreateTask`, the chat paths and a manual autopilot run. -/
  | directHuman (userID : Option UUID) (evidenceKind : Option EvidenceKind)
      (evidenceRefID : Option UUID)
  /-- A scheduled or webhook autopilot run without an issue. -/
  | autopilotRun (ap : AutopilotFacts) (runID : UUID)
deriving DecidableEq, Repr

def Enqueue.attribution (q : TaskTable) : Enqueue → Result
  | .issueTask ap issue trigger src actor => attributionForIssueTask q ap issue trigger src actor
  | .triggerComment c src => attributionFromTriggerComment q c src
  | .directHuman user kind ref => directHumanRun user kind ref
  | .autopilotRun ap run => triggerOwnerAttribution ap .autopilotRun run

/-- The attribution the path stamps; `none` if the run is refused. -/
def Enqueue.resolve (q : TaskTable) (agent : FallbackPolicy) (e : Enqueue) : Option Result :=
  applyAttributionFallback (e.attribution q) agent

/-- The columns an accepted attribution is written to. -/
def Result.columns (r : Result) : AttributionColumns :=
  { originatorUserID := r.userID, accountableUserID := r.accountableUserID,
    originatorSource := some r.source, delegatedFromTaskID := r.delegatedFromTaskID,
    ruleVersionID := r.ruleVersionID, triggerEvidenceKind := r.evidenceKind,
    triggerEvidenceRefID := r.evidenceRefID }

/-! ## Facts that rows can have -/

/-- A source or origin task is an earlier task of the queue that was launched. -/
def knownTask (q : TaskTable) (id : Option UUID) : Bool :=
  id.all fun i => (getAgentTask q i).any launched

/-- A member's comment names its author, an agent's an earlier task. -/
def Comment.admissible (q : TaskTable) (c : Comment) : Bool :=
  match c.authorType with
  | .member => c.authorID.isSome
  | .agent => knownTask q c.sourceTaskID
  | .system => true

def Issue.admissible (q : TaskTable) (issue : Issue) : Bool :=
  !issue.originLinked || knownTask q issue.originID

/-- The two labels of the call sites. -/
def delegationLabel (src : Source) : Bool := src == .commentSource || src == .delegation

def Enqueue.admissible (q : TaskTable) : Enqueue → Bool
  | .issueTask _ issue trigger src _ =>
    delegationLabel src && issue.admissible q && (trigger.bind id).all (Comment.admissible q)
  | .triggerComment c src => delegationLabel src && c.all (Comment.admissible q)
  | .directHuman _ _ _ | .autopilotRun _ _ => true

/-! ## What a path resolves to -/

/-- The two people of a row: someone is accountable, and it is the originator if there
is one. -/
structure Accountable (c : AttributionColumns) : Prop where
  someone : c.accountableUserID ≠ none
  originator : ∀ u, c.originatorUserID = some u → c.accountableUserID = some u

/-- `r` delegates from `parent`: it copies both people down and is labelled so. -/
structure Result.Inherits (r : Result) (parent : AttributionColumns) : Prop where
  userID : r.userID = parent.originatorUserID
  accountableUserID : r.accountableUserID = parent.accountableUserID
  label : delegationLabel r.source = true

/-- A result is well formed, and one that names a parent task inherits from it. -/
structure Result.Traced (q : TaskTable) (r : Result) : Prop where
  wellFormed : r.WellFormed
  delegated : ∀ p, r.delegatedFromTaskID = some p →
    ∃ parent, getAgentTask q p = some parent ∧ launched parent = true ∧
      r.Inherits parent.attribution

theorem Result.Traced.of_root {q : TaskTable} {r : Result} (h : r.WellFormed)
    (hroot : r.delegatedFromTaskID = none) : r.Traced q :=
  ⟨h, fun p hp => by simp [hroot] at hp⟩

theorem delegationLabel_ne {src : Source} (h : delegationLabel src = true) :
    src ≠ .unattributed := by
  rintro rfl
  simp [delegationLabel] at h

theorem Result.Inherits.wellFormed {r : Result} {c : AttributionColumns} (h : r.Inherits c)
    (hc : Accountable c) : r.WellFormed := by
  refine ⟨fun u hu => ?_, fun hsource => ?_, fun _ => ?_⟩
  · rw [h.accountableUserID]
    exact hc.originator u (h.userID ▸ hu)
  · exact absurd hsource (delegationLabel_ne h.label)
  · rw [h.accountableUserID]
    exact hc.someone

/-- An agent's comment inherits from its source task. -/
theorem classifyComment_inherits {f : CommentFacts} {src : Source} {p : UUID}
    {c : AttributionColumns} (hagent : f.authorType = .agent) (hsource : f.sourceTaskID = some p)
    (horiginator : f.parentOriginator = c.originatorUserID)
    (haccountable : f.parentAccountable = c.accountableUserID)
    (hc : Accountable c) (hsrc : delegationLabel src = true) :
    (classifyComment f src).Inherits c ∧ (classifyComment f src).delegatedFromTaskID = some p := by
  rcases Option.ne_none_iff_exists'.1 hc.someone with ⟨a, ha⟩
  cases ho : c.originatorUserID with
  | none =>
    constructor
    · constructor <;>
        simp [classifyComment, hagent, hsource, horiginator, haccountable, ho, ha, hsrc,
          finalizeAttribution]
    · simp [classifyComment, hagent, hsource, horiginator, haccountable, ho, ha]
  | some u =>
    have hau : a = u := by simpa [ha] using hc.originator u ho
    constructor
    · constructor <;>
        simp [classifyComment, hagent, hsource, horiginator, haccountable, ho, ha, hau, hsrc,
          finalizeAttribution]
    · simp [classifyComment, hagent, hsource, horiginator, haccountable, ho, ha]

/-- An agent-created issue inherits from its origin task. -/
theorem classifyOrigin_inherits {f : DirectFacts} {p : UUID} {c : AttributionColumns}
    (horigin : f.originTaskID = some p) (horiginator : f.originOriginator = c.originatorUserID)
    (haccountable : f.originAccountable = c.accountableUserID)
    (hc : Accountable c) :
    (classifyOrigin f).Inherits c ∧ (classifyOrigin f).delegatedFromTaskID = some p := by
  rcases Option.ne_none_iff_exists'.1 hc.someone with ⟨a, ha⟩
  cases ho : c.originatorUserID with
  | none =>
    constructor
    · constructor <;>
        simp [classifyOrigin, horiginator, haccountable, ho, ha, finalizeAttribution,
          delegationLabel]
    · simp [classifyOrigin, horigin, horiginator, haccountable, ho, ha]
  | some u =>
    have hau : a = u := by simpa [ha] using hc.originator u ho
    constructor
    · constructor <;>
        simp [classifyOrigin, horiginator, haccountable, ho, ha, hau, finalizeAttribution,
          delegationLabel]
    · simp [classifyOrigin, horigin, horiginator, haccountable, ho, ha]

theorem traced_unattributed {q : TaskTable} {kind : Option EvidenceKind} {ref : Option UUID} :
    (finalizeAttribution
      { source := .unattributed, evidenceKind := kind, evidenceRefID := ref }).Traced q :=
  .of_root (finalizeAttribution_wellFormed (fun _ => rfl) (fun h => absurd rfl h)) (by simp)

theorem traced_directHuman {q : TaskTable} {u : UUID} {kind : Option EvidenceKind}
    {ref : Option UUID} :
    (finalizeAttribution
      { userID := some u, source := .directHuman, evidenceKind := kind,
        evidenceRefID := ref }).Traced q :=
  .of_root (finalizeAttribution_wellFormed (by simp) (by simp)) (by simp)

theorem knownTask_some {q : TaskTable} {p : UUID} (h : knownTask q (some p) = true) :
    ∃ parent, getAgentTask q p = some parent ∧ launched parent = true := by
  simpa [knownTask, Option.any_eq_true] using h

theorem classifyDirect_of_origin {f : DirectFacts} (hactor : f.actorUserID = none)
    (hcreator : f.creatorType = .member → f.creatorID = none)
    (htype : f.originType = some .quickCreate ∨ f.originType = some .agentCreate) :
    classifyDirect f = classifyOrigin f := by
  unfold classifyDirect
  simp only [hactor]
  split
  · simp_all
  · rcases htype with h | h <;> simp [h]

theorem classifyDirect_traced_of_unlinked {q : TaskTable} {f : DirectFacts}
    (htype : f.originType = none) : (classifyDirect f).Traced q := by
  unfold classifyDirect
  split
  · exact traced_directHuman
  · split
    · exact traced_directHuman
    · simpa [htype] using traced_unattributed

section Paths

variable {q : TaskTable}
  (hq : ∀ t ∈ q.rows, Accountable t.attribution)
include hq

theorem attributionFromComment_traced {c : Comment} {src : Source}
    (hc : c.admissible q = true) (hsrc : delegationLabel src = true) :
    (attributionFromComment q c src).Traced q := by
  unfold Comment.admissible at hc
  cases hauthor : c.authorType with
  | member =>
    rcases Option.isSome_iff_exists.1 (by simpa [hauthor] using hc) with ⟨u, hu⟩
    simpa [attributionFromComment, classifyComment, hauthor, hu] using traced_directHuman
  | system =>
    simpa [attributionFromComment, classifyComment, hauthor] using traced_unattributed
  | agent =>
    cases hsource : c.sourceTaskID with
    | none =>
      simpa [attributionFromComment, classifyComment, hauthor, hsource] using traced_unattributed
    | some p =>
      obtain ⟨parent, hparent, hlaunched⟩ :=
        knownTask_some (q := q) (p := p) (by simpa [hauthor, hsource] using hc)
      have hcols := hq parent (getAgentTask_eq_some.1 hparent).1
      obtain ⟨hinherits, hfrom⟩ := classifyComment_inherits (p := p)
        (f := { commentID := c.id, authorType := c.authorType, authorID := c.authorID,
                sourceTaskID := some p, parentOriginator := parent.attribution.originatorUserID,
                parentAccountable := parent.attribution.accountableUserID })
        hauthor rfl rfl rfl hcols hsrc
      have heq : attributionFromComment q c src = classifyComment
          { commentID := c.id, authorType := c.authorType, authorID := c.authorID,
            sourceTaskID := some p, parentOriginator := parent.attribution.originatorUserID,
            parentAccountable := parent.attribution.accountableUserID } src := by
        simp [attributionFromComment, hauthor, hsource, hparent]
      rw [heq]
      refine ⟨hinherits.wellFormed hcols, fun p' hp' => ⟨parent, ?_, hlaunched, hinherits⟩⟩
      obtain rfl : p = p' := by simpa [hfrom] using hp'
      exact hparent

omit hq in
theorem triggerOwnerAttribution_traced {ap : AutopilotFacts} {kind : EvidenceKind} {ref : UUID} :
    (triggerOwnerAttribution ap kind ref).Traced q := by
  have hrule : ∀ publisher ver, (ruleOwner publisher ver kind (some ref)).Traced q := by
    intro publisher ver
    unfold ruleOwner
    split <;> exact .of_root (finalizeAttribution_wellFormed (by simp) (by simp)) (by simp)
  unfold triggerOwnerAttribution ruleOwnerAttribution
  split
  · unfold triggerOwner
    exact .of_root (finalizeAttribution_wellFormed (by simp) (by simp)) (by simp)
  · split <;> exact hrule _ _

theorem attributionFromIssue_traced {ap : AutopilotFacts} {issue : Issue}
    (hissue : issue.admissible q = true) : (attributionFromIssue q ap issue).Traced q := by
  unfold attributionFromIssue
  split
  · exact triggerOwnerAttribution_traced
  · split
    · rename_i hlinked
      have hl := hlinked
      simp only [Issue.originLinked, Bool.and_eq_true, Bool.not_eq_true'] at hl
      rcases hl with ⟨⟨hcreator, horigin⟩, htype⟩
      rcases Option.isSome_iff_exists.1 horigin with ⟨p, hp⟩
      obtain ⟨parent, hparent, hlaunched⟩ :=
        knownTask_some (q := q) (p := p) (by simpa [Issue.admissible, hlinked, hp] using hissue)
      have hcols := hq parent (getAgentTask_eq_some.1 hparent).1
      obtain ⟨hinherits, hfrom⟩ := classifyOrigin_inherits (p := p)
        (f := { issueID := issue.id, creatorType := issue.creatorType,
                creatorID := issue.creatorID, originType := issue.originType,
                originTaskID := some p, originOriginator := parent.attribution.originatorUserID,
                originAccountable := parent.attribution.accountableUserID })
        rfl rfl rfl hcols
      simp only [hp, Option.bind_some, hparent]
      rw [classifyDirect_of_origin rfl (by simpa using hcreator) (by simpa using htype)]
      refine ⟨hinherits.wellFormed hcols, fun p' hp' => ⟨parent, ?_, hlaunched, hinherits⟩⟩
      obtain rfl : p = p' := by simpa [hfrom] using hp'
      exact hparent
    · exact classifyDirect_traced_of_unlinked rfl

theorem attributionForIssueTask_traced {ap : AutopilotFacts} {issue : Issue}
    {trigger : Option (Option Comment)} {src : Source} {actor : Option UUID}
    (hissue : issue.admissible q = true)
    (htrigger : ∀ c, trigger = some (some c) → c.admissible q = true)
    (hsrc : delegationLabel src = true) :
    (attributionForIssueTask q ap issue trigger src actor).Traced q := by
  unfold attributionForIssueTask
  split
  · exact traced_directHuman
  · split
    · exact @traced_unattributed q none none
    · rename_i c
      split
      · exact attributionFromComment_traced hq (htrigger c rfl) hsrc
      · exact attributionFromIssue_traced hq hissue
    · exact attributionFromIssue_traced hq hissue

/-- Every path classifies to a traced result. -/
theorem attribution_traced {e : Enqueue} (he : e.admissible q = true) :
    (e.attribution q).Traced q := by
  cases e with
  | issueTask ap issue trigger src actor =>
    simp only [Enqueue.admissible, Bool.and_eq_true] at he
    rcases he with ⟨⟨hsrc, hissue⟩, htrigger⟩
    refine attributionForIssueTask_traced hq hissue ?_ hsrc
    rintro c rfl
    simpa using htrigger
  | triggerComment c src =>
    simp only [Enqueue.admissible, Bool.and_eq_true] at he
    rcases he with ⟨hsrc, hc⟩
    cases c with
    | none => exact @traced_unattributed q none none
    | some c => exact attributionFromComment_traced hq (by simpa using hc) hsrc
  | directHuman user kind ref =>
    cases user with
    | none => exact traced_unattributed
    | some u => exact traced_directHuman
  | autopilotRun ap run => exact triggerOwnerAttribution_traced

/-- An accepted run names its people and still inherits what it delegates: the
fallback only touches results that name no parent. -/
theorem resolve_traced {agent : FallbackPolicy} {e : Enqueue} {r : Result}
    (he : e.admissible q = true) (h : e.resolve q agent = some r) :
    r.Traced q ∧ r.source ≠ .unattributed := by
  have htraced := attribution_traced hq he
  unfold Enqueue.resolve applyAttributionFallback at h
  split at h
  · rename_i hsource
    rcases Option.some.inj h with rfl
    exact ⟨htraced, hsource⟩
  · rename_i hsource
    have hsource : (e.attribution q).source = .unattributed := not_not.1 hsource
    have hroot : (e.attribution q).delegatedFromTaskID = none := by
      by_contra hne
      rcases Option.ne_none_iff_exists'.1 hne with ⟨p, hp⟩
      rcases htraced.delegated p hp with ⟨_, _, _, hinherits⟩
      exact delegationLabel_ne hinherits.label hsource
    have hnobody := htraced.wellFormed.unattributed_nobody hsource
    split at h
    · simp at h
    · split at h
      · simp at h
      · simp at h
      · simp only [Option.ite_none_left_eq_some, Option.some.injEq] at h
        rcases h with ⟨hne, rfl⟩
        cases howner : agent.ownerID with
        | none => simp [ownerFallback, hsource, howner] at hne
        | some owner =>
          have heq : ownerFallback (e.attribution q) (some owner) =
              { e.attribution q with
                source := .ownerFallback, accountableUserID := some owner } := by
            simp [ownerFallback, hsource]
          rw [heq]
          exact ⟨.of_root ⟨by simp [hnobody], by simp, by simp⟩ hroot, by simp⟩

end Paths

end Orynx.Attribution
