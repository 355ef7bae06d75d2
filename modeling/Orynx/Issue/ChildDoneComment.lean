import Mathlib.Order.Bounds.Basic
import Orynx.Issue.ChildDone
import Orynx.Lib.Groups

/-! # The comment on a closed stage

`postChildDoneComment` of `server/internal/handler/issue_child_done.go`: what it says of the stage
that has closed and of the one that is next. The dispatch that follows it is not part of the
model.

* `nextStage_spec`: the next stage is the least above the closed one with an open child.
-/

namespace Orynx.ChildDone

open Lib

/-- `Stage %d: %d/%d done` -/
def stageLabel (stage : Int) (done total : Nat) : String :=
  "Stage " ++ toString stage ++ ": " ++ toString done ++ "/" ++ toString total ++ " done"

/-- One stage of the summary: its part, and the next stage if this is the first that is open. -/
def progress (closedStage : Int) (acc : List String × Int) (g : Int × List Issue) :
    List String × Int :=
  let done := g.2.countP fun c => c.status.terminal
  let label := stageLabel g.1 done g.2.length
  if acc.2 = 0 ∧ closedStage < g.1 ∧ done < g.2.length then
    (acc.1 ++ [label ++ " (next)"], g.1)
  else (acc.1 ++ [label], acc.2)

/-- The summary and the next stage, 0 if there is none. -/
def stageProgressSummary (children : List Issue) (closedStage : Int) : String × Int :=
  let r := (Groups.sorted Issue.stage children).foldl (progress closedStage) ([], 0)
  ("; ".intercalate r.1, r.2)

def stageAdvanceInstruction (nextStage : Int) (parentID : String) : String :=
  if 0 < nextStage then
    " Stage " ++ toString nextStage ++
      " is next. Review the full layout with `multica issue children " ++ parentID ++
      "`, and if Stage " ++ toString nextStage ++ "'s dependencies are satisfied promote its " ++
      "`backlog` sub-issues to `todo` to continue. Read each sub-issue's description first and " ++
      "only promote items whose stated dependencies are already met — do not rely on this " ++
      "parent's higher-level breakdown alone. If a description conflicts with that breakdown, " ++
      "leave it `backlog` and post a comment to confirm first."
  else
    " Completing this stage does not mean the whole issue is done. Decide whether the issue is " ++
      "actually complete — if so, wrap up the parent (synthesize the results and move it " ++
      "forward, or close it out) — or whether the next stage still needs to be created, in " ++
      "which case create that stage and its sub-issues now."

/-- The texts that the comment takes from other rows: `prefix-number`, the id, the title without
mentions, and the mention of the parent's assignee. -/
structure Names where
  identifier : Issue → String
  id : UUID → String
  title : Issue → String
  mentionPrefix : Issue → String

/-- What a comment announces; the stages are 0 where there are none. -/
structure Announcement where
  staged : Bool
  closedStage : Int
  nextStage : Int
deriving DecidableEq, Repr

/-- The system comment, with what its content was made of. -/
structure Comment where
  issueId : UUID
  workspaceId : UUID
  content : String
  announcement : Announcement
deriving DecidableEq, Repr

/-- The link to the representative child. -/
def childLink (names : Names) (completed : Issue) : String :=
  "[" ++ names.identifier completed ++ "](mention://issue/" ++ names.id completed.id ++ ") — \"" ++
    names.title completed ++ "\""

def content (names : Names) (parent completed : Issue) (children : List Issue) (staged : Bool)
    (closedStage : Int) (batch : Bool) : String :=
  if staged then
    let (summary, nextStage) := stageProgressSummary children closedStage
    let advance := stageAdvanceInstruction nextStage (names.id parent.id)
    let head := names.mentionPrefix parent ++ "Stage " ++ toString closedStage ++
      " of this issue is complete — its "
    let tail := " Stage progress — " ++ summary ++ "." ++ advance
    if batch then
      head ++ "sub-issues just finished together in a batch update, most recently " ++
        childLink names completed ++ "." ++ tail
    else head ++ "last sub-issue " ++ childLink names completed ++ " — just finished." ++ tail
  else
    let head := names.mentionPrefix parent ++ "All sub-issues are complete — "
    let tail := " Continue the parent: synthesize the children's results and move it " ++
      "forward, or close it out if nothing remains."
    if batch then
      head ++ "they just finished together in a batch update, most recently " ++
        childLink names completed ++ "." ++ tail
    else head ++ "the last one, " ++ childLink names completed ++ ", just finished." ++ tail

def postChildDoneComment (names : Names) (parent completed : Issue) (children : List Issue)
    (staged : Bool) (closedStage : Int) (batch : Bool) : Comment where
  issueId := parent.id
  workspaceId := parent.workspaceId
  content := content names parent completed children staged closedStage batch
  announcement :=
    ⟨staged, closedStage, if staged then (stageProgressSummary children closedStage).2 else 0⟩

/-! ## The next stage -/

/-- The stages above a closed one that hold an open child. -/
def openStages (children : List Issue) (closedStage : Int) : Set Int :=
  {t | ∃ c ∈ children, c.stage = some t ∧ closedStage < t ∧ c.status.terminal = false}

/-- The least of them, or 0 for none. -/
def IsNextStage (children : List Issue) (closedStage nextStage : Int) : Prop :=
  (nextStage = 0 ∧ openStages children closedStage = ∅) ∨
    IsLeast (openStages children closedStage) nextStage

section Next

variable {closedStage : Int}

/-- A group is above the closed stage and not finished. -/
def Open (closedStage : Int) (g : Int × List Issue) : Prop :=
  closedStage < g.1 ∧ g.2.countP (fun c => c.status.terminal) < g.2.length

/-- Once there is a next stage it stays. -/
theorem progress_kept {gs : List (Int × List Issue)} {acc : List String × Int}
    (hacc : acc.2 ≠ 0) : (gs.foldl (progress closedStage) acc).2 = acc.2 := by
  induction gs generalizing acc with
  | nil => rfl
  | cons g gs ih =>
    have hstep : (progress closedStage acc g).2 = acc.2 := by
      unfold progress
      rw [if_neg fun h => hacc h.1]
    rw [List.foldl_cons, ih (hstep ▸ hacc), hstep]

/-- Over the stages in their order, the first that is open is next. -/
theorem progress_least (closedStage : Int) {gs : List (Int × List Issue)}
    {acc : List String × Int} (hacc : acc.2 = 0) (hpos : ∀ g ∈ gs, 1 ≤ g.1)
    (horder : gs.Pairwise fun g g' => g.1 < g'.1) :
    ((gs.foldl (progress closedStage) acc).2 = 0 ∧ ∀ g ∈ gs, ¬ Open closedStage g) ∨
      ∃ g ∈ gs, Open closedStage g ∧ (gs.foldl (progress closedStage) acc).2 = g.1 ∧
        ∀ g' ∈ gs, Open closedStage g' → g.1 ≤ g'.1 := by
  induction gs generalizing acc with
  | nil =>
    refine .inl ⟨hacc, ?_⟩
    intro g hg
    cases hg
  | cons g gs ih =>
    obtain ⟨hbelow, horder⟩ := List.pairwise_cons.1 horder
    rw [List.foldl_cons]
    by_cases hopen : Open closedStage g
    · have hstep : (progress closedStage acc g).2 = g.1 := by
        unfold progress
        rw [if_pos ⟨hacc, hopen⟩]
      have hne : (progress closedStage acc g).2 ≠ 0 := by
        have hg := hpos g List.mem_cons_self
        omega
      refine .inr ⟨g, List.mem_cons_self, hopen, (progress_kept hne).trans hstep, ?_⟩
      intro g' hg' _
      rcases List.mem_cons.1 hg' with rfl | hg'
      · exact le_refl _
      · exact le_of_lt (hbelow g' hg')
    · have hstep : (progress closedStage acc g).2 = 0 := by
        unfold progress
        rw [if_neg fun h => hopen h.2]
        exact hacc
      rcases ih hstep (fun g' hg' => hpos g' (List.mem_cons_of_mem g hg')) horder with
        ⟨hnone, hclosed⟩ | ⟨g', hg', hopen', hnext, hleast⟩
      · refine .inl ⟨hnone, ?_⟩
        intro g' hg'
        rcases List.mem_cons.1 hg' with rfl | hg'
        · exact hopen
        · exact hclosed g' hg'
      · refine .inr ⟨g', List.mem_cons_of_mem g hg', hopen', hnext, ?_⟩
        intro g'' hg'' hopen''
        rcases List.mem_cons.1 hg'' with rfl | hg''
        · exact absurd hopen'' hopen
        · exact hleast g'' hg'' hopen''

/-- A group is open if its stage has an open child above the closed stage. -/
theorem open_group_iff {children : List Issue} {g : Int × List Issue}
    (hg : g ∈ Groups.groups Issue.stage children) :
    Open closedStage g ↔ g.1 ∈ openStages children closedStage := by
  have hmembers := (Groups.mem_groups.1 hg).1
  have hcount : g.2.countP (fun c => c.status.terminal) < g.2.length ↔
      ∃ c ∈ g.2, c.status.terminal = false := by
    rw [lt_iff_le_and_ne]
    constructor
    · rintro ⟨-, hne⟩
      by_contra hall
      refine hne (List.countP_eq_length.2 fun c hc => ?_)
      by_contra hopen
      exact hall ⟨c, hc, Bool.not_eq_true _ ▸ hopen⟩
    · rintro ⟨c, hc, hopen⟩
      refine ⟨List.countP_le_length, fun hall => ?_⟩
      rw [List.countP_eq_length.1 hall c hc] at hopen
      cases hopen
  unfold Open
  rw [hcount, hmembers]
  constructor
  · rintro ⟨habove, c, hc, hopen⟩
    obtain ⟨hc, hstage⟩ := Groups.mem_members.1 hc
    exact ⟨c, hc, hstage, habove, hopen⟩
  · rintro ⟨c, hc, hstage, habove, hopen⟩
    exact ⟨habove, c, Groups.mem_members.2 ⟨hc, hstage⟩, hopen⟩

theorem nextStage_spec {children : List Issue}
    (hpos : ∀ c ∈ children, ∀ t ∈ c.stage, 1 ≤ t) (closedStage : Int) :
    IsNextStage children closedStage (stageProgressSummary children closedStage).2 := by
  have hstages : ∀ g ∈ Groups.sorted Issue.stage children, 1 ≤ g.1 := by
    intro g hg
    obtain ⟨hmembers, hne⟩ := Groups.mem_groups.1 (Groups.mem_sorted.1 hg)
    obtain ⟨c, hc⟩ := List.exists_mem_of_ne_nil _ hne
    rw [hmembers] at hc
    obtain ⟨hc, hstage⟩ := Groups.mem_members.1 hc
    exact hpos c hc g.1 hstage
  -- a stage with an open child is one of the groups
  have hgroup : ∀ t ∈ openStages children closedStage,
      ∃ g ∈ Groups.sorted Issue.stage children, Open closedStage g ∧ g.1 = t := by
    rintro t ⟨c, hc, hstage, habove, hopen⟩
    have hg := Groups.exists_group hc hstage
    refine ⟨_, Groups.mem_sorted.2 hg, (open_group_iff hg).2 ?_, rfl⟩
    exact ⟨c, hc, hstage, habove, hopen⟩
  unfold stageProgressSummary
  have hfirst : (([], 0) : List String × Int).2 = 0 := rfl
  rcases progress_least closedStage hfirst hstages
    (Groups.sorted_pairwise Issue.stage children) with
    ⟨hnone, hclosed⟩ | ⟨g, hg, hopen, hnext, hleast⟩
  · refine .inl ⟨hnone, Set.eq_empty_of_forall_notMem fun t ht => ?_⟩
    obtain ⟨g, hg, hopen, -⟩ := hgroup t ht
    exact hclosed g hg hopen
  · refine .inr ?_
    dsimp only
    rw [hnext]
    refine ⟨(open_group_iff (Groups.mem_sorted.1 hg)).1 hopen, ?_⟩
    intro t ht
    obtain ⟨g', hg', hopen', rfl⟩ := hgroup t ht
    exact hleast g' hg' hopen'

end Next

/-- The next stage is determined by the children in stages. -/
theorem IsNextStage.unique {children : List Issue} {closedStage n n' : Int}
    (h : IsNextStage children closedStage n) (h' : IsNextStage children closedStage n') :
    n = n' := by
  rcases h with ⟨rfl, hempty⟩ | hleast
  · rcases h' with ⟨rfl, -⟩ | hleast'
    · rfl
    · have hmem := hleast'.1
      rw [hempty] at hmem
      cases hmem
  · rcases h' with ⟨rfl, hempty⟩ | hleast'
    · have hmem := hleast.1
      rw [hempty] at hmem
      cases hmem
    · exact hleast.unique hleast'

end Orynx.ChildDone
