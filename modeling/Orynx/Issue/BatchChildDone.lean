import Orynx.Issue.ChildDoneComment

/-! # The parents of a batch

`notifyParentOfChildDone` for one completed child and `notifyParentsOfBatchChildDone` for those of
a batch, after its last write. Where every child is terminal the parent itself moves to
`in_review`, which may make it a changed child of another parent of the same batch.

* `Announced`: what a parent is to be told of a batch, said of the rows alone;
* `notifyGroup_spec`: one group of the loop tells its parent that, and changes no barrier;
* `batch_announces`: every parent is told exactly that, once, whatever the order of the batch.
-/

namespace Orynx.ChildDone

open Lib
open Autopilot (IssueStatus)

/-! ## The two paths -/

/-- The texts of the rows, and `autoCloseEpicsEnabled`. -/
structure Env where
  names : Names
  autoAdvance : Bool

/-- `autoCloseEpic`, where it applies. -/
def closeEpic (env : Env) (q : IssueTable) (parent : Issue) (children : List Issue) :
    IssueTable :=
  if env.autoAdvance && parent.status != .inReview && allChildrenTerminal children then
    q.exec (updateIssueStatusStmt parent.id parent.workspaceId .inReview)
  else q

/-- The table, and the comments that were posted. -/
def notifyParentOfChildDone (env : Env) (q : IssueTable) (prev issue : Issue) :
    IssueTable × List Comment :=
  match issue.parentIssueId with
  | none => (q, [])
  | some parentId =>
    if !completes prev.status issue.status then (q, [])
    else match q.get? parentId with
      | none => (q, [])
      | some parent =>
        if !parentListens parent then (q, [])
        else
          let children := listChildIssues q parent.id
          let q' := closeEpic env q parent children
          if !stageBarrierClosed children issue then (q', [])
          else
            let staged := siblingsAreStaged children
            let closedStage := if staged then issue.stage.getD 0 else 0
            (q', [postChildDoneComment env.names parent issue children staged closedStage false])

/-- The child with the highest stage that is closed, so far. -/
def better (children : List Issue) (best : Option (Issue × Int)) (c : Issue) :
    Option (Issue × Int) :=
  match c.stage with
  | none => best
  | some stage =>
    if !stageBarrierClosed children c then best
    else match best with
      | none => some (c, stage)
      | some (rep, bestStage) =>
        if bestStage < stage then some (c, stage) else some (rep, bestStage)

/-- One parent of a batch, with its completed children. -/
def notifyGroup (env : Env) (q : IssueTable) (g : UUID × List Issue) :
    IssueTable × List Comment :=
  match q.get? g.1 with
  | none => (q, [])
  | some parent =>
    if !parentListens parent then (q, [])
    else
      let children := listChildIssues q parent.id
      let q' := closeEpic env q parent children
      let batch := decide (1 < g.2.length)
      if !siblingsAreStaged children then
        match g.2 with
        | [] => (q', [])
        | first :: _ =>
          if !stageBarrierClosed children first then (q', [])
          else (q', [postChildDoneComment env.names parent first children false 0 batch])
      else match g.2.foldl (better children) none with
        | none => (q', [])
        | some (rep, bestStage) =>
          (q', [postChildDoneComment env.names parent rep children true bestStage batch])

/-- The loop over the parents. -/
def notifyGroups (env : Env) : IssueTable → List (UUID × List Issue) → IssueTable × List Comment
  | q, [] => (q, [])
  | q, g :: gs =>
    let first := notifyGroup env q g
    let rest := notifyGroups env first.1 gs
    (rest.1, first.2 ++ rest.2)

def notifyParentsOfBatchChildDone (env : Env) (q : IssueTable) (completed : List Issue) :
    IssueTable × List Comment :=
  notifyGroups env q (Groups.groups Issue.parentIssueId completed)

/-! ## What a parent is to be told -/

/-- The issue is there, and listens as a parent. -/
def Eligible (q : IssueTable) (p : UUID) : Prop :=
  ∃ parent, q.get? p = some parent ∧ parentListens parent = true

/-- Every sibling in a stage up to this one is terminal. -/
def Frontier (children : List Issue) (stage : Int) : Prop :=
  ∀ c ∈ children, ∀ t, c.stage = some t → t ≤ stage → c.status.terminal = true

/-- The stages of completed children of a parent that are closed. -/
def closedStages (q : IssueTable) (completed : List Issue) (p : UUID) : Set Int :=
  {t | ∃ c ∈ completed, c.parentIssueId = some p ∧ c.stage = some t ∧
    Frontier (listChildIssues q p) t}

/-- In a staged set the highest closed stage and the one after it, in an unstaged set the end of
the whole. -/
structure Announced (q : IssueTable) (completed : List Issue) (p : UUID) (a : Announcement) :
    Prop where
  eligible : Eligible q p
  staged : a.staged = siblingsAreStaged (listChildIssues q p)
  greatest : a.staged = true → IsGreatest (closedStages q completed p) a.closedStage
  next : a.staged = true → IsNextStage (listChildIssues q p) a.closedStage a.nextStage
  whole : a.staged = false → a.closedStage = 0 ∧ a.nextStage = 0 ∧
    (∃ c ∈ completed, c.parentIssueId = some p) ∧
    ∀ c ∈ listChildIssues q p, c.status.terminal = true

/-! ## A closed barrier -/

section Barrier

variable {children : List Issue}

theorem barrier_staged (hstaged : siblingsAreStaged children = true) {c : Issue} {t : Int}
    (ht : c.stage = some t) : stageBarrierClosed children c = true ↔ Frontier children t := by
  unfold stageBarrierClosed Frontier
  rw [if_pos hstaged]
  simp only [ht, List.all_eq_true]
  refine forall_congr' fun d => forall_congr' fun _ => ?_
  cases hd : d.stage with
  | none => simp
  | some u =>
    rw [Option.all_some, Bool.or_eq_true, Bool.not_eq_true', decide_eq_false_iff_not]
    constructor
    · rintro h t' ht' hle
      obtain rfl := Option.some.inj ht'
      exact h.resolve_left fun hnot => hnot hle
    · intro h
      by_cases hle : u ≤ t
      · exact .inr (h u rfl hle)
      · exact .inl hle

theorem barrier_unstaged (hstaged : siblingsAreStaged children = false) (c : Issue) :
    stageBarrierClosed children c = true ↔ ∀ d ∈ children, d.status.terminal = true := by
  unfold stageBarrierClosed
  rw [hstaged, if_neg Bool.false_ne_true, List.all_eq_true]

/-- The stages of a list that are closed. -/
def closedOf (children : List Issue) (l : List Issue) : Set Int :=
  {t | ∃ c ∈ l, c.stage = some t ∧ stageBarrierClosed children c = true}

theorem closedOf_append (children l : List Issue) (c : Issue) :
    closedOf children (l ++ [c]) = closedOf children l ∪ closedOf children [c] := by
  ext t
  simp only [closedOf, List.mem_append, Set.mem_ofPred_eq, Set.mem_union]
  constructor
  · rintro ⟨d, hd | hd, h⟩
    · exact .inl ⟨d, hd, h⟩
    · exact .inr ⟨d, hd, h⟩
  · rintro (⟨d, hd, h⟩ | ⟨d, hd, h⟩)
    · exact ⟨d, .inl hd, h⟩
    · exact ⟨d, .inr hd, h⟩

/-- What the scan for the representative has found in a list. -/
def Best (children l : List Issue) : Option (Issue × Int) → Prop
  | none => closedOf children l = ∅
  | some (_, t) => IsGreatest (closedOf children l) t

theorem best_step {l : List Issue} {best : Option (Issue × Int)} (hbest : Best children l best)
    (c : Issue) : Best children (l ++ [c]) (better children best c) := by
  have hskip : closedOf children [c] = ∅ → Best children (l ++ [c]) best := by
    intro hempty
    have hsame : closedOf children (l ++ [c]) = closedOf children l := by
      rw [closedOf_append, hempty, Set.union_empty]
    cases best with
    | none => exact hsame.trans hbest
    | some b =>
      show IsGreatest (closedOf children (l ++ [c])) b.2
      rw [hsame]
      exact hbest
  unfold better
  cases hstage : c.stage with
  | none =>
    refine hskip (Set.eq_empty_of_forall_notMem fun t ht => ?_)
    obtain ⟨d, hd, ht, -⟩ := ht
    rw [List.mem_singleton.1 hd, hstage] at ht
    cases ht
  | some stage =>
    dsimp only
    cases hclosed : stageBarrierClosed children c with
    | false =>
      refine hskip (Set.eq_empty_of_forall_notMem fun t ht => ?_)
      obtain ⟨d, hd, -, hd'⟩ := ht
      rw [List.mem_singleton.1 hd, hclosed] at hd'
      cases hd'
    | true =>
      have hone : closedOf children [c] = {stage} := by
        ext t
        constructor
        · rintro ⟨d, hd, ht, -⟩
          rw [List.mem_singleton.1 hd, hstage] at ht
          exact (Option.some.inj ht).symm
        · rintro rfl
          exact ⟨c, List.mem_singleton_self c, hstage, hclosed⟩
      have hunion := closedOf_append children l c
      rw [hone] at hunion
      cases best with
      | none =>
        show IsGreatest (closedOf children (l ++ [c])) stage
        have hempty : closedOf children l = ∅ := hbest
        rw [hunion, hempty, Set.empty_union]
        exact isGreatest_singleton
      | some b =>
        obtain ⟨rep, bestStage⟩ := b
        have hgreatest : IsGreatest (closedOf children l) bestStage := hbest
        have hmax := hgreatest.union (isGreatest_singleton (a := stage))
        rw [← hunion] at hmax
        by_cases hlt : bestStage < stage
        · simp only [Bool.not_true, Bool.false_eq_true, if_false, if_pos hlt]
          rw [max_eq_right hlt.le] at hmax
          exact hmax
        · simp only [Bool.not_true, Bool.false_eq_true, if_false, if_neg hlt]
          rw [max_eq_left (not_lt.1 hlt)] at hmax
          exact hmax

theorem best_all (children l : List Issue) : Best children l (l.foldl (better children) none) := by
  induction l using List.reverseRecOn with
  | nil =>
    refine Set.eq_empty_of_forall_notMem fun t ht => ?_
    obtain ⟨c, hc, -⟩ := ht
    cases hc
  | append_singleton l c ih =>
    rw [List.foldl_append]
    exact best_step ih c

end Barrier

/-! ## Moving a parent to review -/

/-- The rows are the same up to moves that no barrier and no guard sees. -/
def Alike (q q' : IssueTable) : Prop :=
  ∃ f : Issue → Issue, q'.rows = q.rows.map f ∧ ∀ r ∈ q.rows,
    (f r).id = r.id ∧ (f r).parentIssueId = r.parentIssueId ∧ (f r).stage = r.stage ∧
      (f r).status.terminal = r.status.terminal ∧ parentListens (f r) = parentListens r

theorem Alike.refl (q : IssueTable) : Alike q q :=
  ⟨id, (List.map_id _).symm, fun _ _ => ⟨rfl, rfl, rfl, rfl, rfl⟩⟩

section Alike

variable {q q' : IssueTable} (h : Alike q q')
include h

theorem Alike.eligible (p : UUID) : Eligible q p ↔ Eligible q' p := by
  obtain ⟨f, hrows, hf⟩ := h
  constructor
  · rintro ⟨r, hr, hlistens⟩
    obtain ⟨hmem, hid⟩ := Table.get?_eq_some.1 hr
    obtain ⟨hid', -, -, -, hlistens'⟩ := hf r hmem
    refine ⟨f r, Table.get?_eq_some.2 ⟨?_, hid'.trans hid⟩, hlistens'.trans hlistens⟩
    rw [hrows]
    exact List.mem_map_of_mem hmem
  · rintro ⟨r', hr', hlistens⟩
    obtain ⟨hmem, hid⟩ := Table.get?_eq_some.1 hr'
    rw [hrows] at hmem
    obtain ⟨r, hr, rfl⟩ := List.mem_map.1 hmem
    obtain ⟨hid', -, -, -, hlistens'⟩ := hf r hr
    exact ⟨r, Table.get?_eq_some.2 ⟨hr, hid'.symm.trans hid⟩, hlistens'.symm.trans hlistens⟩

theorem Alike.map_children (p : UUID) :
    ∃ f : Issue → Issue, listChildIssues q' p = (listChildIssues q p).map f ∧
      ∀ c ∈ listChildIssues q p, (f c).stage = c.stage ∧
        (f c).status.terminal = c.status.terminal := by
  obtain ⟨f, hrows, hf⟩ := h
  refine ⟨f, ?_, fun c hc => ?_⟩
  · unfold listChildIssues
    rw [hrows, List.filter_map]
    congr 1
    refine List.filter_congr fun r hr => ?_
    rw [Function.comp_apply, (hf r hr).2.1]
  · obtain ⟨-, -, hstage, hterminal, -⟩ := hf c (List.mem_filter.1 hc).1
    exact ⟨hstage, hterminal⟩

end Alike

/-- The parent that listens is moved, and is as open as before. -/
theorem closeEpic_alike (env : Env) {q : IssueTable} {p : UUID} {parent : Issue}
    (hparent : q.get? p = some parent) (hlistens : parentListens parent = true)
    (children : List Issue) : Alike q (closeEpic env q parent children) := by
  unfold closeEpic
  by_cases hclose : env.autoAdvance && parent.status != .inReview && allChildrenTerminal children
  · rw [if_pos hclose]
    refine ⟨_, exec_rows (status_key parent.id parent.workspaceId .inReview), ?_⟩
    intro r hr
    refine ⟨status_key _ _ _ r, status_parent _ _ _ r, ?_⟩
    by_cases hid : r.id = parent.id
    · obtain rfl := q.eq_of_key hr (Table.get?_eq_some.1 hparent).1 hid
      rw [status_self rfl rfl]
      have hguards := hlistens
      simp only [parentListens, Bool.and_eq_true, Bool.not_eq_true'] at hguards
      obtain ⟨⟨hopen, -⟩, hassignee⟩ := hguards
      refine ⟨rfl, hopen.symm, ?_⟩
      rw [hlistens]
      simp only [parentListens, hassignee]
      rfl
    · rw [status_other hid]
      exact ⟨rfl, rfl, rfl⟩
  · rw [if_neg hclose]
    exact Alike.refl q

/-! ## What the siblings in stages decide -/

/-- A sibling in this stage is terminal, or one is open. -/
def Holds (children : List Issue) (t : Int) (terminal : Bool) : Prop :=
  ∃ c ∈ children, c.stage = some t ∧ c.status.terminal = terminal

def SameStaged (l l' : List Issue) : Prop := ∀ t b, Holds l t b ↔ Holds l' t b

section SameStaged

variable {l l' : List Issue} (h : SameStaged l l')
include h

theorem SameStaged.symm : SameStaged l' l := fun t b => (h t b).symm

theorem SameStaged.staged_of (hl : siblingsAreStaged l = true) : siblingsAreStaged l' = true := by
  unfold siblingsAreStaged at hl ⊢
  obtain ⟨c, hc, hstage⟩ := List.any_eq_true.1 hl
  obtain ⟨t, ht⟩ := Option.isSome_iff_exists.1 hstage
  obtain ⟨c', hc', ht', -⟩ := (h t c.status.terminal).1 ⟨c, hc, ht, rfl⟩
  exact List.any_eq_true.2 ⟨c', hc', by rw [ht']; rfl⟩

theorem SameStaged.staged : siblingsAreStaged l = siblingsAreStaged l' :=
  Bool.eq_iff_iff.2 ⟨h.staged_of, h.symm.staged_of⟩

theorem SameStaged.frontier_of {S : Int} (hl : Frontier l S) : Frontier l' S := by
  intro c' hc' t ht hle
  obtain ⟨c, hc, hct, hterminal⟩ := (h t c'.status.terminal).2 ⟨c', hc', ht, rfl⟩
  rw [← hterminal]
  exact hl c hc t hct hle

theorem SameStaged.frontier (S : Int) : Frontier l S ↔ Frontier l' S :=
  ⟨h.frontier_of, h.symm.frontier_of⟩

theorem SameStaged.openStages (S : Int) : openStages l S = openStages l' S := by
  ext t
  have hopen := h t false
  constructor
  · rintro ⟨c, hc, ht, habove, hterminal⟩
    obtain ⟨c', hc', ht', hterminal'⟩ := hopen.1 ⟨c, hc, ht, hterminal⟩
    exact ⟨c', hc', ht', habove, hterminal'⟩
  · rintro ⟨c, hc, ht, habove, hterminal⟩
    obtain ⟨c', hc', ht', hterminal'⟩ := hopen.2 ⟨c, hc, ht, hterminal⟩
    exact ⟨c', hc', ht', habove, hterminal'⟩

theorem SameStaged.next (S n : Int) : IsNextStage l S n ↔ IsNextStage l' S n := by
  unfold IsNextStage
  rw [h.openStages]

end SameStaged

/-- Siblings of the same list up to those without a stage. -/
theorem sameStaged_of_filter {l l' : List Issue}
    (h : (l.filter fun c => c.stage.isSome) = l'.filter fun c => c.stage.isSome) :
    SameStaged l l' := by
  have hmem : ∀ c : Issue, ∀ t, c.stage = some t → (c ∈ l ↔ c ∈ l') := by
    intro c t ht
    have hsome : c.stage.isSome = true := by
      rw [ht]
      rfl
    have hiff : c ∈ (l.filter fun c => c.stage.isSome) ↔
        c ∈ l'.filter fun c => c.stage.isSome := by
      rw [h]
    rw [List.mem_filter, List.mem_filter, hsome] at hiff
    simpa using hiff
  intro t b
  constructor
  · rintro ⟨c, hc, ht, hb⟩
    exact ⟨c, (hmem c t ht).1 hc, ht, hb⟩
  · rintro ⟨c, hc, ht, hb⟩
    exact ⟨c, (hmem c t ht).2 hc, ht, hb⟩

theorem Alike.sameStaged {q q' : IssueTable} (h : Alike q q') (p : UUID) :
    SameStaged (listChildIssues q p) (listChildIssues q' p) := by
  obtain ⟨f, hmap, hf⟩ := h.map_children p
  intro t b
  unfold Holds
  rw [hmap]
  constructor
  · rintro ⟨c, hc, ht, hb⟩
    obtain ⟨hstage, hterminal⟩ := hf c hc
    exact ⟨f c, List.mem_map_of_mem hc, hstage.trans ht, hterminal.trans hb⟩
  · rintro ⟨c', hc', ht, hb⟩
    obtain ⟨c, hc, rfl⟩ := List.mem_map.1 hc'
    obtain ⟨hstage, hterminal⟩ := hf c hc
    exact ⟨c, hc, hstage.symm.trans ht, hterminal.symm.trans hb⟩

theorem Alike.allTerminal {q q' : IssueTable} (h : Alike q q') (p : UUID) :
    (∀ c ∈ listChildIssues q p, c.status.terminal = true) ↔
      ∀ c ∈ listChildIssues q' p, c.status.terminal = true := by
  obtain ⟨f, hmap, hf⟩ := h.map_children p
  rw [hmap]
  constructor
  · intro hall c' hc'
    obtain ⟨c, hc, rfl⟩ := List.mem_map.1 hc'
    exact (hf c hc).2.trans (hall c hc)
  · intro hall c hc
    exact (hf c hc).2.symm.trans (hall (f c) (List.mem_map_of_mem hc))

theorem closedStages_congr {q q' : IssueTable} {completed completed' : List Issue} {p : UUID}
    (h : SameStaged (listChildIssues q p) (listChildIssues q' p))
    (hcompleted : ∀ c t, c.parentIssueId = some p → c.stage = some t →
      (c ∈ completed ↔ c ∈ completed')) :
    closedStages q completed p = closedStages q' completed' p := by
  ext t
  constructor
  · rintro ⟨c, hc, hparent, ht, hfrontier⟩
    exact ⟨c, (hcompleted c t hparent ht).1 hc, hparent, ht, (h.frontier t).1 hfrontier⟩
  · rintro ⟨c, hc, hparent, ht, hfrontier⟩
    exact ⟨c, (hcompleted c t hparent ht).2 hc, hparent, ht, (h.frontier t).2 hfrontier⟩

/-- The rows keep the constraint of the column. -/
def StagePos (q : IssueTable) : Prop := ∀ c ∈ q.rows, ∀ t ∈ c.stage, 1 ≤ t

/-- Two tables are one to every guard and every barrier. -/
structure Agree (q q' : IssueTable) : Prop where
  eligible : ∀ p, Eligible q p ↔ Eligible q' p
  staged : ∀ p, SameStaged (listChildIssues q p) (listChildIssues q' p)
  whole : ∀ p, (∀ c ∈ listChildIssues q p, c.status.terminal = true) ↔
    ∀ c ∈ listChildIssues q' p, c.status.terminal = true
  stage_pos : StagePos q ↔ StagePos q'

theorem Agree.refl (q : IssueTable) : Agree q q :=
  ⟨fun _ => Iff.rfl, fun _ _ _ => Iff.rfl, fun _ => Iff.rfl, Iff.rfl⟩

theorem Agree.symm {q q' : IssueTable} (h : Agree q q') : Agree q' q :=
  ⟨fun p => (h.eligible p).symm, fun p => (h.staged p).symm, fun p => (h.whole p).symm,
    h.stage_pos.symm⟩

theorem Alike.agree {q q' : IssueTable} (h : Alike q q') : Agree q q' := by
  refine ⟨h.eligible, h.sameStaged, h.allTerminal, ?_⟩
  obtain ⟨f, hrows, hf⟩ := h
  unfold StagePos
  rw [hrows]
  constructor
  · intro hpos c' hc'
    obtain ⟨c, hc, rfl⟩ := List.mem_map.1 hc'
    rw [(hf c hc).2.2.1]
    exact hpos c hc
  · intro hpos c hc
    rw [← (hf c hc).2.2.1]
    exact hpos (f c) (List.mem_map_of_mem hc)

/-- Moving parents to review changes nothing of what a parent is to be told. -/
theorem Announced.agree {q q' : IssueTable} {completed : List Issue} {p : UUID}
    {a : Announcement} (h : Agree q q') (ha : Announced q completed p a) :
    Announced q' completed p a := by
  have hsame := h.staged p
  have hclosed : closedStages q completed p = closedStages q' completed p :=
    closedStages_congr hsame fun _ _ _ _ => Iff.rfl
  constructor
  · exact (h.eligible p).1 ha.eligible
  · exact ha.staged.trans hsame.staged
  · intro hstaged
    rw [← hclosed]
    exact ha.greatest hstaged
  · intro hstaged
    exact (hsame.next _ _).1 (ha.next hstaged)
  · intro hstaged
    obtain ⟨hclosedStage, hnext, hcompleted, hall⟩ := ha.whole hstaged
    exact ⟨hclosedStage, hnext, hcompleted, (h.whole p).1 hall⟩

theorem closeEpic_agree (env : Env) {q : IssueTable} {p : UUID} {parent : Issue}
    (hparent : q.get? p = some parent) (hlistens : parentListens parent = true)
    (children : List Issue) : Agree q (closeEpic env q parent children) :=
  (closeEpic_alike env hparent hlistens children).agree

/-! ## One parent -/

section Group

variable {q : IssueTable} {completed : List Issue} {p : UUID} {parent : Issue}

/-- What is told of a staged set whose highest closed stage was found. -/
theorem announced_staged (hpos : StagePos q) (hparent : q.get? p = some parent)
    (hlistens : parentListens parent = true)
    (hstaged : siblingsAreStaged (listChildIssues q p) = true) {S : Int}
    (hgreatest : IsGreatest (closedStages q completed p) S) (a : Announcement) :
    a = ⟨true, S, (stageProgressSummary (listChildIssues q p) S).2⟩ ↔
      Announced q completed p a := by
  have hchildren : ∀ c ∈ listChildIssues q p, ∀ t ∈ c.stage, 1 ≤ t := fun c hc =>
    hpos c (List.mem_filter.1 hc).1
  have hnext := nextStage_spec hchildren S
  constructor
  · rintro rfl
    constructor
    · exact ⟨parent, hparent, hlistens⟩
    · exact hstaged.symm
    · exact fun _ => hgreatest
    · exact fun _ => hnext
    · intro h
      cases h
  · intro ha
    obtain ⟨staged, closedStage, nextStage⟩ := a
    obtain rfl : staged = true := ha.staged.trans hstaged
    obtain rfl : closedStage = S := (ha.greatest rfl).unique hgreatest
    have hsame : nextStage = _ := (ha.next rfl).unique hnext
    rw [hsame]

/-- What is told of an unstaged set that is over. -/
theorem announced_unstaged (hparent : q.get? p = some parent)
    (hlistens : parentListens parent = true)
    (hstaged : siblingsAreStaged (listChildIssues q p) = false)
    (hall : ∀ c ∈ listChildIssues q p, c.status.terminal = true)
    (hcompleted : ∃ c ∈ completed, c.parentIssueId = some p) (a : Announcement) :
    a = ⟨false, 0, 0⟩ ↔ Announced q completed p a := by
  constructor
  · rintro rfl
    constructor
    · exact ⟨parent, hparent, hlistens⟩
    · exact hstaged.symm
    · intro h
      cases h
    · intro h
      cases h
    · exact fun _ => ⟨rfl, rfl, hcompleted, hall⟩
  · intro ha
    obtain ⟨staged, closedStage, nextStage⟩ := a
    obtain rfl : staged = false := ha.staged.trans hstaged
    have hwhole := ha.whole rfl
    have hclosed : closedStage = 0 := hwhole.1
    have hnext : nextStage = 0 := hwhole.2.1
    rw [hclosed, hnext]

/-- The closed stages of the members of a group are those of the whole batch. -/
theorem closedOf_members (completed : List Issue)
    (hstaged : siblingsAreStaged (listChildIssues q p) = true) :
    closedOf (listChildIssues q p) (Groups.members Issue.parentIssueId completed p) =
      closedStages q completed p := by
  ext t
  constructor
  · rintro ⟨c, hc, ht, hclosed⟩
    obtain ⟨hc, hparent⟩ := Groups.mem_members.1 hc
    exact ⟨c, hc, hparent, ht, (barrier_staged hstaged ht).1 hclosed⟩
  · rintro ⟨c, hc, hparent, ht, hfrontier⟩
    exact ⟨c, Groups.mem_members.2 ⟨hc, hparent⟩, ht, (barrier_staged hstaged ht).2 hfrontier⟩

/-- The comments of one parent: none where nothing is to be told, else one that tells it. -/
def Tells (q : IssueTable) (completed : List Issue) (p : UUID) (cs : List Comment) : Prop :=
  (cs = [] ∧ ∀ a, ¬ Announced q completed p a) ∨
    ∃ c, cs = [c] ∧ c.issueId = p ∧ ∀ a, a = c.announcement ↔ Announced q completed p a

theorem notifyGroup_spec (env : Env) (hpos : StagePos q) {g : UUID × List Issue}
    (hg : g ∈ Groups.groups Issue.parentIssueId completed) :
    Agree q (notifyGroup env q g).1 ∧ Tells q completed g.1 (notifyGroup env q g).2 := by
  obtain ⟨hmembers, hne⟩ := Groups.mem_groups.1 hg
  unfold notifyGroup
  cases hparent : q.get? g.1 with
  | none =>
    refine ⟨Agree.refl q, .inl ⟨rfl, fun a ha => ?_⟩⟩
    obtain ⟨parent, hparent', -⟩ := ha.eligible
    rw [hparent] at hparent'
    cases hparent'
  | some parent =>
    dsimp only
    cases hlistens : parentListens parent with
    | false =>
      refine ⟨Agree.refl q, .inl ⟨rfl, fun a ha => ?_⟩⟩
      obtain ⟨parent', hparent', hlistens'⟩ := ha.eligible
      rw [hparent] at hparent'
      obtain rfl := Option.some.inj hparent'
      rw [hlistens] at hlistens'
      cases hlistens'
    | true =>
      have hid : parent.id = g.1 := (Table.get?_eq_some.1 hparent).2
      have hagree := closeEpic_agree env hparent hlistens (listChildIssues q parent.id)
      rw [hid] at hagree ⊢
      simp only [Bool.not_true, Bool.false_eq_true, if_false]
      cases hstaged : siblingsAreStaged (listChildIssues q g.1) with
      | false =>
        obtain ⟨first, rest, hfirst⟩ := List.exists_cons_of_ne_nil hne
        simp only [Bool.not_false, if_true, hfirst]
        cases hclosed : stageBarrierClosed (listChildIssues q g.1) first with
        | false =>
          refine ⟨hagree, .inl ⟨rfl, fun a ha => ?_⟩⟩
          have hall := (ha.whole (ha.staged.trans hstaged)).2.2.2
          rw [(barrier_unstaged hstaged first).2 hall] at hclosed
          cases hclosed
        | true =>
          have hall := (barrier_unstaged hstaged first).1 hclosed
          have hcompleted : ∃ c ∈ completed, c.parentIssueId = some g.1 := by
            have hmem : first ∈ g.2 := hfirst ▸ List.mem_cons_self
            rw [hmembers] at hmem
            obtain ⟨hc, hp⟩ := Groups.mem_members.1 hmem
            exact ⟨first, hc, hp⟩
          exact ⟨hagree, .inr ⟨_, rfl, hid,
            announced_unstaged hparent hlistens hstaged hall hcompleted⟩⟩
      | true =>
        simp only [Bool.not_true, Bool.false_eq_true, if_false]
        have hbest := best_all (listChildIssues q g.1) g.2
        have hset := closedOf_members completed hstaged
        rw [← hmembers] at hset
        cases hrep : g.2.foldl (better (listChildIssues q g.1)) none with
        | none =>
          refine ⟨hagree, .inl ⟨rfl, fun a ha => ?_⟩⟩
          rw [hrep] at hbest
          have hempty : closedOf (listChildIssues q g.1) g.2 = ∅ := hbest
          have hmem := (ha.greatest (ha.staged.trans hstaged)).1
          rw [← hset, hempty] at hmem
          cases hmem
        | some b =>
          obtain ⟨rep, bestStage⟩ := b
          rw [hrep] at hbest
          have hgreatest : IsGreatest (closedOf (listChildIssues q g.1) g.2) bestStage := hbest
          rw [hset] at hgreatest
          exact ⟨hagree, .inr ⟨_, rfl, hid,
            announced_staged hpos hparent hlistens hstaged hgreatest⟩⟩

/-- The loop tells every parent of a group, from the rows as they were before it. -/
theorem notifyGroups_spec (env : Env) {gs : List (UUID × List Issue)}
    (hgs : ∀ g ∈ gs, g ∈ Groups.groups Issue.parentIssueId completed)
    (hkeys : (gs.map Prod.fst).Nodup) (hpos : StagePos q) :
    (∀ c ∈ (notifyGroups env q gs).2, c.issueId ∈ gs.map Prod.fst) ∧
    ((notifyGroups env q gs).2.map Comment.issueId).Nodup ∧
    ∀ g ∈ gs, ∀ a, (∃ c ∈ (notifyGroups env q gs).2, c.issueId = g.1 ∧ c.announcement = a) ↔
      Announced q completed g.1 a := by
  induction gs generalizing q with
  | nil =>
    refine ⟨?_, List.nodup_nil, ?_⟩
    · intro c hc
      cases hc
    · intro g hg
      cases hg
  | cons g gs ih =>
    obtain ⟨hfresh, hkeys⟩ := List.nodup_cons.1 hkeys
    obtain ⟨hagree, htells⟩ :=
      notifyGroup_spec env hpos (hgs g List.mem_cons_self)
    obtain ⟨hids, hnodup, hrest⟩ := ih (fun g' hg' => hgs g' (List.mem_cons_of_mem g hg')) hkeys
      (hagree.stage_pos.1 hpos)
    have hother : ∀ c ∈ (notifyGroups env (notifyGroup env q g).1 gs).2, c.issueId ≠ g.1 := by
      intro c hc heq
      exact hfresh (heq ▸ hids c hc)
    unfold notifyGroups
    dsimp only
    refine ⟨?_, ?_, ?_⟩
    · intro c hc
      rcases List.mem_append.1 hc with hc | hc
      · rcases htells with ⟨hnil, -⟩ | ⟨c', hone, hid, -⟩
        · rw [hnil] at hc
          cases hc
        · rw [hone, List.mem_singleton] at hc
          subst hc
          rw [hid]
          exact List.mem_cons_self
      · exact List.mem_cons_of_mem _ (hids c hc)
    · rw [List.map_append]
      refine List.Nodup.append ?_ hnodup ?_
      · rcases htells with ⟨hnil, -⟩ | ⟨c', hone, -, -⟩
        · rw [hnil]
          exact List.nodup_nil
        · rw [hone]
          exact List.nodup_singleton _
      · intro id hid hid'
        obtain ⟨c', hc', rfl⟩ := List.mem_map.1 hid'
        refine hother c' hc' ?_
        rcases htells with ⟨hnil, -⟩ | ⟨c, hone, hcid, -⟩
        · rw [hnil] at hid
          cases hid
        · rw [hone, List.map_singleton, List.mem_singleton] at hid
          exact hid.trans hcid
    · intro g' hg' a
      rcases List.mem_cons.1 hg' with rfl | hg'
      · -- the first group: the rest does not speak to its parent
        constructor
        · rintro ⟨c, hc, hid, rfl⟩
          rcases List.mem_append.1 hc with hc | hc
          · rcases htells with ⟨hnil, -⟩ | ⟨c', hone, -, htold⟩
            · rw [hnil] at hc
              cases hc
            · rw [hone, List.mem_singleton] at hc
              subst hc
              exact (htold _).1 rfl
          · exact absurd hid (hother c hc)
        · intro ha
          rcases htells with ⟨-, hnone⟩ | ⟨c', hone, hid, htold⟩
          · exact absurd ha (hnone a)
          · refine ⟨c', List.mem_append_left _ ?_, hid, ((htold a).2 ha).symm⟩
            rw [hone]
            exact List.mem_singleton_self c'
      · -- another group: it is told as if it came first
        have hne : g'.1 ≠ g.1 := fun h => hfresh (h ▸ List.mem_map_of_mem hg')
        constructor
        · rintro ⟨c, hc, hid, rfl⟩
          rcases List.mem_append.1 hc with hc | hc
          · rcases htells with ⟨hnil, -⟩ | ⟨c', hone, hcid, -⟩
            · rw [hnil] at hc
              cases hc
            · rw [hone, List.mem_singleton] at hc
              subst hc
              exact absurd (hid.symm.trans hcid) hne
          · exact ((hrest g' hg' _).1 ⟨c, hc, hid, rfl⟩).agree hagree.symm
        · intro ha
          obtain ⟨c, hc, hid, hann⟩ := (hrest g' hg' a).2 (ha.agree hagree)
          exact ⟨c, List.mem_append_right _ hc, hid, hann⟩

end Group

/-! ## A batch -/

/-- The issues, in stages that count from one. -/
structure Store where
  issues : IssueTable
  stage_pos : StagePos issues

/-- The parent has got a comment that announces this. -/
def Told (env : Env) (s : Store) (completed : List Issue) (p : UUID) (a : Announcement) : Prop :=
  ∃ c ∈ (notifyParentsOfBatchChildDone env s.issues completed).2,
    c.issueId = p ∧ c.announcement = a

theorem told_iff (env : Env) (s : Store) (completed : List Issue) (p : UUID)
    (a : Announcement) : Told env s completed p a ↔ Announced s.issues completed p a := by
  obtain ⟨hids, -, htold⟩ := notifyGroups_spec env (fun _ hg => hg)
    (Groups.keys_nodup Issue.parentIssueId completed) s.stage_pos
  unfold Told notifyParentsOfBatchChildDone
  constructor
  · rintro ⟨c, hc, rfl, hann⟩
    obtain ⟨g, hg, hgid⟩ := List.mem_map.1 (hids c hc)
    rw [← hgid]
    exact (htold g hg a).1 ⟨c, hc, hgid.symm, hann⟩
  · intro ha
    -- a parent that is told anything has a completed child, so a group
    have hchild : ∃ c ∈ completed, c.parentIssueId = some p := by
      cases hstaged : a.staged with
      | true =>
        obtain ⟨c, hc, hparent, -⟩ := (ha.greatest hstaged).1
        exact ⟨c, hc, hparent⟩
      | false => exact (ha.whole hstaged).2.2.1
    obtain ⟨c, hc, hparent⟩ := hchild
    exact (htold _ (Groups.exists_group hc hparent) a).2 ha

/-- A stage has closed, or the whole of an unstaged set. -/
def Due (q : IssueTable) (completed : List Issue) (p : UUID) : Prop :=
  Eligible q p ∧
    if siblingsAreStaged (listChildIssues q p) then (closedStages q completed p).Nonempty
    else (∃ c ∈ completed, c.parentIssueId = some p) ∧
      ∀ c ∈ listChildIssues q p, c.status.terminal = true

/-- There is something to be told of what is due. -/
theorem exists_announced_iff (s : Store) (completed : List Issue) (p : UUID) :
    (∃ a, Announced s.issues completed p a) ↔ Due s.issues completed p := by
  unfold Due
  constructor
  · rintro ⟨a, ha⟩
    refine ⟨ha.eligible, ?_⟩
    cases hstaged : siblingsAreStaged (listChildIssues s.issues p) with
    | true =>
      rw [if_pos rfl]
      exact ⟨_, (ha.greatest (ha.staged.trans hstaged)).1⟩
    | false =>
      rw [if_neg Bool.false_ne_true]
      exact (ha.whole (ha.staged.trans hstaged)).2.2
  · rintro ⟨⟨parent, hparent, hlistens⟩, hdue⟩
    cases hstaged : siblingsAreStaged (listChildIssues s.issues p) with
    | true =>
      rw [hstaged, if_pos rfl, ← closedOf_members completed hstaged] at hdue
      have hbest := best_all (listChildIssues s.issues p)
        (Groups.members Issue.parentIssueId completed p)
      cases hrep : (Groups.members Issue.parentIssueId completed p).foldl
          (better (listChildIssues s.issues p)) none with
      | none =>
        rw [hrep] at hbest
        exact absurd hbest hdue.ne_empty
      | some b =>
        obtain ⟨rep, S⟩ := b
        rw [hrep] at hbest
        have hgreatest : IsGreatest (closedOf (listChildIssues s.issues p) _) S := hbest
        rw [closedOf_members completed hstaged] at hgreatest
        exact ⟨_, (announced_staged s.stage_pos hparent hlistens hstaged hgreatest _).1 rfl⟩
    | false =>
      rw [hstaged, if_neg Bool.false_ne_true] at hdue
      exact ⟨_, (announced_unstaged hparent hlistens hstaged hdue.2 hdue.1 _).1 rfl⟩

/-- A parent is told of its completed children and of its siblings in stages alone. -/
theorem Announced.congr {q q' : IssueTable} {completed completed' : List Issue} {p : UUID}
    {a : Announcement} (heligible : Eligible q p → Eligible q' p)
    (hstaged : siblingsAreStaged (listChildIssues q p) = true)
    (hsame : SameStaged (listChildIssues q p) (listChildIssues q' p))
    (hcompleted : ∀ c t, c.parentIssueId = some p → c.stage = some t →
      (c ∈ completed ↔ c ∈ completed'))
    (ha : Announced q completed p a) : Announced q' completed' p a := by
  constructor
  · exact heligible ha.eligible
  · exact ha.staged.trans hsame.staged
  · intro h
    rw [← closedStages_congr hsame hcompleted]
    exact ha.greatest h
  · intro h
    exact (hsame.next _ _).1 (ha.next h)
  · intro h
    have htrue := ha.staged.trans hstaged
    rw [h] at htrue
    cases htrue

/-- The children of a parent that are in a stage. -/
def inStages (p : UUID) (l : List Issue) : List Issue :=
  l.filter fun c => c.parentIssueId == some p && c.stage.isSome

theorem mem_of_inStages {p : UUID} {l l' : List Issue} (h : inStages p l = inStages p l')
    {c : Issue} {t : Int} (hparent : c.parentIssueId = some p) (ht : c.stage = some t) :
    c ∈ l ↔ c ∈ l' := by
  have hiff : c ∈ inStages p l ↔ c ∈ inStages p l' := by
    rw [h]
  simpa [inStages, hparent, ht] using hiff

/-- Children without a stage do not speak in a staged set. -/
theorem told_of_inStages (env : Env) {s s' : Store} {completed completed' : List Issue}
    {p : UUID} (hparent : s.issues.get? p = s'.issues.get? p)
    (hstaged : siblingsAreStaged (listChildIssues s.issues p) = true)
    (hrows : inStages p s.issues.rows = inStages p s'.issues.rows)
    (hcompleted : inStages p completed = inStages p completed') (a : Announcement) :
    Told env s completed p a ↔ Told env s' completed' p a := by
  have hsame : SameStaged (listChildIssues s.issues p) (listChildIssues s'.issues p) := by
    refine sameStaged_of_filter ?_
    unfold listChildIssues
    rw [List.filter_filter, List.filter_filter]
    simpa [inStages, Bool.and_comm] using hrows
  have heligible : Eligible s.issues p ↔ Eligible s'.issues p := by
    unfold Eligible
    rw [hparent]
  rw [told_iff, told_iff]
  constructor
  · exact Announced.congr heligible.1 hstaged hsame
      fun c t hp ht => mem_of_inStages hcompleted hp ht
  · exact Announced.congr heligible.2 (hsame.staged ▸ hstaged) hsame.symm
      fun c t hp ht => mem_of_inStages hcompleted.symm hp ht

theorem told_perm (env : Env) (s : Store) {completed completed' : List Issue}
    (h : completed.Perm completed') (p : UUID) (a : Announcement) :
    Told env s completed p a ↔ Told env s completed' p a := by
  have hclosed : closedStages s.issues completed p = closedStages s.issues completed' p :=
    closedStages_congr (fun _ _ => Iff.rfl) fun c _ _ _ => h.mem_iff
  have hchild : (∃ c ∈ completed, c.parentIssueId = some p) ↔
      ∃ c ∈ completed', c.parentIssueId = some p := by
    simp only [h.mem_iff]
  rw [told_iff, told_iff]
  constructor
  · intro ha
    refine ⟨ha.eligible, ha.staged, ?_, ha.next, ?_⟩
    · rw [← hclosed]
      exact ha.greatest
    · rw [← hchild]
      exact ha.whole
  · intro ha
    refine ⟨ha.eligible, ha.staged, ?_, ha.next, ?_⟩
    · rw [hclosed]
      exact ha.greatest
    · rw [hchild]
      exact ha.whole

/-- A batch of one is an update of one. -/
theorem single_eq_batch (env : Env) (q : IssueTable) {prev issue : Issue}
    (hcompletes : completes prev.status issue.status = true) :
    notifyParentOfChildDone env q prev issue = notifyParentsOfBatchChildDone env q [issue] := by
  unfold notifyParentOfChildDone notifyParentsOfBatchChildDone
  cases hparentId : issue.parentIssueId with
  | none => simp [Groups.groups, Groups.add, hparentId, notifyGroups]
  | some parentId =>
    have hgroups : Groups.groups Issue.parentIssueId [issue] = [(parentId, [issue])] := by
      simp [Groups.groups, Groups.add, hparentId]
    rw [hgroups]
    unfold notifyGroups notifyGroups notifyGroup
    simp only [hcompletes, Bool.not_true, Bool.false_eq_true, if_false, List.append_nil]
    cases q.get? parentId with
    | none => rfl
    | some parent =>
      dsimp only
      cases parentListens parent with
      | false => rfl
      | true =>
        simp only [Bool.not_true, Bool.false_eq_true, if_false]
        cases hstaged : siblingsAreStaged (listChildIssues q parent.id) with
        | false =>
          simp only [Bool.not_false, Bool.false_eq_true, if_true, if_false]
          cases stageBarrierClosed (listChildIssues q parent.id) issue with
          | false => rfl
          | true => rfl
        | true =>
          simp only [Bool.not_true, Bool.false_eq_true, if_true, if_false, List.foldl_cons,
            List.foldl_nil]
          unfold better
          cases hstage : issue.stage with
          | none =>
            have hnot : stageBarrierClosed (listChildIssues q parent.id) issue = false := by
              unfold stageBarrierClosed
              rw [if_pos hstaged]
              simp only [hstage]
            rw [hnot]
            rfl
          | some stage =>
            cases stageBarrierClosed (listChildIssues q parent.id) issue with
            | false => rfl
            | true => rfl

/-- Every parent is told once what the final rows say, in whatever order the children were
completed; children without a stage do not speak in a staged set, and a batch of one is an update
of one. -/
theorem batch_announces (env : Env) (s : Store) (completed : List Issue) :
    ((notifyParentsOfBatchChildDone env s.issues completed).2.map Comment.issueId).Nodup ∧
    (∀ p, (∃ a, Told env s completed p a) ↔ Due s.issues completed p) ∧
    (∀ p a, Told env s completed p a ↔ Announced s.issues completed p a) ∧
    (∀ completed', completed.Perm completed' →
      ∀ p a, Told env s completed p a ↔ Told env s completed' p a) ∧
    (∀ (s' : Store) completed' p, s.issues.get? p = s'.issues.get? p →
      siblingsAreStaged (listChildIssues s.issues p) = true →
      inStages p s.issues.rows = inStages p s'.issues.rows →
      inStages p completed = inStages p completed' →
      ∀ a, Told env s completed p a ↔ Told env s' completed' p a) ∧
    ∀ prev issue, completed = [issue] → completes prev.status issue.status = true →
      notifyParentOfChildDone env s.issues prev issue =
        notifyParentsOfBatchChildDone env s.issues completed := by
  refine ⟨?_, ?_, told_iff env s completed, fun _ h => told_perm env s h, ?_, ?_⟩
  · exact (notifyGroups_spec env (fun _ hg => hg)
      (Groups.keys_nodup Issue.parentIssueId completed) s.stage_pos).2.1
  · intro p
    simp only [told_iff]
    exact exists_announced_iff s completed p
  · intro s' completed' p hparent hstaged hrows hcompleted
    exact told_of_inStages env hparent hstaged hrows hcompleted
  · rintro prev issue rfl hcompletes
    exact single_eq_batch env s.issues hcompletes

/-- A planned issue below which two stages and a loose end are over, and a fourth stage is not. -/
def fourStages : Store where
  issues := ⟨[{ id := 1 }, { id := 2, parentIssueId := some 1, stage := some 1, status := .done },
    { id := 3, parentIssueId := some 1, stage := some 2, status := .cancelled },
    { id := 4, parentIssueId := some 1, status := .done },
    { id := 5, parentIssueId := some 1, stage := some 4 }], by decide, by decide⟩
  stage_pos := by
    unfold StagePos
    decide

def bareNames : Names := ⟨fun _ => "", fun _ => "", fun _ => "", fun _ => ""⟩

theorem batch_announces_stages :
    Told ⟨bareNames, true⟩ fourStages
      [{ id := 2, parentIssueId := some 1, stage := some 1, status := .done },
        { id := 3, parentIssueId := some 1, stage := some 2, status := .cancelled }]
      1 ⟨true, 2, 4⟩ := by
  refine ((batch_announces ⟨bareNames, true⟩ fourStages
    [{ id := 2, parentIssueId := some 1, stage := some 1, status := .done },
      { id := 3, parentIssueId := some 1, stage := some 2, status := .cancelled }]).2.2.2.1
    [{ id := 3, parentIssueId := some 1, stage := some 2, status := .cancelled },
      { id := 2, parentIssueId := some 1, stage := some 1, status := .done }]
    (List.Perm.swap _ _ []) 1 ⟨true, 2, 4⟩).2 ?_
  unfold Told
  decide +kernel

end Orynx.ChildDone
