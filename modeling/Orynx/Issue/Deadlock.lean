import Orynx.Issue.Spine

/-! # No deadlock on the spine

An issue waits for another when it, or an open issue above it, is blocked by the other. An edge is
refused only if it leads from an issue to itself, so a circle of waiting can be closed by an edge,
by a move, by an issue that is opened again, or by several of them together.

* `DeadlockFree`: no open issue waits for itself, and some open issue waits for none;
* `closesNoLoop`: what the operation connects does not lead back;
* `deadlock_free`: then there is no deadlock in any run, and the first step that does not meet
  the condition makes one;
* `two_edges_deadlock`: two issues may block each other.
-/

namespace Orynx.Spine

open Lib Lib.Closure Lib.Forest Lib.Waiting Relation
open Autopilot (IssueStatus)

/-! ## The property -/

structure State.DeadlockFree (s : State) : Prop where
  noCycle : ∀ x, ¬ TransGen s.graph.Waits x x
  progress : (∃ x, s.isOpen x = true) → ∃ x, s.isOpen x = true ∧ ¬ s.graph.Blocked x

/-- An issue and whether a `blocks` edge has led to it. -/
abbrev Stop := UUID × Bool

def State.openBlockers (s : State) (x : UUID) : List UUID :=
  (s.deps.filter fun d => d.issueId == x && d.depType == .blocks && s.isOpen d.dependsOnId).map
    IssueDependency.dependsOnId

/-- Where an issue under that parent leads to, other than to `x`. -/
def State.stopsFrom (s : State) (x a : UUID) (parent : Option UUID) (seen : Bool) : List Stop :=
  (parent.toList.filter fun p => p != x && s.isOpen p).map (fun p => (p, seen)) ++
    ((s.openBlockers a).filter fun y => y != x).map fun y => (y, true)

/-- One step among the open issues other than `x`. -/
def State.ways (s : State) (x : UUID) (a : Stop) : List Stop :=
  if a.1 != x && s.isOpen a.1 then s.stopsFrom x a.1 (s.parentOf a.1) a.2 else []

def State.stops (s : State) : List Stop :=
  s.issues.rows.flatMap fun r => [(r.id, false), (r.id, true)]

/-- One of the stops leads to an issue that `x` blocks, or over an edge to one below `x`. -/
def State.leadsBack (s : State) (x : UUID) (stops : List Stop) : Bool :=
  (closure (s.ways x) s.stops.length stops).any fun c =>
    s.hasEdge c.1 x || (s.parentOf c.1 == some x && c.2)

/-- What the operation connects does not lead back. -/
def closesNoLoop (s : State) : Act → Bool
  | .updateIssue id status parent =>
    (s.issues.get? id).all fun r =>
      (status.getD r.status).terminal ||
        !s.leadsBack id (s.stopsFrom id id (parent.getD r.parentIssueId) false)
  | .createIssueDependency d =>
    d.depType == .related || !s.isOpen d.issueId || !s.isOpen d.dependsOnId ||
      !s.leadsBack d.issueId [(d.dependsOnId, true)]
  | _ => true

/-! ## Walks that lead back -/

section Walks

variable {s s' : State} {x y : UUID}

theorem mem_openBlockers :
    y ∈ s.openBlockers x ↔ s.hasEdge x y = true ∧ s.isOpen y = true := by
  simp only [State.openBlockers, List.mem_map, List.mem_filter, Bool.and_eq_true, beq_iff_eq,
    hasEdge_eq_true]
  constructor
  · rintro ⟨d, ⟨hd, ⟨hx, htype⟩, hopen⟩, rfl⟩
    exact ⟨⟨d, hd, hx, rfl, htype⟩, hopen⟩
  · rintro ⟨⟨d, hd, hx, rfl, htype⟩, hopen⟩
    exact ⟨d, ⟨hd, ⟨hx, htype⟩, hopen⟩, rfl⟩

theorem mem_stopsFrom {a : UUID} {parent : Option UUID} {seen : Bool} {b : Stop} :
    b ∈ s.stopsFrom x a parent seen ↔ b.1 ≠ x ∧ s.isOpen b.1 = true ∧
      ((parent = some b.1 ∧ b.2 = seen) ∨ (s.hasEdge a b.1 = true ∧ b.2 = true)) := by
  rcases b with ⟨b, f⟩
  simp only [State.stopsFrom, List.mem_append, List.mem_map, List.mem_filter, Option.mem_toList,
    Bool.and_eq_true, bne_iff_ne, mem_openBlockers, Prod.mk.injEq]
  constructor
  · rintro (⟨p, ⟨hp, hx, hopen⟩, rfl, rfl⟩ | ⟨y, ⟨⟨hedge, hopen⟩, hx⟩, rfl, rfl⟩)
    · exact ⟨hx, hopen, .inl ⟨hp, rfl⟩⟩
    · exact ⟨hx, hopen, .inr ⟨hedge, rfl⟩⟩
  · rintro ⟨hx, hopen, ⟨hp, rfl⟩ | ⟨hedge, rfl⟩⟩
    · exact .inl ⟨b, ⟨hp, hx, hopen⟩, rfl, rfl⟩
    · exact .inr ⟨b, ⟨⟨hedge, hopen⟩, hx⟩, rfl, rfl⟩

theorem mem_ways {a b : Stop} : b ∈ s.ways x a ↔ (s.graph.without x).Way a b := by
  simp only [State.ways, Graph.Way, Graph.without, State.graph]
  by_cases ha : (a.1 != x && s.isOpen a.1) = true
  · rw [if_pos ha, mem_stopsFrom]
    simp only [Bool.and_eq_true, bne_iff_ne] at ha
    constructor
    · rintro ⟨hx, hopen, ⟨hp, hflag⟩ | ⟨hedge, hflag⟩⟩
      · exact .inl ⟨⟨ha.1, hx, ha.2, hopen, hp⟩, hflag⟩
      · exact .inr ⟨⟨ha.1, hx, ha.2, hopen, hedge⟩, hflag⟩
    · rintro (⟨⟨-, hx, -, hopen, hp⟩, hflag⟩ | ⟨⟨-, hx, -, hopen, hedge⟩, hflag⟩)
      · exact ⟨hx, hopen, .inl ⟨hp, hflag⟩⟩
      · exact ⟨hx, hopen, .inr ⟨hedge, hflag⟩⟩
  · rw [if_neg ha]
    simp only [Bool.and_eq_true, bne_iff_ne] at ha
    constructor
    · intro hb
      simp at hb
    · rintro (⟨⟨hx, -, hopen, -⟩, -⟩ | ⟨⟨hx, -, hopen, -⟩, -⟩)
      · exact absurd ⟨hx, hopen⟩ ha
      · exact absurd ⟨hx, hopen⟩ ha

theorem mem_stops_of_isOpen {b : Stop} (h : s.isOpen b.1 = true) : b ∈ s.stops := by
  rcases isOpen_eq_true.1 h with ⟨r, hget, -⟩
  rcases Table.get?_eq_some.1 hget with ⟨hr, hid⟩
  refine List.mem_flatMap.2 ⟨r, hr, ?_⟩
  rcases b with ⟨b, f⟩
  obtain rfl : r.id = b := hid
  cases f with
  | false => exact List.mem_cons_self
  | true => exact List.mem_cons_of_mem _ List.mem_cons_self

theorem leadsBack_iff {stops : List Stop} (hstops : ∀ o ∈ stops, s.isOpen o.1 = true) :
    s.leadsBack x stops = true ↔ ∃ o ∈ stops, ∃ c,
      ReflTransGen (s.graph.without x).Way o c ∧
        (s.hasEdge c.1 x = true ∨ (s.parentOf c.1 = some x ∧ c.2 = true)) := by
  have hclosure : ∀ c, c ∈ closure (s.ways x) s.stops.length stops ↔
      ∃ o ∈ stops, ReflTransGen (s.graph.without x).Way o c := by
    intro c
    have hways : (fun a b => b ∈ s.ways x a) = (s.graph.without x).Way := by
      funext a b
      exact propext mem_ways
    rw [← hways]
    refine mem_closure_iff (fun o ho => mem_stops_of_isOpen (hstops o ho)) fun a b hb => ?_
    rcases mem_ways.1 hb with ⟨⟨-, -, -, hopen, -⟩, -⟩ | ⟨⟨-, -, -, hopen, -⟩, -⟩
    · exact mem_stops_of_isOpen hopen
    · exact mem_stops_of_isOpen hopen
  simp only [State.leadsBack, List.any_eq_true, Bool.or_eq_true, Bool.and_eq_true, beq_iff_eq]
  constructor
  · rintro ⟨c, hc, hback⟩
    rcases (hclosure c).1 hc with ⟨o, ho, hoc⟩
    exact ⟨o, ho, c, hoc, hback⟩
  · rintro ⟨o, ho, c, hoc, hback⟩
    exact ⟨c, (hclosure c).2 ⟨o, ho, hoc⟩, hback⟩

/-- Walks stay among the other open issues. -/
theorem of_walk {o c : Stop} (ho : o.1 ≠ x ∧ s.isOpen o.1 = true)
    (h : ReflTransGen (s.graph.without x).Way o c) : c.1 ≠ x ∧ s.isOpen c.1 = true := by
  induction h with
  | refl => exact ho
  | tail _ hbc _ =>
    rcases hbc with ⟨⟨-, hx, -, hopen, -⟩, -⟩ | ⟨⟨-, hx, -, hopen, -⟩, -⟩
    · exact ⟨hx, hopen⟩
    · exact ⟨hx, hopen⟩

end Walks

/-! ## The operations -/

/-- No issue is its own parent or blocks itself. -/
structure State.Proper (s : State) : Prop where
  parent : ∀ x, s.parentOf x ≠ some x
  edge : ∀ x, s.hasEdge x x = false

section Steps

variable {s s' : State} {x : UUID} {r : Issue}

/-- A row that is closed takes edges away. -/
theorem live_put_closed (hlive : s.graph.Live) (h : s.Puts x r s')
    (hclosed : r.status.terminal = true) : s'.graph.Live := by
  have hne : ∀ {k : UUID}, s'.isOpen k = true → k ≠ x := by
    rintro k hk rfl
    rw [h.isOpen_self, hclosed] at hk
    simp at hk
  refine hlive.mono ?_ ?_
  · rintro a b ⟨ha, hb, hab⟩
    rw [h.parentOf_ne (hne ha)] at hab
    exact ⟨h.isOpen_ne (hne ha) ▸ ha, h.isOpen_ne (hne hb) ▸ hb, hab⟩
  · rintro a b ⟨ha, hb, hab⟩
    rw [h.hasEdge] at hab
    exact ⟨h.isOpen_ne (hne ha) ▸ ha, h.isOpen_ne (hne hb) ▸ hb, hab⟩

/-- A row that is open closes a loop exactly if its parent and its blockers lead back. -/
theorem live_put_open_iff (hlive : s.graph.Live) (hproper : s.Proper) (h : s.Puts x r s')
    (hopen : r.status.terminal = false) (hself : r.parentIssueId ≠ some x) :
    s'.graph.Live ↔ s.leadsBack x (s.stopsFrom x x r.parentIssueId false) = false := by
  have hx : s'.isOpen x = true := by rw [h.isOpen_self, hopen]; rfl
  have hup : ¬ s'.graph.up x x := by
    rintro ⟨-, -, hp⟩
    rw [h.parentOf_self] at hp
    exact hself hp
  have hblocks : ¬ s'.graph.blocks x x := by
    rintro ⟨-, -, hedge⟩
    rw [h.hasEdge, hproper.edge x] at hedge
    simp at hedge
  rw [Graph.live_of_agree_iff hlive h.graph_without hup hblocks, Graph.NoLoop, h.graph_without,
    ← Bool.not_eq_true, leadsBack_iff fun o ho => (mem_stopsFrom.1 ho).2.1]
  -- the first and the last step of a loop, in terms of the state before
  have hfirst : ∀ o, s'.graph.Way (x, false) o ↔
      o ∈ s.stopsFrom x x r.parentIssueId false := by
    intro o
    rw [mem_stopsFrom]
    constructor
    · rintro (⟨⟨-, ho, hp⟩, hflag⟩ | ⟨⟨-, ho, hedge⟩, hflag⟩)
      · rw [h.parentOf_self] at hp
        have hne : o.1 ≠ x := by
          rintro heq
          exact hself (by rw [hp, heq])
        exact ⟨hne, h.isOpen_ne hne ▸ ho, .inl ⟨hp, hflag⟩⟩
      · rw [h.hasEdge] at hedge
        have hne : o.1 ≠ x := by
          rintro heq
          rw [heq, hproper.edge x] at hedge
          simp at hedge
        exact ⟨hne, h.isOpen_ne hne ▸ ho, .inr ⟨hedge, hflag⟩⟩
    · rintro ⟨hne, ho, ⟨hp, hflag⟩ | ⟨hedge, hflag⟩⟩
      · exact .inl ⟨⟨hx, (h.isOpen_ne hne).symm ▸ ho, h.parentOf_self.trans hp⟩, hflag⟩
      · exact .inr ⟨⟨hx, (h.isOpen_ne hne).symm ▸ ho, (h.hasEdge _ _).trans hedge⟩, hflag⟩
  have hlast : ∀ c : Stop, c.1 ≠ x ∧ s.isOpen c.1 = true → (s'.graph.Way c (x, true) ↔
      s.hasEdge c.1 x = true ∨ (s.parentOf c.1 = some x ∧ c.2 = true)) := by
    rintro c ⟨hne, hc⟩
    have hc' : s'.isOpen c.1 = true := (h.isOpen_ne hne).trans hc
    constructor
    · rintro (⟨⟨-, -, hp⟩, hflag⟩ | ⟨⟨-, -, hedge⟩, -⟩)
      · exact .inr ⟨h.parentOf_ne hne ▸ hp, hflag.symm⟩
      · exact .inl (h.hasEdge c.1 x ▸ hedge)
    · rintro (hedge | ⟨hp, hflag⟩)
      · exact .inr ⟨⟨hc', hx, (h.hasEdge _ _).trans hedge⟩, rfl⟩
      · exact .inl ⟨⟨hc', hx, (h.parentOf_ne hne).trans hp⟩, hflag.symm⟩
  refine not_congr ⟨?_, ?_⟩
  · rintro ⟨o, c, ho, hoc, hc⟩
    have ho' := (hfirst o).1 ho
    have hc' := of_walk ⟨(mem_stopsFrom.1 ho').1, (mem_stopsFrom.1 ho').2.1⟩ hoc
    exact ⟨o, ho', c, hoc, (hlast c hc').1 hc⟩
  · rintro ⟨o, ho, c, hoc, hc⟩
    have hc' := of_walk ⟨(mem_stopsFrom.1 ho).1, (mem_stopsFrom.1 ho).2.1⟩ hoc
    exact ⟨o, c, (hfirst o).2 ho, hoc, (hlast c hc').2 hc⟩

theorem live_updateIssue_iff (hlive : s.graph.Live) (hproper : s.Proper) {id : UUID}
    {status : Option IssueStatus} {parent : Option (Option UUID)}
    (h : s.updateIssue id status parent = some s') :
    s'.graph.Live ↔ closesNoLoop s (.updateIssue id status parent) = true := by
  rcases puts_updateIssue h with ⟨r, hget, hallowed, hputs⟩
  simp only [closesNoLoop, hget, Option.all_some, Bool.or_eq_true, Bool.not_eq_true']
  cases hclosed : (status.getD r.status).terminal with
  | true => exact ⟨fun _ => .inl rfl, fun _ => live_put_closed hlive hputs hclosed⟩
  | false =>
    have hself : parent.getD r.parentIssueId ≠ some id := by
      cases parent with
      | none =>
        have hparent : s.parentOf id = r.parentIssueId := by simp [State.parentOf, hget]
        exact hparent ▸ hproper.parent id
      | some p =>
        rintro rfl
        have hsame := hallowed id rfl
        simp [State.parentAllowed] at hsame
    simpa using live_put_open_iff hlive hproper hputs hclosed hself

theorem live_addDependency_iff (hlive : s.graph.Live) (hproper : s.Proper) {d : IssueDependency}
    (h : s.addDependency d = some s') :
    s'.graph.Live ↔ closesNoLoop s (.createIssueDependency d) = true := by
  have hedge := hasEdge_addDependency h
  simp only [State.addDependency, Option.ite_none_right_eq_some, Bool.and_eq_true, bne_iff_ne,
    Option.some.injEq] at h
  rcases h with ⟨⟨-, hne⟩, hs⟩
  have hissues : s'.issues = s.issues := by rw [← hs]
  have hopen : ∀ k, s'.isOpen k = s.isOpen k := fun k => by rw [State.isOpen, hissues, State.isOpen]
  have hparent : ∀ k, s'.parentOf k = s.parentOf k := fun k => by
    rw [State.parentOf, hissues, State.parentOf]
  by_cases hadds : d.depType = .blocks ∧ s.isOpen d.issueId = true ∧ s.isOpen d.dependsOnId = true
  · rcases hadds with ⟨htype, hx, hy⟩
    have hblocks : ∀ a b, s'.graph.blocks a b ↔
        s.graph.blocks a b ∨ (a = d.issueId ∧ b = d.dependsOnId) := by
      intro a b
      simp only [State.graph, hopen, hedge]
      by_cases hkey : a = d.issueId ∧ b = d.dependsOnId
      · rcases hkey with ⟨rfl, rfl⟩
        simp [htype, hx, hy]
      · simp [hkey]
    have hup : ∀ a b, s'.graph.up a b ↔ s.graph.up a b := by
      intro a b
      simp only [State.graph, hopen, hparent]
    have hagree : s'.graph.without d.issueId = s.graph.without d.issueId := by
      refine graph_without_eq (fun k _ => by rw [hissues]) fun a b ha _ => ?_
      rw [hedge, if_neg fun hkey => ha hkey.1]
    have hin : ∀ c, s'.graph.Way c (d.issueId, true) ↔ s.graph.Way c (d.issueId, true) := by
      intro c
      simp only [Graph.Way, hup, hblocks, or_iff_left (fun h : _ ∧ d.issueId = d.dependsOnId =>
        hne h.2)]
    have hnoParent : ¬ s'.graph.up d.issueId d.issueId := by
      rw [hup]
      exact fun h => hproper.parent _ h.2.2
    have hnoEdge : ¬ s'.graph.blocks d.issueId d.issueId := by
      rw [hblocks]
      rintro (h | h)
      · have hself := h.2.2
        rw [hproper.edge] at hself
        simp at hself
      · exact hne h.2
    rw [Graph.live_add_iff hlive hagree hnoParent hnoEdge ((hblocks _ _).2 (.inr ⟨rfl, rfl⟩)) ?_ hin]
    · simp only [closesNoLoop, htype, hx, hy, Bool.not_true, Bool.or_false]
      rw [show (DepType.blocks == DepType.related) = false from rfl, Bool.false_or,
        Bool.not_eq_true', ← Bool.not_eq_true, leadsBack_iff (by simpa using hy)]
      refine not_congr ?_
      have hlast : ∀ c, ReflTransGen (s.graph.without d.issueId).Way (d.dependsOnId, true) c →
          (s.graph.Way c (d.issueId, true) ↔ s.hasEdge c.1 d.issueId = true ∨
            (s.parentOf c.1 = some d.issueId ∧ c.2 = true)) := by
        intro c hc
        have hco := (of_walk ⟨Ne.symm hne, hy⟩ hc).2
        constructor
        · rintro (⟨⟨-, -, hp⟩, hflag⟩ | ⟨⟨-, -, hce⟩, -⟩)
          · exact .inr ⟨hp, hflag.symm⟩
          · exact .inl hce
        · rintro (hce | ⟨hp, hflag⟩)
          · exact .inr ⟨⟨hco, hx, hce⟩, rfl⟩
          · exact .inl ⟨⟨hco, hx, hp⟩, hflag.symm⟩
      constructor
      · rintro ⟨c, hyc, hc⟩
        exact ⟨_, List.mem_cons_self, c, hyc, (hlast c hyc).1 hc⟩
      · rintro ⟨o, ho, c, hoc, hc⟩
        obtain rfl : o = (d.dependsOnId, true) := by simpa using ho
        exact ⟨c, hoc, (hlast c hoc).2 hc⟩
    · rintro o (⟨hstep, hflag⟩ | ⟨hstep, hflag⟩)
      · exact .inl (.inl ⟨(hup _ _).1 hstep, hflag⟩)
      · rcases (hblocks _ _).1 hstep with hstep | hkey
        · exact .inl (.inr ⟨hstep, hflag⟩)
        · exact .inr (Prod.ext hkey.2 hflag)
  · -- nothing that counts is added
    have hcond : closesNoLoop s (.createIssueDependency d) = true := by
      simp only [closesNoLoop, Bool.or_eq_true, Bool.not_eq_true', beq_iff_eq]
      cases htype : d.depType with
      | related => exact .inl (.inl (.inl rfl))
      | blocks =>
        cases hx : s.isOpen d.issueId with
        | false => exact .inl (.inl (.inr rfl))
        | true =>
          cases hy : s.isOpen d.dependsOnId with
          | false => exact .inl (.inr rfl)
          | true => exact absurd ⟨htype, hx, hy⟩ hadds
    refine ⟨fun _ => hcond, fun _ => hlive.mono ?_ ?_⟩
    · rintro a b ⟨ha, hb, hab⟩
      exact ⟨hopen a ▸ ha, hopen b ▸ hb, hparent a ▸ hab⟩
    · rintro a b ⟨ha, hb, hab⟩
      rw [hopen] at ha hb
      rw [hedge] at hab
      by_cases hkey : a = d.issueId ∧ b = d.dependsOnId
      · rw [if_pos hkey, beq_iff_eq] at hab
        exact absurd ⟨hab, hkey.1 ▸ ha, hkey.2 ▸ hb⟩ hadds
      · rw [if_neg hkey] at hab
        exact ⟨ha, hb, hab⟩

/-- The moves of the server either close the issue or leave it open where it is. -/
theorem live_moveStatus (hlive : s.graph.Live) {id : UUID} {found : Issue → Bool}
    {status : IssueStatus} (h : s.moveStatus id found status = some s')
    (hfound : ∀ r, found r = true → status.terminal = true ∨ r.status.terminal = status.terminal) :
    s'.graph.Live := by
  rcases puts_moveStatus h with ⟨r, hget, hr, hputs⟩
  rcases hfound r hr with hclosed | hsame
  · exact live_put_closed hlive hputs hclosed
  · rw [hputs.graph_eq hget hsame.symm fun _ => rfl]
    exact hlive

theorem graph_completeTask (issueId : Option UUID) (advance : Bool) :
    (s.completeTask issueId advance).graph = s.graph := by
  rcases completeTask_cases s issueId advance with h | ⟨s₁, hs₁, h⟩
  · rw [h]
  · rw [h, graph_recompute]
    rcases hs₁ with rfl | ⟨id, found, hfound, hmove⟩
    · rfl
    · rcases puts_moveStatus hmove with ⟨r, hget, hr, hputs⟩
      exact hputs.graph_eq hget (by rw [hfound r hr]; rfl) fun _ => rfl

/-- An operation keeps the graph live exactly if it closes no loop. -/
theorem live_step_iff (hlive : s.graph.Live) (hproper : s.Proper) {a : Act}
    (h : next s a = some s') : s'.graph.Live ↔ closesNoLoop s a = true := by
  cases a with
  | createIssue id status parent =>
    refine iff_of_true ?_ rfl
    rcases puts_createIssue h with ⟨hfresh, hexists, hputs⟩
    cases hclosed : status.terminal with
    | true => exact live_put_closed hlive hputs hclosed
    | false =>
      have hself : parent ≠ some id := by
        rintro rfl
        simpa [fresh_get? hfresh] using hexists id rfl
      refine (live_put_open_iff hlive hproper hputs hclosed hself).2 ?_
      rw [← Bool.not_eq_true, leadsBack_iff fun o ho => (mem_stopsFrom.1 ho).2.1]
      -- nothing leads to a new issue
      rintro ⟨o, -, c, -, hedge | ⟨hparent, -⟩⟩
      · simp [(fresh_edges hfresh c.1).2.1] at hedge
      · exact (fresh_edges hfresh c.1).1 hparent
  | deleteIssue id =>
    refine iff_of_true ?_ rfl
    rw [graph_deleteIssue h]
    exact hlive.mono (fun a b hab => hab.2.2) fun a b hab => hab.2.2
  | updateIssue id status parent => exact live_updateIssue_iff hlive hproper h
  | advanceIssueToDone id =>
    exact iff_of_true (live_moveStatus hlive h fun _ _ => .inl rfl) rfl
  | autoCloseEpic id =>
    refine iff_of_true (live_moveStatus hlive h fun r hr => .inr ?_) rfl
    simp only [Bool.and_eq_true, Bool.not_eq_true'] at hr
    exact hr.1.1.1
  | resetStuckIssue id =>
    refine iff_of_true (live_moveStatus hlive h fun r hr => .inr ?_) rfl
    rw [beq_iff_eq.1 hr]
    rfl
  | approve id =>
    refine iff_of_true (live_moveStatus hlive h fun r hr => .inr ?_) rfl
    rw [beq_iff_eq.1 hr]
    rfl
  | completeTask issueId advance =>
    refine iff_of_true ?_ rfl
    rw [← Option.some.inj h, graph_completeTask]
    exact hlive
  | createIssueDependency d =>
    simp only [next, Option.map_eq_some_iff] at h
    rcases h with ⟨s₁, hadd, rfl⟩
    rw [graph_recompute]
    exact live_addDependency_iff hlive hproper hadd
  | deleteIssueDependency x y =>
    refine iff_of_true ?_ rfl
    simp only [next, Option.map_eq_some_iff] at h
    rcases h with ⟨s₁, hremove, rfl⟩
    rw [graph_recompute]
    have hedge := hasEdge_removeDependency hremove
    simp only [State.removeDependency, Option.ite_none_right_eq_some, Option.some.injEq] at hremove
    rcases hremove with ⟨-, rfl⟩
    exact hlive.mono (fun a b hab => hab) fun a b hab => ⟨hab.1, hab.2.1, hedge a b hab.2.2⟩

theorem State.Proper.puts (hproper : s.Proper) (h : s.Puts x r s') (hself : r.parentIssueId ≠ some x) :
    s'.Proper := by
  refine ⟨fun k => ?_, fun k => ?_⟩
  · by_cases hk : k = x
    · rw [hk, h.parentOf_self]
      exact hself
    · rw [h.parentOf_ne hk]
      exact hproper.parent k
  · rw [h.hasEdge]
    exact hproper.edge k

theorem State.Proper.moveStatus (hproper : s.Proper) {id : UUID} {found : Issue → Bool}
    {status : IssueStatus} (h : s.moveStatus id found status = some s') : s'.Proper := by
  rcases puts_moveStatus h with ⟨r, hget, -, hputs⟩
  have hparent : s.parentOf id = r.parentIssueId := by simp [State.parentOf, hget]
  exact hproper.puts hputs (hparent ▸ hproper.parent id)

theorem State.Proper.recompute (hproper : s.Proper) : s.recomputeWorkspaceBlocked.Proper :=
  ⟨fun k => by rw [parentOf_recompute]; exact hproper.parent k, hproper.edge⟩

theorem proper_step (hproper : s.Proper) {a : Act} (h : next s a = some s') : s'.Proper := by
  cases a with
  | createIssue id status parent =>
    rcases puts_createIssue h with ⟨hfresh, hexists, hputs⟩
    refine hproper.puts hputs ?_
    rintro rfl
    simpa [fresh_get? hfresh] using hexists id rfl
  | deleteIssue id =>
    refine ⟨fun k hk => hproper.parent k ((parentOf_deleteIssue h k k).1 hk).2.2, fun k => ?_⟩
    rw [State.hasEdge, deps_deleteIssue h]
    exact hproper.edge k
  | updateIssue id status parent =>
    rcases puts_updateIssue h with ⟨r, hget, hallowed, hputs⟩
    refine hproper.puts hputs ?_
    cases parent with
    | none =>
      have hparent : s.parentOf id = r.parentIssueId := by simp [State.parentOf, hget]
      exact hparent ▸ hproper.parent id
    | some p =>
      rintro rfl
      have hsame := hallowed id rfl
      simp [State.parentAllowed] at hsame
  | advanceIssueToDone id | autoCloseEpic id | resetStuckIssue id | approve id =>
    exact hproper.moveStatus h
  | completeTask issueId advance =>
    rw [← Option.some.inj h]
    rcases completeTask_cases s issueId advance with hsame | ⟨s₁, hs₁, hsame⟩
    · rw [hsame]
      exact hproper
    · rw [hsame]
      rcases hs₁ with rfl | ⟨id, found, -, hmove⟩
      · exact hproper.recompute
      · exact (hproper.moveStatus hmove).recompute
  | createIssueDependency d =>
    simp only [next, Option.map_eq_some_iff] at h
    rcases h with ⟨s₁, hadd, rfl⟩
    have hedge := hasEdge_addDependency hadd
    simp only [State.addDependency, Option.ite_none_right_eq_some, Bool.and_eq_true, bne_iff_ne,
      Option.some.injEq] at hadd
    rcases hadd with ⟨⟨-, hne⟩, rfl⟩
    refine State.Proper.recompute ⟨hproper.parent, fun k => ?_⟩
    rw [hedge, if_neg fun hkey => hne (hkey.1.symm.trans hkey.2)]
    exact hproper.edge k
  | deleteIssueDependency x y =>
    simp only [next, Option.map_eq_some_iff] at h
    rcases h with ⟨s₁, hremove, rfl⟩
    have hedge := hasEdge_removeDependency hremove
    simp only [State.removeDependency, Option.ite_none_right_eq_some, Option.some.injEq] at hremove
    rcases hremove with ⟨-, rfl⟩
    refine State.Proper.recompute ⟨hproper.parent, fun k => ?_⟩
    rw [← Bool.not_eq_true]
    intro hk
    have hold := hedge k k hk
    rw [hproper.edge k] at hold
    simp at hold

theorem proper_init (hs : machine.Init s) : s.Proper := by
  rcases hs with ⟨hissues, hdeps⟩
  refine ⟨fun k => ?_, fun k => ?_⟩
  · simp [State.parentOf, Table.get?, hissues]
  · simp [State.hasEdge, hdeps]

theorem deadlockFree_iff : s.DeadlockFree ↔ s.graph.Live := by
  constructor
  · exact fun h => h.noCycle
  · intro hlive
    refine ⟨hlive, fun ⟨x, hx⟩ => ?_⟩
    -- the open issues are finitely many
    let nodes := (s.issues.rows.map Issue.id).filter s.isOpen
    have hnodes : ∀ {y : UUID}, s.isOpen y = true → y ∈ nodes := fun hy =>
      List.mem_filter.2 ⟨mem_ids_of_isOpen hy, hy⟩
    have hwaits : ∀ x y, s.graph.Waits x y → y ∈ nodes := by
      rintro x y ⟨z, -, hzy⟩
      exact hnodes hzy.2.1
    rcases Graph.exists_ready hlive hwaits (hnodes hx) with ⟨y, hy, hready⟩
    exact ⟨y, (List.mem_filter.1 hy).2, hready⟩

end Steps

/-! ## Runs -/

theorem inv_reachable : ∀ s,
    machine.ReachableUnder (fun s a => closesNoLoop s a = true) s →
      s.graph.Live ∧ s.Proper := by
  refine Machine.invariant_under (fun s hs => ⟨?_, proper_init hs⟩) ?_
  · rcases hs with ⟨hissues, -⟩
    have hclosed : ∀ x, s.isOpen x = false := fun x => by simp [State.isOpen, Table.get?, hissues]
    intro x hx
    rcases TransGen.head'_iff.1 hx with ⟨y, ⟨z, -, hzy⟩, -⟩
    have hopen := hzy.1
    rw [hclosed] at hopen
    simp at hopen
  · intro s a s' _ hinv hcond h
    exact ⟨(live_step_iff hinv.1 hinv.2 h).2 hcond, proper_step hinv.2 h⟩

/-- There is no deadlock as long as no operation closes a loop of waiting, and the first that
does makes one. -/
theorem deadlock_free (s : State) :
    (machine.ReachableUnder (fun s a => closesNoLoop s a = true) s → s.DeadlockFree) ∧
    ∀ a s', machine.ReachableUnder (fun s a => closesNoLoop s a = true) s →
      closesNoLoop s a = false → machine.next s a = some s' → ¬ s'.DeadlockFree := by
  constructor
  · intro hs
    exact deadlockFree_iff.2 (inv_reachable s hs).1
  · intro a s' hs hcond h hfree
    have hinv := inv_reachable s hs
    have hclear := (live_step_iff hinv.1 hinv.2 h).1 (deadlockFree_iff.1 hfree)
    rw [hcond] at hclear
    simp at hclear

/-- An epic with two steps, the second of which waits for the first; the first is done, moved and
opened again. -/
def twoStepsRun : List Act :=
  [.createIssue 1 .todo none, .createIssue 2 .todo (some 1), .createIssue 3 .todo (some 1),
    .createIssueDependency { issueId := 3, dependsOnId := 2 }, .updateIssue 2 (some .done) none,
    .updateIssue 2 none (some none), .updateIssue 2 (some .todo) none]

theorem deadlock_free_twoStepsRun :
    ∃ s : State, (s.isOpen 2 && s.isOpen 3 && s.hasEdge 3 2) = true ∧ s.DeadlockFree := by
  rcases Machine.reachableUnder_of_run machine closesNoLoop init_empty twoStepsRun
    (fun s => s.isOpen 2 && s.isOpen 3 && s.hasEdge 3 2) (by decide) with ⟨s, hs, hopen⟩
  exact ⟨s, hopen, (deadlock_free s).1 hs⟩

/-- Two issues are made to block each other. -/
theorem two_edges_deadlock : ¬ ∀ s, machine.Reachable s → s.DeadlockFree := by
  intro hclaim
  rcases Machine.reachable_of_run machine init_empty
    [.createIssue 1 .todo none, .createIssue 2 .todo none,
      .createIssueDependency { issueId := 1, dependsOnId := 2 },
      .createIssueDependency { issueId := 2, dependsOnId := 1 }]
    (fun s => s.isOpen 1 && s.isOpen 2 && s.hasEdge 1 2 && s.hasEdge 2 1) (by decide)
    with ⟨s, -, hs, hboth⟩
  simp only [Bool.and_eq_true] at hboth
  rcases hboth with ⟨⟨⟨h1, h2⟩, h12⟩, h21⟩
  have hwaits : s.graph.Waits 1 2 := ⟨1, .refl, h1, h2, h12⟩
  have hwaits' : s.graph.Waits 2 1 := ⟨2, .refl, h2, h1, h21⟩
  exact (hclaim s hs).noCycle 1 (.tail (.single hwaits) hwaits')

end Orynx.Spine
