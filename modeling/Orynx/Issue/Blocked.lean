import Orynx.Issue.Deadlock

/-! # The flag `is_blocked`

`RecomputeWorkspaceBlocked` writes the flag, and the ready work is read from it. It runs after an
edge is created or deleted and at the end of `CompleteTask`; the other operations change what it
says and leave it.

* `Truthful`: the flag is set on the issues that wait for somebody;
* `truthful_recompute`: a recompute makes it so, whatever was written before;
* `keepsTruth`: the operation recomputes, or changes nothing that the flag says;
* `blocked_truthful`: then the flag is right in every run, and the first step that does not meet
  the condition makes it wrong;
* `done_blocker_keeps_flag`: an issue stays blocked by one that is done.
-/

namespace Orynx.Spine

open Lib Lib.Waiting Relation
open Autopilot (IssueStatus)

/-! ## The property -/

def State.flag (s : State) (x : UUID) : Bool := (s.issues.get? x).any Issue.isBlocked

/-- The flag is set where an open issue, or an open one above it, is blocked by an open one. -/
def State.Truthful (s : State) : Prop :=
  ∀ r ∈ s.issues.rows, r.isBlocked = true ↔ s.graph.Blocked r.id

/-- The issues but one. -/
def State.without (s : State) (x : UUID) : State :=
  { s with issues := s.issues.filter fun r => r.id != x }

/-- The issue as if it were open, at the top and blocked by nothing. -/
def State.detached (s : State) (x : UUID) : State where
  issues := s.issues.exec (updateIssueStmt x .todo none)
  deps := s.deps.filter fun d => d.issueId != x

/-- Every open issue with an edge to `x` is blocked without it. -/
def State.waitersHeld (s : State) (x : UUID) : Bool :=
  s.issues.rows.all fun z => z.id == x || !s.isOpen z.id || !s.hasEdge z.id x ||
    (s.without x).blockedTree.contains z.id

/-- Every open issue below `x` is blocked without it. -/
def State.childrenHeld (s : State) (x : UUID) : Bool :=
  (s.openChildren x).all fun c => c == x || (s.without x).blockedTree.contains c

/-- The issue is blocked when it is open under that parent: by one it depends on, or with the
parent. -/
def State.blockedUnder (s : State) (x : UUID) (parent : Option UUID) : Bool :=
  !(s.openBlockers x).isEmpty || parent.any fun p => (s.detached x).blockedTree.contains p

/-- The operation recomputes, or changes nothing that the flag says. -/
def keepsTruth (s : State) : Act → Bool
  | .createIssue _ status parent => status.terminal || parent.all fun p => !s.flag p
  | .deleteIssue id =>
    !s.isOpen id || (s.waitersHeld id && (!s.flag id || s.childrenHeld id))
  | .updateIssue id status parent =>
    (s.issues.get? id).all fun r =>
      let status' := status.getD r.status
      s.flag id == (!status'.terminal && s.blockedUnder id (parent.getD r.parentIssueId)) &&
        (status'.terminal == r.status.terminal || s.waitersHeld id)
  | .advanceIssueToDone id => !s.flag id && s.waitersHeld id
  | _ => true

/-! ## The flag and the graph -/

section Flag

variable {s s' : State} {x : UUID} {r : Issue}

theorem flag_eq_true : s.flag x = true ↔ ∃ r, s.issues.get? x = some r ∧ r.isBlocked = true := by
  simp [State.flag, Option.any_eq_true]

theorem isOpen_of_blocked (h : s.graph.Blocked x) : s.isOpen x = true := by
  rcases h with ⟨y, z, hxz, hzy⟩
  rcases ReflTransGen.cases_head hxz with rfl | ⟨p, hxp, -⟩
  · exact hzy.1
  · exact hxp.1

theorem truthful_iff : s.Truthful ↔ ∀ x, s.flag x = true ↔ s.graph.Blocked x := by
  constructor
  · intro h x
    constructor
    · intro hflag
      rcases flag_eq_true.1 hflag with ⟨r, hget, hblocked⟩
      rcases Table.get?_eq_some.1 hget with ⟨hr, hid⟩
      obtain rfl : r.id = x := hid
      exact (h r hr).1 hblocked
    · intro hblocked
      rcases isOpen_eq_true.1 (isOpen_of_blocked hblocked) with ⟨r, hget, -⟩
      rcases Table.get?_eq_some.1 hget with ⟨hr, hid⟩
      obtain rfl : r.id = x := hid
      exact flag_eq_true.2 ⟨r, hget, (h r hr).2 hblocked⟩
  · intro h r hr
    have hget : s.issues.get? r.id = some r := Table.get?_eq_some.2 ⟨hr, rfl⟩
    rw [← h r.id, State.flag, hget, Option.any_some]

theorem truthful_recompute (s : State) : s.recomputeWorkspaceBlocked.Truthful := by
  refine truthful_iff.2 fun x => ?_
  rw [graph_recompute, ← mem_blockedTree]
  constructor
  · intro hflag
    rcases flag_eq_true.1 hflag with ⟨r, hget, hblocked⟩
    rw [get?_recompute, Option.map_eq_some_iff] at hget
    rcases hget with ⟨r', -, rfl⟩
    simpa using hblocked
  · intro hx
    rcases isOpen_eq_true.1 (isOpen_of_blocked (mem_blockedTree.1 hx)) with ⟨r, hget, -⟩
    refine flag_eq_true.2 ⟨{ r with isBlocked := s.blockedTree.contains x }, ?_,
      List.contains_iff_mem.2 hx⟩
    rw [get?_recompute, hget]
    rfl

theorem graph_without (x : UUID) : (s.without x).graph = s.graph.without x := by
  have hopen : ∀ k, (s.without x).isOpen k = true ↔ k ≠ x ∧ s.isOpen k = true := by
    intro k
    rw [State.isOpen, State.without, Table.get?_filter, State.isOpen]
    cases hget : s.issues.get? k with
    | none => simp
    | some r =>
      obtain rfl : r.id = k := (Table.get?_eq_some.1 hget).2
      by_cases hk : r.id = x <;> simp [Option.filter, hk]
  have hparent : ∀ k, k ≠ x → (s.without x).parentOf k = s.parentOf k := by
    intro k hk
    rw [State.parentOf, State.without, Table.get?_filter, State.parentOf]
    cases hget : s.issues.get? k with
    | none => simp
    | some r =>
      obtain rfl : r.id = k := (Table.get?_eq_some.1 hget).2
      simp [Option.filter, hk]
  refine Lib.Waiting.Graph.ext ?_ ?_
  · funext a b
    refine propext ⟨?_, ?_⟩
    · rintro ⟨ha, hb, hab⟩
      rw [hopen] at ha hb
      rw [hparent a ha.1] at hab
      exact ⟨ha.1, hb.1, ha.2, hb.2, hab⟩
    · rintro ⟨ha, hb, hoa, hob, hab⟩
      exact ⟨(hopen a).2 ⟨ha, hoa⟩, (hopen b).2 ⟨hb, hob⟩, (hparent a ha).trans hab⟩
  · funext a b
    refine propext ⟨?_, ?_⟩
    · rintro ⟨ha, hb, hab⟩
      rw [hopen] at ha hb
      exact ⟨ha.1, hb.1, ha.2, hb.2, hab⟩
    · rintro ⟨ha, hb, hoa, hob, hab⟩
      exact ⟨(hopen a).2 ⟨ha, hoa⟩, (hopen b).2 ⟨hb, hob⟩, hab⟩

theorem waitersHeld_iff : s.waitersHeld x = true ↔
    ∀ z, z ≠ x → s.isOpen z = true → s.hasEdge z x = true → (s.graph.without x).Blocked z := by
  simp only [State.waitersHeld, List.all_eq_true, Bool.or_eq_true, beq_iff_eq, Bool.not_eq_true',
    List.contains_iff_mem, mem_blockedTree, graph_without]
  constructor
  · intro h z hz hopen hedge
    rcases isOpen_eq_true.1 hopen with ⟨r, hget, -⟩
    rcases Table.get?_eq_some.1 hget with ⟨hr, hid⟩
    obtain rfl : r.id = z := hid
    rcases h r hr with ((hx | hclosed) | hnone) | hblocked
    · exact absurd hx hz
    · simp [hopen] at hclosed
    · simp [hedge] at hnone
    · exact hblocked
  · intro h r hr
    by_cases hx : r.id = x
    · exact .inl (.inl (.inl hx))
    cases hopen : s.isOpen r.id with
    | false => exact .inl (.inl (.inr rfl))
    | true =>
      cases hedge : s.hasEdge r.id x with
      | false => exact .inl (.inr rfl)
      | true => exact .inr (h r.id hx hopen hedge)

theorem childrenHeld_iff : s.childrenHeld x = true ↔
    ∀ c, c ≠ x → s.isOpen c = true → s.parentOf c = some x → (s.graph.without x).Blocked c := by
  simp only [State.childrenHeld, List.all_eq_true, Bool.or_eq_true, beq_iff_eq,
    List.contains_iff_mem, mem_blockedTree, graph_without, mem_openChildren]
  constructor
  · intro h c hc hopen hparent
    exact (h c ⟨hopen, hparent⟩).resolve_left hc
  · intro h c hc
    by_cases hcx : c = x
    · exact .inl hcx
    · exact .inr (h c hcx hc.1 hc.2)

theorem State.Puts.flag (h : s.Puts x r s') (hx : s.flag x = r.isBlocked) (k : UUID) :
    s'.flag k = s.flag k := by
  by_cases hk : k = x
  · rw [hk, hx, State.flag, h.get?, if_pos rfl, Option.any_some]
  · rw [State.flag, h.get?_ne hk, State.flag]

/-- In the state without what the issue leads to, its parent is blocked as it is for the issue. -/
theorem blocked_detached_iff (h : s.Puts x r s') (hopen : r.status.terminal = false)
    (hexists : (s.issues.get? x).isSome) {p : UUID} (hp : p ≠ x) :
    (s.detached x).graph.Blocked p ↔
      ∃ z b, z ≠ x ∧ ReflTransGen (s'.graph.without x).up p z ∧ s'.graph.blocks z b ∧
        s'.isOpen p = true := by
  have hget : ∀ k, (s.detached x).issues.get? k =
      if k = x then (s.issues.get? k).map fun r => { r with status := .todo, parentIssueId := none }
      else s.issues.get? k := by
    intro k
    exact get?_exec_id (fun _ => rfl) (fun _ => rfl) k
  have hedge : ∀ a b, (s.detached x).hasEdge a b = true ↔ a ≠ x ∧ s.hasEdge a b = true := by
    intro a b
    simp only [hasEdge_eq_true, State.detached, List.mem_filter, bne_iff_ne]
    constructor
    · rintro ⟨d, ⟨hd, hne⟩, rfl, hb⟩
      exact ⟨hne, d, hd, rfl, hb⟩
    · rintro ⟨hne, d, hd, rfl, hb⟩
      exact ⟨d, ⟨hd, hne⟩, rfl, hb⟩
  have hagree : (s.detached x).graph.without x = s'.graph.without x := by
    rw [h.graph_without]
    refine graph_without_eq (fun k hk => by rw [hget, if_neg hk]) fun a b ha _ => ?_
    rw [Bool.eq_iff_iff, hedge]
    exact and_iff_right ha
  have hopens : ∀ k, (s.detached x).isOpen k = s'.isOpen k := by
    intro k
    by_cases hk : k = x
    · rcases Option.isSome_iff_exists.1 hexists with ⟨prev, hprev⟩
      rw [hk, h.isOpen_self, hopen, State.isOpen, hget, if_pos rfl, hprev]
      rfl
    · rw [h.isOpen_ne hk, State.isOpen, hget, if_neg hk, State.isOpen]
  have hblocks : ∀ z b, z ≠ x → ((s.detached x).graph.blocks z b ↔ s'.graph.blocks z b) := by
    intro z b hz
    simp only [State.graph, hopens, hedge, h.hasEdge, ne_eq, hz, not_false_eq_true, true_and]
  constructor
  · intro hblocked
    have hpo := isOpen_of_blocked hblocked
    rw [hopens] at hpo
    rcases hblocked with ⟨b, z, hpz, hzb⟩
    have hz : z ≠ x := ((hedge z b).1 hzb.2.2).1
    rcases Graph.up_avoids hp hpz with ⟨-, hpz⟩ | ⟨c, -, -, -, hxz⟩
    · rw [hagree] at hpz
      exact ⟨z, b, hz, hpz, (hblocks z b hz).1 hzb, hpo⟩
    · -- nothing leads up from the detached issue
      rcases ReflTransGen.cases_head hxz with rfl | ⟨q, ⟨-, -, hq⟩, -⟩
      · exact absurd rfl hz
      · rcases Option.isSome_iff_exists.1 hexists with ⟨prev, hprev⟩
        simp [State.parentOf, hget, hprev] at hq
  · rintro ⟨z, b, hz, hpz, hzb, -⟩
    rw [← hagree] at hpz
    exact ⟨b, z, Graph.up_of_without hpz, (hblocks z b hz).2 hzb⟩

theorem blockedUnder_iff (hproper : s.Proper) (h : s.Puts x r s')
    (hopen : r.status.terminal = false) (hself : r.parentIssueId ≠ some x)
    (hexists : (s.issues.get? x).isSome) :
    s'.graph.Blocked x ↔ s.blockedUnder x r.parentIssueId = true := by
  have hx : s'.isOpen x = true := by rw [h.isOpen_self, hopen]; rfl
  have hown : (∃ b, s'.graph.blocks x b) ↔ (s.openBlockers x).isEmpty = false := by
    rw [← Bool.not_eq_true, List.isEmpty_iff, List.eq_nil_iff_forall_not_mem]
    push Not
    refine exists_congr fun b => ?_
    rw [mem_openBlockers]
    have hne : s.hasEdge x b = true → b ≠ x := by
      rintro hedge rfl
      rw [hproper.edge b] at hedge
      simp at hedge
    constructor
    · rintro ⟨-, hb, hedge⟩
      rw [h.hasEdge] at hedge
      exact ⟨hedge, h.isOpen_ne (hne hedge) ▸ hb⟩
    · rintro ⟨hedge, hb⟩
      exact ⟨hx, (h.isOpen_ne (hne hedge)).trans hb, (h.hasEdge x b).trans hedge⟩
  rw [Graph.blocked_self_iff, hown, State.blockedUnder, Bool.or_eq_true, Bool.not_eq_true',
    Option.any_eq_true]
  refine or_congr_right ⟨?_, ?_⟩
  · rintro ⟨p, hp, ⟨-, hpo, hparent⟩, z, b, hz, hpz, hzb⟩
    refine ⟨p, h.parentOf_self ▸ hparent, ?_⟩
    rw [List.contains_iff_mem, mem_blockedTree, blocked_detached_iff h hopen hexists hp]
    exact ⟨z, b, hz, hpz, hzb, hpo⟩
  · rintro ⟨p, hparent, hblocked⟩
    have hp : p ≠ x := by
      rintro rfl
      exact hself hparent
    rw [List.contains_iff_mem, mem_blockedTree, blocked_detached_iff h hopen hexists hp] at hblocked
    rcases hblocked with ⟨z, b, hz, hpz, hzb, hpo⟩
    exact ⟨p, hp, ⟨hx, hpo, h.parentOf_self.trans hparent⟩, z, b, hz, hpz, hzb⟩

end Flag

/-! ## The operations -/

section Steps

variable {s s' : State} {x : UUID} {r : Issue}

/-- The flags stay, and so has what they say. -/
theorem truthful_congr (htruth : s.Truthful) (hflag : ∀ k, s'.flag k = s.flag k) :
    s'.Truthful ↔ ∀ k, s'.graph.Blocked k ↔ s.graph.Blocked k := by
  rw [truthful_iff]
  refine forall_congr' fun k => ?_
  rw [hflag, truthful_iff.1 htruth k]
  exact Iff.comm

theorem not_blocked_of_closed (h : s.isOpen x = false) : ¬ s.graph.Blocked x := by
  intro hblocked
  rw [isOpen_of_blocked hblocked] at h
  simp at h

/-- The graph of a state where the issue is closed has no edge at it. -/
theorem graph_of_closed (h : s.isOpen x = false) : s.graph.without x = s.graph := by
  have hne : ∀ {k : UUID}, s.isOpen k = true → k ≠ x := by
    rintro k hk rfl
    rw [h] at hk
    simp at hk
  refine Lib.Waiting.Graph.ext ?_ ?_
  · funext a b
    exact propext ⟨fun h => h.2.2, fun h => ⟨hne h.1, hne h.2.1, h⟩⟩
  · funext a b
    exact propext ⟨fun h => h.2.2, fun h => ⟨hne h.1, hne h.2.1, h⟩⟩

/-- An issue that is closed or opened leaves the others as blocked as they were if those that
wait for it are blocked in any case. `s₀` is the state where it is closed. -/
theorem blocked_same_iff {s₀ : State} (hgraph : s₀.graph = s.graph.without x)
    (hx : s.isOpen x = true) :
    (∀ k, s.graph.Blocked k ↔ s₀.graph.Blocked k) ↔ ¬ s.graph.Blocked x ∧
      ∀ z, z ≠ x → s.isOpen z = true → s.hasEdge z x = true → (s.graph.without x).Blocked z := by
  have hnot : ¬ s₀.graph.Blocked x := by
    rw [hgraph]
    rintro ⟨y, z, hxz, hzy⟩
    rcases ReflTransGen.cases_head hxz with rfl | ⟨p, hxp, -⟩
    · exact hzy.1 rfl
    · exact hxp.1 rfl
  constructor
  · intro h
    refine ⟨fun hblocked => hnot ((h x).1 hblocked), fun z hz hopen hedge => ?_⟩
    rw [← hgraph, ← h z]
    exact ⟨x, z, .refl, hopen, hx, hedge⟩
  · rintro ⟨hself, hwaiters⟩ k
    by_cases hk : k = x
    · rw [hk]
      exact iff_of_false hself hnot
    · rw [hgraph]
      refine Graph.blocked_without_iff.2 ⟨?_, fun hblocked => absurd hblocked hself⟩ k hk
      exact fun z hz hzx => hwaiters z hz hzx.1 hzx.2.2

theorem truthful_put_iff (htruth : s.Truthful) (hproper : s.Proper) {prev : Issue}
    (hget : s.issues.get? x = some prev) (h : s.Puts x r s') (hflag : r.isBlocked = prev.isBlocked)
    (hself : r.parentIssueId ≠ some x) :
    s'.Truthful ↔ (s.flag x = true ↔ r.status.terminal = false ∧
        s.blockedUnder x r.parentIssueId = true) ∧
      (r.status.terminal = prev.status.terminal ∨ s.waitersHeld x = true) := by
  have hx : s.isOpen x = !prev.status.terminal := by simp [State.isOpen, hget]
  have hx' : s'.isOpen x = !r.status.terminal := h.isOpen_self
  have hsome : (s.issues.get? x).isSome := by rw [hget]; rfl
  have hsame : s.flag x = r.isBlocked := by rw [State.flag, hget, Option.any_some, hflag]
  rw [truthful_congr htruth (h.flag hsame), truthful_iff.1 htruth x]
  have hwaiters : s.waitersHeld x = true ↔ ∀ z, z ≠ x → s.isOpen z = true →
      s.hasEdge z x = true → (s.graph.without x).Blocked z := waitersHeld_iff
  cases hold : prev.status.terminal with
  | false =>
    cases hnew : r.status.terminal with
    | false =>
      -- still open: the edges to it are as before
      have hxo : s.isOpen x = true := by rw [hx, hold]; rfl
      have hxo' : s'.isOpen x = true := by rw [hx', hnew]; rfl
      have hup : ∀ c, c ≠ x → (s'.graph.up c x ↔ s.graph.up c x) := by
        intro c hc
        simp only [State.graph, h.isOpen_ne hc, h.parentOf_ne hc, hxo, hxo']
      have hblocks : ∀ z, z ≠ x → (s'.graph.blocks z x ↔ s.graph.blocks z x) := by
        intro z hz
        simp only [State.graph, h.isOpen_ne hz, h.hasEdge, hxo, hxo']
      have hunder := blockedUnder_iff hproper h hnew hself hsome
      simp only [true_and, true_or, and_true]
      constructor
      · intro hall
        rw [← hunder]
        exact (hall x).symm
      · intro hxx
        exact Graph.blocked_of_agree h.graph_without hup hblocks (hunder.trans hxx.symm)
    | true =>
      -- closed: the graph loses it
      have hxo : s.isOpen x = true := by rw [hx, hold]; rfl
      have hxc' : s'.isOpen x = false := by rw [hx', hnew]; rfl
      have hgraph : s'.graph = s.graph.without x := by
        rw [← graph_of_closed hxc', h.graph_without]
      have hiff := blocked_same_iff hgraph hxo
      simp only [Bool.true_eq_false, false_and, iff_false, false_or]
      rw [hwaiters, ← hiff]
      exact forall_congr' fun k => Iff.comm
  | true =>
    have hxc : s.isOpen x = false := by rw [hx, hold]; rfl
    have hnot := not_blocked_of_closed hxc
    cases hnew : r.status.terminal with
    | false =>
      -- opened: the graph gets it
      have hxo' : s'.isOpen x = true := by rw [hx', hnew]; rfl
      have hgraph : s.graph = s'.graph.without x := by
        rw [h.graph_without, graph_of_closed hxc]
      rw [blocked_same_iff hgraph hxo', hwaiters, blockedUnder_iff hproper h hnew hself hsome]
      simp only [hnot, false_iff, true_and, Bool.false_eq_true, false_or]
      refine and_congr_right fun _ => forall_congr' fun z => forall_congr' fun hz => ?_
      rw [h.isOpen_ne hz, h.hasEdge, h.graph_without]
    | true =>
      have hxc' : s'.isOpen x = false := by rw [hx', hnew]; rfl
      have hgraph : s'.graph = s.graph := by
        rw [← graph_of_closed hxc', h.graph_without, graph_of_closed hxc]
      simp only [hgraph, hnot, Bool.true_eq_false, false_and, implies_true, true_or, and_self]

/-- The moves of the server that leave the issue open. -/
theorem truthful_moveStatus (htruth : s.Truthful) {id : UUID} {found : Issue → Bool}
    {status : IssueStatus} (h : s.moveStatus id found status = some s')
    (hfound : ∀ r, found r = true → status.terminal = r.status.terminal) : s'.Truthful := by
  rcases puts_moveStatus h with ⟨r, hget, hr, hputs⟩
  have hflag : s.flag id = r.isBlocked := by rw [State.flag, hget, Option.any_some]
  refine (truthful_congr htruth (hputs.flag hflag)).2 fun k => ?_
  rw [hputs.graph_eq hget (hfound r hr) fun _ => rfl]

theorem flag_deleteIssue {id : UUID} (h : s.deleteIssue id = some s') (k : UUID) :
    s'.flag k = (decide (k ≠ id) && s.flag k) := by
  rw [State.flag, get?_deleteIssue h, State.flag]
  by_cases hk : k = id
  · simp [hk]
  rw [if_neg hk, Option.any_map]
  have hsame : ∀ r : Issue,
      (if r.parentIssueId = some id then { r with parentIssueId := none } else r).isBlocked =
        r.isBlocked := by
    intro r
    split <;> rfl
  simp only [hsame, ne_eq, hk, not_false_eq_true, decide_true, Bool.true_and]

theorem truthful_deleteIssue_iff (htruth : s.Truthful) {id : UUID}
    (h : s.deleteIssue id = some s') :
    s'.Truthful ↔ keepsTruth s (.deleteIssue id) = true := by
  have hall : s'.Truthful ↔
      ∀ k, k ≠ id → (s.graph.Blocked k ↔ (s.graph.without id).Blocked k) := by
    rw [truthful_iff, graph_deleteIssue h]
    refine forall_congr' fun k => ?_
    rw [flag_deleteIssue h, Bool.and_eq_true, decide_eq_true_eq, truthful_iff.1 htruth k]
    constructor
    · intro hk hne
      rw [← hk]
      exact (and_iff_right hne).symm
    · intro hk
      by_cases hne : k = id
      · refine iff_of_false (fun hand => hand.1 hne) ?_
        rintro ⟨y, z, hkz, hzy⟩
        rcases ReflTransGen.cases_head hkz with rfl | ⟨p, hkp, -⟩
        · exact hzy.1 hne
        · exact hkp.1 hne
      · rw [← hk hne]
        exact and_iff_right hne
  rw [hall, Graph.blocked_without_iff, ← truthful_iff.1 htruth id]
  simp only [keepsTruth, Bool.or_eq_true, Bool.and_eq_true, Bool.not_eq_true', waitersHeld_iff,
    childrenHeld_iff]
  cases hopen : s.isOpen id with
  | false =>
    refine iff_of_true ⟨fun z _ hz => ?_, fun _ c _ hc => ?_⟩ (.inl rfl)
    · have := hz.2.1
      simp [hopen] at this
    · have := hc.2.1
      simp [hopen] at this
  | true =>
    constructor
    · rintro ⟨hwaits, hbelow⟩
      refine .inr ⟨fun z hz hzo hedge => hwaits z hz ⟨hzo, hopen, hedge⟩, ?_⟩
      cases hflag : s.flag id with
      | false => exact .inl rfl
      | true =>
        exact .inr fun c hc hco hparent => hbelow hflag c hc ⟨hco, hopen, hparent⟩
    · rintro (hclosed | ⟨hwaits, hbelow⟩)
      · simp at hclosed
      · refine ⟨fun z hz hzx => hwaits z hz hzx.1 hzx.2.2, fun hflag c hc hcx => ?_⟩
        rcases hbelow with hnone | hbelow
        · simp [hflag] at hnone
        · exact hbelow c hc hcx.1 hcx.2.2

/-- A new issue is not flagged, so it may not come below a blocked one. -/
theorem truthful_createIssue_iff (htruth : s.Truthful) {id : UUID} {status : IssueStatus}
    {parent : Option UUID} (h : s.createIssue id status parent = some s') :
    s'.Truthful ↔ keepsTruth s (.createIssue id status parent) = true := by
  rcases puts_createIssue h with ⟨hfresh, hexists, hputs⟩
  have hget := fresh_get? hfresh
  have hclosed : s.isOpen id = false := by simp [State.isOpen, hget]
  have hflag : s.flag id = false := by simp [State.flag, hget]
  rw [truthful_congr htruth (hputs.flag hflag)]
  simp only [keepsTruth, Bool.or_eq_true]
  have hself : parent ≠ some id := by
    rintro rfl
    simpa [hget] using hexists id rfl
  cases hnew : status.terminal with
  | true =>
    have hclosed' : s'.isOpen id = false := by rw [hputs.isOpen_self, hnew]; rfl
    refine iff_of_true (fun k => ?_) (.inl rfl)
    rw [← graph_of_closed hclosed', hputs.graph_without, graph_of_closed hclosed]
  | false =>
    have hopen' : s'.isOpen id = true := by rw [hputs.isOpen_self, hnew]; rfl
    have hgraph : s.graph = s'.graph.without id := by
      rw [hputs.graph_without, graph_of_closed hclosed]
    have hnoWaiter : ∀ z, s'.hasEdge z id = true → False := by
      intro z hedge
      rw [hputs.hasEdge, (fresh_edges hfresh z).2.1] at hedge
      simp at hedge
    have hnone : ∀ b, ¬ s'.graph.blocks id b := by
      rintro b ⟨-, -, hedge⟩
      rw [hputs.hasEdge, (fresh_edges hfresh b).2.2] at hedge
      simp at hedge
    have hnoChild : ∀ k p, s'.graph.up k p → p ≠ id := by
      rintro k p ⟨-, -, hp⟩ rfl
      by_cases hk : k = p
      · rw [hk, hputs.parentOf_self] at hp
        exact hself hp
      · rw [hputs.parentOf_ne hk] at hp
        exact (fresh_edges hfresh k).1 hp
    rw [blocked_same_iff hgraph hopen']
    have hbelow : s'.graph.Blocked id ↔ ∃ p, parent = some p ∧ s.graph.Blocked p := by
      constructor
      · rintro ⟨b, z, hz, hzb⟩
        rcases ReflTransGen.cases_head hz with rfl | ⟨p, hp, hpz⟩
        · exact absurd hzb (hnone b)
        · have hpne := hnoChild id p hp
          refine ⟨p, hputs.parentOf_self.symm.trans hp.2.2, ?_⟩
          rw [hgraph]
          rcases Graph.up_avoids hpne hpz with ⟨hzne, hpz⟩ | ⟨c, -, -, hcx, -⟩
          · refine ⟨b, z, hpz, hzne, ?_, hzb⟩
            rintro rfl
            exact hnoWaiter z hzb.2.2
          · exact absurd rfl (hnoChild c id hcx)
      · rintro ⟨p, hparent, hblocked⟩
        have hpne : p ≠ id := by
          rintro rfl
          exact hself hparent
        have hpo := isOpen_of_blocked hblocked
        rw [hgraph] at hblocked
        rcases hblocked with ⟨b, z, hpz, -, -, hzb⟩
        refine ⟨b, z, ReflTransGen.head ⟨hopen', ?_, ?_⟩ (Graph.up_of_without hpz), hzb⟩
        · rw [hputs.isOpen_ne hpne]
          exact hpo
        · rw [hputs.parentOf_self]
          exact hparent
    simp only [hbelow, Bool.false_eq_true, false_or]
    constructor
    · rintro ⟨hno, -⟩
      cases parent with
      | none => rfl
      | some p =>
        rw [Option.all_some, Bool.not_eq_true', ← Bool.not_eq_true, truthful_iff.1 htruth p]
        exact fun hp => hno ⟨p, rfl, hp⟩
    · intro hno
      refine ⟨?_, fun z _ _ hedge => absurd hedge (hnoWaiter z)⟩
      rintro ⟨p, rfl, hp⟩
      rw [Option.all_some, Bool.not_eq_true', ← Bool.not_eq_true, truthful_iff.1 htruth p] at hno
      exact hno hp

/-- An operation keeps the flag right exactly if it meets the condition. -/
theorem truthful_step_iff (htruth : s.Truthful) (hproper : s.Proper) {a : Act}
    (h : next s a = some s') : s'.Truthful ↔ keepsTruth s a = true := by
  cases a with
  | createIssue id status parent => exact truthful_createIssue_iff htruth h
  | deleteIssue id => exact truthful_deleteIssue_iff htruth h
  | updateIssue id status parent =>
    rcases puts_updateIssue h with ⟨r, hget, hallowed, hputs⟩
    have hself : parent.getD r.parentIssueId ≠ some id := by
      have hproper' := (proper_step hproper (a := .updateIssue id status parent) h).parent id
      rwa [hputs.parentOf_self] at hproper'
    rw [truthful_put_iff htruth hproper hget hputs rfl hself]
    simp only [keepsTruth, hget, Option.all_some, Bool.and_eq_true, Bool.or_eq_true, beq_iff_eq]
    refine and_congr_left' ?_
    rw [Bool.eq_iff_iff (b := _ && _), Bool.and_eq_true, Bool.not_eq_true']
  | advanceIssueToDone id =>
    rcases puts_moveStatus h with ⟨r, hget, hopen, hputs⟩
    have hself : r.parentIssueId ≠ some id := by
      have hparent : s.parentOf id = r.parentIssueId := by simp [State.parentOf, hget]
      exact hparent ▸ hproper.parent id
    rw [truthful_put_iff htruth hproper hget hputs rfl hself]
    have hclosed : r.status.terminal = false := by simpa using hopen
    have hdone : IssueStatus.done.terminal = true := rfl
    simp only [keepsTruth, hclosed, hdone, Bool.true_eq_false, false_and, iff_false, false_or,
      Bool.and_eq_true, Bool.not_eq_true', Bool.not_eq_true]
  | autoCloseEpic id =>
    refine iff_of_true (truthful_moveStatus htruth h fun r hr => ?_) rfl
    simp only [Bool.and_eq_true, Bool.not_eq_true'] at hr
    rw [hr.1.1.1]
    rfl
  | resetStuckIssue id =>
    refine iff_of_true (truthful_moveStatus htruth h fun r hr => ?_) rfl
    rw [beq_iff_eq.1 hr]
    rfl
  | approve id =>
    refine iff_of_true (truthful_moveStatus htruth h fun r hr => ?_) rfl
    rw [beq_iff_eq.1 hr]
    rfl
  | completeTask issueId advance =>
    refine iff_of_true ?_ rfl
    rw [← Option.some.inj h]
    rcases completeTask_cases s issueId advance with hsame | ⟨s₁, -, hsame⟩
    · rw [hsame]
      exact htruth
    · rw [hsame]
      exact truthful_recompute s₁
  | createIssueDependency d =>
    refine iff_of_true ?_ rfl
    simp only [next, Option.map_eq_some_iff] at h
    rcases h with ⟨s₁, -, rfl⟩
    exact truthful_recompute s₁
  | deleteIssueDependency x y =>
    refine iff_of_true ?_ rfl
    simp only [next, Option.map_eq_some_iff] at h
    rcases h with ⟨s₁, -, rfl⟩
    exact truthful_recompute s₁

end Steps

/-! ## Runs -/

theorem truthful_reachable : ∀ s,
    machine.ReachableUnder (fun s a => keepsTruth s a = true) s → s.Truthful ∧ s.Proper := by
  refine Machine.invariant_under (fun s hs => ⟨fun r hr => ?_, proper_init hs⟩) ?_
  · rw [hs.1] at hr
    simp at hr
  · intro s a s' _ hinv hcond h
    exact ⟨(truthful_step_iff hinv.1 hinv.2 h).2 hcond, proper_step hinv.2 h⟩

/-- The flag tells the truth as long as each operation recomputes it or changes nothing that it
says, and the first that does not makes it wrong. -/
theorem blocked_truthful (s : State) :
    (machine.ReachableUnder (fun s a => keepsTruth s a = true) s → s.Truthful) ∧
    ∀ a s', machine.ReachableUnder (fun s a => keepsTruth s a = true) s →
      keepsTruth s a = false → machine.next s a = some s' → ¬ s'.Truthful := by
  constructor
  · exact fun hs => (truthful_reachable s hs).1
  · intro a s' hs hcond h htruth
    have hinv := truthful_reachable s hs
    have hkeeps := (truthful_step_iff hinv.1 hinv.2 h).1 htruth
    rw [hcond] at hkeeps
    simp at hkeeps

/-- An issue waits for two others, of which one is done, and so does what is below it. -/
def twoBlockersRun : List Act :=
  [.createIssue 1 .todo none, .createIssue 2 .todo (some 1), .createIssue 3 .todo none,
    .createIssue 4 .todo none, .createIssueDependency { issueId := 1, dependsOnId := 3 },
    .createIssueDependency { issueId := 1, dependsOnId := 4 }, .updateIssue 3 (some .done) none]

theorem blocked_truthful_twoBlockersRun :
    ∃ s : State, (s.flag 1 && s.flag 2 && !s.isOpen 3) = true ∧ s.Truthful := by
  rcases Machine.reachableUnder_of_run machine keepsTruth init_empty twoBlockersRun
    (fun s => s.flag 1 && s.flag 2 && !s.isOpen 3) (by decide) with ⟨s, hs, hflags⟩
  exact ⟨s, hflags, (blocked_truthful s).1 hs⟩

/-- The only blocker is marked done. -/
theorem done_blocker_keeps_flag : ¬ ∀ s, machine.Reachable s → s.Truthful := by
  intro hclaim
  rcases Machine.reachable_of_run machine init_empty
    [.createIssue 1 .todo none, .createIssue 2 .todo none,
      .createIssueDependency { issueId := 1, dependsOnId := 2 }, .updateIssue 2 (some .done) none]
    (fun s => s.flag 1 && !s.blockedTree.contains 1) (by decide) with ⟨s, -, hs, hstale⟩
  simp only [Bool.and_eq_true, Bool.not_eq_true'] at hstale
  have hblocked := mem_blockedTree.2 ((truthful_iff.1 (hclaim s hs) 1).1 hstale.1)
  rw [← List.contains_iff_mem, hstale.2] at hblocked
  simp at hblocked

end Orynx.Spine
