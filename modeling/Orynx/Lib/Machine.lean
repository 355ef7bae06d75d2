import Mathlib.Logic.Basic
import Mathlib.Data.List.Basic

/-! # Labelled machines: runs, invariants and simulations

A `Machine` is a state predicate `Init` and a partial step function on labels.
All the nondeterminism of a system (which party moves, which row a query picks,
what the clock reads) lives in the label, so a step is a computation and a
concrete run is checked by evaluation.

* `ReachableUnder C` collects the states of the runs whose steps all meet the
  condition `C`; `Reachable` asks nothing of the steps;
* `invariant_under` and `invariant` turn a step lemma into a run lemma;
* `Simulation` maps the reachable states of one machine to those of another.
-/

namespace Lib

universe u v w z

/-- A labelled transition system with a partial step function. -/
structure Machine (σ : Type u) (α : Type v) where
  Init : σ → Prop
  next : σ → α → Option σ

namespace Machine

variable {σ : Type u} {α : Type v} (M : Machine σ α)

/-- The states of the runs all of whose steps meet `C`. -/
inductive ReachableUnder (C : σ → α → Prop) : σ → Prop where
  | init {s : σ} : M.Init s → ReachableUnder C s
  | step {s s' : σ} (a : α) :
      ReachableUnder C s → C s a → M.next s a = some s' → ReachableUnder C s'

/-- The states of all runs. -/
def Reachable : σ → Prop := M.ReachableUnder fun _ _ => True

variable {M}

theorem ReachableUnder.mono {C D : σ → α → Prop} (h : ∀ s a, C s a → D s a) {s : σ}
    (hs : M.ReachableUnder C s) : M.ReachableUnder D s := by
  induction hs with
  | init hi => exact .init hi
  | step a _ hC hn ih => exact .step a ih (h _ a hC) hn

theorem ReachableUnder.reachable {C : σ → α → Prop} {s : σ} (hs : M.ReachableUnder C s) :
    M.Reachable s :=
  hs.mono fun _ _ _ => trivial

theorem Reachable.init {s : σ} (h : M.Init s) : M.Reachable s :=
  ReachableUnder.init h

theorem Reachable.step {s s' : σ} (a : α) (hs : M.Reachable s) (hn : M.next s a = some s') :
    M.Reachable s' :=
  ReachableUnder.step a hs trivial hn

/-- The machine of a relation: a label is the state stepped to. -/
noncomputable def ofRel (Init : σ → Prop) (R : σ → σ → Prop) : Machine σ σ where
  Init := Init
  next s s' := open scoped Classical in if R s s' then some s' else none

theorem ofRel_next {Init : σ → Prop} {R : σ → σ → Prop} {s s' : σ} {a : σ} :
    (ofRel Init R).next s a = some s' ↔ R s s' ∧ a = s' := by
  simp only [ofRel, Option.ite_none_right_eq_some, Option.some.injEq]
  constructor
  · rintro ⟨h, rfl⟩
    exact ⟨h, rfl⟩
  · rintro ⟨h, rfl⟩
    exact ⟨h, rfl⟩

/-! ## Invariants -/

/-- The invariant rule for runs under a condition. The step premise may use that
the state it starts from is itself reached by such a run. -/
theorem invariant_under {C : σ → α → Prop} {I : σ → Prop} (hinit : ∀ s, M.Init s → I s)
    (hstep : ∀ s a s', M.ReachableUnder C s → I s → C s a → M.next s a = some s' → I s') :
    ∀ s, M.ReachableUnder C s → I s := by
  intro s hs
  induction hs with
  | init hi => exact hinit _ hi
  | step a hr hC hn ih => exact hstep _ a _ hr ih hC hn

/-- The invariant rule for all runs. -/
theorem invariant {I : σ → Prop} (hinit : ∀ s, M.Init s → I s)
    (hstep : ∀ s a s', M.Reachable s → I s → M.next s a = some s' → I s') :
    ∀ s, M.Reachable s → I s :=
  invariant_under hinit fun s a s' hr hI _ hn => hstep s a s' hr hI hn

variable (M) in
/-- The machine from a state on. -/
def startAt (s : σ) : Machine σ α where
  Init := (· = s)
  next := M.next

/-! ## Concrete runs -/

variable (M) in
/-- Take the labels of a list one after another. -/
def run : σ → List α → Option σ
  | s, [] => some s
  | s, a :: as => (M.next s a).bind fun s' => run s' as

theorem run_cons {s s' : σ} {a : α} (h : M.next s a = some s') (as : List α) :
    M.run s (a :: as) = M.run s' as := by
  simp [Machine.run, h]

theorem ReachableUnder.run {C : σ → α → Prop} (hC : ∀ s a, C s a) {s s' : σ} {as : List α}
    (hs : M.ReachableUnder C s) (h : M.run s as = some s') : M.ReachableUnder C s' := by
  induction as generalizing s with
  | nil =>
    obtain rfl : s = s' := by simpa [Machine.run] using h
    exact hs
  | cons a as ih =>
    obtain ⟨t, ht, hrest⟩ : ∃ t, M.next s a = some t ∧ M.run t as = some s' := by
      simpa [Machine.run, Option.bind_eq_some_iff] using h
    exact ih (.step a hs (hC s a) ht) hrest

theorem Reachable.run {s s' : σ} {as : List α} (hs : M.Reachable s)
    (h : M.run s as = some s') : M.Reachable s' :=
  ReachableUnder.run (fun _ _ => trivial) hs h

/-- A concrete run, checked by evaluation, reaches a state that passes `p`. -/
theorem reachable_of_run (M : Machine σ α) {s : σ} (hs : M.Init s) (as : List α) (p : σ → Bool)
    (h : (M.run s as).any p = true) :
    ∃ s', M.run s as = some s' ∧ M.Reachable s' ∧ p s' = true := by
  rcases (Option.any_eq_true p _).1 h with ⟨s', hs', hp⟩
  exact ⟨s', hs', (Reachable.init hs).run hs', hp⟩

variable (M) in
/-- Take the labels of a list one after another while they pass the check. -/
def runWhile (C : σ → α → Bool) : σ → List α → Option σ
  | s, [] => some s
  | s, a :: as => if C s a then (M.next s a).bind fun s' => runWhile C s' as else none

/-- A concrete run under a condition, checked by evaluation. -/
theorem reachableUnder_of_run (M : Machine σ α) (C : σ → α → Bool) {s : σ} (hs : M.Init s)
    (as : List α) (p : σ → Bool) (h : (M.runWhile C s as).any p = true) :
    ∃ s', M.ReachableUnder (fun s a => C s a = true) s' ∧ p s' = true := by
  have hrun : ∀ (as : List α) (s s' : σ), M.ReachableUnder (fun s a => C s a = true) s →
      M.runWhile C s as = some s' → M.ReachableUnder (fun s a => C s a = true) s' := by
    intro as
    induction as with
    | nil =>
      intro s s' hr h
      obtain rfl : s = s' := by simpa [runWhile] using h
      exact hr
    | cons a as ih =>
      intro s s' hr h
      simp only [runWhile, Option.ite_none_right_eq_some, Option.bind_eq_some_iff] at h
      rcases h with ⟨hC, t, ht, hrest⟩
      exact ih t s' (.step a hr hC ht) hrest
  rcases (Option.any_eq_true p _).1 h with ⟨s', hs', hp⟩
  exact ⟨s', hrun as s s' (.init hs) hs', hp⟩

/-! ## Simulations -/

/-- A map of states under which every reachable step of `M` is a step of `N` or
leaves the image alone. -/
structure Simulation (M : Machine σ α) {τ : Type w} {β : Type z} (N : Machine τ β) where
  map : σ → τ
  init : ∀ s, M.Init s → N.Init (map s)
  step : ∀ s a s', M.Reachable s → M.next s a = some s' →
    map s' = map s ∨ ∃ b, N.next (map s) b = some (map s')

/-- A simulation carries reachable states to reachable states, hence every
invariant of `N` back to `M`. -/
theorem Simulation.reachable {τ : Type w} {β : Type z} {N : Machine τ β} (S : M.Simulation N) :
    ∀ s, M.Reachable s → N.Reachable (S.map s) := by
  refine invariant (fun s h => .init (S.init s h)) ?_
  intro s a s' hr ih hn
  rcases S.step s a s' hr hn with h | ⟨b, hb⟩
  · rw [h]; exact ih
  · exact .step b ih hb

end Machine

end Lib
