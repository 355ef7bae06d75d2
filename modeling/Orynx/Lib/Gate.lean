import Orynx.Lib.Machine
import Mathlib.Algebra.Order.Group.Int
import Mathlib.Order.Lattice
import Mathlib.Logic.Function.Basic

/-! # Admission gates

Each key has a number of slots in use and one lock. Whoever holds the lock may count
the slots in use and, if the count it saw is below the key's capacity, take one more;
anybody may give slots back at any time, lock or no lock. The count may be stale when
it is used, but only in one direction: between counting and admitting, no other party
can admit, so the slots in use never exceed what was counted.
-/

namespace Lib

universe u

/-- What the holder of a key's lock has done so far. -/
inductive GatePhase where
  | free
  | held
  | counted (seen : ℕ)

structure Gate (κ : Type u) where
  used : κ → ℕ
  phase : κ → GatePhase

namespace Gate

variable {κ : Type u} [DecidableEq κ]

def setPhase (g : Gate κ) (k : κ) (p : GatePhase) : Gate κ :=
  { g with phase := Function.update g.phase k p }

/-- The moves around a gate; `settle` is any change of the slots in use that
nowhere adds one. -/
inductive Step (κ : Type u) where
  | lock (k : κ)
  | count (k : κ)
  | enter (k : κ) (used : κ → ℕ)
  | unlock (k : κ)
  | settle (used : κ → ℕ)

open Classical in
/-- An admission adds at most one slot, at its own key. -/
noncomputable def next (cap : κ → ℤ) (g : Gate κ) : Step κ → Option (Gate κ)
  | .lock k =>
    match g.phase k with
    | .free => some (g.setPhase k .held)
    | _ => none
  | .count k =>
    match g.phase k with
    | .held => some (g.setPhase k (.counted (g.used k)))
    | _ => none
  | .enter k used =>
    match g.phase k with
    | .counted seen =>
      if (seen : ℤ) < cap k ∧ used k ≤ g.used k + 1 ∧ ∀ j, j ≠ k → used j ≤ g.used j then
        some { g.setPhase k .free with used := used }
      else none
    | _ => none
  | .unlock k => some (g.setPhase k .free)
  | .settle used => if ∀ j, used j ≤ g.used j then some { g with used := used } else none

/-- A gate that starts with no slot in use and no lock taken. -/
noncomputable def machine (cap : κ → ℤ) : Machine (Gate κ) (Step κ) where
  Init g := (∀ k, g.used k = 0) ∧ ∀ k, g.phase k = .free
  next := next cap

/-- Capacity is respected, and a count that has been taken is still an upper bound. -/
structure Sound (cap : κ → ℤ) (g : Gate κ) : Prop where
  within : ∀ k, (g.used k : ℤ) ≤ max 0 (cap k)
  counted : ∀ k seen, g.phase k = .counted seen → g.used k ≤ seen

theorem Sound.setPhase {cap : κ → ℤ} {g : Gate κ} (h : Sound cap g) {k : κ} {p : GatePhase}
    (hp : ∀ seen, p = .counted seen → g.used k ≤ seen) : Sound cap (g.setPhase k p) := by
  refine ⟨h.within, fun j seen hj => ?_⟩
  by_cases hjk : j = k
  · subst hjk
    exact hp seen (by simpa [Gate.setPhase] using hj)
  · exact h.counted j seen (by simpa [Gate.setPhase, hjk] using hj)

theorem Sound.next {cap : κ → ℤ} {g g' : Gate κ} (h : Sound cap g) {a : Step κ}
    (hn : next cap g a = some g') : Sound cap g' := by
  cases a with
  | lock k =>
    simp only [Gate.next] at hn
    split at hn
    · rcases Option.some.inj hn with rfl
      exact h.setPhase (by simp)
    · simp at hn
  | count k =>
    simp only [Gate.next] at hn
    split at hn
    · rcases Option.some.inj hn with rfl
      refine h.setPhase fun seen hs => ?_
      rw [GatePhase.counted.injEq] at hs
      exact hs.le
    · simp at hn
  | enter k used =>
    simp only [Gate.next] at hn
    split at hn
    · rename_i seen hseen
      rw [Option.ite_none_right_eq_some, Option.some.injEq] at hn
      rcases hn with ⟨⟨hcap, hone, hothers⟩, rfl⟩
      have hle := h.counted k seen hseen
      constructor
      · intro j
        by_cases hjk : j = k
        · -- The count was below capacity and still bounds the slots in use
          subst hjk
          have hone' : (used j : ℤ) ≤ g.used j + 1 := by exact_mod_cast hone
          have hle' : (g.used j : ℤ) ≤ seen := by exact_mod_cast hle
          show (used j : ℤ) ≤ max 0 (cap j)
          exact le_max_of_le_right (by omega)
        · have hj : (used j : ℤ) ≤ g.used j := by exact_mod_cast hothers j hjk
          exact le_trans hj (h.within j)
      · intro j seen' hj
        by_cases hjk : j = k
        · subst hjk
          simp [Gate.setPhase] at hj
        · have hj' : g.phase j = .counted seen' := by simpa [Gate.setPhase, hjk] using hj
          exact le_trans (hothers j hjk) (h.counted j seen' hj')
    · simp at hn
  | unlock k =>
    simp only [Gate.next, Option.some.injEq] at hn
    subst hn
    exact h.setPhase (by simp)
  | settle used =>
    simp only [Gate.next, Option.ite_none_right_eq_some, Option.some.injEq] at hn
    rcases hn with ⟨hle, rfl⟩
    constructor
    · intro k
      have hk : (used k : ℤ) ≤ g.used k := by exact_mod_cast hle k
      exact le_trans hk (h.within k)
    · exact fun k seen hk => le_trans (hle k) (h.counted k seen hk)

/-- In every run the slots in use stay within capacity. -/
theorem sound_of_reachable {cap : κ → ℤ} : ∀ g, (machine cap).Reachable g → Sound cap g := by
  refine Machine.invariant ?_ fun g a g' _ h hn => h.next hn
  intro g hg
  exact ⟨fun k => by simp [hg.1 k], fun k seen hk => by simp [hg.2 k] at hk⟩

end Gate

end Lib
