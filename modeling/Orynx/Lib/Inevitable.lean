import Mathlib.Algebra.BigOperators.Group.Finset.Basic
import Mathlib.Algebra.Group.Nat.Defs
import Orynx.Lib.Machine

/-! # What is bound to happen

A machine is left to itself: only its internal steps are taken, in any order, for as long as one
can be taken.

* `Inevitable`: every such run comes by a state with the property;
* `Inevitable.of_rank`: it does if every internal step lowers a rank, and one can be taken in every
  state without the property;
* `sum_update`: how a sum that serves as a rank changes with one of its parts.
-/

namespace Lib

universe u v

namespace Machine

variable {σ : Type u} {α : Type v}

/-- However the internal steps are taken, one can be taken until a state has the property. -/
inductive Inevitable (M : Machine σ α) (internal : α → Bool) (P : σ → Prop) : σ → Prop where
  | now {s : σ} : P s → Inevitable M internal P s
  | later {s : σ} : (∃ a s', internal a = true ∧ M.next s a = some s') →
      (∀ a s', internal a = true → M.next s a = some s' → Inevitable M internal P s') →
      Inevitable M internal P s

theorem Inevitable.of_rank {M : Machine σ α} {internal : α → Bool} {P I : σ → Prop} (rank : σ → Nat)
    (hI : ∀ s a s', I s → M.next s a = some s' → I s')
    (hrank : ∀ s a s', internal a = true → M.next s a = some s' → rank s' < rank s)
    (hmove : ∀ s, I s → ¬P s → ∃ a s', internal a = true ∧ M.next s a = some s') :
    ∀ s, I s → M.Inevitable internal P s := by
  intro s
  induction hn : rank s using Nat.strong_induction_on generalizing s with
  | h n ih =>
    intro hs
    by_cases hp : P s
    · exact .now hp
    · refine .later (hmove s hs hp) fun a s' ha hnext => ?_
      exact ih (rank s') (hn ▸ hrank s a s' ha hnext) s' rfl (hI s a s' hs hnext)

end Machine

/-- Two sums that differ in one part. -/
theorem sum_update {n i : Nat} {f g : Nat → Nat} (hi : i < n) (h : ∀ j, j ≠ i → g j = f j) :
    (∑ j ∈ Finset.range n, g j) + f i = (∑ j ∈ Finset.range n, f j) + g i := by
  have hmem : i ∈ Finset.range n := Finset.mem_range.2 hi
  have hrest : ∑ j ∈ (Finset.range n).erase i, g j = ∑ j ∈ (Finset.range n).erase i, f j :=
    Finset.sum_congr rfl fun j hj => h j (Finset.ne_of_mem_erase hj)
  rw [← Finset.sum_erase_add _ g hmem, ← Finset.sum_erase_add _ f hmem, hrest]
  omega

end Lib
