import Mathlib.Algebra.GroupWithZero.Nat
import Mathlib.Data.List.Basic

/-! # Taking what fits

A loop that takes elements from the front of a list as long as their costs stay in a budget, and
stops at the first that does not fit.
-/

namespace Lib.Budget

universe u

variable {α : Type u} (cost : α → Nat) (fits : Nat → Bool)

def takeWithin : Nat → List α → List α
  | _, [] => []
  | used, a :: l =>
    if fits (used + cost a) then a :: takeWithin (used + cost a) l else []

/-- What the elements cost together. -/
def total (l : List α) : Nat := (l.map cost).sum

theorem takeWithin_prefix (used : Nat) (l : List α) : takeWithin cost fits used l <+: l := by
  induction l generalizing used with
  | nil => exact List.prefix_refl []
  | cons a l ih =>
    unfold takeWithin
    by_cases ha : fits (used + cost a) = true
    · rw [if_pos ha]
      exact List.cons_prefix_cons.2 ⟨rfl, ih _⟩
    · rw [if_neg ha]
      exact List.nil_prefix

/-- Unless nothing was taken, what was taken fits. -/
theorem takeWithin_fits (used : Nat) (l : List α) :
    takeWithin cost fits used l = [] ∨
      fits (used + total cost (takeWithin cost fits used l)) = true := by
  induction l generalizing used with
  | nil => exact .inl rfl
  | cons a l ih =>
    unfold takeWithin
    by_cases ha : fits (used + cost a) = true
    · rw [if_pos ha]
      refine .inr ?_
      unfold total
      rw [List.map_cons, List.sum_cons, ← Nat.add_assoc]
      rcases ih (used + cost a) with hnil | hfits
      · rw [hnil]
        exact ha
      · exact hfits
    · rw [if_neg ha]
      exact .inl rfl

theorem total_perm {l l' : List α} (h : l.Perm l') : total cost l = total cost l' :=
  (h.map cost).sum_nat

end Lib.Budget
