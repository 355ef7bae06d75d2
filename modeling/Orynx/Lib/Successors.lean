import Mathlib.Data.Int.Interval
import Mathlib.Logic.Function.Iterate
import Mathlib.Order.Bounds.Basic
import Mathlib.Order.ConditionallyCompleteLattice.Basic
import Mathlib.Data.Int.ConditionallyCompleteOrder

/-! # Going through a set of integers by its successor function

`next t` is the least member after `t`, and zero where there is none: going on from the last
member starts over at zero.

* `count`: the members of an interval, which `next` makes larger by one;
* `iterate_le`: as long as members are left, the steps pass them one by one;
* `iterate_round`: where none comes after the bound, the steps from zero go round.
-/

namespace Lib.Successors

open scoped Classical

structure Follows (A : Set Int) (next : Int → Int) : Prop where
  least : ∀ t, (∃ a ∈ A, t < a) → IsLeast {a | a ∈ A ∧ t < a} (next t)
  none : ∀ t, (¬∃ a ∈ A, t < a) → next t = 0

/-- The number of members after `c`, up to `t`. -/
noncomputable def count (A : Set Int) (c t : Int) : Nat := ((Finset.Ioc c t).filter (· ∈ A)).card

variable {A : Set Int} {next : Int → Int} {a b c t u : Int} {n : Nat}

/-! ## Counting -/

theorem count_of_le (h : t ≤ c) : count A c t = 0 := by
  rw [count, Finset.Ioc_eq_empty (by omega)]
  rfl

theorem count_lt (hct : c ≤ t) (ha : a ∈ A) (hta : t < a) (hau : a ≤ u) :
    count A c t < count A c u := by
  refine Finset.card_lt_card (Finset.ssubset_iff_of_subset ?_ |>.2 ⟨a, ?_, ?_⟩)
  · intro x hx
    simp only [Finset.mem_filter, Finset.mem_Ioc] at hx ⊢
    exact ⟨⟨hx.1.1, by omega⟩, hx.2⟩
  · simp only [Finset.mem_filter, Finset.mem_Ioc]
    exact ⟨⟨by omega, hau⟩, ha⟩
  · simp only [Finset.mem_filter, Finset.mem_Ioc]
    omega

/-- Where the count has not been reached a member is left. -/
theorem exists_of_count_lt (h : count A c t < count A c u) : ∃ a ∈ A, t < a ∧ a ≤ u := by
  by_contra hnone
  push Not at hnone
  refine absurd h (Nat.not_lt.2 (Finset.card_le_card fun x hx => ?_))
  simp only [Finset.mem_filter, Finset.mem_Ioc] at hx ⊢
  refine ⟨⟨hx.1.1, ?_⟩, hx.2⟩
  by_contra htx
  have hux := hnone x hx.2 (by omega)
  omega

theorem eq_of_count_eq (ha : a ∈ A) (hca : c < a) (hb : b ∈ A) (hcb : c < b)
    (h : count A c a = count A c b) : a = b := by
  rcases lt_trichotomy a b with hab | hab | hab
  · have hlt := count_lt (A := A) (c := c) (by omega) hb hab (Int.le_refl b)
    omega
  · exact hab
  · have hlt := count_lt (A := A) (c := c) (by omega) ha hab (Int.le_refl a)
    omega

theorem count_le_of_le (h : t ≤ u) : count A c t ≤ count A c u := by
  refine Finset.card_le_card fun x hx => ?_
  simp only [Finset.mem_filter, Finset.mem_Ioc] at hx ⊢
  exact ⟨⟨hx.1.1, by omega⟩, hx.2⟩

theorem count_next (hf : Follows A next) (hct : c ≤ t) (h : ∃ a ∈ A, t < a) :
    count A c (next t) = count A c t + 1 := by
  rcases hf.least t h with ⟨⟨hmem, hlt⟩, hleast⟩
  -- the next member is the only new one
  have hinsert : (Finset.Ioc c (next t)).filter (· ∈ A) =
      insert (next t) ((Finset.Ioc c t).filter (· ∈ A)) := by
    ext x
    simp only [Finset.mem_insert, Finset.mem_filter, Finset.mem_Ioc]
    constructor
    · rintro ⟨⟨hcx, hxn⟩, hx⟩
      by_cases hxt : x ≤ t
      · exact .inr ⟨⟨hcx, hxt⟩, hx⟩
      · have hle := hleast ⟨hx, by omega⟩
        exact .inl (by omega)
    · rintro (rfl | ⟨⟨hcx, hxt⟩, hx⟩)
      · exact ⟨⟨by omega, Int.le_refl _⟩, hmem⟩
      · exact ⟨⟨hcx, by omega⟩, hx⟩
  rw [count, hinsert, Finset.card_insert_of_notMem, ← count]
  simp only [Finset.mem_filter, Finset.mem_Ioc]
  omega

theorem next_le (hf : Follows A next) (ha : a ∈ A) (hta : t < a) :
    next t ∈ A ∧ t < next t ∧ next t ≤ a := by
  rcases hf.least t ⟨a, ha, hta⟩ with ⟨⟨hmem, hlt⟩, hleast⟩
  exact ⟨hmem, hlt, hleast ⟨ha, hta⟩⟩

/-! ## Stepping -/

/-- As long as members are left below the bound, the steps pass them one by one. -/
theorem iterate_le (hf : Follows A next) (h : n ≤ count A c u) :
    c ≤ next^[n] c ∧ count A c (next^[n] c) = n ∧ (0 < n → next^[n] c ∈ A ∧ next^[n] c ≤ u) := by
  induction n with
  | zero => exact ⟨Int.le_refl c, count_of_le (Int.le_refl c), fun h => absurd h (by omega)⟩
  | succ n ih =>
    rcases ih (by omega) with ⟨hle, hcount, -⟩
    rcases exists_of_count_lt (A := A) (c := c) (t := next^[n] c) (u := u) (by omega) with
      ⟨a, ha, hlt, hau⟩
    rcases next_le hf ha hlt with ⟨hmem, hlater, hna⟩
    rw [Function.iterate_succ_apply']
    refine ⟨by omega, ?_, fun _ => ⟨hmem, by omega⟩⟩
    rw [count_next hf hle ⟨a, ha, hlt⟩, hcount]

/-- After the last of them none is left. -/
theorem iterate_count (hf : Follows A next) (ha : a ∈ A) (hlt : next^[count A c u] c < a) :
    u < a := by
  rcases iterate_le hf (Nat.le_refl (count A c u)) with ⟨hle, hcount, -⟩
  by_contra hau
  have hmore := count_lt (A := A) hle ha hlt (show a ≤ u by omega)
  omega

/-- Where no member comes after the bound, the steps from zero go round. -/
theorem iterate_round (hf : Follows A next) (hlast : ∀ a ∈ A, a ≤ u) (n : Nat) :
    (next^[n] 0 = 0 ∨ next^[n] 0 ∈ A ∧ 0 < next^[n] 0 ∧ next^[n] 0 ≤ u) ∧
      count A 0 (next^[n] 0) = n % (count A 0 u + 1) := by
  induction n with
  | zero =>
    refine ⟨.inl rfl, ?_⟩
    rw [Nat.zero_mod]
    exact count_of_le (Int.le_refl 0)
  | succ n ih =>
    rcases ih with ⟨hwhere, hcount⟩
    have hnonneg : 0 ≤ next^[n] 0 := by omega
    rw [Function.iterate_succ_apply', ← Nat.mod_add_mod, ← hcount]
    by_cases hmore : ∃ a ∈ A, next^[n] 0 < a
    · rcases hmore with ⟨a, ha, hlt⟩
      rcases next_le hf ha hlt with ⟨hmem, hlater, hna⟩
      have hau := hlast a ha
      refine ⟨.inr ⟨hmem, by omega, by omega⟩, ?_⟩
      have hless := count_lt (A := A) hnonneg ha hlt hau
      rw [count_next hf hnonneg ⟨a, ha, hlt⟩, Nat.mod_eq_of_lt (by omega)]
    · -- it was the last one, whose count is that of the bound
      have hall : count A 0 (next^[n] 0) = count A 0 u := by
        refine Nat.le_antisymm ?_ ?_
        · rcases hwhere with hzero | ⟨-, -, hle⟩
          · rw [hzero, count_of_le (Int.le_refl 0)]
            exact Nat.zero_le _
          · exact count_le_of_le hle
        · by_contra hless
          rcases exists_of_count_lt (A := A) (c := 0) (t := next^[n] 0) (u := u) (by omega) with
            ⟨a, ha, hlt, -⟩
          exact hmore ⟨a, ha, hlt⟩
      rw [hf.none _ hmore, hall, Nat.mod_self]
      exact ⟨.inl rfl, count_of_le (Int.le_refl 0)⟩

end Lib.Successors
