import Mathlib.Data.List.Sort

/-! # Entries sorted by a key

Where no two entries have one key, sorting forgets in which order they came.
-/

namespace Lib

variable {α κ : Type*} [LE κ] [DecidableLE κ] {xs ys : List α}

/-- Sort by the key. -/
def sortBy (key : α → κ) (xs : List α) : List α := xs.insertionSort fun a b => key a ≤ key b

theorem perm_sortBy (key : α → κ) (xs : List α) : (sortBy key xs).Perm xs :=
  List.perm_insertionSort _ xs

theorem pairwise_sortBy [Std.IsLinearOrder κ] (key : α → κ) (xs : List α) :
    (sortBy key xs).Pairwise fun a b => key a ≤ key b := by
  have htotal : Std.Total fun a b : α => key a ≤ key b := ⟨fun a b => Std.le_total⟩
  have htrans : IsTrans α fun a b => key a ≤ key b := ⟨fun _ _ _ => Std.le_trans⟩
  exact List.pairwise_insertionSort _ xs

theorem sortBy_eq_iff [Std.IsLinearOrder κ] (key : α → κ) (hxs : (xs.map key).Nodup) :
    sortBy key xs = sortBy key ys ↔ xs.Perm ys := by
  constructor
  · intro h
    exact (perm_sortBy key xs).symm.trans (h ▸ perm_sortBy key ys)
  · intro h
    refine List.Perm.eq_of_pairwise ?_ (pairwise_sortBy key xs) (pairwise_sortBy key ys)
      ((perm_sortBy key xs).trans (h.trans (perm_sortBy key ys).symm))
    -- entries with one key are one entry
    intro a b ha hb hab hba
    have ha' : a ∈ xs := (perm_sortBy key xs).mem_iff.1 ha
    have hb' : b ∈ xs := h.mem_iff.2 ((perm_sortBy key ys).mem_iff.1 hb)
    exact List.inj_on_of_nodup_map hxs ha' hb' (Std.le_antisymm hab hba)

end Lib
