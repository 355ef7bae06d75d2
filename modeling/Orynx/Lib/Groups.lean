import Mathlib.Data.List.Induction
import Mathlib.Data.List.Nodup
import Mathlib.Data.List.Sort

/-! # Groups in the order of their first member

A loop over a list puts every element that has a key into the group of its key, and opens the
group where there is none yet.

* `mem_groups`: the group of a key holds the elements with that key, in their order;
* `keys_nodup`: there is one group for a key.
-/

namespace Lib.Groups

universe u v

variable {α : Type u} {κ : Type v} [DecidableEq κ]

/-- One round of the loop. -/
def add (key : α → Option κ) (groups : List (κ × List α)) (a : α) : List (κ × List α) :=
  match key a with
  | none => groups
  | some k =>
    if k ∈ groups.map Prod.fst then
      groups.map fun g => if g.1 = k then (g.1, g.2 ++ [a]) else g
    else groups ++ [(k, [a])]

def groups (key : α → Option κ) (l : List α) : List (κ × List α) := l.foldl (add key) []

variable {key : α → Option κ}

theorem groups_append (l : List α) (a : α) :
    groups key (l ++ [a]) = add key (groups key l) a := by
  unfold groups
  rw [List.foldl_append]
  rfl

/-- The elements of a key. -/
def members (key : α → Option κ) (l : List α) (k : κ) : List α :=
  l.filter fun a => key a = some k

theorem mem_members {l : List α} {k : κ} {a : α} :
    a ∈ members key l k ↔ a ∈ l ∧ key a = some k := by
  simp [members]

theorem members_append (l : List α) (a : α) (k : κ) :
    members key (l ++ [a]) k = if key a = some k then members key l k ++ [a]
      else members key l k := by
  unfold members
  rw [List.filter_append]
  by_cases h : key a = some k
  · rw [if_pos h, List.filter_singleton, decide_eq_true h]
    rfl
  · rw [if_neg h, List.filter_singleton, decide_eq_false h]
    simp

theorem fst_map_extend (gs : List (κ × List α)) (k : κ) (a : α) :
    (gs.map fun g => if g.1 = k then (g.1, g.2 ++ [a]) else g).map Prod.fst =
      gs.map Prod.fst := by
  rw [List.map_map]
  refine List.map_congr_left fun g _ => ?_
  rw [Function.comp_apply]
  by_cases hk : g.1 = k
  · rw [if_pos hk]
  · rw [if_neg hk]

theorem keys_nodup (key : α → Option κ) (l : List α) :
    ((groups key l).map Prod.fst).Nodup := by
  induction l using List.reverseRecOn with
  | nil => exact List.nodup_nil
  | append_singleton l a ih =>
    rw [groups_append]
    unfold add
    cases hkey : key a with
    | none => exact ih
    | some k =>
      by_cases hk : k ∈ (groups key l).map Prod.fst
      · simp only [if_pos hk]
        rw [fst_map_extend]
        exact ih
      · simp only [if_neg hk]
        rw [List.map_append]
        exact ih.append (List.nodup_singleton k) (List.disjoint_singleton.2 hk)

/-- A group is what a key has, if it has anything. -/
theorem mem_groups {l : List α} {g : κ × List α} :
    g ∈ groups key l ↔ g.2 = members key l g.1 ∧ g.2 ≠ [] := by
  induction l using List.reverseRecOn generalizing g with
  | nil => simp [groups, members]
  | append_singleton l a ih =>
    rw [groups_append, members_append]
    unfold add
    cases hkey : key a with
    | none => simpa using ih
    | some k =>
      by_cases hk : k ∈ (groups key l).map Prod.fst
      · simp only [if_pos hk, Option.some.injEq]
        rw [List.mem_map]
        constructor
        · rintro ⟨g', hg', rfl⟩
          by_cases hgk : g'.1 = k
          · rw [if_pos hgk]
            refine ⟨?_, by simp⟩
            dsimp only
            rw [if_pos hgk.symm, (ih.1 hg').1]
          · rw [if_neg hgk, if_neg (Ne.symm hgk)]
            exact ih.1 hg'
        · rintro ⟨hmembers, hne⟩
          by_cases hgk : g.1 = k
          · rw [if_pos hgk.symm] at hmembers
            obtain ⟨g', hg', hg'k⟩ := List.mem_map.1 hk
            refine ⟨g', hg', ?_⟩
            rw [if_pos hg'k, (ih.1 hg').1, hg'k, ← hgk, ← hmembers]
          · rw [if_neg (Ne.symm hgk)] at hmembers
            exact ⟨g, ih.2 ⟨hmembers, hne⟩, if_neg hgk⟩
      · simp only [if_neg hk, Option.some.injEq]
        rw [List.mem_append, List.mem_singleton]
        -- the key has nothing yet
        have hfresh : members key l k = [] := by
          by_contra hmembers
          exact hk (List.mem_map.2 ⟨(k, members key l k), ih.2 ⟨rfl, hmembers⟩, rfl⟩)
        constructor
        · rintro (hg | rfl)
          · have hgk : k ≠ g.1 := fun h => hk (List.mem_map.2 ⟨g, hg, h.symm⟩)
            rw [if_neg hgk]
            exact ih.1 hg
          · rw [if_pos rfl, hfresh]
            exact ⟨rfl, List.cons_ne_nil a []⟩
        · rintro ⟨hmembers, hne⟩
          by_cases hgk : k = g.1
          · rw [if_pos hgk, ← hgk, hfresh] at hmembers
            exact .inr (Prod.ext hgk.symm hmembers)
          · rw [if_neg hgk] at hmembers
            exact .inl (ih.2 ⟨hmembers, hne⟩)

/-- A key has a group if it has an element. -/
theorem exists_group {l : List α} {a : α} {k : κ} (ha : a ∈ l) (hk : key a = some k) :
    (k, members key l k) ∈ groups key l := by
  refine mem_groups.2 ⟨rfl, ?_⟩
  exact List.ne_nil_of_mem (mem_members.2 ⟨ha, hk⟩)

/-- The groups in the order of their keys. -/
def sorted [LinearOrder κ] (key : α → Option κ) (l : List α) : List (κ × List α) :=
  (groups key l).insertionSort fun g g' => g.1 ≤ g'.1

section Sorted

variable [LinearOrder κ]

theorem mem_sorted {l : List α} {g : κ × List α} : g ∈ sorted key l ↔ g ∈ groups key l :=
  List.mem_insertionSort _

theorem sorted_pairwise (key : α → Option κ) (l : List α) :
    (sorted key l).Pairwise fun g g' => g.1 < g'.1 := by
  have hle : (sorted key l).Pairwise fun g g' => g.1 ≤ g'.1 := by
    have htotal : Std.Total fun g g' : κ × List α => g.1 ≤ g'.1 :=
      ⟨fun g g' => le_total g.1 g'.1⟩
    have htrans : IsTrans (κ × List α) fun g g' => g.1 ≤ g'.1 := ⟨fun _ _ _ => le_trans⟩
    exact List.pairwise_insertionSort _ _
  have hne : (sorted key l).Pairwise fun g g' => g.1 ≠ g'.1 := by
    have hkeys : ((sorted key l).map Prod.fst).Nodup :=
      ((List.perm_insertionSort _ _).map Prod.fst).nodup_iff.2 (keys_nodup key l)
    exact List.pairwise_map.1 hkeys
  exact (hle.and hne).imp fun h => lt_of_le_of_ne h.1 h.2

end Sorted

end Lib.Groups
