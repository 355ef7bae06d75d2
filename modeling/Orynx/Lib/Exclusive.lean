import Mathlib.Data.List.Basic

/-! # At most one active party

Parties are the elements of a list and are addressed by their positions. `AtMostOne` is
mutual exclusion; it is kept by a party that joins inactive, by one that does not become
active, and by one that becomes active when nobody is.
-/

namespace Lib

universe u

variable {α : Type u} {p : α → Bool} {l : List α}

/-- No two positions hold active parties. -/
def AtMostOne (p : α → Bool) (l : List α) : Prop :=
  ∀ (i j : Nat) (x y : α), l[i]? = some x → l[j]? = some y → p x = true → p y = true → i = j

theorem atMostOne_nil : AtMostOne p [] := by
  intro i j x y hx
  simp at hx

theorem AtMostOne.append (h : AtMostOne p l) {z : α} (hz : p z = false) :
    AtMostOne p (l ++ [z]) := by
  -- an active party stands among the old ones
  have hold : ∀ (i : Nat) (x : α), (l ++ [z])[i]? = some x → p x = true → l[i]? = some x := by
    intro i x hi hx
    rcases Nat.lt_or_ge i l.length with hlt | hge
    · rwa [List.getElem?_append_left hlt] at hi
    · rw [List.getElem?_append_right hge] at hi
      have hxz : x = z := by simpa using List.mem_of_getElem? hi
      rw [hxz, hz] at hx
      simp at hx
  intro i j x y hi hj hx hy
  exact h i j x y (hold i x hi hx) (hold j y hj hy) hx hy

theorem AtMostOne.append_of_none (hnone : ∀ x ∈ l, p x = false) (z : α) :
    AtMostOne p (l ++ [z]) := by
  have hplace : ∀ (i : Nat) (x : α), (l ++ [z])[i]? = some x → p x = true → i = l.length := by
    intro i x hi hx
    rcases Nat.lt_or_ge i l.length with hlt | hge
    · rw [List.getElem?_append_left hlt] at hi
      rw [hnone x (List.mem_of_getElem? hi)] at hx
      simp at hx
    · have hlt := (List.getElem?_eq_some_iff.1 hi).1
      rw [List.length_append, List.length_singleton] at hlt
      omega
  intro i j x y hi hj hx hy
  rw [hplace i x hi hx, hplace j y hj hy]

theorem AtMostOne.set (h : AtMostOne p l) {i : Nat} {x z : α} (hi : l[i]? = some x)
    (hz : p z = true → p x = true) : AtMostOne p (l.set i z) := by
  -- wherever a party is active, the old one was
  have hold : ∀ (j : Nat) (y : α), (l.set i z)[j]? = some y → p y = true →
      ∃ y', l[j]? = some y' ∧ p y' = true := by
    intro j y hj hy
    rcases eq_or_ne i j with rfl | hij
    · have hy' : z = y := by
        rw [List.getElem?_set_self (List.getElem?_eq_some_iff.1 hi).1] at hj
        exact Option.some.inj hj
      exact ⟨x, hi, hz (hy' ▸ hy)⟩
    · rw [List.getElem?_set_ne hij] at hj
      exact ⟨y, hj, hy⟩
  intro j k y y' hj hk hy hy'
  rcases hold j y hj hy with ⟨a, hja, ha⟩
  rcases hold k y' hk hy' with ⟨b, hkb, hb⟩
  exact h j k a b hja hkb ha hb

theorem AtMostOne.set_of_none (hnone : ∀ x ∈ l, p x = false) (i : Nat) (z : α) :
    AtMostOne p (l.set i z) := by
  have hplace : ∀ (j : Nat) (y : α), (l.set i z)[j]? = some y → p y = true → i = j := by
    intro j y hj hy
    by_contra hij
    rw [List.getElem?_set_ne hij] at hj
    rw [hnone y (List.mem_of_getElem? hj)] at hy
    simp at hy
  intro j k y y' hj hk hy hy'
  exact (hplace j y hj hy).symm.trans (hplace k y' hk hy')

/-- When the active party moves, all the others are inactive. -/
theorem AtMostOne.mem_set (h : AtMostOne p l) {i : Nat} {x z y : α} (hi : l[i]? = some x)
    (hx : p x = true) (hy : y ∈ l.set i z) : y = z ∨ (y ∈ l ∧ p y = false) := by
  rcases List.mem_iff_getElem?.1 hy with ⟨j, hj⟩
  rcases eq_or_ne i j with rfl | hij
  · rw [List.getElem?_set_self (List.getElem?_eq_some_iff.1 hi).1] at hj
    exact .inl (Option.some.inj hj).symm
  · rw [List.getElem?_set_ne hij] at hj
    refine .inr ⟨List.mem_of_getElem? hj, ?_⟩
    by_contra hactive
    rw [Bool.not_eq_false] at hactive
    exact hij (h i j x y hi hj hx hactive)

end Lib
