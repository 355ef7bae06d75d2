import Mathlib.Algebra.GroupWithZero.Nat
import Mathlib.Logic.Basic
import Mathlib.Data.List.Basic

/-! # One party of many moves

The parties of a system are a list, and a step replaces the one at its place.

* `exists_iff`, `exists_set_iff`: what some party does, the mover does or another one;
* `forall_set`: what all do, the mover does and did every party before;
* `map_set`: what a move leaves of its mover, it leaves of all;
* `sum_set_lt`: a sum over the parties falls with the share of the mover;
* `Apart`: what any two parties at different places keep to each other.
-/

namespace Lib.Parties

universe u v

variable {α : Type u} {l : List α} {i : Nat} {a : α} {p : α → Prop}

/-- A party at another place does. -/
def Other (l : List α) (i : Nat) (p : α → Prop) : Prop :=
  ∃ j x, j ≠ i ∧ l[j]? = some x ∧ p x

theorem exists_iff (h : l[i]? = some a) : (∃ x ∈ l, p x) ↔ p a ∨ Other l i p := by
  constructor
  · rintro ⟨x, hx, hp⟩
    rcases List.mem_iff_getElem?.1 hx with ⟨j, hj⟩
    by_cases hji : j = i
    · subst hji
      obtain rfl : a = x := Option.some.inj (h.symm.trans hj)
      exact .inl hp
    · exact .inr ⟨j, x, hji, hj, hp⟩
  · rintro (hp | ⟨j, x, -, hj, hp⟩)
    · exact ⟨a, List.mem_of_getElem? h, hp⟩
    · exact ⟨x, List.mem_of_getElem? hj, hp⟩

theorem getElem?_set (h : l[i]? = some a) (b : α) : (l.set i b)[i]? = some b :=
  List.getElem?_set_self (List.getElem?_eq_some_iff.1 h).1

/-- After one has joined, a party was there before or is the one that joined. -/
theorem getElem?_concat {x z : α} (h : (l ++ [z])[i]? = some x) : l[i]? = some x ∨ x = z := by
  rcases Nat.lt_or_ge i l.length with hlt | hge
  · rw [List.getElem?_append_left hlt] at h
    exact .inl h
  · rw [List.getElem?_append_right hge] at h
    exact .inr (List.mem_singleton.1 (List.mem_of_getElem? h))

/-- After a move, a party is the one that moved or stands where it stood. -/
theorem getElem?_of_set {j : Nat} {b x : α} (h : (l.set i b)[j]? = some x) :
    j = i ∧ x = b ∨ j ≠ i ∧ l[j]? = some x := by
  by_cases hji : j = i
  · subst hji
    have hlt := (List.getElem?_eq_some_iff.1 h).1
    rw [List.length_set] at hlt
    rw [List.getElem?_set_self hlt] at h
    exact .inl ⟨rfl, (Option.some.inj h).symm⟩
  · rw [List.getElem?_set_ne (Ne.symm hji)] at h
    exact .inr ⟨hji, h⟩

theorem exists_set_iff (h : l[i]? = some a) (b : α) :
    (∃ x ∈ l.set i b, p x) ↔ p b ∨ Other l i p := by
  have hother : Other (l.set i b) i p ↔ Other l i p := by
    constructor
    · rintro ⟨j, x, hji, hj, hp⟩
      rw [List.getElem?_set_ne (Ne.symm hji)] at hj
      exact ⟨j, x, hji, hj, hp⟩
    · rintro ⟨j, x, hji, hj, hp⟩
      rw [← List.getElem?_set_ne (Ne.symm hji)] at hj
      exact ⟨j, x, hji, hj, hp⟩
  rw [exists_iff (getElem?_set h b), hother]

/-- Whoever is not the mover stays. -/
theorem mem_set_iff (h : l[i]? = some a) {b x : α} (ha : x ≠ a) (hb : x ≠ b) :
    x ∈ l.set i b ↔ x ∈ l := by
  have hset := exists_set_iff (p := (· = x)) h b
  have hold := exists_iff (p := (· = x)) h
  simp only [exists_eq_right, ha.symm, hb.symm, false_or] at hset hold
  exact hset.trans hold.symm

theorem forall_set (b : α) (hb : p b) (h : ∀ x ∈ l, p x) : ∀ x ∈ l.set i b, p x := by
  intro x hx
  rcases List.mem_or_eq_of_mem_set hx with hx | rfl
  · exact h x hx
  · exact hb

/-- What the move leaves of its mover, it leaves of all. -/
theorem map_set {β : Type v} {f : α → β} (h : l[i]? = some a) {b : α} (hf : f b = f a) :
    (l.set i b).map f = l.map f := by
  obtain ⟨hlt, rfl⟩ := List.getElem?_eq_some_iff.1 h
  have hmap : i < (l.map f).length := by simpa using hlt
  have hat : (l.map f)[i] = f b := by rw [List.getElem_map, hf]
  rw [List.map_set, ← hat, List.set_getElem_self]

/-- What a move takes from its mover's share of a sum, it takes from the sum. -/
theorem sum_set_lt {f : α → Nat} (h : l[i]? = some a) {b : α} (hlt : f b < f a) :
    ((l.set i b).map f).sum < (l.map f).sum := by
  induction l generalizing i with
  | nil => simp at h
  | cons x l ih =>
    cases i with
    | zero =>
      obtain rfl : x = a := by simpa using h
      simp only [List.set_cons_zero, List.map_cons, List.sum_cons]
      omega
    | succ i =>
      have hrest := ih (i := i) (by simpa using h)
      simp only [List.set_cons_succ, List.map_cons, List.sum_cons]
      omega

/-! ## Two parties -/

variable {r : α → α → Prop}

/-- Any two parties at different places are related. -/
def Apart (r : α → α → Prop) (l : List α) : Prop :=
  ∀ (i j : Nat) (x y : α), i ≠ j → l[i]? = some x → l[j]? = some y → r x y

theorem apart_nil : Apart r [] := by
  intro i j x y _ hx
  simp at hx

theorem Apart.concat (h : Apart r l) {z : α} (hz : ∀ x ∈ l, r x z ∧ r z x) :
    Apart r (l ++ [z]) := by
  have hold : ∀ {i x}, (l ++ [z])[i]? = some x → i ≠ l.length → l[i]? = some x := by
    intro i x hi hne
    have hlt : i < l.length := by
      have hle := (List.getElem?_eq_some_iff.1 hi).1
      rw [List.length_append, List.length_singleton] at hle
      omega
    rwa [List.getElem?_append_left hlt] at hi
  have hlast : (l ++ [z])[l.length]? = some z := by
    rw [List.getElem?_append_right (Nat.le_refl _), Nat.sub_self]
    rfl
  intro i j x y hij hi hj
  by_cases hin : i = l.length
  · subst hin
    obtain rfl : z = x := Option.some.inj (hlast.symm.trans hi)
    exact (hz y (List.mem_of_getElem? (hold hj (Ne.symm hij)))).2
  · by_cases hjn : j = l.length
    · subst hjn
      obtain rfl : z = y := Option.some.inj (hlast.symm.trans hj)
      exact (hz x (List.mem_of_getElem? (hold hi hin))).1
    · exact h i j x y hij (hold hi hin) (hold hj hjn)

theorem Apart.set (h : Apart r l) (hi : l[i]? = some a) {b : α}
    (hb : ∀ x ∈ l, r a x → r x a → r b x ∧ r x b) : Apart r (l.set i b) := by
  intro j k x y hjk hj hk
  by_cases hji : j = i
  · subst hji
    obtain rfl : b = x := Option.some.inj ((getElem?_set hi b).symm.trans hj)
    rw [List.getElem?_set_ne hjk] at hk
    exact (hb y (List.mem_of_getElem? hk) (h j k a y hjk hi hk) (h k j y a (Ne.symm hjk) hk hi)).1
  · rw [List.getElem?_set_ne (Ne.symm hji)] at hj
    by_cases hki : k = i
    · subst hki
      obtain rfl : b = y := Option.some.inj ((getElem?_set hi b).symm.trans hk)
      exact (hb x (List.mem_of_getElem? hj) (h k j a x (Ne.symm hji) hi hj)
        (h j k x a hji hj hi)).2
    · rw [List.getElem?_set_ne (Ne.symm hki)] at hk
      exact h j k x y hjk hj hk

theorem Apart.map (h : Apart r l) {f : α → α} (hf : ∀ x y, r x y → r (f x) (f y)) :
    Apart r (l.map f) := by
  intro i j x y hij hi hj
  rw [List.getElem?_map, Option.map_eq_some_iff] at hi hj
  rcases hi with ⟨x, hx, rfl⟩
  rcases hj with ⟨y, hy, rfl⟩
  exact hf x y (h i j x y hij hx hy)

theorem Apart.imp (h : Apart r l) {r' : α → α → Prop} (hr : ∀ x y, r x y → r' x y) :
    Apart r' l :=
  fun i j x y hij hi hj => hr x y (h i j x y hij hi hj)

theorem Apart.and (h : Apart r l) {r' : α → α → Prop} (h' : Apart r' l) :
    Apart (fun x y => r x y ∧ r' x y) l :=
  fun i j x y hij hi hj => ⟨h i j x y hij hi hj, h' i j x y hij hi hj⟩

theorem Apart.pairwise (h : Apart r l) : l.Pairwise r := by
  rw [List.pairwise_iff_getElem]
  intro i j hi hj hij
  exact h i j l[i] l[j] (Nat.ne_of_lt hij) (List.getElem?_eq_getElem hi)
    (List.getElem?_eq_getElem hj)

end Lib.Parties
