import Mathlib.Data.List.Infix

/-! # Searching for a marker

The first occurrence of a marker in a text of any symbols.

* `index_eq_none_iff`, `index_append_of_infix`: the search finds a marker that is there, and does
  not look beyond its first occurrence;
* `index_append`: a marker whose first symbol does not come again in it is found where it was put,
  if the text in front of it has none: the two cannot overlap;
* `infix_around_iff`: a marker is found on one side of a symbol that it does not have.
-/

namespace Lib.Marker

variable {α : Type} [DecidableEq α]

/-- Where the marker is found first. -/
def index (m : List α) : List α → Option Nat
  | [] => if m = [] then some 0 else none
  | c :: s => if m.isPrefixOf (c :: s) then some 0 else (index m s).map (· + 1)

def contains (m s : List α) : Bool := (index m s).isSome

theorem index_eq_none_iff {m s : List α} : index m s = none ↔ ¬m <:+: s := by
  induction s with
  | nil => by_cases hm : m = [] <;> simp [index, hm]
  | cons c s ih =>
    rw [List.infix_cons_iff, index]
    by_cases hp : m <+: c :: s
    · simp [hp]
    · simp [hp, ih]

theorem contains_iff {m s : List α} : contains m s = true ↔ m <:+: s := by
  rw [contains, ← Option.ne_none_iff_isSome, Ne, index_eq_none_iff, not_not]

theorem contains_eq_false_iff {m s : List α} : contains m s = false ↔ ¬m <:+: s := by
  rw [← contains_iff, Bool.not_eq_true]

/-- What is found lies inside the text. -/
theorem index_le {m s : List α} {i : Nat} (h : index m s = some i) : i + m.length ≤ s.length := by
  induction s generalizing i with
  | nil =>
    by_cases hm : m = []
    · simp only [index, hm, if_true, Option.some.injEq] at h
      subst h
      simp [hm]
    · simp [index, hm] at h
  | cons c s ih =>
    rw [index] at h
    by_cases hp : m <+: c :: s
    · rw [if_pos (List.isPrefixOf_iff_prefix.2 hp)] at h
      obtain rfl := Option.some.inj h
      simpa using hp.length_le
    · rw [if_neg (mt List.isPrefixOf_iff_prefix.1 hp)] at h
      obtain ⟨j, hj, rfl⟩ := Option.map_eq_some_iff.1 h
      have := ih hj
      simp only [List.length_cons]
      omega

theorem index_append_of_infix {m s : List α} (h : m <:+: s) (t : List α) :
    index m (s ++ t) = index m s := by
  induction s with
  | nil =>
    obtain rfl := List.infix_nil.1 h
    cases t <;> simp [index]
  | cons c s ih =>
    rw [List.cons_append, index, index]
    by_cases hp : m <+: c :: s
    · have hpt : m <+: c :: (s ++ t) := hp.trans (List.prefix_append (c :: s) t)
      rw [if_pos (List.isPrefixOf_iff_prefix.2 hpt), if_pos (List.isPrefixOf_iff_prefix.2 hp)]
    · have hs : m <:+: s := (List.infix_cons_iff.1 h).resolve_left hp
      -- a marker that ends beyond the text would be longer than the text that has it
      have hpt : ¬m <+: c :: (s ++ t) := fun hpt =>
        hp (List.prefix_of_prefix_length_le hpt (List.prefix_append (c :: s) t)
          (hs.length_le.trans (by simp)))
      rw [if_neg (mt List.isPrefixOf_iff_prefix.1 hpt), if_neg (mt List.isPrefixOf_iff_prefix.1 hp),
        ih hs]

theorem index_append {c : α} {m pre : List α} (hc : c ∉ m) (hpre : ¬c :: m <:+: pre)
    (rest : List α) : index (c :: m) (pre ++ (c :: m ++ rest)) = some pre.length := by
  induction pre with
  | nil => simp [index]
  | cons d pre ih =>
    obtain ⟨hp, hs⟩ := not_or.1 (mt List.infix_cons_iff.2 hpre)
    have hno : ¬c :: m <+: d :: pre ++ (c :: m ++ rest) := by
      intro h
      rcases List.prefix_or_prefix_of_prefix h (List.prefix_append (d :: pre) _) with hm | hm
      · exact hp hm
      -- the marker would begin in front of its place and reach into it
      · obtain ⟨t, ht⟩ := hm
        rw [← ht, List.prefix_append_right_inj] at h
        cases t with
        | nil =>
          rw [List.append_nil] at ht
          exact hp (ht ▸ List.prefix_refl _)
        | cons e t =>
          obtain ⟨rfl, -⟩ := List.cons_prefix_cons.1 h
          obtain ⟨rfl, rfl⟩ := List.cons.inj ht
          exact hc (List.mem_append_right pre List.mem_cons_self)
    rw [List.cons_append] at hno ⊢
    rw [index, if_neg (mt List.isPrefixOf_iff_prefix.1 hno), ih hs, List.length_cons]
    rfl

omit [DecidableEq α] in
theorem infix_around_iff {n : α} {m x y : List α} (hn : n ∉ m) (hm : m ≠ []) :
    m <:+: x ++ n :: y ↔ m <:+: x ∨ m <:+: y := by
  constructor
  · rintro ⟨u, v, h⟩
    rw [List.append_assoc] at h
    rcases List.append_eq_append_iff.1 h with ⟨a, rfl, ha⟩ | ⟨a, rfl, ha⟩
    · rcases List.append_eq_append_iff.1 ha with ⟨b, rfl, -⟩ | ⟨b, rfl, hb⟩
      · exact .inl ⟨u, b, by rw [List.append_assoc]⟩
      · cases b with
        | nil => exact .inl ⟨u, [], by simp⟩
        | cons e b =>
          obtain ⟨rfl, -⟩ := List.cons.inj hb
          exact absurd (List.mem_append_right a List.mem_cons_self) hn
    · cases a with
      | nil =>
        rw [List.nil_append] at ha
        cases m with
        | nil => exact absurd rfl hm
        | cons e m =>
          obtain ⟨rfl, -⟩ := List.cons.inj ha
          exact absurd List.mem_cons_self hn
      | cons e a =>
        obtain ⟨-, rfl⟩ := List.cons.inj ha
        exact .inr ⟨a, v, List.append_assoc a m v⟩
  · rintro (h | h)
    · exact h.trans (List.prefix_append x _).isInfix
    · exact h.trans ((List.suffix_cons n y).trans (List.suffix_append x _)).isInfix

end Lib.Marker
