import Mathlib.Data.List.Basic
import Mathlib.Data.List.Nodup

/-! # Records

A map from strings that remembers the order in which its keys have come: a key that is set again
keeps its place.

* `get?_eq_some`: what is got is what is in it;
* `mem_set`, `forall_set`: what is in it after a key has been set;
* `filterMap_self`: a pass that keeps every entry gives the record itself;
* `get?_filterMap`, `get?_erase`: what is got after a pass, and after a key has been removed.
-/

namespace Lib

universe u v

structure Record (α : Type u) where
  entries : List (String × α)
  nodup : (entries.map Prod.fst).Nodup

namespace Record

variable {α : Type u} {β : Type v} {r : Record α} {k : String} {a : α}

@[ext] theorem ext {r r' : Record α} (h : r.entries = r'.entries) : r = r' := by
  cases r
  cases r'
  simpa using h

def empty : Record α := ⟨[], List.nodup_nil⟩

def keys (r : Record α) : List String := r.entries.map Prod.fst

def get? (r : Record α) (k : String) : Option α :=
  (r.entries.find? fun e => e.1 == k).map Prod.snd

theorem get?_eq_some : r.get? k = some a ↔ (k, a) ∈ r.entries := by
  constructor
  · intro h
    rcases Option.map_eq_some_iff.1 h with ⟨⟨k', a'⟩, hfind, rfl⟩
    obtain rfl : k' = k := by simpa using List.find?_some hfind
    exact List.mem_of_find?_eq_some hfind
  · intro hmem
    cases hfind : r.entries.find? fun e => e.1 == k with
    | none =>
      have hne := List.find?_eq_none.1 hfind (k, a) hmem
      simp at hne
    | some e =>
      have hkey : e.1 = k := by simpa using List.find?_some hfind
      have heq : e = (k, a) :=
        List.inj_on_of_nodup_map r.nodup (List.mem_of_find?_eq_some hfind) hmem hkey
      rw [get?, hfind, heq]
      rfl

theorem get?_eq_none : r.get? k = none ↔ ∀ e ∈ r.entries, e.1 ≠ k := by
  simp [get?, List.find?_eq_none]

/-! ## Changes -/

/-- `{ ...r, [k]: a }`. -/
def set (r : Record α) (k : String) (a : α) : Record α :=
  if h : k ∈ r.entries.map Prod.fst then
    { entries := r.entries.map fun e => if e.1 = k then (k, a) else e
      nodup := by
        have hkeys : (r.entries.map fun e => if e.1 = k then (k, a) else e).map Prod.fst =
            r.entries.map Prod.fst := by
          rw [List.map_map]
          refine List.map_congr_left fun e _ => ?_
          by_cases hk : e.1 = k
          · simp [hk]
          · simp [hk]
        rw [hkeys]
        exact r.nodup }
  else
    { entries := r.entries ++ [(k, a)]
      nodup := by
        rw [List.map_append, List.nodup_append]
        refine ⟨r.nodup, List.nodup_singleton _, fun x hx y hy heq => h ?_⟩
        obtain rfl : y = k := by simpa using hy
        exact heq ▸ hx }

theorem mem_set {e : String × α} :
    e ∈ (r.set k a).entries ↔ e = (k, a) ∨ e.1 ≠ k ∧ e ∈ r.entries := by
  unfold set
  split
  · rename_i hk
    rw [List.mem_map]
    constructor
    · rintro ⟨e', he', rfl⟩
      by_cases hek : e'.1 = k
      · exact .inl (if_pos hek)
      · rw [if_neg hek]
        exact .inr ⟨hek, he'⟩
    · rintro (rfl | ⟨hek, he⟩)
      · rcases List.mem_map.1 hk with ⟨e', he', rfl⟩
        exact ⟨e', he', if_pos rfl⟩
      · exact ⟨e, he, if_neg hek⟩
  · rename_i hk
    rw [List.mem_append, List.mem_singleton, or_comm]
    refine or_congr_right ⟨fun he => ⟨fun hek => hk ?_, he⟩, And.right⟩
    exact hek ▸ List.mem_map_of_mem he

theorem get?_set (r : Record α) (k : String) (a : α) : (r.set k a).get? k = some a :=
  get?_eq_some.2 (mem_set.2 (.inl rfl))

theorem get?_set_ne {k' : String} (h : k' ≠ k) : (r.set k a).get? k' = r.get? k' := by
  apply Option.ext
  intro b
  rw [get?_eq_some, get?_eq_some, mem_set]
  constructor
  · rintro (heq | ⟨-, he⟩)
    · exact absurd (congrArg Prod.fst heq) h
    · exact he
  · exact fun he => .inr ⟨h, he⟩

/-- What holds of all entries and of the one that is set. -/
theorem forall_set {p : String → α → Prop} (h : ∀ e ∈ r.entries, p e.1 e.2) (ha : p k a) :
    ∀ e ∈ (r.set k a).entries, p e.1 e.2 := by
  intro e he
  rcases mem_set.1 he with rfl | ⟨-, he⟩
  · exact ha
  · exact h e he

/-- The entries that a pass keeps, under their keys. -/
def filterMap (r : Record α) (f : String → α → Option β) : Record β where
  entries := r.entries.filterMap fun e => (f e.1 e.2).map (e.1, ·)
  nodup := by
    have hsub : ((r.entries.filterMap fun e => (f e.1 e.2).map (e.1, ·)).map Prod.fst).Sublist
        (r.entries.map Prod.fst) := by
      induction r.entries with
      | nil => simp
      | cons e es ih =>
        cases hf : f e.1 e.2 with
        | none => simpa [List.filterMap_cons, hf] using ih.cons e.1
        | some b => simpa [List.filterMap_cons, hf] using ih
    exact r.nodup.sublist hsub

theorem mem_filterMap {f : String → α → Option β} {k : String} {b : β} :
    (k, b) ∈ (r.filterMap f).entries ↔ ∃ a, (k, a) ∈ r.entries ∧ f k a = some b := by
  rw [filterMap, List.mem_filterMap]
  constructor
  · rintro ⟨⟨k', a⟩, he, hf⟩
    rcases Option.map_eq_some_iff.1 hf with ⟨b', hb, heq⟩
    obtain ⟨rfl, rfl⟩ := Prod.mk.inj heq
    exact ⟨a, he, hb⟩
  · rintro ⟨a, he, hf⟩
    exact ⟨(k, a), he, by simp [hf]⟩

/-- Two passes, of which the second undoes the first. -/
theorem filterMap_self {f : String → α → Option β} {g : String → β → Option α}
    (h : ∀ e ∈ r.entries, (f e.1 e.2).bind (g e.1) = some e.2) :
    (r.filterMap f).filterMap g = r := by
  apply ext
  show (r.entries.filterMap fun e => (f e.1 e.2).map (e.1, ·)).filterMap
    (fun e => (g e.1 e.2).map (e.1, ·)) = r.entries
  rw [List.filterMap_filterMap]
  refine (List.filterMap_congr fun e he => ?_).trans List.filterMap_some
  rcases Option.bind_eq_some_iff.1 (h e he) with ⟨b, hf, hg⟩
  simp [hf, hg]

theorem get?_filterMap {f : String → α → Option β} :
    (r.filterMap f).get? k = (r.get? k).bind (f k) := by
  apply Option.ext
  intro b
  rw [get?_eq_some, mem_filterMap, Option.bind_eq_some_iff]
  simp only [get?_eq_some]

/-- `delete r[k]`. -/
def erase (r : Record α) (k : String) : Record α :=
  r.filterMap fun k' a => if k' = k then none else some a

theorem get?_erase (r : Record α) (k : String) : (r.erase k).get? k = none := by
  rw [erase, get?_filterMap]
  cases r.get? k with
  | none => rfl
  | some a => exact if_pos rfl

theorem get?_erase_ne {k' : String} (h : k' ≠ k) : (r.erase k).get? k' = r.get? k' := by
  rw [erase, get?_filterMap]
  cases r.get? k' with
  | none => rfl
  | some a => exact if_neg h

end Record

end Lib
