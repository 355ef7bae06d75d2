import Mathlib.Data.Finmap

/-! # Directory trees

A tree of named entries, kept as a finite map from paths. A path is the list of its names with the
leaf in front, so that the parent of `n :: d` is `d` and the directories above a path are its
suffixes. The map carries its own well-formedness: the root is a directory, and whatever has a path
stands in one.

* `get_add`, `get_remove`: an entry is added at a free place and removed when nothing is in it.
* `undo_spec`: directories recorded in the order in which they were made and removed in reverse are
  all gone, but for those that something else was put into.
-/

universe u v

namespace Lib

/-- A directory, or anything that has no entries of its own. -/
inductive Entry (D : Type v) where
  | dir
  | leaf (data : D)
deriving DecidableEq, Repr

structure FileTree (N : Type u) (D : Type v) [DecidableEq N] where
  entries : Finmap fun _ : List N => Entry D
  root : entries.lookup [] = some .dir
  rooted : ∀ n d e, entries.lookup (n :: d) = some e → entries.lookup d = some .dir

namespace FileTree

variable {N : Type u} {D : Type v} [DecidableEq N]

def get (t : FileTree N D) (p : List N) : Option (Entry D) := t.entries.lookup p

theorem get_root (t : FileTree N D) : t.get [] = some .dir := t.root

theorem get_parent {t : FileTree N D} {n : N} {d : List N} {e : Entry D}
    (h : t.get (n :: d) = some e) : t.get d = some .dir := t.rooted n d e h

@[ext] theorem ext {t t' : FileTree N D} (h : ∀ p, t.get p = t'.get p) : t = t' := by
  cases t with
  | mk entries root rooted =>
    cases t' with
    | mk entries' root' rooted' =>
      cases (Finmap.ext_lookup h : entries = entries')
      rfl

/-- Every directory above an entry is there. -/
theorem get_of_suffix {t : FileTree N D} {d p : List N} {e : Entry D} (h : t.get p = some e)
    (hd : d <:+ p) (hne : d ≠ p) : t.get d = some .dir := by
  induction p generalizing e with
  | nil => exact absurd (List.suffix_nil.1 hd) hne
  | cons n p ih =>
    have hp := get_parent h
    rcases List.suffix_cons_iff.1 hd with rfl | hd
    · exact absurd rfl hne
    · by_cases heq : d = p
      · rw [heq]
        exact hp
      · exact ih hp hd heq

def empty : FileTree N D where
  entries := Finmap.singleton [] .dir
  root := Finmap.lookup_singleton_eq
  rooted n d e h := by
    have hmem := Finmap.mem_of_lookup_eq_some h
    rw [Finmap.mem_singleton] at hmem
    cases hmem

/-! ### Adding an entry -/

/-- A new entry in a directory, at a name that is free. -/
def add (t : FileTree N D) (n : N) (d : List N) (e : Entry D)
    (h : t.get d = some .dir ∧ t.get (n :: d) = none) : FileTree N D where
  entries := t.entries.insert (n :: d) e
  root := by
    rw [Finmap.lookup_insert_of_ne]
    · exact t.root
    · exact (List.cons_ne_nil n d).symm
  rooted m c e' hc := by
    -- the new entry is in nobody's way: what stands below it would stand in no directory
    have hd : d ≠ n :: d := fun hcycle => by
      have hlen := congrArg List.length hcycle
      simp at hlen
    by_cases hnew : m :: c = n :: d
    · cases hnew
      rw [Finmap.lookup_insert_of_ne _ hd]
      exact h.1
    · rw [Finmap.lookup_insert_of_ne _ hnew] at hc
      have hparent : t.get c = some .dir := t.rooted m c e' hc
      have hne : c ≠ n :: d := by
        rintro rfl
        rw [h.2] at hparent
        cases hparent
      rw [Finmap.lookup_insert_of_ne _ hne]
      exact hparent

theorem get_add {t : FileTree N D} {n : N} {d : List N} {e : Entry D}
    {h : t.get d = some .dir ∧ t.get (n :: d) = none} (p : List N) :
    (t.add n d e h).get p = if p = n :: d then some e else t.get p := by
  by_cases hp : p = n :: d
  · rw [if_pos hp, hp]
    exact Finmap.lookup_insert _
  · rw [if_neg hp]
    exact Finmap.lookup_insert_of_ne _ hp

/-- An entry put at a path, where that can be done. -/
def put? [DecidableEq D] (t : FileTree N D) (p : List N) (e : Entry D) : Option (FileTree N D) :=
  match p with
  | [] => none
  | n :: d =>
    if h : t.get d = some .dir ∧ t.get (n :: d) = none then some (t.add n d e h) else none

theorem put?_eq_some [DecidableEq D] {t t' : FileTree N D} {p : List N} {e : Entry D}
    (h : t.put? p e = some t') :
    t.get p = none ∧ ∀ q, t'.get q = if q = p then some e else t.get q := by
  cases p with
  | nil => cases h
  | cons n d =>
    dsimp only [put?] at h
    by_cases hfree : t.get d = some .dir ∧ t.get (n :: d) = none
    · rw [dif_pos hfree] at h
      cases h
      exact ⟨hfree.2, get_add⟩
    · rw [dif_neg hfree] at h
      cases h

theorem put?_isSome [DecidableEq D] {t : FileTree N D} {n : N} {d : List N} (e : Entry D)
    (hd : t.get d = some .dir) (hfree : t.get (n :: d) = none) :
    ∃ t', t.put? (n :: d) e = some t' := by
  refine ⟨t.add n d e ⟨hd, hfree⟩, ?_⟩
  unfold put?
  exact dif_pos ⟨hd, hfree⟩

theorem put?_eq_none [DecidableEq D] {t : FileTree N D} {n : N} {d : List N} (e : Entry D)
    (hd : t.get d ≠ some .dir) : t.put? (n :: d) e = none := by
  dsimp only [put?]
  exact dif_neg fun h => hd h.1

/-! ### Removing one -/

/-- Whether nothing stands directly in a place. -/
def isBare (t : FileTree N D) (p : List N) : Prop :=
  ∀ q ∈ t.entries.keys, q ≠ [] → q.tail ≠ p

instance (t : FileTree N D) (p : List N) : Decidable (t.isBare p) :=
  inferInstanceAs (Decidable (∀ q ∈ t.entries.keys, q ≠ [] → q.tail ≠ p))

theorem isBare_iff {t : FileTree N D} {p : List N} : t.isBare p ↔ ∀ n, t.get (n :: p) = none := by
  constructor
  · intro h n
    rw [get, Finmap.lookup_eq_none, ← Finmap.mem_keys]
    exact fun hmem => h _ hmem (List.cons_ne_nil _ _) rfl
  · intro h q hq hne htail
    cases q with
    | nil => exact hne rfl
    | cons n d =>
      cases htail
      have hnone := h n
      rw [get, Finmap.lookup_eq_none, ← Finmap.mem_keys] at hnone
      exact hnone hq

/-- What is removed is not the root, and nothing stands in it. -/
def remove? (t : FileTree N D) (p : List N) : Option (FileTree N D) :=
  if h : p ≠ [] ∧ t.get p ≠ none ∧ t.isBare p then
    some
      { entries := t.entries.erase p
        root := by
          rw [Finmap.lookup_erase_ne h.1.symm]
          exact t.root
        rooted := by
          intro n d e hd
          have hne : n :: d ≠ p := by
            rintro rfl
            rw [Finmap.lookup_erase] at hd
            cases hd
          rw [Finmap.lookup_erase_ne hne] at hd
          have hparent : d ≠ p := by
            rintro rfl
            have hnone := isBare_iff.1 h.2.2 n
            rw [get, hd] at hnone
            cases hnone
          rw [Finmap.lookup_erase_ne hparent]
          exact t.rooted n d e hd }
  else none

theorem get_remove {t t' : FileTree N D} {p : List N} (h : t.remove? p = some t') (q : List N) :
    t'.get q = if q = p then none else t.get q := by
  unfold remove? at h
  by_cases hp : p ≠ [] ∧ t.get p ≠ none ∧ t.isBare p
  · rw [dif_pos hp] at h
    cases h
    by_cases hq : q = p
    · rw [if_pos hq, hq]
      exact Finmap.lookup_erase _ _
    · rw [if_neg hq]
      exact Finmap.lookup_erase_ne hq
  · rw [dif_neg hp] at h
    cases h

theorem remove?_eq_none {t : FileTree N D} {p : List N} (h : t.remove? p = none) :
    p = [] ∨ t.get p = none ∨ ¬ t.isBare p := by
  unfold remove? at h
  by_cases hp : p ≠ [] ∧ t.get p ≠ none ∧ t.isBare p
  · rw [dif_pos hp] at h
    cases h
  · by_contra hall
    simp only [not_or, not_not] at hall
    exact hp ⟨hall.1, hall.2.1, hall.2.2⟩

/-- Removal where it is possible, and nothing where it is not. -/
def drop (t : FileTree N D) (p : List N) : FileTree N D := (t.remove? p).getD t

theorem get_drop_ne (t : FileTree N D) {p q : List N} (h : q ≠ p) :
    (t.drop p).get q = t.get q := by
  unfold drop
  cases hremove : t.remove? p with
  | none => rfl
  | some t' =>
    rw [Option.getD_some, get_remove hremove, if_neg h]

theorem get_drop (t : FileTree N D) {p : List N} (hne : p ≠ []) (hbare : t.isBare p) :
    (t.drop p).get p = none := by
  unfold drop
  cases hremove : t.remove? p with
  | none =>
    rcases remove?_eq_none hremove with h | h | h
    · exact absurd h hne
    · exact h
    · exact absurd hbare h
  | some t' => rw [Option.getD_some, get_remove hremove, if_pos rfl]

/-- A leaf has nothing in it. -/
theorem isBare_of_leaf {t : FileTree N D} {p : List N} {data : D}
    (h : t.get p = some (.leaf data)) : t.isBare p := by
  rw [isBare_iff]
  intro n
  cases hchild : t.get (n :: p) with
  | none => rfl
  | some e =>
    rw [get_parent hchild] at h
    cases h

/-! ### Undoing a record -/

/-- The recorded paths removed one after another, the last first. -/
def undo (t : FileTree N D) (record : List (List N)) : FileTree N D :=
  record.foldr (fun p t => t.drop p) t

theorem get_undo_of_not_mem (t : FileTree N D) {record : List (List N)} {p : List N}
    (h : p ∉ record) : (t.undo record).get p = t.get p := by
  induction record with
  | nil => rfl
  | cons q rest ih =>
    have hne : p ≠ q := fun heq => h (heq ▸ List.mem_cons_self)
    have hrest : p ∉ rest := fun hmem => h (List.mem_cons_of_mem _ hmem)
    show ((t.undo rest).drop q).get p = t.get p
    rw [get_drop_ne _ hne, ih hrest]

theorem get_undo_of_none (t : FileTree N D) (record : List (List N)) {p : List N}
    (h : t.get p = none) : (t.undo record).get p = none := by
  induction record with
  | nil => exact h
  | cons q rest ih =>
    show ((t.undo rest).drop q).get p = none
    by_cases hq : p = q
    · unfold drop
      cases hremove : (t.undo rest).remove? q with
      | none => exact ih
      | some t' => rw [Option.getD_some, get_remove hremove, if_pos hq]
    · rw [get_drop_ne _ hq, ih]

/-- What stands in a recorded directory is recorded after it or is kept; then a directory with
nothing kept below it is removed. -/
theorem undo_spec {t : FileTree N D} {record : List (List N)} (kept : List N → Prop)
    (hroot : [] ∉ record) (hordered : record.Pairwise fun d d' => ¬ d' <:+ d)
    (hchild : ∀ n d, d ∈ record → t.get (n :: d) ≠ none → n :: d ∈ record ∨ kept (n :: d)) :
    ∀ d ∈ record, (∀ q, kept q → d <:+ q → t.get q = none) → (t.undo record).get d = none := by
  induction record with
  | nil => intro d hd; cases hd
  | cons d₀ rest ih =>
    rw [List.pairwise_cons] at hordered
    have hchild' : ∀ n d, d ∈ rest → t.get (n :: d) ≠ none → n :: d ∈ rest ∨ kept (n :: d) := by
      intro n d hd hget
      rcases hchild n d (List.mem_cons_of_mem _ hd) hget with hmem | hkept
      · rcases List.mem_cons.1 hmem with heq | hmem
        · exact absurd (heq ▸ List.suffix_cons n d) (hordered.1 d hd)
        · exact Or.inl hmem
      · exact Or.inr hkept
    have ih := ih (fun h => hroot (List.mem_cons_of_mem _ h)) hordered.2 hchild'
    intro d hd hkept
    show ((t.undo rest).drop d₀).get d = none
    by_cases heq : d = d₀
    · -- everything in the directory has gone before it
      rw [← heq] at hroot hchild ⊢
      refine get_drop _ (fun h => hroot (h ▸ List.mem_cons_self)) (isBare_iff.2 ?_)
      intro n
      by_cases hget : t.get (n :: d) = none
      · exact get_undo_of_none t rest hget
      rcases hchild n d List.mem_cons_self hget with hmem | hk
      · rcases List.mem_cons.1 hmem with hcycle | hmem
        · have hlen := congrArg List.length hcycle
          simp at hlen
        · exact ih (n :: d) hmem fun q hq hsuffix =>
            hkept q hq ((List.suffix_cons n d).trans hsuffix)
      · exact absurd (hkept _ hk (List.suffix_cons n d)) hget
    · rcases List.mem_cons.1 hd with rfl | hmem
      · exact absurd rfl heq
      · rw [get_drop_ne _ heq]
        exact ih d hmem hkept

end FileTree

end Lib
