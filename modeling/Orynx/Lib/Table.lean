import Mathlib.Data.List.Nodup
import Mathlib.Data.List.Pairwise

/-! # Tables with a primary key and a partial unique index

A `Table` is a list of rows that carries its two integrity constraints as
fields: primary keys are distinct, and so are the index values of the rows the
partial index covers (`Schema.index` is `none` on the others). A statement is
executed by checking the constraints on the rows it would leave behind: `insert?`
and `update?` answer `none` exactly where the database reports a violation, and
no other table can be built.
-/

namespace Lib

universe u v w

/-- The primary key of a row, and its value in the partial unique index. -/
structure Schema (ρ : Type u) (ι : Type v) (κ : Type w) where
  key : ρ → ι
  index : ρ → Option κ

/-- Rows that satisfy the constraints of `S`. -/
structure Table {ρ : Type u} {ι : Type v} {κ : Type w} (S : Schema ρ ι κ) where
  rows : List ρ
  key_nodup : (rows.map S.key).Nodup
  index_nodup : (rows.filterMap S.index).Nodup

/-- An `UPDATE`: the rows it selects and what it sets them to. -/
structure Update (ρ : Type u) where
  sel : ρ → Bool
  set : ρ → ρ

/-- What an update does to one row. -/
def Update.apply {ρ : Type u} (u : Update ρ) (r : ρ) : ρ :=
  if u.sel r then u.set r else r

@[simp] theorem Update.apply_of_sel {ρ : Type u} {u : Update ρ} {r : ρ} (h : u.sel r = true) :
    u.apply r = u.set r := by
  simp [Update.apply, h]

@[simp] theorem Update.apply_of_not_sel {ρ : Type u} {u : Update ρ} {r : ρ}
    (h : u.sel r = false) : u.apply r = r := by
  simp [Update.apply, h]

/-- `picks` is an answer of `SELECT … WHERE elig ORDER BY before LIMIT limit FOR
UPDATE SKIP LOCKED` while the rows `locked` are held by other transactions; rows
that `before` does not separate may come in any order. -/
def admissiblePicks {ρ : Type u} {ι : Type v} [DecidableEq ι] (key : ρ → ι) (rows : List ρ)
    (elig : ρ → Bool) (before : ρ → ρ → Bool) (limit : Nat) (locked picks : List ι) : Bool :=
  let free := rows.filter fun r => elig r && !locked.contains (key r)
  let chosen := free.filter fun r => picks.contains (key r)
  decide picks.Nodup && picks.all (fun i => free.any fun r => key r == i) &&
    picks.length == min limit free.length &&
    free.all fun r => picks.contains (key r) || chosen.all fun c => !before r c

theorem admissiblePicks_mem {ρ : Type u} {ι : Type v} [DecidableEq ι] {key : ρ → ι}
    {rows : List ρ} {elig : ρ → Bool} {before : ρ → ρ → Bool} {limit : Nat}
    {locked picks : List ι} (h : admissiblePicks key rows elig before limit locked picks = true)
    {i : ι} (hi : i ∈ picks) : ∃ r ∈ rows, key r = i ∧ elig r = true ∧ i ∉ locked := by
  simp only [admissiblePicks, Bool.and_eq_true, List.all_eq_true] at h
  rcases List.any_eq_true.1 (h.1.1.2 i hi) with ⟨r, hr, hri⟩
  have hri : key r = i := by simpa using hri
  rcases List.mem_filter.1 hr with ⟨hmem, helig⟩
  simp only [Bool.and_eq_true, Bool.not_eq_true', List.contains_eq_mem,
    decide_eq_false_iff_not] at helig
  exact ⟨r, hmem, hri, helig.1, hri ▸ helig.2⟩

/-- A query for one row picks the one that comes before all others. -/
theorem admissiblePicks_first {ρ : Type u} {ι : Type v} [DecidableEq ι] {key : ρ → ι}
    {rows : List ρ} {elig : ρ → Bool} {before : ρ → ρ → Bool} {picks : List ι}
    (h : admissiblePicks key rows elig before 1 [] picks = true) {r : ρ} (hr : r ∈ rows)
    (helig : elig r = true)
    (hfirst : ∀ r' ∈ rows, elig r' = true → r' = r ∨ before r r' = true) : picks = [key r] := by
  simp only [admissiblePicks, List.contains_nil, Bool.not_false, Bool.and_true, Bool.and_eq_true,
    List.all_eq_true, List.any_eq_true, beq_iff_eq, Bool.or_eq_true, Bool.not_eq_true',
    List.contains_iff_mem] at h
  rcases h with ⟨⟨⟨-, hfound⟩, hlen⟩, hord⟩
  have hfree : r ∈ rows.filter elig := List.mem_filter.2 ⟨hr, helig⟩
  have hone : picks.length = 1 := by
    have hpos : 0 < (rows.filter elig).length := List.length_pos_of_mem hfree
    exact hlen.trans (Nat.min_eq_left hpos)
  rcases List.length_eq_one_iff.1 hone with ⟨i, rfl⟩
  rcases hfound i List.mem_cons_self with ⟨c, hc, rfl⟩
  rcases hord r hfree with hmem | hlater
  · rw [List.mem_singleton.1 hmem]
  · -- what was picked would come after the row
    rcases hfirst c (List.mem_filter.1 hc).1 (List.mem_filter.1 hc).2 with rfl | hbefore
    · rfl
    · have hchosen := hlater c (List.mem_filter.2 ⟨hc, by simp⟩)
      rw [hbefore] at hchosen
      cases hchosen

/-- A query ordered by a total preorder always has an answer. -/
theorem exists_admissiblePicks {ρ : Type u} {ι : Type v} [DecidableEq ι] {key : ρ → ι}
    {rows : List ρ} (hkeys : (rows.map key).Nodup) (elig : ρ → Bool) {before : ρ → ρ → Bool}
    (htotal : ∀ r r', before r r' = false ∨ before r' r = false)
    (htrans : ∀ r r' r'', before r' r = false → before r'' r' = false → before r'' r = false)
    (limit : Nat) (locked : List ι) :
    ∃ picks, admissiblePicks key rows elig before limit locked picks = true := by
  let free := rows.filter fun r => elig r && !locked.contains (key r)
  let sorted := free.mergeSort fun r r' => !before r' r
  have hperm : sorted.Perm free := List.mergeSort_perm _ _
  have hsorted : sorted.Pairwise fun r r' => (!before r' r) = true := by
    refine List.pairwise_mergeSort (fun r r' r'' h h' => ?_) (fun r r' => ?_) free
    · simp only [Bool.not_eq_true'] at h h' ⊢
      exact htrans r r' r'' h h'
    · rcases htotal r r' with h | h <;> simp [h]
  have hfree : (free.map key).Nodup := (List.filter_sublist.map key).nodup hkeys
  have hsortedKeys : (sorted.map key).Nodup := (hperm.map key).nodup_iff.2 hfree
  have hsplit : (sorted.take limit ++ sorted.drop limit).Pairwise
      fun r r' => (!before r' r) = true := by rwa [List.take_append_drop]
  refine ⟨(sorted.take limit).map key, ?_⟩
  simp only [admissiblePicks, Bool.and_eq_true, decide_eq_true_eq, List.all_eq_true,
    List.any_eq_true, beq_iff_eq, Bool.or_eq_true, Bool.not_eq_true']
  refine ⟨⟨⟨((List.take_sublist _ _).map key).nodup hsortedKeys, ?_⟩, ?_⟩, ?_⟩
  · intro i hi
    rcases List.mem_map.1 hi with ⟨r, hr, rfl⟩
    exact ⟨r, hperm.mem_iff.1 (List.mem_of_mem_take hr), rfl⟩
  · rw [List.length_map, List.length_take, hperm.length_eq]
  · intro r hr
    have hr' : r ∈ sorted := hperm.mem_iff.2 hr
    rw [← List.take_append_drop limit sorted, List.mem_append] at hr'
    rcases hr' with hpicked | hleft
    · exact .inl (List.contains_iff_mem.2 (List.mem_map.2 ⟨r, hpicked, rfl⟩))
    · -- A row left out comes after every chosen one
      refine .inr fun c hc => ?_
      rcases List.mem_filter.1 hc with ⟨hc, hck⟩
      rcases List.mem_map.1 (List.contains_iff_mem.1 hck) with ⟨c', hc', hkey⟩
      have hcc : c' = c := by
        refine List.inj_on_of_nodup_map hsortedKeys (List.mem_of_mem_take hc') ?_ hkey
        exact hperm.mem_iff.2 hc
      have hord := (List.pairwise_append.1 hsplit).2.2 c' hc' r hleft
      rw [hcc] at hord
      simpa using hord

namespace Table

variable {ρ : Type u} {ι : Type v} {κ : Type w} {S : Schema ρ ι κ}

@[ext] theorem ext {t t' : Table S} (h : t.rows = t'.rows) : t = t' := by
  cases t; cases t'; simp_all

/-- The table without rows. -/
def empty : Table S := ⟨[], by simp, by simp⟩

@[simp] theorem empty_rows : (empty : Table S).rows = [] := rfl

/-! ## Uniqueness -/

/-- Two rows with one primary key are the same row. -/
theorem eq_of_key (t : Table S) {r r' : ρ} (hr : r ∈ t.rows) (hr' : r' ∈ t.rows)
    (h : S.key r = S.key r') : r = r' :=
  List.inj_on_of_nodup_map t.key_nodup hr hr' h

/-- Two rows at one index value are the same row. -/
theorem eq_of_index (t : Table S) {r r' : ρ} {k : κ} (hr : r ∈ t.rows) (hr' : r' ∈ t.rows)
    (h : S.index r = some k) (h' : S.index r' = some k) : r = r' := by
  let differ (a b : ρ) : Prop := ∀ x, S.index a = some x → ∀ y, S.index b = some y → x ≠ y
  have hdiffer : t.rows.Pairwise differ := List.pairwise_filterMap.1 t.index_nodup
  have : Std.Symm differ := ⟨fun a b hab x hx y hy hxy => hab y hy x hx hxy.symm⟩
  by_contra hne
  exact hdiffer.forall hr hr' hne k h k h' rfl

/-- Selecting by primary key selects the one row that has it. -/
theorem filter_key_eq [DecidableEq ι] (t : Table S) {r : ρ} (hr : r ∈ t.rows) :
    (t.rows.filter fun x => S.key x == S.key r) = [r] := by
  have hkeys := t.key_nodup
  revert hkeys hr
  induction t.rows with
  | nil => simp
  | cons x rows ih =>
    intro hr hkeys
    rcases List.nodup_cons.1 hkeys with ⟨hx, hrows⟩
    rcases List.mem_cons.1 hr with rfl | hr
    · have hnone : (rows.filter fun y => S.key y == S.key r) = [] := by
        refine List.filter_eq_nil_iff.2 fun y hy hyr => hx ?_
        exact List.mem_map.2 ⟨y, hy, by simpa using hyr⟩
      rw [List.filter_cons_of_pos (by simp), hnone]
    · have hne : S.key x ≠ S.key r := fun h => hx (List.mem_map.2 ⟨r, hr, h.symm⟩)
      rw [List.filter_cons_of_neg (by simpa using hne)]
      exact ih hr hrows

variable [DecidableEq ι] [DecidableEq κ]

/-- Check the constraints on a list of rows. -/
def ofRows? (rows : List ρ) : Option (Table S) :=
  if h : (rows.map S.key).Nodup ∧ (rows.filterMap S.index).Nodup then some ⟨rows, h.1, h.2⟩
  else none

theorem ofRows?_eq_some {rows : List ρ} {t : Table S} :
    ofRows? rows = some t ↔ t.rows = rows := by
  unfold ofRows?
  constructor
  · intro h
    split at h
    · simp only [Option.some.injEq] at h; rw [← h]
    · simp at h
  · rintro rfl
    rw [dif_pos ⟨t.key_nodup, t.index_nodup⟩]

theorem ofRows?_isSome {rows : List ρ} :
    (ofRows? rows : Option (Table S)).isSome ↔
      (rows.map S.key).Nodup ∧ (rows.filterMap S.index).Nodup := by
  unfold ofRows?
  split <;> simp_all

/-! ## Insert -/

/-- `INSERT`: append the row if no constraint is violated. -/
def insert? (t : Table S) (r : ρ) : Option (Table S) := ofRows? (t.rows ++ [r])

theorem insert?_rows {t t' : Table S} {r : ρ} (h : t.insert? r = some t') :
    t'.rows = t.rows ++ [r] :=
  ofRows?_eq_some.1 h

theorem mem_insert? {t t' : Table S} {r x : ρ} (h : t.insert? r = some t') :
    x ∈ t'.rows ↔ x ∈ t.rows ∨ x = r := by
  simp [insert?_rows h]

/-- An insert succeeds exactly when the key is fresh and, where the index covers
the row, no row has its index value. -/
theorem insert?_isSome {t : Table S} {r : ρ} :
    (t.insert? r).isSome ↔
      (∀ x ∈ t.rows, S.key x ≠ S.key r) ∧
        ∀ k, S.index r = some k → ∀ x ∈ t.rows, S.index x ≠ some k := by
  have hkeys : ((t.rows ++ [r]).map S.key).Nodup ↔ ∀ x ∈ t.rows, S.key x ≠ S.key r := by
    simp [List.nodup_append, t.key_nodup]
  have hindex : ((t.rows ++ [r]).filterMap S.index).Nodup ↔
      ∀ k, S.index r = some k → ∀ x ∈ t.rows, S.index x ≠ some k := by
    rw [List.filterMap_append, List.nodup_append]
    cases hk : S.index r with
    | none => simp [hk, t.index_nodup]
    | some k =>
      simp only [List.filterMap_cons, hk, List.filterMap_nil, List.mem_filterMap,
        List.mem_singleton, t.index_nodup, List.nodup_singleton, true_and, Option.some.injEq]
      constructor
      · rintro h k' rfl x hx hxk
        exact h k ⟨x, hx, hxk⟩ k rfl rfl
      · intro h a ha b hb hab
        rcases ha with ⟨x, hx, hxa⟩
        exact h k rfl x hx (by rw [hxa, hab, hb])
  rw [insert?, ofRows?_isSome, hkeys, hindex]

/-! ## Update -/

/-- `UPDATE`: rewrite the selected rows if no constraint is violated. -/
def update? (t : Table S) (u : Update ρ) : Option (Table S) := ofRows? (t.rows.map u.apply)

theorem update?_rows {t t' : Table S} {u : Update ρ} (h : t.update? u = some t') :
    t'.rows = t.rows.map u.apply :=
  ofRows?_eq_some.1 h

theorem mem_update? {t t' : Table S} {u : Update ρ} {x : ρ} (h : t.update? u = some t') :
    x ∈ t'.rows ↔ ∃ r ∈ t.rows, u.apply r = x := by
  simp [update?_rows h]

/-- An update that keeps primary keys and only takes rows out of the index, or
leaves their index value alone, violates nothing. -/
theorem update?_isSome_of_shrink {t : Table S} {u : Update ρ}
    (hkey : ∀ r ∈ t.rows, S.key (u.apply r) = S.key r)
    (hindex : ∀ r ∈ t.rows, S.index (u.apply r) = none ∨ S.index (u.apply r) = S.index r) :
    (t.update? u).isSome := by
  rw [update?, ofRows?_isSome]
  constructor
  · rw [List.map_map, List.map_congr_left (g := S.key) (by simpa using hkey)]
    exact t.key_nodup
  · rw [List.filterMap_map]
    have hsub : (t.rows.filterMap (S.index ∘ u.apply)).Sublist (t.rows.filterMap S.index) := by
      clear hkey
      revert hindex
      induction t.rows with
      | nil => simp
      | cons r rows ih =>
        intro hindex
        have hrows := ih fun x hx => hindex x (List.mem_cons_of_mem _ hx)
        rcases hindex r List.mem_cons_self with h | h
        · rw [List.filterMap_cons_none (by simpa using h)]
          cases hr : S.index r with
          | none => rwa [List.filterMap_cons_none hr]
          | some k => rw [List.filterMap_cons_some hr]; exact hrows.cons k
        · cases hr : S.index r with
          | none =>
            rw [List.filterMap_cons_none (by simpa [hr] using h), List.filterMap_cons_none hr]
            exact hrows
          | some k =>
            rw [List.filterMap_cons_some (by simpa [hr] using h), List.filterMap_cons_some hr]
            exact hrows.cons_cons k
    exact hsub.nodup t.index_nodup

/-- An update that keeps primary keys violates nothing exactly when no two of the
rows it leaves behind have one index value. -/
theorem update?_isSome {t : Table S} {u : Update ρ}
    (hkey : ∀ r ∈ t.rows, S.key (u.apply r) = S.key r) :
    (t.update? u).isSome ↔
      ∀ r ∈ t.rows, ∀ r' ∈ t.rows, ∀ k, S.index (u.apply r) = some k →
        S.index (u.apply r') = some k → r = r' := by
  have hmap : ((t.rows.map u.apply).map S.key).Nodup := by
    rw [List.map_map, List.map_congr_left (g := S.key) (by simpa using hkey)]
    exact t.key_nodup
  constructor
  · intro h r hr r' hr' k hk hk'
    rcases Option.isSome_iff_exists.1 h with ⟨t', ht'⟩
    have hx : u.apply r ∈ t'.rows := (mem_update? ht').2 ⟨r, hr, rfl⟩
    have hx' : u.apply r' ∈ t'.rows := (mem_update? ht').2 ⟨r', hr', rfl⟩
    have heq := t'.eq_of_index hx hx' hk hk'
    exact t.eq_of_key hr hr' (by rw [← hkey r hr, ← hkey r' hr', heq])
  · intro h
    rw [update?, ofRows?_isSome]
    refine ⟨hmap, ?_⟩
    rw [List.Nodup, List.filterMap_map, List.pairwise_filterMap]
    have hne : t.rows.Pairwise (· ≠ ·) := List.Nodup.of_map _ t.key_nodup
    refine hne.imp_of_mem ?_
    intro r r' hr hr' hrr k hk k' hk' hkk
    subst hkk
    exact hrr (h r hr r' hr' k (by simpa using hk) (by simpa using hk'))

/-! ## Lookup -/

omit [DecidableEq κ] in
/-- The row at a primary key. -/
def get? (t : Table S) (k : ι) : Option ρ := t.rows.find? fun r => S.key r == k

omit [DecidableEq κ] in
theorem get?_eq_some {t : Table S} {k : ι} {r : ρ} :
    t.get? k = some r ↔ r ∈ t.rows ∧ S.key r = k := by
  constructor
  · intro h
    exact ⟨List.mem_of_find?_eq_some h, by simpa using List.find?_some h⟩
  · rintro ⟨hr, rfl⟩
    have hsome : (t.get? (S.key r)).isSome := List.find?_isSome.2 ⟨r, hr, by simp⟩
    rcases Option.isSome_iff_exists.1 hsome with ⟨r', h⟩
    have hkey : S.key r' = S.key r := by simpa using List.find?_some h
    rw [h, t.eq_of_key (List.mem_of_find?_eq_some h) hr hkey]

theorem get?_insert? {t t' : Table S} {r : ρ} (h : t.insert? r = some t') (k : ι) :
    t'.get? k = if k = S.key r then some r else t.get? k := by
  have hfresh : ∀ x ∈ t.rows, S.key x ≠ S.key r := by
    have hsome : (t.insert? r).isSome := by rw [h]; rfl
    exact (insert?_isSome.1 hsome).1
  refine Option.ext fun x => ?_
  rw [get?_eq_some, mem_insert? h]
  by_cases hk : k = S.key r
  · subst hk
    rw [if_pos rfl, Option.some.injEq]
    constructor
    · rintro ⟨hx | rfl, hkey⟩
      · exact absurd hkey (hfresh x hx)
      · rfl
    · rintro rfl
      exact ⟨.inr rfl, rfl⟩
  · rw [if_neg hk, get?_eq_some]
    constructor
    · rintro ⟨hx | rfl, hkey⟩
      · exact ⟨hx, hkey⟩
      · exact absurd hkey.symm hk
    · rintro ⟨hx, hkey⟩
      exact ⟨.inl hx, hkey⟩

/-- A row that is there stays. -/
theorem get?_insert?_some {t t' : Table S} {r x : ρ} {k : ι} (h : t.insert? r = some t')
    (hx : t.get? k = some x) : t'.get? k = some x := by
  rcases get?_eq_some.1 hx with ⟨hmem, hkey⟩
  exact get?_eq_some.2 ⟨(mem_insert? h).2 (.inl hmem), hkey⟩

theorem get?_update? {t t' : Table S} {u : Update ρ} (hkey : ∀ r, S.key (u.apply r) = S.key r)
    (h : t.update? u = some t') (k : ι) : t'.get? k = (t.get? k).map u.apply := by
  refine Option.ext fun x => ?_
  simp only [get?_eq_some, mem_update? h, Option.map_eq_some_iff]
  constructor
  · rintro ⟨⟨r, hr, rfl⟩, hk⟩
    exact ⟨r, ⟨hr, (hkey r).symm.trans hk⟩, rfl⟩
  · rintro ⟨r, ⟨hr, hk⟩, rfl⟩
    exact ⟨⟨r, hr, rfl⟩, (hkey r).trans hk⟩

/-- `UPDATE`; nothing happens if it would violate a constraint. -/
def exec (t : Table S) (u : Update ρ) : Table S := (t.update? u).getD t

/-- Where the index covers no row, an update that keeps primary keys takes place. -/
theorem update?_eq_exec {t : Table S} {u : Update ρ} (hkey : ∀ r, S.key (u.apply r) = S.key r)
    (hindex : ∀ r, S.index r = none) : t.update? u = some (t.exec u) := by
  have hsome : (t.update? u).isSome :=
    update?_isSome_of_shrink (fun r _ => hkey r) fun r _ => .inl (hindex _)
  rcases Option.isSome_iff_exists.1 hsome with ⟨t', ht'⟩
  rw [exec, ht', Option.getD_some]

/-- `UPDATE … WHERE key = k`. -/
def modify (t : Table S) (k : ι) (f : ρ → ρ) : Table S := t.exec ⟨fun r => S.key r == k, f⟩

section Modify

variable {f : ρ → ρ} (hf : ∀ r, S.key (f r) = S.key r) (hindex : ∀ r, S.index r = none)

include hf hindex

theorem get?_modify (t : Table S) (k k' : ι) :
    (t.modify k f).get? k' = if k' = k then (t.get? k').map f else t.get? k' := by
  have hkey (r : ρ) : S.key (Update.apply ⟨fun r => S.key r == k, f⟩ r) = S.key r := by
    unfold Update.apply
    split
    · exact hf r
    · rfl
  rw [modify, get?_update? hkey (update?_eq_exec hkey hindex)]
  cases hget : t.get? k' with
  | none => rw [Option.map_none, Option.map_none, ite_self]
  | some r =>
    have hrk : S.key r = k' := (get?_eq_some.1 hget).2
    by_cases hk : k' = k
    · rw [if_pos hk, Option.map_some, Option.map_some,
        Update.apply_of_sel (by simpa using hrk.trans hk)]
    · rw [if_neg hk, Option.map_some, Update.apply_of_not_sel (by simpa using hrk ▸ hk)]

theorem mem_modify {t : Table S} {k : ι} {x : ρ} (hx : x ∈ (t.modify k f).rows) :
    (x ∈ t.rows ∧ S.key x ≠ k) ∨ ∃ r ∈ t.rows, S.key r = k ∧ x = f r := by
  have hget : (t.modify k f).get? (S.key x) = some x := get?_eq_some.2 ⟨hx, rfl⟩
  rw [get?_modify hf hindex] at hget
  by_cases hk : S.key x = k
  · rw [if_pos hk, Option.map_eq_some_iff] at hget
    rcases hget with ⟨r, hr, rfl⟩
    rcases get?_eq_some.1 hr with ⟨hmem, hkey⟩
    exact .inr ⟨r, hmem, hkey.trans hk, rfl⟩
  · rw [if_neg hk] at hget
    exact .inl ⟨(get?_eq_some.1 hget).1, hk⟩

end Modify

omit [DecidableEq ι] [DecidableEq κ] in
/-- `DELETE` of the rows that are not kept. -/
def filter (t : Table S) (keep : ρ → Bool) : Table S where
  rows := t.rows.filter keep
  key_nodup := (List.filter_sublist.map S.key).nodup t.key_nodup
  index_nodup := (List.filter_sublist.filterMap S.index).nodup t.index_nodup

omit [DecidableEq κ] in
theorem get?_filter (t : Table S) (keep : ρ → Bool) (k : ι) :
    (t.filter keep).get? k = (t.get? k).filter keep := by
  refine Option.ext fun x => ?_
  simp only [get?_eq_some, filter, List.mem_filter, Option.filter_eq_some_iff]
  tauto

/-! ## Upsert -/

/-- `INSERT … ON CONFLICT (key) DO UPDATE`. -/
def upsert (t : Table S) (r : ρ) (set : ρ → ρ) : Table S :=
  (t.insert? r).getD (t.exec ⟨fun x => S.key x == S.key r, set⟩)

theorem get?_upsert (hindex : ∀ x, S.index x = none) (t : Table S) (r : ρ) (set : ρ → ρ)
    (hset : ∀ x, S.key x = S.key r → S.key (set x) = S.key r) (k : ι) :
    (t.upsert r set).get? k = if k = S.key r then some ((t.get? k).elim r set) else t.get? k := by
  have hkey (x : ρ) : S.key (Update.apply ⟨fun x => S.key x == S.key r, set⟩ x) = S.key x := by
    unfold Update.apply
    split
    · rename_i hsel
      have hx : S.key x = S.key r := by simpa using hsel
      exact (hset x hx).trans hx.symm
    · rfl
  rw [upsert]
  cases hins : t.insert? r with
  | some t' =>
    have hfresh : ∀ x ∈ t.rows, S.key x ≠ S.key r := by
      have hsome : (t.insert? r).isSome := by rw [hins]; rfl
      exact (insert?_isSome.1 hsome).1
    rw [Option.getD_some, get?_insert? hins]
    by_cases hk : k = S.key r
    · have hnone : t.get? k = none := by
        refine Option.eq_none_iff_forall_ne_some.2 fun x hx => ?_
        rcases get?_eq_some.1 hx with ⟨hmem, hxk⟩
        exact hfresh x hmem (hxk.trans hk)
      rw [if_pos hk, if_pos hk, hnone, Option.elim_none]
    · rw [if_neg hk, if_neg hk]
  | none =>
    rw [Option.getD_none, get?_update? hkey (update?_eq_exec hkey hindex)]
    by_cases hk : k = S.key r
    · -- the insert failed, so the key is taken
      have hsome : (t.get? k).isSome := by
        by_contra hnone
        have hfresh : (t.insert? r).isSome := by
          refine insert?_isSome.2 ⟨fun x hx hxk => hnone ?_, fun k hk => ?_⟩
          · rw [get?_eq_some.2 ⟨hx, hxk.trans hk.symm⟩]
            rfl
          · rw [hindex r] at hk
            cases hk
        rw [hins] at hfresh
        exact absurd hfresh (by simp)
      rcases Option.isSome_iff_exists.1 hsome with ⟨x, hx⟩
      have hxk : S.key x = S.key r := (get?_eq_some.1 hx).2.trans hk
      rw [if_pos hk, hx, Option.map_some, Option.elim_some,
        Update.apply_of_sel (by simpa using hxk)]
    · rw [if_neg hk]
      cases hget : t.get? k with
      | none => rfl
      | some x =>
        have hxk : S.key x ≠ S.key r := fun h => hk ((get?_eq_some.1 hget).2.symm.trans h)
        rw [Option.map_some, Update.apply_of_not_sel (by simpa using hxk)]

/-! ## Counting -/

theorem countP_or_le (p p' : ρ → Bool) (rows : List ρ) :
    rows.countP (fun r => p r || p' r) ≤ rows.countP p + rows.countP p' := by
  induction rows with
  | nil => simp
  | cons r rows ih =>
    simp only [List.countP_cons]
    cases p r <;> cases p' r <;> simp <;> omega

omit [DecidableEq κ] in
/-- An update of the row at one primary key adds at most one row to any count. -/
theorem countP_update_le_succ (t : Table S) (u : Update ρ) (k : ι)
    (hsel : ∀ r ∈ t.rows, u.sel r = true → S.key r = k) (p : ρ → Bool) :
    (t.rows.map u.apply).countP p ≤ t.rows.countP p + 1 := by
  have hone : t.rows.countP (fun r => S.key r == k) ≤ 1 := by
    have hcount := List.nodup_iff_count_le_one.1 t.key_nodup k
    rwa [List.count, List.countP_map] at hcount
  calc (t.rows.map u.apply).countP p
      = t.rows.countP (p ∘ u.apply) := List.countP_map
    _ ≤ t.rows.countP (fun r => p r || S.key r == k) := by
        refine List.countP_mono_left fun r hr hp => ?_
        cases hs : u.sel r with
        | true => simp [hsel r hr hs]
        | false => simpa [Update.apply_of_not_sel hs] using Or.inl hp
    _ ≤ t.rows.countP p + t.rows.countP (fun r => S.key r == k) := countP_or_le _ _ _
    _ ≤ t.rows.countP p + 1 := Nat.add_le_add_left hone _

end Table

end Lib
