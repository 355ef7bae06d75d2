import Mathlib.Data.List.AList

/-! # A client's query cache

The cache of a client is asked for the entry of a key, or for all entries whose keys begin like a
given one.

* `QueryClient`: the operations, and what is documented of them;
* `get_updateQueries`, `get_updatePrefix`: what a scan leaves that updates the entries it has found
  one after another; `get_foldl_remove`: what removals leave;
* `get_restore`: a snapshot of entries is put back, whatever has been changed in them;
* `QueryClient.ofEntries`: a cache that behaves so.
-/

namespace Lib

/-- A cache of data of the type `δ` under keys that are lists of segments. An entry without data is
as none. -/
structure QueryClient (σ δ : Type) where
  Cache : Type
  getQueryData : Cache → List σ → Option δ
  getQueriesData : Cache → List σ → List (List σ × δ)
  setQueryData : Cache → List σ → δ → Cache
  removeQueries : Cache → List σ → Cache
  mem_getQueriesData : ∀ c pre key d,
    (key, d) ∈ getQueriesData c pre ↔ pre <+: key ∧ getQueryData c key = some d
  nodup_getQueriesData : ∀ c pre, ((getQueriesData c pre).map Prod.fst).Nodup
  get_set_self : ∀ c key d, getQueryData (setQueryData c key d) key = some d
  get_set_ne : ∀ c key d key', key' ≠ key →
    getQueryData (setQueryData c key d) key' = getQueryData c key'
  get_remove_under : ∀ c pre key, pre <+: key → getQueryData (removeQueries c pre) key = none
  get_remove : ∀ c pre key, ¬pre <+: key →
    getQueryData (removeQueries c pre) key = getQueryData c key

namespace QueryClient

variable {σ δ : Type} (qc : QueryClient σ δ)

/-- `setQueryData` with an updater, which leaves an entry that is not there alone and may raise. -/
def updateQuery (f : δ → Option δ) (c : qc.Cache) (key : List σ) : Option qc.Cache :=
  match qc.getQueryData c key with
  | none => some c
  | some d => (f d).map (qc.setQueryData c key)

/-- Updates of one key after another. -/
def updateQueries (f : δ → Option δ) (c : qc.Cache) (keys : List (List σ)) : Option qc.Cache :=
  keys.foldlM (qc.updateQuery f) c

/-- `setQueryData` with what may be undefined, which changes nothing. -/
def setSnapshot (c : qc.Cache) (x : List σ × Option δ) : qc.Cache :=
  match x.2 with
  | none => c
  | some d => qc.setQueryData c x.1 d

def restore (c : qc.Cache) (snapshot : List (List σ × Option δ)) : qc.Cache :=
  snapshot.foldl qc.setSnapshot c

variable {qc}

theorem get_updateQueries [DecidableEq σ] {f : δ → Option δ} (g : δ → δ) {keys : List (List σ)}
    (hnodup : keys.Nodup) {c : qc.Cache}
    (hf : ∀ key ∈ keys, ∀ d, qc.getQueryData c key = some d → f d = some (g d)) :
    ∃ c', qc.updateQueries f c keys = some c' ∧ ∀ key, qc.getQueryData c' key =
      if key ∈ keys then (qc.getQueryData c key).map g else qc.getQueryData c key := by
  induction keys generalizing c with
  | nil => exact ⟨c, rfl, fun key => by simp⟩
  | cons key keys ih =>
    obtain ⟨hnew, hnodup⟩ := List.nodup_cons.1 hnodup
    obtain ⟨hkey, hkeys⟩ := List.forall_mem_cons.1 hf
    obtain ⟨c₁, hc₁, hget⟩ : ∃ c₁, qc.updateQuery f c key = some c₁ ∧ ∀ key',
        qc.getQueryData c₁ key' =
          if key' = key then (qc.getQueryData c key').map g else qc.getQueryData c key' := by
      cases hd : qc.getQueryData c key with
      | none =>
        refine ⟨c, by rw [updateQuery, hd], fun key' => ?_⟩
        split
        · rename_i heq
          rw [heq, hd, Option.map_none]
        · rfl
      | some d =>
        refine ⟨_, by rw [updateQuery, hd]; simp only [hkey d hd]; rfl, fun key' => ?_⟩
        split
        · rename_i heq
          rw [heq, hd, qc.get_set_self, Option.map_some]
        · rename_i hne
          exact qc.get_set_ne c key _ key' hne
    have hsame : ∀ key' ∈ keys, qc.getQueryData c₁ key' = qc.getQueryData c key' := by
      intro key' hmem
      rw [hget, if_neg]
      rintro rfl
      exact hnew hmem
    obtain ⟨c', hc', hget'⟩ := ih hnodup (c := c₁) fun key' hmem d hd =>
      hkeys key' hmem d (by rw [← hsame key' hmem]; exact hd)
    refine ⟨c', ?_, fun key' => ?_⟩
    · rw [updateQueries, List.foldlM_cons, hc₁]
      exact hc'
    · rw [hget']
      by_cases hmem : key' ∈ keys
      · rw [if_pos hmem, if_pos (List.mem_cons_of_mem _ hmem), hsame key' hmem]
      · rw [if_neg hmem, hget]
        by_cases heq : key' = key
        · rw [if_pos heq, if_pos (heq ▸ List.mem_cons_self)]
        · rw [if_neg heq, if_neg (by simp [heq, hmem])]

/-- A snapshot is put back over changes that have added no entry. -/
theorem get_restore [DecidableEq σ] {c c' : qc.Cache} {snapshot : List (List σ × Option δ)}
    (h : ∀ x ∈ snapshot, x.2 = qc.getQueryData c x.1)
    (hadd : ∀ key, qc.getQueryData c key = none → qc.getQueryData c' key = none)
    (key : List σ) : qc.getQueryData (qc.restore c' snapshot) key =
      if key ∈ snapshot.map Prod.fst then qc.getQueryData c key else qc.getQueryData c' key := by
  induction snapshot generalizing c' with
  | nil => simp [restore]
  | cons x snapshot ih =>
    obtain ⟨hx, hrest⟩ := List.forall_mem_cons.1 h
    have hget : ∀ key', qc.getQueryData (qc.setSnapshot c' x) key' =
        if key' = x.1 then qc.getQueryData c key' else qc.getQueryData c' key' := by
      intro key'
      rw [setSnapshot]
      by_cases heq : key' = x.1
      · subst heq
        rw [if_pos rfl, ← hx]
        split
        · rename_i hnone
          rw [hnone]
          exact hadd _ (hx ▸ hnone)
        · rename_i d hd
          rw [hd]
          exact qc.get_set_self c' x.1 d
      · rw [if_neg heq]
        split
        · rfl
        · exact qc.get_set_ne c' x.1 _ key' heq
    have hadd' : ∀ key', qc.getQueryData c key' = none →
        qc.getQueryData (qc.setSnapshot c' x) key' = none := by
      intro key' hnone
      rw [hget]
      split
      · exact hnone
      · exact hadd key' hnone
    show qc.getQueryData (qc.restore (qc.setSnapshot c' x) snapshot) key = _
    rw [ih hrest hadd', hget, List.map_cons]
    by_cases hmem : key ∈ snapshot.map Prod.fst
    · rw [if_pos hmem, if_pos (List.mem_cons_of_mem _ hmem)]
    · rw [if_neg hmem]
      by_cases heq : key = x.1
      · rw [if_pos heq, if_pos (heq ▸ List.mem_cons_self)]
      · rw [if_neg heq, if_neg (mt List.mem_cons.1 (not_or.2 ⟨heq, hmem⟩))]

theorem keys_under (c : qc.Cache) (pre key : List σ) :
    key ∈ (qc.getQueriesData c pre).map Prod.fst ↔
      pre <+: key ∧ (qc.getQueryData c key).isSome = true := by
  rw [List.mem_map, Option.isSome_iff_exists]
  constructor
  · rintro ⟨x, hx, rfl⟩
    obtain ⟨hpre, hd⟩ := (qc.mem_getQueriesData c pre x.1 x.2).1 hx
    exact ⟨hpre, x.2, hd⟩
  · rintro ⟨hpre, d, hd⟩
    exact ⟨(key, d), (qc.mem_getQueriesData c pre key d).2 ⟨hpre, hd⟩, rfl⟩

/-- A scan updates the entries whose keys begin like the given one. -/
theorem get_updatePrefix [DecidableEq σ] {f : δ → Option δ} (g : δ → δ) {pre : List σ}
    {c : qc.Cache}
    (hf : ∀ key d, pre <+: key → qc.getQueryData c key = some d → f d = some (g d)) :
    ∃ c', qc.updateQueries f c ((qc.getQueriesData c pre).map Prod.fst) = some c' ∧
      ∀ key, qc.getQueryData c' key =
        if pre <+: key then (qc.getQueryData c key).map g else qc.getQueryData c key := by
  obtain ⟨c', hc', hget⟩ := get_updateQueries g (qc.nodup_getQueriesData c pre)
    fun key hkey d hd => hf key d ((keys_under c pre key).1 hkey).1 hd
  refine ⟨c', hc', fun key => ?_⟩
  rw [hget]
  by_cases hpre : pre <+: key
  · rw [if_pos hpre]
    split
    · rfl
    · rename_i hnot
      have hnone : qc.getQueryData c key = none := by
        rw [← Option.not_isSome_iff_eq_none]
        exact fun h => hnot ((keys_under c pre key).2 ⟨hpre, h⟩)
      rw [hnone, Option.map_none]
  · rw [if_neg hpre, if_neg fun h => hpre ((keys_under c pre key).1 h).1]

theorem get_foldl_remove [DecidableEq σ] (keys : List (List σ)) (c : qc.Cache) (key : List σ) :
    qc.getQueryData (keys.foldl qc.removeQueries c) key =
      if ∃ pre ∈ keys, pre <+: key then none else qc.getQueryData c key := by
  induction keys generalizing c with
  | nil => simp
  | cons pre keys ih =>
    rw [List.foldl_cons, ih]
    by_cases hrest : ∃ pre ∈ keys, pre <+: key
    · rw [if_pos hrest, if_pos]
      obtain ⟨pre', hmem, h⟩ := hrest
      exact ⟨pre', List.mem_cons_of_mem _ hmem, h⟩
    · rw [if_neg hrest]
      by_cases hpre : pre <+: key
      · rw [qc.get_remove_under c pre key hpre, if_pos ⟨pre, List.mem_cons_self, hpre⟩]
      · rw [qc.get_remove c pre key hpre, if_neg]
        rintro ⟨pre', hmem, h⟩
        rcases List.mem_cons.1 hmem with rfl | hmem
        · exact hpre h
        · exact hrest ⟨pre', hmem, h⟩

/-! ## A cache of entries -/

section Entries

variable (σ δ) [DecidableEq σ]

abbrev Entries := AList fun _ : List σ => δ

variable {σ δ}

def filterKeys (c : Entries σ δ) (p : List σ → Bool) : Entries σ δ :=
  ⟨c.entries.filter fun x => p x.1, c.nodupKeys.sublist List.filter_sublist⟩

theorem lookup_filterKeys (c : Entries σ δ) (p : List σ → Bool) (key : List σ) :
    (filterKeys c p).lookup key = if p key = true then c.lookup key else none := by
  rw [Option.ext_iff]
  intro d
  have hmem : d ∈ (filterKeys c p).lookup key ↔ d ∈ c.lookup key ∧ p key = true := by
    rw [AList.mem_lookup_iff, AList.mem_lookup_iff]
    exact List.mem_filter
  rw [← Option.mem_def, hmem]
  split
  · rename_i hp
    simp [hp]
  · rename_i hp
    simp [hp]

/-- The entries in a list without a key twice. -/
def ofEntries : QueryClient σ δ where
  Cache := Entries σ δ
  getQueryData c key := c.lookup key
  getQueriesData c pre := (filterKeys c fun key => pre.isPrefixOf key).entries.map fun x =>
    (x.1, x.2)
  setQueryData c key d := c.insert key d
  removeQueries c pre := filterKeys c fun key => !pre.isPrefixOf key
  mem_getQueriesData c pre key d := by
    have hmem : (key, d) ∈ (filterKeys c fun key => pre.isPrefixOf key).entries.map
        (fun x => (x.1, x.2)) ↔ d ∈ (filterKeys c fun key => pre.isPrefixOf key).lookup key := by
      rw [AList.mem_lookup_iff, List.mem_map]
      constructor
      · rintro ⟨x, hx, heq⟩
        obtain ⟨rfl, rfl⟩ := Prod.mk.inj heq
        exact hx
      · intro hx
        exact ⟨⟨key, d⟩, hx, rfl⟩
    rw [hmem, lookup_filterKeys]
    simp
  nodup_getQueriesData c pre := by
    rw [List.map_map]
    exact (filterKeys c fun key => pre.isPrefixOf key).nodupKeys
  get_set_self c key d := AList.lookup_insert c
  get_set_ne c key d key' h := AList.lookup_insert_ne h
  get_remove_under c pre key h := by
    rw [lookup_filterKeys, if_neg]
    simpa using h
  get_remove c pre key h := by
    rw [lookup_filterKeys, if_pos]
    rw [Bool.not_eq_true', ← Bool.not_eq_true, List.isPrefixOf_iff_prefix]
    exact h

theorem get_singleton {key key' : List σ} {d d' : δ}
    (h : (ofEntries (σ := σ) (δ := δ)).getQueryData (AList.singleton key d) key' = some d') :
    key' = key ∧ d' = d := by
  have hmem : (⟨key', d'⟩ : Σ _ : List σ, δ) ∈ [⟨key, d⟩] := AList.mem_lookup_iff.1 h
  cases List.mem_singleton.1 hmem
  exact ⟨rfl, rfl⟩

end Entries

end QueryClient

end Lib
