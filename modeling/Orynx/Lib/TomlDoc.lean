import Orynx.Lib.TomlLine
import Mathlib.Data.List.Basic

/-! # TOML documents

What the lines of a document use the names of its tables for. A document is well formed if any two
uses of one name agree; a name that has a value has no other use.

* `mem_uses`: what a line uses;
* `locate_concat`: where a header leads, one key after the other;
* `tables_append`, `tables_keys`: a document in parts, and keys that are added to a table;
* `elements_of_index`, `index_of_elements`: a header leads into an element of an array just if
  the array has elements in front of it.
-/

namespace Lib.Toml

/-- A place: the keys from the root to it, each with the element of the array that it leads into,
counted from one. Tables that are no arrays have a zero, and arrays as a whole. -/
abbrev Place := List (Key × Nat)

/-- What a line uses a name for: `above` is a table that a header leads through, `dotted` one that
the key of a pair leads through. -/
inductive Use (V : Type) where
  | value (v : V)
  | table
  | array
  | above
  | dotted
deriving DecidableEq

variable {V L : Type}

/-- One use of a name, and a later one. -/
def Use.agrees : Use V → Use V → Bool
  | .above, .above | .above, .table | .above, .dotted | .table, .above => true
  | .dotted, .above | .dotted, .dotted | .array, .array | .array, .above => true
  | _, _ => false

/-- The uses of the names on the way from `t` along `ks`. -/
def uses (mid last : Use V) (t : Place) : Place → List (Place × Use V)
  | [] => []
  | [k] => [(t ++ [(k.1, 0)], last)]
  | k :: k' :: ks => (t ++ [(k.1, 0)], mid) :: uses mid last (t ++ [k]) (k' :: ks)

/-- Where the keys of a header lead, if the document has these elements of arrays so far. -/
def locate (arrays : List Place) (t : Place) : List Key → Place
  | [] => t
  | k :: p => locate arrays (t ++ [(k, arrays.count (t ++ [(k, 0)]))]) p

/-- The array that a place is an element of. -/
def whole (t : Place) : Place := t.dropLast ++ (t.getLast?.map fun k => (k.1, 0)).toList

structure Here where
  arrays : List Place
  table : Place

def root : Here := ⟨[], []⟩

def Here.next (h : Here) : Entry V → Here
  | .table p => { h with table := locate h.arrays [] p }
  | .element p =>
    let arrays := whole (locate h.arrays [] p) :: h.arrays
    ⟨arrays, locate arrays [] p⟩
  | .blank | .pair _ _ => h

def usesOf (t : Place) : Entry V → List (Place × Use V)
  | .blank => []
  | .table _ => uses .above .table [] t
  | .element _ => uses .above .array [] t
  | .pair p v => uses .dotted (.value v) t (p.map fun k => (k, 0))

/-- The lines of a document, each with the table that it is in. -/
def tables (entry : L → Entry V) (h : Here) : List L → List (Place × L)
  | [] => []
  | l :: ls => ((h.next (entry l)).table, l) :: tables entry (h.next (entry l)) ls

def usesIn (entry : L → Entry V) (xs : List (Place × L)) : List (Place × Use V) :=
  xs.flatMap fun x => usesOf x.1 (entry x.2)

def Agree (a b : Place × Use V) : Prop := a.1 = b.1 → a.2.agrees b.2 = true

instance (a b : Place × Use V) : Decidable (Agree a b) :=
  inferInstanceAs (Decidable (a.1 = b.1 → a.2.agrees b.2 = true))

/-! ## Uses -/

theorem mem_uses {mid last : Use V} {t ks : Place} {x : Place × Use V} :
    x ∈ uses mid last t ks ↔ ∃ a k b, ks = a ++ k :: b ∧
      x = (t ++ a ++ [(k.1, 0)], if b = [] then last else mid) := by
  induction ks generalizing t with
  | nil => simp [uses]
  | cons k ks ih =>
    cases ks with
    | nil =>
      rw [uses, List.mem_singleton]
      constructor
      · rintro rfl
        exact ⟨[], k, [], rfl, by simp⟩
      · rintro ⟨a, k', b, h, rfl⟩
        cases a with
        | nil =>
          obtain ⟨rfl, rfl⟩ := List.cons.inj h
          simp
        | cons _ a => simp at h
    | cons k' ks =>
      rw [uses, List.mem_cons, ih]
      constructor
      · rintro (rfl | ⟨a, k'', b, h, rfl⟩)
        · exact ⟨[], k, k' :: ks, rfl, by simp⟩
        · exact ⟨k :: a, k'', b, by rw [h]; rfl, by simp⟩
      · rintro ⟨a, k'', b, h, rfl⟩
        cases a with
        | nil =>
          obtain ⟨rfl, rfl⟩ := List.cons.inj h
          left
          simp
        | cons k₀ a =>
          obtain ⟨rfl, hks⟩ := List.cons.inj h
          exact .inr ⟨a, k'', b, hks, by simp⟩

/-! ## Places -/

@[simp] theorem whole_concat (t : Place) (k : Key × Nat) : whole (t ++ [k]) = t ++ [(k.1, 0)] := by
  simp [whole]

theorem map_locate (arrays : List Place) (t : Place) (p : List Key) :
    (locate arrays t p).map Prod.fst = t.map Prod.fst ++ p := by
  induction p generalizing t with
  | nil => simp [locate]
  | cons k p ih => simp [locate, ih]

theorem length_locate (arrays : List Place) (t : Place) (p : List Key) :
    (locate arrays t p).length = t.length + p.length := by
  simpa using congrArg List.length (map_locate arrays t p)

theorem locate_append (arrays : List Place) (t : Place) (p q : List Key) :
    locate arrays t (p ++ q) = locate arrays (locate arrays t p) q := by
  induction p generalizing t with
  | nil => rfl
  | cons k p ih => exact ih _

theorem locate_concat (arrays : List Place) (t : Place) (p : List Key) (k : Key) :
    locate arrays t (p ++ [k]) = locate arrays t p ++
      [(k, arrays.count (locate arrays t p ++ [(k, 0)]))] :=
  locate_append arrays t p [k]

theorem locate_extends (arrays : List Place) (t : Place) (p : List Key) :
    ∃ b, locate arrays t p = t ++ b := by
  induction p generalizing t with
  | nil => exact ⟨[], (List.append_nil t).symm⟩
  | cons k p ih =>
    rcases ih (t ++ [(k, arrays.count (t ++ [(k, 0)]))]) with ⟨b, hb⟩
    exact ⟨_ :: b, hb.trans (List.append_assoc t [_] b)⟩

/-- The way to a place does not ask for arrays further down. -/
theorem locate_cons_of_length_lt {arrays : List Place} {w t : Place} {p : List Key}
    (h : t.length + p.length < w.length) : locate (w :: arrays) t p = locate arrays t p := by
  induction p generalizing t with
  | nil => rfl
  | cons k p ih =>
    have hne : w ≠ t ++ [(k, 0)] := by
      rintro rfl
      simp at h
    rw [locate, locate, List.count_cons_of_ne hne, ih]
    simp only [List.length_append, List.length_cons, List.length_nil] at h ⊢
    omega

/-- The header of an element leads into a new one, behind all that the array has. -/
theorem next_element (h : Here) (p : List Key) (k : Key) :
    let w := locate h.arrays [] p ++ [(k, 0)]
    h.next (Entry.element (p ++ [k]) : Entry V) =
      ⟨w :: h.arrays, locate h.arrays [] p ++ [(k, h.arrays.count w + 1)]⟩ := by
  intro w
  have hw : whole (locate h.arrays [] (p ++ [k])) = w := by
    rw [locate_concat, whole_concat]
  have hlt : ([] : Place).length + p.length < w.length := by
    show 0 + p.length < (locate h.arrays [] p ++ [(k, 0)]).length
    rw [List.length_append, length_locate]
    exact Nat.lt_succ_self _
  show Here.mk (whole (locate h.arrays [] (p ++ [k])) :: h.arrays)
    (locate (whole (locate h.arrays [] (p ++ [k])) :: h.arrays) [] (p ++ [k])) = _
  rw [hw, locate_concat, locate_cons_of_length_lt hlt, List.count_cons_self]

/-- The elements that a header leads into are the last ones so far. -/
theorem index_eq_count {arrays : List Place} {t a b : Place} {p : List Key} {k : Key} {n : Nat}
    (h : locate arrays t p = t ++ a ++ (k, n) :: b) : n = arrays.count (t ++ a ++ [(k, 0)]) := by
  induction p generalizing t a with
  | nil =>
    have hlen := congrArg List.length h
    simp only [locate, List.length_append, List.length_cons] at hlen
    omega
  | cons k' p ih =>
    rw [locate] at h
    rcases locate_extends arrays (t ++ [(k', arrays.count (t ++ [(k', 0)]))]) p with ⟨c, hc⟩
    have hfirst := hc.symm.trans h
    cases a with
    | nil =>
      simp only [List.append_assoc, List.append_cancel_left_eq, List.cons_append, List.nil_append,
        List.cons.injEq, Prod.mk.injEq] at hfirst
      rw [List.append_nil, ← hfirst.1.1]
      exact hfirst.1.2.symm
    | cons x a =>
      simp only [List.append_assoc, List.append_cancel_left_eq, List.cons_append, List.nil_append,
        List.cons.injEq] at hfirst
      rw [hfirst.1] at h
      rw [ih (t := t ++ [x]) (a := a) (by rw [h]; simp)]
      simp

/-! ## Documents in parts -/

/-- Where the lines leave off. -/
def after (entry : L → Entry V) (h : Here) (ls : List L) : Here :=
  ls.foldl (fun h l => h.next (entry l)) h

variable {entry : L → Entry V} {h h' : Here} {xs ys zs ls : List L}

theorem tables_append :
    tables entry h (xs ++ ys) = tables entry h xs ++ tables entry (after entry h xs) ys := by
  induction xs generalizing h with
  | nil => rfl
  | cons l xs ih =>
    rw [List.cons_append, tables, ih]
    rfl

theorem next_of_not_header {e : Entry V} (he : e.isHeader = false) : h.next e = h := by
  cases e with
  | table p => cases he
  | element p => cases he
  | blank => rfl
  | pair p v => rfl

theorem tables_keys (hzs : ∀ l ∈ zs, (entry l).isHeader = false) :
    tables entry h zs = zs.map fun l => (h.table, l) := by
  induction zs with
  | nil => rfl
  | cons l zs ih =>
    rw [tables, next_of_not_header (hzs l List.mem_cons_self),
      ih fun l hl => hzs l (List.mem_cons_of_mem _ hl)]
    rfl

theorem after_keys (hzs : ∀ l ∈ zs, (entry l).isHeader = false) : after entry h zs = h := by
  induction zs with
  | nil => rfl
  | cons l zs ih =>
    rw [after, List.foldl_cons, next_of_not_header (hzs l List.mem_cons_self)]
    exact ih fun l hl => hzs l (List.mem_cons_of_mem _ hl)

theorem tables_split {x : Place × L} {X Y : List (Place × L)}
    (hsplit : tables entry h ls = X ++ x :: Y) :
    ∃ ls₁ ls₂, ls = ls₁ ++ x.2 :: ls₂ ∧ X = tables entry h ls₁ ∧
      x.1 = (after entry h (ls₁ ++ [x.2])).table := by
  induction X generalizing h ls with
  | nil =>
    cases ls with
    | nil => cases hsplit
    | cons l ls =>
      obtain ⟨rfl, -⟩ := List.cons.inj hsplit
      exact ⟨[], ls, rfl, rfl, rfl⟩
  | cons y X ih =>
    cases ls with
    | nil => cases hsplit
    | cons l ls =>
      obtain ⟨rfl, hrest⟩ := List.cons.inj hsplit
      rcases ih hrest with ⟨ls₁, ls₂, rfl, rfl, hx⟩
      exact ⟨l :: ls₁, ls₂, rfl, rfl, hx⟩

theorem tables_map {L' : Type} (f : L' → L) (ls : List L') :
    tables entry h (ls.map f) = (tables (entry ∘ f) h ls).map fun x => (x.1, f x.2) := by
  induction ls generalizing h with
  | nil => rfl
  | cons l ls ih =>
    rw [List.map_cons, tables, ih]
    rfl

theorem map_tables : (tables entry h ls).map Prod.snd = ls := by
  induction ls generalizing h with
  | nil => rfl
  | cons l ls ih => rw [tables, List.map_cons, ih]

theorem mem_of_mem_tables {x : Place × L} (hx : x ∈ tables entry h ls) : x.2 ∈ ls := by
  have := List.mem_map_of_mem (f := Prod.snd) hx
  rwa [map_tables] at this

theorem exists_mem_tables {l : L} (hl : l ∈ ls) : ∃ x ∈ tables entry h ls, x.2 = l := by
  have hmem : l ∈ (tables entry h ls).map Prod.snd := by rwa [map_tables]
  exact List.mem_map.1 hmem

def Entry.isBlank : Entry V → Bool
  | .blank => true
  | _ => false

/-- Blank lines do not matter. -/
theorem tables_filter_isBlank :
    (tables entry h ls).filter (fun x => !(entry x.2).isBlank) =
      tables entry h (ls.filter fun l => !(entry l).isBlank) := by
  induction ls generalizing h with
  | nil => rfl
  | cons l ls ih =>
    rw [tables, List.filter_cons, List.filter_cons]
    cases hl : (entry l).isBlank with
    | true =>
      have hnext : h.next (entry l) = h := by
        cases he : entry l with
        | blank => rfl
        | table p => rw [he] at hl; cases hl
        | element p => rw [he] at hl; cases hl
        | pair p v => rw [he] at hl; cases hl
      rw [Bool.not_true, if_neg Bool.false_ne_true, if_neg Bool.false_ne_true, ih, hnext]
    | false => rw [Bool.not_false, if_pos rfl, if_pos rfl, tables, ih]

theorem usesIn_filter_isBlank (xs : List (Place × L)) :
    usesIn entry (xs.filter fun x => !(entry x.2).isBlank) = usesIn entry xs := by
  induction xs with
  | nil => rfl
  | cons x xs ih =>
    have hcons : ∀ xs, usesIn entry (x :: xs) = usesOf x.1 (entry x.2) ++ usesIn entry xs :=
      fun _ => List.flatMap_cons
    rw [List.filter_cons, hcons, ← ih]
    cases hx : (entry x.2).isBlank with
    | false => exact hcons _
    | true =>
      cases he : entry x.2 with
      | blank => rfl
      | table p => rw [he] at hx; cases hx
      | element p => rw [he] at hx; cases hx
      | pair p v => rw [he] at hx; cases hx

theorem isBlank_eq_false_of_isHeader {e : Entry V} (he : e.isHeader = true) :
    e.isBlank = false := by
  cases e with
  | blank => cases he
  | table p => rfl
  | element p => rfl
  | pair p v => rfl

/-- Two documents with the same lines, but for blank ones, have the same uses and headers. -/
theorem tables_congr {ls' : List L}
    (hls : ls.filter (fun l => !(entry l).isBlank) = ls'.filter fun l => !(entry l).isBlank) :
    usesIn entry (tables entry h ls) = usesIn entry (tables entry h ls') ∧
      ∀ P : Place × L → Prop,
        (∃ x ∈ tables entry h ls, (entry x.2).isHeader = true ∧ P x) ↔
          ∃ x ∈ tables entry h ls', (entry x.2).isHeader = true ∧ P x := by
  have hfilter : (tables entry h ls).filter (fun x => !(entry x.2).isBlank) =
      (tables entry h ls').filter fun x => !(entry x.2).isBlank := by
    rw [tables_filter_isBlank, tables_filter_isBlank, hls]
  constructor
  · rw [← usesIn_filter_isBlank, hfilter, usesIn_filter_isBlank]
  · intro P
    have hiff : ∀ ls : List L, (∃ x ∈ tables entry h ls, (entry x.2).isHeader = true ∧ P x) ↔
        ∃ x ∈ (tables entry h ls).filter fun x => !(entry x.2).isBlank,
          (entry x.2).isHeader = true ∧ P x := by
      intro ls
      constructor
      · rintro ⟨x, hx, hhead, hP⟩
        exact ⟨x, List.mem_filter.2 ⟨hx, by simp [isBlank_eq_false_of_isHeader hhead]⟩, hhead, hP⟩
      · rintro ⟨x, hx, hhead, hP⟩
        exact ⟨x, (List.mem_filter.1 hx).1, hhead, hP⟩
    rw [hiff, hfilter, ← hiff]

/-! ## Arrays -/

def Entry.isElement : Entry V → Bool
  | .element _ => true
  | _ => false

theorem mem_next_arrays {e : Entry V} (he : e.Named) {w : Place} :
    w ∈ (h.next e).arrays ↔ w ∈ h.arrays ∨ e.isElement = true ∧ whole (h.next e).table = w := by
  cases e with
  | element p =>
    rcases List.eq_nil_or_concat p with rfl | ⟨p, k, rfl⟩
    · exact absurd rfl he
    · rw [List.concat_eq_append, next_element]
      simp [Entry.isElement, or_comm, eq_comm]
  | table p => simp [Here.next, Entry.isElement]
  | blank => simp [Here.next, Entry.isElement]
  | pair p v => simp [Here.next, Entry.isElement]

theorem mem_after_arrays (hnamed : ∀ l ∈ ls, (entry l).Named) {w : Place} :
    w ∈ (after entry h ls).arrays ↔
      w ∈ h.arrays ∨ ∃ x ∈ tables entry h ls, (entry x.2).isElement = true ∧ whole x.1 = w := by
  induction ls generalizing h with
  | nil => simp [after, tables]
  | cons l ls ih =>
    show w ∈ (after entry (h.next (entry l)) ls).arrays ↔ _
    rw [ih fun l hl => hnamed l (List.mem_cons_of_mem _ hl),
      mem_next_arrays (hnamed l List.mem_cons_self), tables, or_assoc]
    simp

/-- A header's way goes by the arrays that there are, its own element with them. -/
theorem table_next {e : Entry V} (he : e.isHeader = true) :
    ∃ p, (h.next e).table = locate (h.next e).arrays [] p := by
  cases e with
  | table p => exact ⟨p, rfl⟩
  | element p => exact ⟨p, rfl⟩
  | blank => cases he
  | pair p v => cases he

/-- A header leads into an element of an array just if there is one, of that header or further
up. -/
theorem index_iff (hnamed : ∀ l ∈ ls, (entry l).Named) {X Y : List (Place × L)} {y : Place × L}
    (hsplit : tables entry root ls = X ++ y :: Y) (hy : (entry y.2).isHeader = true) {a b : Place}
    {k : Key} {n : Nat} (htable : y.1 = a ++ (k, n) :: b) :
    n ≠ 0 ↔ ∃ z ∈ X ++ [y], (entry z.2).isElement = true ∧ whole z.1 = a ++ [(k, 0)] := by
  rcases tables_split hsplit with ⟨ls₁, ls₂, rfl, rfl, hat⟩
  have hafter : after entry root (ls₁ ++ [y.2]) = (after entry root ls₁).next (entry y.2) := by
    rw [after, List.foldl_append]
    rfl
  rcases table_next (h := after entry root ls₁) hy with ⟨p, hp⟩
  rw [← hafter, ← hat, htable] at hp
  have hn : n = (after entry root (ls₁ ++ [y.2])).arrays.count (a ++ [(k, 0)]) :=
    index_eq_count (t := []) hp.symm
  have hparts : tables entry root (ls₁ ++ [y.2]) = tables entry root ls₁ ++ [y] := by
    rw [tables_append, tables, tables, ← hafter, ← hat]
  rw [hn, Nat.ne_zero_iff_zero_lt, List.count_pos_iff, mem_after_arrays, hparts]
  · simp [root]
  · intro l hl
    refine hnamed l ?_
    rw [List.mem_append, List.mem_singleton] at hl
    rw [List.mem_append, List.mem_cons]
    exact hl.imp_right .inl

theorem path_of_header {x : Place × L} (hx : x ∈ tables entry h ls) {p : List Key}
    (hp : entry x.2 = .table p ∨ entry x.2 = .element p) : x.1.map Prod.fst = p := by
  rcases List.append_of_mem hx with ⟨X, Y, hsplit⟩
  rcases tables_split hsplit with ⟨ls₁, ls₂, -, -, htable⟩
  rw [htable, after, List.foldl_append]
  show ((after entry h ls₁).next (entry x.2)).table.map Prod.fst = p
  rcases hp with hp | hp <;> rw [hp] <;> exact map_locate _ [] p

theorem map_whole (t : Place) : (whole t).map Prod.fst = t.map Prod.fst := by
  rcases List.eq_nil_or_concat t with rfl | ⟨t, k, rfl⟩
  · rfl
  · rw [List.concat_eq_append, whole_concat]
    simp

/-- The arrays of the root are counted by their headers. -/
theorem count_after_single (hnamed : ∀ l ∈ ls, (entry l).Named) {k : Key} [DecidableEq V] :
    (after entry h ls).arrays.count [(k, 0)] =
      h.arrays.count [(k, 0)] + ls.countP fun l => entry l = .element [k] := by
  induction ls generalizing h with
  | nil => rfl
  | cons l ls ih =>
    show (after entry (h.next (entry l)) ls).arrays.count _ = _
    rw [ih fun l hl => hnamed l (List.mem_cons_of_mem _ hl), List.countP_cons]
    have hnext : (h.next (entry l)).arrays.count [(k, 0)] =
        h.arrays.count [(k, 0)] + if decide (entry l = .element [k]) = true then 1 else 0 := by
      have hl := hnamed l List.mem_cons_self
      cases he : entry l with
      | blank => simp [Here.next]
      | table p => simp [Here.next]
      | pair p v => simp [Here.next]
      | element p =>
        rw [he] at hl
        rcases List.eq_nil_or_concat p with rfl | ⟨p, k', rfl⟩
        · exact absurd rfl hl
        rw [List.concat_eq_append, next_element]
        cases p with
        | nil =>
          by_cases hk : k' = k
          · simp [locate, hk]
          · simp [locate, hk]
        | cons k₀ p =>
          have hne : locate h.arrays [] (k₀ :: p) ++ [(k', 0)] ≠ [(k, 0)] := by
            intro heq
            have := congrArg List.length heq
            simp [length_locate] at this
          rw [List.count_cons_of_ne hne]
          simp
    rw [hnext]
    omega

/-! ## Well-formed documents -/

/-- Whatever a name is used for agrees with its uses further up. -/
def Valid (entry : L → Entry V) (ls : List L) : Prop :=
  (usesIn entry (tables entry root ls)).Pairwise Agree

theorem usesIn_append (X Y : List (Place × L)) :
    usesIn entry (X ++ Y) = usesIn entry X ++ usesIn entry Y :=
  List.flatMap_append

theorem Valid.agree (hvalid : Valid entry ls) {X Y : List (Place × L)} {y : Place × L}
    (hsplit : tables entry root ls = X ++ y :: Y) {z : Place × L} {u v : Place × Use V} :
    (z ∈ X → u ∈ usesOf z.1 (entry z.2) → v ∈ usesOf y.1 (entry y.2) → Agree u v) ∧
      (z ∈ Y → u ∈ usesOf z.1 (entry z.2) → v ∈ usesOf y.1 (entry y.2) → Agree v u) := by
  rw [Valid, hsplit, usesIn, List.pairwise_flatMap, List.pairwise_append, List.pairwise_cons]
    at hvalid
  exact ⟨fun hz hu hv => hvalid.2.2.2 z hz y List.mem_cons_self u hu v hv,
    fun hz hu hv => hvalid.2.2.1.1 z hz v hv u hu⟩

theorem uses_of_element {t : Place} {e : Entry V} (he : e.isElement = true) {w : Place}
    (hw : whole t = w) (hne : t ≠ []) : (w, .array) ∈ usesOf t e := by
  cases e with
  | element p =>
    rcases List.eq_nil_or_concat t with rfl | ⟨t, k, rfl⟩
    · exact absurd rfl hne
    · rw [List.concat_eq_append] at hw ⊢
      rw [whole_concat] at hw
      subst hw
      exact mem_uses.2 ⟨t, k, [], by simp⟩
  | table p => cases he
  | blank => cases he
  | pair p v => cases he

/-- What a header uses a name on its way for. -/
theorem uses_of_header {t a b : Place} {k : Key} {n : Nat} {e : Entry V} (he : e.isHeader = true)
    (ht : t = a ++ (k, n) :: b) : (a ++ [(k, 0)],
      if b = [] then if e.isElement then .array else .table else .above) ∈ usesOf t e := by
  cases e with
  | element p => exact mem_uses.2 ⟨a, (k, n), b, ht, by simp [Entry.isElement]⟩
  | table p => exact mem_uses.2 ⟨a, (k, n), b, ht, by simp [Entry.isElement]⟩
  | blank => cases he
  | pair p v => cases he

/-- Where an array is, headers lead into its elements, or are the headers of these. -/
theorem Valid.through_array (hvalid : Valid entry ls) (hnamed : ∀ l ∈ ls, (entry l).Named)
    {z y : Place × L} (hz : z ∈ tables entry root ls) (hzelem : (entry z.2).isElement = true)
    (hy : y ∈ tables entry root ls) (hyhead : (entry y.2).isHeader = true) {a b : Place} {k : Key}
    {n : Nat} (hwhole : whole z.1 = a ++ [(k, 0)]) (htable : y.1 = a ++ (k, n) :: b) :
    n ≠ 0 ∧ (b = [] → (entry y.2).isElement = true) := by
  have hne : z.1 ≠ [] := by
    intro h
    rw [h] at hwhole
    simp [whole] at hwhole
  rcases List.append_of_mem hy with ⟨X, Y, hsplit⟩
  have hindex := index_iff hnamed hsplit hyhead htable
  have harray := uses_of_element hzelem hwhole hne
  have huse := uses_of_header hyhead htable
  have hmem := hz
  rw [hsplit, List.mem_append, List.mem_cons] at hmem
  rcases hmem with hX | rfl | hY
  · refine ⟨hindex.2 ⟨z, List.mem_append_left _ hX, hzelem, hwhole⟩, ?_⟩
    rintro rfl
    have hagree := (hvalid.agree hsplit).1 hX harray huse rfl
    cases he : (entry y.2).isElement with
    | true => rfl
    | false => simp [he, Use.agrees] at hagree
  · exact ⟨hindex.2 ⟨z, List.mem_append_right _ List.mem_cons_self, hzelem, hwhole⟩,
      fun _ => hzelem⟩
  · -- only an array's own header can come before the array
    have hagree := (hvalid.agree hsplit).2 hY harray huse rfl
    by_cases hb : b = []
    · cases he : (entry y.2).isElement with
      | true =>
        have hyw : whole y.1 = a ++ [(k, 0)] := by rw [htable, hb, whole_concat]
        exact ⟨hindex.2 ⟨y, List.mem_append_right _ List.mem_cons_self, he, hyw⟩, fun _ => rfl⟩
      | false => simp [hb, he, Use.agrees] at hagree
    · simp [hb, Use.agrees] at hagree

/-- A table of the root that has a header is no array. -/
theorem Valid.table_of_key (hvalid : Valid entry ls) (hnamed : ∀ l ∈ ls, (entry l).Named)
    {ls' : List L} (hls' : ls' ⊆ ls) {x : Place × L} (hx : x ∈ tables entry root ls') {k : Key}
    (hk : entry x.2 = .table [k]) : x.1 = [(k, 0)] := by
  have hhead : (entry x.2).isHeader = true := by rw [hk]; rfl
  have hpath := path_of_header hx (.inl hk)
  rcases List.map_eq_singleton_iff.1 hpath with ⟨⟨k', n⟩, ht, hk'⟩
  obtain rfl : k' = k := hk'
  rcases List.append_of_mem hx with ⟨X, Y, hsplit⟩
  have hindex := index_iff (fun l hl => hnamed l (hls' hl)) hsplit hhead (a := []) ht
  by_contra hne
  have hn : n ≠ 0 := by
    rintro rfl
    exact hne ht
  rcases hindex.1 hn with ⟨z, hz, helem, hwhole⟩
  have hzmem : z ∈ tables entry root ls' := by
    rw [hsplit]
    rcases List.mem_append.1 hz with hz | hz
    · exact List.mem_append_left _ hz
    · rw [List.mem_singleton.1 hz]
      exact List.mem_append_right _ List.mem_cons_self
  -- the header of the element stands in the whole document, too
  have hin : ∀ x ∈ tables entry root ls', ∃ y ∈ tables entry root ls, y.2 = x.2 := fun x hx =>
    exists_mem_tables (hls' (mem_of_mem_tables hx))
  rcases hin z hzmem with ⟨w, hw, hwz⟩
  rcases hin x hx with ⟨y, hy, hyx⟩
  have hzpath : entry z.2 = .element [k'] := by
    cases he : entry z.2 with
    | element p =>
      have hzp := path_of_header hzmem (.inr he)
      rw [← map_whole, hwhole] at hzp
      rw [← hzp]
      rfl
    | table p => rw [he] at helem; cases helem
    | blank => rw [he] at helem; cases helem
    | pair p v => rw [he] at helem; cases helem
  rcases List.map_eq_singleton_iff.1 (path_of_header hw (.inr (hwz ▸ hzpath)))
    with ⟨⟨kw, m⟩, hwt, hkw⟩
  obtain rfl : kw = k' := hkw
  rcases List.map_eq_singleton_iff.1 (path_of_header hy (.inl (hyx ▸ hk))) with ⟨⟨ky, m'⟩, hyt, hky⟩
  have hwhole' : whole w.1 = [] ++ [(kw, 0)] := by rw [hwt]; rfl
  have hyhead : (entry y.2).isHeader = true := by rw [hyx]; exact hhead
  obtain rfl : ky = kw := hky
  have helement := (hvalid.through_array hnamed hw (by rw [hwz]; exact helem) hy hyhead hwhole'
    (b := []) hyt).2 rfl
  rw [hyx, hk] at helement
  cases helement

end Lib.Toml
