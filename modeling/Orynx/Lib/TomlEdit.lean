import Orynx.Lib.TomlDoc

/-! # Edits of a TOML document

Sections that are taken out of a document, and keys that are put into it.

* `tables_filter`: if no header that stays leads through the arrays whose elements are taken out,
  all that stays is in the table that it was in;
* `tables_insertAfter`: keys behind a header are in its table, and nothing else moves;
* `pairwise_add_iff`: keys can be added to a well-formed document just if their names are not used
  for anything that they do not agree with.
-/

namespace Lib.Toml

variable {V L : Type} {entry : L → Entry V} {h h' : Here} {ls zs : List L}

/-! ## Sections that are taken out -/

/-- Where a header is taken out, so is all that it heads; `b` is about the lines of the table that
the document is in. -/
def Sections (entry : L → Entry V) (keep : L → Bool) : Bool → List L → Prop
  | _, [] => True
  | b, l :: ls =>
    if (entry l).isHeader then Sections entry keep (keep l) ls
    else (keep l = true → b = true) ∧ Sections entry keep b ls

/-- The place lies in an element of one of these arrays. -/
def Through (S : Place → Bool) (t : Place) : Prop :=
  ∃ a k n b, t = a ++ (k, n + 1) :: b ∧ S (a ++ [(k, 0)]) = true

variable {S : Place → Bool} {keep : L → Bool}

theorem Through.append {t : Place} (ht : Through S t) (b : Place) : Through S (t ++ b) := by
  rcases ht with ⟨a, k, n, b', rfl, hS⟩
  exact ⟨a, k, n, b' ++ b, by simp, hS⟩

theorem count_filter_not {arrays : List Place} {w : Place} (hw : S w = false) :
    (arrays.filter fun a => !S a).count w = arrays.count w :=
  List.count_filter (by rw [hw]; rfl)

theorem locate_filter {arrays : List Place} {t : Place} {p : List Key}
    (hthrough : ¬Through S (locate arrays t p)) :
    locate (arrays.filter fun a => !S a) t p = locate arrays t p := by
  induction p generalizing t with
  | nil => rfl
  | cons k p ih =>
    rw [locate] at hthrough ⊢
    have hcount : (arrays.filter fun a => !S a).count (t ++ [(k, 0)]) =
        arrays.count (t ++ [(k, 0)]) := by
      cases hS : S (t ++ [(k, 0)]) with
      | false => exact count_filter_not hS
      | true =>
        have hnone : (arrays.filter fun a => !S a).count (t ++ [(k, 0)]) = 0 := by
          rw [List.count_eq_zero, List.mem_filter]
          rintro ⟨-, hn⟩
          rw [hS] at hn
          cases hn
        rw [hnone]
        -- an element of this array would be on the way
        cases hn : arrays.count (t ++ [(k, 0)]) with
        | zero => rfl
        | succ n =>
          rcases locate_extends arrays (t ++ [(k, n + 1)]) p with ⟨b, hb⟩
          rw [hn] at hthrough
          exact absurd ⟨t, k, n, b, by rw [hb]; simp, hS⟩ hthrough
    rw [hcount, locate, ih hthrough]

theorem next_filter {e : Entry V} (he : e.isHeader = true) (hnamed : e.Named)
    (harrays : h'.arrays = h.arrays.filter fun a => !S a)
    (hthrough : ¬Through S (h.next e).table) :
    (h'.next e).arrays = (h.next e).arrays.filter (fun a => !S a) ∧
      (h'.next e).table = (h.next e).table := by
  cases e with
  | blank => cases he
  | pair p v => cases he
  | table p =>
    refine ⟨harrays, ?_⟩
    show locate h'.arrays [] p = _
    rw [harrays]
    exact locate_filter hthrough
  | element p =>
    rcases List.eq_nil_or_concat p with rfl | ⟨p, k, rfl⟩
    · exact absurd rfl hnamed
    rw [List.concat_eq_append] at hthrough ⊢
    rw [next_element] at hthrough
    rw [next_element, next_element]
    have hway : ¬Through S (locate h.arrays [] p) := fun hway => hthrough (hway.append _)
    have hS : S (locate h.arrays [] p ++ [(k, 0)]) = false := by
      cases hS : S (locate h.arrays [] p ++ [(k, 0)]) with
      | false => rfl
      | true => exact absurd ⟨_, k, _, [], rfl, hS⟩ hthrough
    rw [harrays, locate_filter hway, count_filter_not hS, List.filter_cons_of_pos (by simp [hS])]
    exact ⟨rfl, rfl⟩

theorem next_gone {e : Entry V} (hnamed : e.Named)
    (hgone : e.isElement = true → S (whole (h.next e).table) = true) :
    (h.next e).arrays.filter (fun a => !S a) = h.arrays.filter fun a => !S a := by
  cases e with
  | blank => rfl
  | pair p v => rfl
  | table p => rfl
  | element p =>
    rcases List.eq_nil_or_concat p with rfl | ⟨p, k, rfl⟩
    · exact absurd rfl hnamed
    have hS := hgone rfl
    rw [List.concat_eq_append] at hS ⊢
    rw [next_element] at hS ⊢
    rw [whole_concat] at hS
    exact List.filter_cons_of_neg (by simp [hS])

/-- What stays is in the table that it was in. -/
theorem tables_filter (hnamed : ∀ l ∈ ls, (entry l).Named) {b : Bool}
    (hsections : Sections entry keep b ls)
    (harrays : h'.arrays = h.arrays.filter fun a => !S a) (htable : b = true → h'.table = h.table)
    (hkept : ∀ x ∈ tables entry h ls, (entry x.2).isHeader = true → keep x.2 = true →
      ¬Through S x.1)
    (hgone : ∀ x ∈ tables entry h ls, (entry x.2).isElement = true → keep x.2 = false →
      S (whole x.1) = true) :
    tables entry h' (ls.filter keep) = (tables entry h ls).filter fun x => keep x.2 := by
  induction ls generalizing h h' b with
  | nil => rfl
  | cons l ls ih =>
    have hnamed' : ∀ l ∈ ls, (entry l).Named := fun l hl => hnamed l (List.mem_cons_of_mem _ hl)
    rw [tables] at hkept hgone ⊢
    have hkept' := fun x hx => hkept x (List.mem_cons_of_mem _ hx)
    have hgone' := fun x hx => hgone x (List.mem_cons_of_mem _ hx)
    rw [Sections] at hsections
    by_cases hhead : (entry l).isHeader = true
    · rw [if_pos hhead] at hsections
      by_cases hkeep : keep l = true
      · have hnext := next_filter hhead (hnamed l List.mem_cons_self) harrays
          (hkept _ List.mem_cons_self hhead hkeep)
        rw [List.filter_cons, if_pos hkeep, List.filter_cons, if_pos hkeep, tables, hnext.2,
          ih hnamed' hsections hnext.1 (fun _ => hnext.2) hkept' hgone']
      · -- the section goes, with its table
        have hkeep' : keep l = false := by simpa using hkeep
        have hnext := next_gone (h := h) (hnamed l List.mem_cons_self) fun he =>
          hgone _ List.mem_cons_self he hkeep'
        rw [List.filter_cons, if_neg hkeep, List.filter_cons, if_neg hkeep]
        exact ih hnamed' hsections (harrays.trans hnext.symm)
          (fun hb => absurd hb hkeep) hkept' hgone'
    · rw [if_neg hhead] at hsections
      have hsame : ∀ h : Here, h.next (entry l) = h := fun h =>
        next_of_not_header (by simpa using hhead)
      rw [hsame] at hkept' hgone' ⊢
      have hrest := ih hnamed' hsections.2 harrays htable hkept' hgone'
      by_cases hkeep : keep l = true
      · rw [List.filter_cons, if_pos hkeep, List.filter_cons, if_pos hkeep, tables, hsame, hrest,
          htable (hsections.1 hkeep)]
      · rw [List.filter_cons, if_neg hkeep, List.filter_cons, if_neg hkeep]
        exact hrest

/-- Where the arrays of the root stay whole, a header that stays goes by the same element. -/
theorem exists_first_filter (hnamed : ∀ l ∈ ls, (entry l).Named) {k : Key} {m : Nat} {r : Place}
    (hwhole : ∀ l ∈ ls, entry l = .element [k] → keep l = true) {x : Place × L}
    (hx : x ∈ tables entry root ls) (hkeep : keep x.2 = true)
    (hhead : (entry x.2).isHeader = true) (ht : x.1 = (k, m) :: r) :
    ∃ y ∈ tables entry root (ls.filter keep), y.2 = x.2 ∧ ∃ r', y.1 = (k, m) :: r' := by
  classical
  rcases List.append_of_mem hx with ⟨X, Y, hsplit⟩
  rcases tables_split hsplit with ⟨ls₁, ls₂, rfl, -, hat⟩
  have hparts : (ls₁ ++ x.2 :: ls₂).filter keep = ls₁.filter keep ++ x.2 :: ls₂.filter keep := by
    rw [List.filter_append, List.filter_cons, if_pos hkeep]
  -- the way of the header, in the whole document and in what stays of it
  have hway : ∀ ls : List L, after entry root (ls ++ [x.2]) =
      (after entry root ls).next (entry x.2) := fun ls => List.foldl_concat _ _ _ _
  have hin : ((after entry root (ls₁.filter keep ++ [x.2])).table, x.2) ∈
      tables entry root (ls₁.filter keep ++ x.2 :: ls₂.filter keep) := by
    rw [tables_append, tables, hway]
    exact List.mem_append_right _ List.mem_cons_self
  rcases table_next (h := after entry root ls₁) hhead with ⟨p, hp⟩
  rcases table_next (h := after entry root (ls₁.filter keep)) hhead with ⟨p', hp'⟩
  rw [← hway, ← hat, ht] at hp
  rw [← hway] at hp'
  have hpaths : (after entry root (ls₁.filter keep ++ [x.2])).table.map Prod.fst =
      x.1.map Prod.fst := by
    cases he : entry x.2 with
    | blank => rw [he] at hhead; cases hhead
    | pair q v => rw [he] at hhead; cases hhead
    | table q => rw [path_of_header hin (.inl he), path_of_header hx (.inl he)]
    | element q => rw [path_of_header hin (.inr he), path_of_header hx (.inr he)]
  rw [ht] at hpaths
  rcases hfirst : (after entry root (ls₁.filter keep ++ [x.2])).table with _ | ⟨⟨k', m'⟩, r'⟩
  · rw [hfirst] at hpaths
    cases hpaths
  rw [hfirst] at hpaths hp' hin
  obtain rfl : k' = k := (List.cons.inj hpaths).1
  have hnamed₁ : ∀ l ∈ ls₁ ++ [x.2], (entry l).Named := by
    intro l hl
    refine hnamed l ?_
    rw [List.mem_append, List.mem_singleton] at hl
    rw [List.mem_append, List.mem_cons]
    exact hl.imp_right .inl
  have hcount : (ls₁.filter keep ++ [x.2]).countP (fun l => decide (entry l = .element [k'])) =
      (ls₁ ++ [x.2]).countP fun l => decide (entry l = .element [k']) := by
    rw [List.countP_append, List.countP_append, List.countP_filter]
    refine congrArg (· + _) (List.countP_congr fun l hl => ?_)
    rw [Bool.and_eq_true, decide_eq_true_eq]
    exact ⟨fun h => h.1, fun h => ⟨h, hwhole l (List.mem_append_left _ hl) h⟩⟩
  have hm := index_eq_count (t := []) (a := []) hp.symm
  have hm' := index_eq_count (t := []) (a := []) hp'.symm
  simp only [List.nil_append] at hm hm'
  rw [count_after_single hnamed₁] at hm
  rw [count_after_single, hcount, ← hm] at hm'
  · rw [hparts]
    exact ⟨_, hin, rfl, r', by rw [hm']⟩
  · intro l hl
    refine hnamed₁ l ?_
    rw [List.mem_append] at hl ⊢
    exact hl.imp_left List.mem_of_mem_filter

/-! ## Keys that are put in -/

/-- Put lines behind the first one that is found. -/
def insertAfter (f : L → Bool) (zs : List L) : List L → List L
  | [] => []
  | l :: ls => if f l then l :: (zs ++ ls) else l :: insertAfter f zs ls

variable {f : L → Bool}

theorem insertAfter_eq_self (hf : ls.any f = false) : insertAfter f zs ls = ls := by
  induction ls with
  | nil => rfl
  | cons l ls ih =>
    rw [List.any_cons, Bool.or_eq_false_iff] at hf
    rw [insertAfter, if_neg (by simp [hf.1]), ih hf.2]

theorem mem_insertAfter (hf : ls.any f = true) {l : L} :
    l ∈ insertAfter f zs ls ↔ l ∈ zs ∨ l ∈ ls := by
  induction ls with
  | nil => cases hf
  | cons l' ls ih =>
    rw [insertAfter]
    by_cases hl' : f l' = true
    · rw [if_pos hl', List.mem_cons, List.mem_append, List.mem_cons, or_left_comm]
    · rw [List.any_cons, Bool.or_eq_true] at hf
      rw [if_neg hl', List.mem_cons, ih (hf.resolve_left hl'), List.mem_cons, or_left_comm]

/-- The keys are in the table of the line in front of them, and all else is where it was. -/
theorem tables_insertAfter (hzs : ∀ l ∈ zs, (entry l).isHeader = false) (hf : ls.any f = true) :
    ∃ X x Y, tables entry h ls = X ++ x :: Y ∧ f x.2 = true ∧
      tables entry h (insertAfter f zs ls) = X ++ x :: (zs.map (fun l => (x.1, l)) ++ Y) := by
  induction ls generalizing h with
  | nil => cases hf
  | cons l ls ih =>
    rw [insertAfter]
    by_cases hl : f l = true
    · refine ⟨[], ((h.next (entry l)).table, l), tables entry (h.next (entry l)) ls, rfl, hl, ?_⟩
      rw [if_pos hl, tables, tables_append, tables_keys hzs, after_keys hzs]
      rfl
    · rw [List.any_cons, Bool.or_eq_true] at hf
      rcases ih (h := h.next (entry l)) (hf.resolve_left hl) with ⟨X, x, Y, hls, hx, hins⟩
      refine ⟨((h.next (entry l)).table, l) :: X, x, Y, ?_, hx, ?_⟩
      · rw [tables, hls]
        rfl
      · rw [if_neg hl, tables, hins]
        rfl

/-- Uses by the key of a pair. -/
def Use.ofKey : Use V → Bool
  | .value _ | .dotted => true
  | _ => false

theorem Use.agrees_comm {u v : Use V} (hu : u.ofKey = true) : u.agrees v = v.agrees u := by
  cases u with
  | value _ => cases v <;> rfl
  | dotted => cases v <;> rfl
  | table => cases hu
  | array => cases hu
  | above => cases hu

theorem agree_comm {a b : Place × Use V} (ha : a.2.ofKey = true) : Agree a b ↔ Agree b a := by
  rw [Agree, Agree, Use.agrees_comm ha, eq_comm]

theorem ofKey_of_mem_usesOf {t : Place} {e : Entry V} (he : e.isHeader = false)
    {u : Place × Use V} (hu : u ∈ usesOf t e) : u.2.ofKey = true := by
  cases e with
  | table p => cases he
  | element p => cases he
  | blank => cases hu
  | pair p v =>
    rcases mem_uses.1 hu with ⟨a, k, b, -, rfl⟩
    show Use.ofKey (if b = [] then _ else _) = true
    split <;> rfl

/-- Where keys are put in does not matter for what they agree with. -/
theorem pairwise_add_iff {X Y Z : List (Place × Use V)} (hZ : ∀ z ∈ Z, z.2.ofKey = true) :
    (X ++ (Z ++ Y)).Pairwise Agree ↔
      Z.Pairwise Agree ∧ (X ++ Y).Pairwise Agree ∧ ∀ z ∈ Z, ∀ u ∈ X ++ Y, Agree z u := by
  simp only [List.pairwise_append, List.mem_append, or_imp, forall_and]
  constructor
  · rintro ⟨hX, ⟨hZZ, hY, hZY⟩, hXZ, hXY⟩
    exact ⟨hZZ, ⟨hX, hY, hXY⟩, fun z hz u hu => (agree_comm (hZ z hz)).2 (hXZ u hu z hz), hZY⟩
  · rintro ⟨hZZ, ⟨hX, hY, hXY⟩, hZX, hZY⟩
    exact ⟨hX, ⟨hZZ, hY, hZY⟩, fun u hu z hz => (agree_comm (hZ z hz)).1 (hZX z hz u hu), hXY⟩

/-- The uses `U'` are the uses `U` and those of some keys, wherever these stand. -/
structure Adds (Z U U' : List (Place × Use V)) : Prop where
  mem : ∀ u, u ∈ U' ↔ u ∈ Z ∨ u ∈ U
  pairwise : U'.Pairwise Agree ↔
    Z.Pairwise Agree ∧ U.Pairwise Agree ∧ ∀ z ∈ Z, ∀ u ∈ U, Agree z u

theorem Adds.refl (U : List (Place × Use V)) : Adds [] U U := by
  constructor <;> simp

theorem adds_append {X Y Z : List (Place × Use V)} (hZ : ∀ z ∈ Z, z.2.ofKey = true) :
    Adds Z (X ++ Y) (X ++ (Z ++ Y)) where
  mem u := by
    simp only [List.mem_append]
    exact or_left_comm
  pairwise := pairwise_add_iff hZ

theorem Adds.trans {Z Z' U U' U'' : List (Place × Use V)} (h : Adds Z U U')
    (h' : Adds Z' U' U'') : Adds (Z' ++ Z) U U'' where
  mem u := by rw [h'.mem, h.mem, List.mem_append, or_assoc]
  pairwise := by
    rw [h'.pairwise, h.pairwise, List.pairwise_append]
    simp only [List.mem_append, h.mem, or_imp, forall_and]
    tauto

theorem ofKey_of_keys (hzs : ∀ l ∈ zs, (entry l).isHeader = false) (t : Place) :
    ∀ z ∈ usesIn entry (zs.map fun l => (t, l)), z.2.ofKey = true := by
  intro z hz
  rcases List.mem_flatMap.1 hz with ⟨x, hx, hz⟩
  rcases List.mem_map.1 hx with ⟨l, hl, rfl⟩
  exact ofKey_of_mem_usesOf (hzs l hl) hz

/-- Keys in front of the first header are the root's. -/
theorem adds_root (hzs : ∀ l ∈ zs, (entry l).isHeader = false) :
    Adds (usesIn entry (zs.map fun l => ([], l))) (usesIn entry (tables entry root ls))
      (usesIn entry (tables entry root (zs ++ ls))) := by
  rw [tables_append, tables_keys hzs, after_keys hzs, usesIn_append]
  exact adds_append (X := []) (ofKey_of_keys hzs _)

theorem adds_insertAfter (hzs : ∀ l ∈ zs, (entry l).isHeader = false) (hf : ls.any f = true) :
    ∃ x ∈ tables entry h ls, f x.2 = true ∧
      Adds (usesIn entry (zs.map fun l => (x.1, l))) (usesIn entry (tables entry h ls))
        (usesIn entry (tables entry h (insertAfter f zs ls))) := by
  rcases tables_insertAfter (h := h) hzs hf with ⟨X, x, Y, hls, hx, hinsert⟩
  refine ⟨x, by rw [hls]; simp, hx, ?_⟩
  have hadds := adds_append (X := usesIn entry (X ++ [x])) (Y := usesIn entry Y)
    (ofKey_of_keys hzs x.1)
  rw [← usesIn_append, ← usesIn_append, ← usesIn_append, ← List.append_cons,
    ← List.append_cons] at hadds
  rw [hls, hinsert]
  exact hadds

/-- The document has the same headers as before, at the same places. -/
theorem headers_root (hzs : ∀ l ∈ zs, (entry l).isHeader = false) (P : Place × L → Prop) :
    (∃ x ∈ tables entry root (zs ++ ls), (entry x.2).isHeader = true ∧ P x) ↔
      ∃ x ∈ tables entry root ls, (entry x.2).isHeader = true ∧ P x := by
  rw [tables_append, tables_keys hzs, after_keys hzs]
  constructor
  · rintro ⟨x, hx, hhead, hP⟩
    rcases List.mem_append.1 hx with hx | hx
    · rcases List.mem_map.1 hx with ⟨l, hl, rfl⟩
      rw [hzs l hl] at hhead
      cases hhead
    · exact ⟨x, hx, hhead, hP⟩
  · rintro ⟨x, hx, hhead, hP⟩
    exact ⟨x, List.mem_append_right _ hx, hhead, hP⟩

theorem headers_insertAfter (hzs : ∀ l ∈ zs, (entry l).isHeader = false)
    (P : Place × L → Prop) :
    (∃ x ∈ tables entry h (insertAfter f zs ls), (entry x.2).isHeader = true ∧ P x) ↔
      ∃ x ∈ tables entry h ls, (entry x.2).isHeader = true ∧ P x := by
  cases hf : ls.any f with
  | false => rw [insertAfter_eq_self hf]
  | true =>
    rcases tables_insertAfter (h := h) hzs hf with ⟨X, x, Y, hls, -, hinsert⟩
    rw [hls, hinsert]
    constructor
    · rintro ⟨y, hy, hhead, hP⟩
      refine ⟨y, ?_, hhead, hP⟩
      simp only [List.mem_append, List.mem_cons, List.mem_map] at hy ⊢
      rcases hy with hy | hy | ⟨l, hl, rfl⟩ | hy
      · exact .inl hy
      · exact .inr (.inl hy)
      · rw [hzs l hl] at hhead
        cases hhead
      · exact .inr (.inr hy)
    · rintro ⟨y, hy, hhead, hP⟩
      refine ⟨y, ?_, hhead, hP⟩
      simp only [List.mem_append, List.mem_cons] at hy ⊢
      tauto

/-! ## Agreement does not look at values -/

def Use.kind : Use V → Use Unit
  | .value _ => .value ()
  | .table => .table
  | .array => .array
  | .above => .above
  | .dotted => .dotted

theorem agree_kind {a b : Place × Use V} : Agree (a.1, a.2.kind) (b.1, b.2.kind) ↔ Agree a b := by
  rcases a with ⟨p, u⟩
  rcases b with ⟨q, v⟩
  have hkind : u.kind.agrees v.kind = u.agrees v := by cases u <;> cases v <;> rfl
  simp only [Agree, hkind]

end Lib.Toml
