import Mathlib.Data.List.Basic

/-! # Regular expressions with captures

Runs of one class of characters, sequences, alternatives, word boundaries and groups. What follows
a choice decides it, and of the choices that go through the first is taken, with longer runs first.

* `Matches`: the text that an expression matches, where it stands, and what the groups captured;
* `mem_results`: the matcher tries just these;
* `mem_findAll`: where no match starts inside another one, a search from left to right finds what
  is captured anywhere in the text;
* `isMatch_iff`: a test finds out whether there is a match at all.
-/

namespace Lib

inductive Regex where
  | empty
  | set (p : Char → Bool)
  | many (p : Char → Bool) (min : Nat) (max : Option Nat)
  | wordBoundary
  | seq (r r' : Regex)
  | alt (r r' : Regex)
  | group (r : Regex)

namespace Regex

/-! ## What is matched -/

def isWord (c : Char) : Bool := c.isAlphanum || c == '_'

/-- Just one of the two neighbours is a word character. -/
def atBoundary (prev next : Option Char) : Bool := prev.any isWord != next.any isWord

/-- The last character of `w`, or the one before it. -/
def lastOf (prev : Option Char) (w : List Char) : Option Char := w.getLast?.or prev

/-- After `prev` and before `rest` the expression matches `w` and captures `cs`. -/
def Matches : Regex → Option Char → List Char → List Char → List (List Char) → Prop
  | .empty, _, w, _, cs => w = [] ∧ cs = []
  | .set p, _, w, _, cs => ∃ c, w = [c] ∧ p c = true ∧ cs = []
  | .many p lo hi, _, w, _, cs =>
    lo ≤ w.length ∧ (∀ n ∈ hi, w.length ≤ n) ∧ (∀ c ∈ w, p c = true) ∧ cs = []
  | .wordBoundary, prev, w, rest, cs => w = [] ∧ atBoundary prev rest.head? = true ∧ cs = []
  | .seq r r', prev, w, rest, cs =>
    ∃ u v cu cv, w = u ++ v ∧ cs = cu ++ cv ∧ r.Matches prev u (v ++ rest) cu ∧
      r'.Matches (lastOf prev u) v rest cv
  | .alt r r', prev, w, rest, cs => r.Matches prev w rest cs ∨ r'.Matches prev w rest cs
  | .group r, prev, w, rest, cs => ∃ cr, r.Matches prev w rest cr ∧ cs = w :: cr

/-! ## The matcher -/

/-- The matches at the start of `s`, in the order in which they are tried. -/
def results : Regex → Option Char → List Char → List (List Char × List (List Char))
  | .empty, _, _ => [([], [])]
  | .set _, _, [] => []
  | .set p, _, c :: _ => if p c then [([c], [])] else []
  | .many p lo hi, _, s =>
    let run := (s.takeWhile p).length
    ((List.range (hi.elim run (min run) + 1)).reverse.filter fun n => decide (lo ≤ n)).map
      fun n => (s.take n, [])
  | .wordBoundary, prev, s => if atBoundary prev s.head? then [([], [])] else []
  | .seq r r', prev, s =>
    (r.results prev s).flatMap fun x =>
      (r'.results (lastOf prev x.1) (s.drop x.1.length)).map fun y => (x.1 ++ y.1, x.2 ++ y.2)
  | .alt r r', prev, s => r.results prev s ++ r'.results prev s
  | .group r, prev, s => (r.results prev s).map fun x => (x.1, x.1 :: x.2)

theorem le_takeWhile_iff (p : Char → Bool) (w rest : List Char) :
    w.length ≤ ((w ++ rest).takeWhile p).length ↔ ∀ c ∈ w, p c = true := by
  induction w with
  | nil => simp
  | cons c w ih =>
    rw [List.cons_append, List.takeWhile_cons]
    by_cases hc : p c = true
    · rw [if_pos hc, List.length_cons, List.length_cons, Nat.add_le_add_iff_right, ih]
      simp [hc]
    · rw [if_neg hc]
      simp [hc]

theorem mem_results {r : Regex} {prev : Option Char} {s w : List Char} {cs : List (List Char)} :
    (w, cs) ∈ r.results prev s ↔ ∃ rest, s = w ++ rest ∧ r.Matches prev w rest cs := by
  induction r generalizing prev s w cs with
  | empty =>
    simp only [results, Matches, List.mem_singleton, Prod.mk.injEq]
    constructor
    · rintro ⟨rfl, rfl⟩
      exact ⟨s, rfl, rfl, rfl⟩
    · rintro ⟨rest, -, rfl, rfl⟩
      exact ⟨rfl, rfl⟩
  | set p =>
    cases s with
    | nil =>
      simp only [results, Matches, List.not_mem_nil, false_iff]
      rintro ⟨rest, hs, d, rfl, -⟩
      cases hs
    | cons c s =>
      simp only [results, Matches]
      constructor
      · intro h
        by_cases hc : p c = true
        · rw [if_pos hc, List.mem_singleton, Prod.mk.injEq] at h
          exact ⟨s, by rw [h.1]; rfl, c, h.1, hc, h.2⟩
        · rw [if_neg hc] at h
          cases h
      · rintro ⟨rest, hs, d, rfl, hd, rfl⟩
        rw [List.singleton_append, List.cons.injEq] at hs
        rw [hs.1, if_pos hd, List.mem_singleton]
  | many p lo hi =>
    simp only [results, Matches, List.mem_map, List.mem_filter, List.mem_reverse, List.mem_range,
      decide_eq_true_eq, Prod.mk.injEq]
    have hbound (run n : Nat) :
        n < hi.elim run (min run) + 1 ↔ n ≤ run ∧ ∀ m ∈ hi, n ≤ m := by
      cases hi with
      | none => simp [Nat.lt_succ_iff]
      | some m => simp [Nat.lt_succ_iff, Nat.le_min]
    constructor
    · rintro ⟨n, ⟨hn, hlo⟩, rfl, rfl⟩
      rw [hbound] at hn
      have hlen : (s.take n).length = n :=
        List.length_take_of_le (Nat.le_trans hn.1 (List.takeWhile_prefix p).length_le)
      refine ⟨s.drop n, (List.take_append_drop n s).symm, by rwa [hlen], by rw [hlen]; exact hn.2,
        ?_, rfl⟩
      rw [← le_takeWhile_iff p (s.take n) (s.drop n), List.take_append_drop, hlen]
      exact hn.1
    · rintro ⟨rest, rfl, hlo, hhi, hall, rfl⟩
      refine ⟨w.length, ⟨(hbound _ _).2 ⟨(le_takeWhile_iff p w rest).2 hall, hhi⟩, hlo⟩, ?_, rfl⟩
      exact List.take_left
  | wordBoundary =>
    simp only [results, Matches]
    constructor
    · intro h
      by_cases hb : atBoundary prev s.head? = true
      · rw [if_pos hb, List.mem_singleton, Prod.mk.injEq] at h
        exact ⟨s, by rw [h.1]; rfl, h.1, hb, h.2⟩
      · rw [if_neg hb] at h
        cases h
    · rintro ⟨rest, hs, rfl, hb, rfl⟩
      rw [show s = rest from hs, if_pos hb, List.mem_singleton]
  | seq r r' ih ih' =>
    simp only [results, Matches, List.mem_flatMap, List.mem_map, Prod.exists, Prod.mk.injEq]
    constructor
    · rintro ⟨u, cu, hu, v, cv, hv, rfl, rfl⟩
      rcases ih.1 hu with ⟨rest, rfl, hmu⟩
      rw [List.drop_left] at hv
      rcases ih'.1 hv with ⟨rest', rfl, hmv⟩
      exact ⟨rest', (List.append_assoc u v rest').symm, u, v, cu, cv, rfl, rfl, hmu, hmv⟩
    · rintro ⟨rest, rfl, u, v, cu, cv, rfl, rfl, hmu, hmv⟩
      refine ⟨u, cu, ih.2 ⟨v ++ rest, List.append_assoc u v rest, hmu⟩, v, cv, ?_, rfl, rfl⟩
      rw [List.append_assoc, List.drop_left]
      exact ih'.2 ⟨rest, rfl, hmv⟩
  | alt r r' ih ih' =>
    simp only [results, Matches, List.mem_append, ih, ih']
    constructor
    · rintro (⟨rest, hs, h⟩ | ⟨rest, hs, h⟩)
      · exact ⟨rest, hs, .inl h⟩
      · exact ⟨rest, hs, .inr h⟩
    · rintro ⟨rest, hs, h | h⟩
      · exact .inl ⟨rest, hs, h⟩
      · exact .inr ⟨rest, hs, h⟩
  | group r ih =>
    simp only [results, Matches, List.mem_map, Prod.exists, Prod.mk.injEq]
    constructor
    · rintro ⟨u, cu, hu, rfl, rfl⟩
      rcases ih.1 hu with ⟨rest, hs, hm⟩
      exact ⟨rest, hs, cu, hm, rfl⟩
    · rintro ⟨rest, hs, cu, hm, rfl⟩
      exact ⟨w, cu, ih.2 ⟨rest, hs, hm⟩, rfl, rfl⟩

/-- A run of one class up to another character is determined. -/
theorem run_unique {p : Char → Bool} {u v u' v' : List Char} (hu : ∀ c ∈ u, p c = true)
    (hu' : ∀ c ∈ u', p c = true) (hv : v.head?.all (fun c => !p c) = true)
    (hv' : v'.head?.all (fun c => !p c) = true) (h : u ++ v = u' ++ v') : u = u' ∧ v = v' := by
  have hrun {u v : List Char} (hu : ∀ c ∈ u, p c = true)
      (hv : v.head?.all (fun c => !p c) = true) : (u ++ v).takeWhile p = u := by
    rw [List.takeWhile_append_of_pos hu]
    cases v with
    | nil => simp
    | cons c v =>
      have hc : p c = false := by simpa using hv
      simp [hc]
  have heq : u = u' := by rw [← hrun hu hv, h, hrun hu' hv']
  subst heq
  exact ⟨rfl, List.append_cancel_left h⟩

/-! ## Searching -/

/-- The captures of the matches from left to right, each from the end of the one before. The first
`skip` characters belong to a match already found. -/
def findAllFrom (r : Regex) : Option Char → Nat → List Char → List (List (List Char))
  | _, _, [] => []
  | _, skip + 1, c :: s => findAllFrom r (some c) skip s
  | prev, 0, c :: s =>
    match (r.results prev (c :: s)).head? with
    | some (w, cs) => cs :: findAllFrom r (some c) (w.length - 1) s
    | none => findAllFrom r (some c) 0 s

/-- `FindAllStringSubmatch`, for an expression that does not match the empty text. -/
def findAll (r : Regex) (s : List Char) : List (List (List Char)) := findAllFrom r none 0 s

/-- The expression matches somewhere in `s` and captures `cs`. -/
def Occurs (r : Regex) (s : List Char) (cs : List (List Char)) : Prop :=
  ∃ before w rest, s = before ++ (w ++ rest) ∧ r.Matches before.getLast? w rest cs

/-- At each place one thing is captured at most, and no match starts inside another. -/
structure Plain (r : Regex) : Prop where
  ne_nil : ∀ {prev w rest cs}, r.Matches prev w rest cs → w ≠ []
  captures : ∀ {prev w w' rest rest' cs cs'}, r.Matches prev w rest cs →
    r.Matches prev w' rest' cs' → w ++ rest = w' ++ rest' → cs = cs'
  apart : ∀ {prev u v w rest rest' cs cs'}, r.Matches prev (u ++ v) rest cs → u ≠ [] → v ≠ [] →
    v ++ rest = w ++ rest' → ¬ r.Matches u.getLast? w rest' cs'

theorem lastOf_cons (prev : Option Char) (c : Char) (w : List Char) :
    lastOf prev (c :: w) = lastOf (some c) w := by
  cases h : w.getLast? <;> simp [lastOf, List.getLast?_cons, h]

theorem mem_findAllFrom {r : Regex} (hr : r.Plain) {cs : List (List Char)} (s : List Char)
    (prev : Option Char) (skip : Nat)
    (hskip : ∀ before w rest cs', s = before ++ (w ++ rest) → before.length < skip →
      ¬ r.Matches (lastOf prev before) w rest cs') :
    cs ∈ findAllFrom r prev skip s ↔ ∃ before w rest, s = before ++ (w ++ rest) ∧
      r.Matches (lastOf prev before) w rest cs := by
  induction s generalizing prev skip with
  | nil =>
    refine ⟨fun h => by simp [findAllFrom] at h, ?_⟩
    rintro ⟨before, w, rest, hs, hm⟩
    simp only [List.nil_eq, List.append_eq_nil_iff] at hs
    exact absurd hs.2.1 (hr.ne_nil hm)
  | cons c s ih =>
    -- a match starts here or further on
    have hsplit : (∃ before w rest, c :: s = before ++ (w ++ rest) ∧
          r.Matches (lastOf prev before) w rest cs) ↔
        (∃ w rest, c :: s = w ++ rest ∧ r.Matches prev w rest cs) ∨
          ∃ before w rest, s = before ++ (w ++ rest) ∧
            r.Matches (lastOf (some c) before) w rest cs := by
      constructor
      · rintro ⟨before, w, rest, hs, hm⟩
        cases before with
        | nil => exact .inl ⟨w, rest, hs, hm⟩
        | cons d before =>
          rw [List.cons_append, List.cons.injEq] at hs
          rw [lastOf_cons, ← hs.1] at hm
          exact .inr ⟨before, w, rest, hs.2, hm⟩
      · rintro (⟨w, rest, hs, hm⟩ | ⟨before, w, rest, hs, hm⟩)
        · exact ⟨[], w, rest, hs, hm⟩
        · exact ⟨c :: before, w, rest, by rw [hs]; rfl, by rw [lastOf_cons]; exact hm⟩
    have hfurther {before w rest cs' : List _} (hs : s = before ++ (w ++ rest))
        (hlen : before.length + 1 < skip) : ¬ r.Matches (lastOf (some c) before) w rest cs' := by
      have h := hskip (c :: before) w rest cs' (by rw [hs]; rfl) hlen
      rwa [lastOf_cons] at h
    rw [hsplit]
    cases skip with
    | succ skip =>
      rw [findAllFrom, ih (some c) skip fun before w rest cs' hs hlen =>
        hfurther hs (Nat.succ_lt_succ hlen)]
      refine ⟨.inr, fun h => h.resolve_left ?_⟩
      rintro ⟨w, rest, hs, hm⟩
      exact hskip [] w rest cs hs (Nat.succ_pos skip) hm
    | zero =>
      rw [findAllFrom]
      cases hres : r.results prev (c :: s) with
      | nil =>
        rw [List.head?_nil]
        simp only
        rw [ih (some c) 0 fun _ _ _ _ _ hlen => absurd hlen (Nat.not_lt_zero _)]
        refine ⟨.inr, fun h => h.resolve_left ?_⟩
        rintro ⟨w, rest, hs, hm⟩
        have hmem := mem_results.2 ⟨rest, hs, hm⟩
        rw [hres] at hmem
        cases hmem
      | cons x xs =>
        rcases x with ⟨w, cs₀⟩
        rw [List.head?_cons]
        simp only
        rcases mem_results.1 (hres ▸ List.mem_cons_self : (w, cs₀) ∈ r.results prev (c :: s)) with
          ⟨rest, hs, hm⟩
        rw [List.mem_cons, ih (some c) (w.length - 1) fun before w' rest' cs' hs' hlen => ?_]
        · refine or_congr_left ⟨?_, ?_⟩
          · rintro rfl
            exact ⟨w, rest, hs, hm⟩
          · rintro ⟨w', rest', hs', hm'⟩
            exact (hr.captures hm hm' (hs ▸ hs')).symm
        · -- inside the match that was found
          have hlt : (c :: before).length < w.length := by
            rw [List.length_cons]
            omega
          rw [hs', ← List.cons_append] at hs
          rcases List.append_eq_append_iff.1 hs with ⟨v, hw, hrest⟩ | ⟨v, hbefore, -⟩
          · have hv : v ≠ [] := by
              rintro rfl
              rw [List.append_nil] at hw
              rw [hw] at hlt
              exact Nat.lt_irrefl _ hlt
            rw [hw] at hm
            have hapart : ¬ r.Matches (c :: before).getLast? w' rest' cs' :=
              hr.apart hm (List.cons_ne_nil c before) hv hrest.symm
            rwa [← lastOf_cons none, lastOf, Option.or_none]
          · rw [hbefore, List.length_append] at hlt
            omega

/-- Searching finds what is captured anywhere in the text. -/
theorem mem_findAll {r : Regex} (hr : r.Plain) {s : List Char} {cs : List (List Char)} :
    cs ∈ r.findAll s ↔ r.Occurs s cs := by
  rw [findAll, mem_findAllFrom hr s none 0 fun _ _ _ _ _ hlen => absurd hlen (Nat.not_lt_zero _)]
  simp only [Occurs, lastOf, Option.or_none]

/-! ## Testing -/

def isMatchFrom (r : Regex) : Option Char → List Char → Bool
  | prev, [] => !(r.results prev []).isEmpty
  | prev, c :: s => !(r.results prev (c :: s)).isEmpty || isMatchFrom r (some c) s

/-- `MatchString`. -/
def isMatch (r : Regex) (s : List Char) : Bool := isMatchFrom r none s

theorem results_ne_nil {r : Regex} {prev : Option Char} {s : List Char} :
    (!(r.results prev s).isEmpty) = true ↔
      ∃ w rest cs, s = w ++ rest ∧ r.Matches prev w rest cs := by
  rw [Bool.not_eq_true', List.isEmpty_eq_false_iff]
  constructor
  · intro hne
    rcases List.exists_mem_of_ne_nil _ hne with ⟨⟨w, cs⟩, hx⟩
    rcases mem_results.1 hx with ⟨rest, hs, hm⟩
    exact ⟨w, rest, cs, hs, hm⟩
  · rintro ⟨w, rest, cs, hs, hm⟩
    exact List.ne_nil_of_mem (mem_results.2 ⟨rest, hs, hm⟩)

theorem isMatchFrom_iff {r : Regex} {prev : Option Char} {s : List Char} :
    isMatchFrom r prev s = true ↔ ∃ before w rest cs, s = before ++ (w ++ rest) ∧
      r.Matches (lastOf prev before) w rest cs := by
  induction s generalizing prev with
  | nil =>
    rw [isMatchFrom, results_ne_nil]
    constructor
    · rintro ⟨w, rest, cs, hs, hm⟩
      exact ⟨[], w, rest, cs, hs, hm⟩
    · rintro ⟨before, w, rest, cs, hs, hm⟩
      obtain rfl : before = [] := (List.append_eq_nil_iff.1 hs.symm).1
      exact ⟨w, rest, cs, hs, hm⟩
  | cons c s ih =>
    rw [isMatchFrom, Bool.or_eq_true, results_ne_nil, ih]
    constructor
    · rintro (⟨w, rest, cs, hs, hm⟩ | ⟨before, w, rest, cs, hs, hm⟩)
      · exact ⟨[], w, rest, cs, hs, hm⟩
      · exact ⟨c :: before, w, rest, cs, by rw [hs]; rfl, by rw [lastOf_cons]; exact hm⟩
    · rintro ⟨before, w, rest, cs, hs, hm⟩
      cases before with
      | nil => exact .inl ⟨w, rest, cs, hs, hm⟩
      | cons d before =>
        rw [List.cons_append, List.cons.injEq] at hs
        rw [lastOf_cons, ← hs.1] at hm
        exact .inr ⟨before, w, rest, cs, hs.2, hm⟩

/-- A text passes if and only if the expression matches somewhere in it. -/
theorem isMatch_iff {r : Regex} {s : List Char} :
    r.isMatch s = true ↔ ∃ cs, r.Occurs s cs := by
  rw [isMatch, isMatchFrom_iff]
  constructor
  · rintro ⟨before, w, rest, cs, hs, hm⟩
    rw [lastOf, Option.or_none] at hm
    exact ⟨cs, before, w, rest, hs, hm⟩
  · rintro ⟨cs, before, w, rest, hs, hm⟩
    refine ⟨before, w, rest, cs, hs, ?_⟩
    rwa [lastOf, Option.or_none]

end Regex

end Lib
