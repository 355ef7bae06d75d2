import Orynx.Lib.Regex
import Orynx.Lib.Spaces

/-! # Expressions and the spaces of a text

Two texts with the same words, whose runs of spaces stand to each other as a relation says.

* `Respaced`: such a pair; `exists_core`: a text without its outer spaces and its words joined by
  blanks are one;
* `Carries`: an expression that matches in the second text wherever it matches in the first; the
  rules say for which expressions it holds;
* `Solid.isMatch`: an expression that neither starts nor ends with a space, and is carried over, is
  found in the second text if it is found in the first.
-/

namespace Lib

open Regex

/-- The same characters between the spaces, and runs of spaces that are related by `G`. -/
inductive Respaced (space : Char → Bool) (G : List Char → List Char → Prop) :
    List Char → List Char → Prop where
  | nil : Respaced space G [] []
  | char {c : Char} {u v : List Char} :
      space c = false → Respaced space G u v → Respaced space G (c :: u) (c :: v)
  | gap {a b u v : List Char} : a ≠ [] → b ≠ [] → (∀ c ∈ a, space c = true) →
      (∀ c ∈ b, space c = true) → G a b → u.head?.all (fun c => !space c) = true →
      v.head?.all (fun c => !space c) = true → Respaced space G u v →
      Respaced space G (a ++ u) (b ++ v)

namespace Respaced

variable {space : Char → Bool} {G G' : List Char → List Char → Prop}

theorem mono (h : ∀ a b, a ≠ [] → (∀ c ∈ a, space c = true) → G a b → G' a b)
    {u v : List Char} (hr : Respaced space G u v) : Respaced space G' u v := by
  induction hr with
  | nil => exact .nil
  | char hc _ ih => exact .char hc ih
  | gap ha hb has hbs hG hu hv _ ih => exact .gap ha hb has hbs (h _ _ ha has hG) hu hv ih

theorem symm {u v : List Char} (hr : Respaced space G u v) :
    Respaced space (fun a b => G b a) v u := by
  induction hr with
  | nil => exact .nil
  | char hc _ ih => exact .char hc ih
  | gap ha hb has hbs hG hu hv _ ih => exact .gap hb ha hbs has hG hv hu ih

/-- A test that no space passes says the same of the first characters. -/
theorem head {f : Char → Bool} (hf : ∀ c, space c = true → f c = false) {u v : List Char}
    (hr : Respaced space G u v) : u.head?.any f = v.head?.any f := by
  cases hr with
  | nil => rfl
  | char _ _ => rfl
  | @gap a b u v ha hb has hbs _ _ _ _ =>
    obtain ⟨c, a, rfl⟩ := List.exists_cons_of_ne_nil ha
    obtain ⟨d, b, rfl⟩ := List.exists_cons_of_ne_nil hb
    show f c = f d
    rw [hf c (has c List.mem_cons_self), hf d (hbs d List.mem_cons_self)]

theorem getLast?_any_space {f : Char → Bool} (hf : ∀ c, space c = true → f c = false)
    {a : List Char} (ha : ∀ c ∈ a, space c = true) : a.getLast?.any f = false := by
  cases h : a.getLast? with
  | none => rfl
  | some c => exact hf c (ha c (List.mem_of_getLast? h))

theorem nil_iff {u v : List Char} (hr : Respaced space G u v) : u = [] ↔ v = [] := by
  cases hr with
  | nil => exact Iff.rfl
  | char _ _ => exact iff_of_false (List.cons_ne_nil _ _) (List.cons_ne_nil _ _)
  | gap ha hb _ _ _ _ _ _ =>
    exact ⟨fun h => absurd (List.append_eq_nil_iff.1 h).1 ha,
      fun h => absurd (List.append_eq_nil_iff.1 h).1 hb⟩

/-- And of the last ones. -/
theorem last {f : Char → Bool} (hf : ∀ c, space c = true → f c = false) {u v : List Char}
    (hr : Respaced space G u v) : u.getLast?.any f = v.getLast?.any f := by
  induction hr with
  | nil => rfl
  | @char c u v _ hr ih =>
    rw [List.getLast?_cons, List.getLast?_cons]
    by_cases hu : u = []
    · rw [hu, hr.nil_iff.1 hu]
    · rw [List.getLast?_eq_some_getLast hu,
        List.getLast?_eq_some_getLast (mt hr.nil_iff.2 hu)] at ih ⊢
      exact ih
  | @gap a b u v ha hb has hbs _ _ _ hr ih =>
    rw [List.getLast?_append, List.getLast?_append]
    by_cases hu : u = []
    · rw [hu, hr.nil_iff.1 hu]
      show a.getLast?.any f = b.getLast?.any f
      rw [getLast?_any_space hf has, getLast?_any_space hf hbs]
    · rw [List.getLast?_eq_some_getLast hu,
        List.getLast?_eq_some_getLast (mt hr.nil_iff.2 hu)] at ih ⊢
      exact ih

/-- A run of spaces in front of another character is all of the front. -/
theorem spaces_split {a x y : List Char} {c : Char} (ha : ∀ d ∈ a, space d = true)
    (hc : space c = false) {u : List Char} (h : x ++ c :: y = a ++ u) :
    ∃ x₁, x = a ++ x₁ ∧ u = x₁ ++ c :: y := by
  rcases List.append_eq_append_iff.1 h with ⟨z, hz, hu⟩ | ⟨z, hz, hu⟩
  · -- the run would go beyond the character
    cases z with
    | nil =>
      rw [List.append_nil] at hz
      exact ⟨[], by rw [hz, List.append_nil], hu.symm⟩
    | cons d z =>
      rw [List.cons_append, List.cons.injEq] at hu
      have hd := ha d (by rw [hz]; exact List.mem_append_right _ List.mem_cons_self)
      rw [← hu.1, hc] at hd
      cases hd
  · exact ⟨z, hz, hu⟩

theorem head?_append_of_all {x y : List Char} {f : Char → Bool}
    (h : (x ++ y).head?.all f = true) : x.head?.all f = true := by
  cases x with
  | nil => rfl
  | cons c x => exact h

/-- Cut at a character that is no space. -/
theorem split {c : Char} (hc : space c = false) {u z : List Char} (hr : Respaced space G u z) :
    ∀ {x y : List Char}, u = x ++ c :: y →
      ∃ x' y', z = x' ++ c :: y' ∧ Respaced space G x x' ∧ Respaced space G y y' := by
  induction hr with
  | nil =>
    intro x y h
    exact absurd h.symm (by simp)
  | @char d u v hd hr ih =>
    intro x y h
    cases x with
    | nil =>
      obtain ⟨rfl, rfl⟩ := List.cons.inj h
      exact ⟨[], v, rfl, .nil, hr⟩
    | cons e x =>
      obtain ⟨rfl, htail⟩ := List.cons.inj h
      rcases ih htail with ⟨x', y', rfl, hx, hy⟩
      exact ⟨d :: x', y', rfl, .char hd hx, hy⟩
  | @gap a b u v ha hb has hbs hG hu hv hr ih =>
    intro x y h
    rcases spaces_split has hc h.symm with ⟨x₁, rfl, rfl⟩
    rcases ih rfl with ⟨x', y', rfl, hx, hy⟩
    exact ⟨b ++ x', y', (List.append_assoc _ _ _).symm,
      .gap ha hb has hbs hG (head?_append_of_all hu) (head?_append_of_all hv) hx, hy⟩

/-- Cut behind a run of spaces. -/
theorem split_gap {a y z : List Char} {c : Char} (hr : Respaced space G (a ++ c :: y) z)
    (ha : a ≠ []) (has : ∀ d ∈ a, space d = true) (hc : space c = false) :
    ∃ b z', z = b ++ z' ∧ b ≠ [] ∧ (∀ d ∈ b, space d = true) ∧ G a b ∧
      Respaced space G (c :: y) z' := by
  obtain ⟨d, a, rfl⟩ := List.exists_cons_of_ne_nil ha
  generalize hu : d :: a ++ c :: y = u at hr
  cases hr with
  | nil => cases hu
  | char hd _ =>
    obtain ⟨rfl, -⟩ := List.cons.inj hu
    rw [has d List.mem_cons_self] at hd
    cases hd
  | @gap a' b u v ha' hb has' hbs hG hu' hv hr =>
    have hhead : (c :: y).head?.all (fun c => !space c) = true := by
      show (!space c) = true
      rw [hc]
      rfl
    obtain ⟨rfl, rfl⟩ := run_unique has has' hhead hu' hu
    exact ⟨b, v, rfl, hb, hbs, hG, hr⟩

/-- A property of all characters that the relation keeps of the runs. -/
theorem all {f : Char → Bool} (hG : ∀ a b, G a b → (∀ c ∈ a, f c = true) → ∀ c ∈ b, f c = true)
    {u v : List Char} (hr : Respaced space G u v) (h : ∀ c ∈ u, f c = true) :
    ∀ c ∈ v, f c = true := by
  induction hr with
  | nil => exact h
  | char _ _ ih =>
    intro c hc
    rcases List.mem_cons.1 hc with rfl | hc
    · exact h c List.mem_cons_self
    · exact ih (fun d hd => h d (List.mem_cons_of_mem _ hd)) c hc
  | gap _ _ _ _ hab _ _ _ ih =>
    intro c hc
    rcases List.mem_append.1 hc with hc | hc
    · exact hG _ _ hab (fun d hd => h d (List.mem_append_left _ hd)) c hc
    · exact ih (fun d hd => h d (List.mem_append_right _ hd)) c hc

/-- A text that ends with a space, under a relation that looks at the runs without their last. -/
theorem split_last {blank f : Char → Bool}
    (hall : ∀ a b, G a b → (∀ c ∈ a, f c = true) → ∀ c ∈ b, f c = true)
    (hlast : ∀ a b, G a b → ∀ x s, a = x ++ [s] → blank s = true → (∀ c ∈ x, f c = true) →
      ∃ x' s', b = x' ++ [s'] ∧ blank s' = true ∧ ∀ c ∈ x', f c = true)
    {u v : List Char} (hr : Respaced space G u v) :
    ∀ x s, u = x ++ [s] → space s = true → blank s = true → (∀ c ∈ x, f c = true) →
      ∃ x' s', v = x' ++ [s'] ∧ blank s' = true ∧ ∀ c ∈ x', f c = true := by
  induction hr with
  | nil =>
    intro x s h
    exact absurd h.symm (by simp)
  | @char d u v hd hr ih =>
    intro x s h hs hblank hx
    cases x with
    | nil =>
      obtain ⟨rfl, -⟩ := List.cons.inj h
      rw [hs] at hd
      cases hd
    | cons e x =>
      obtain ⟨rfl, htail⟩ := List.cons.inj h
      rcases ih x s htail hs hblank fun c hc => hx c (List.mem_cons_of_mem _ hc)
        with ⟨x', s', rfl, hs', hx'⟩
      refine ⟨d :: x', s', rfl, hs', fun c hc => ?_⟩
      rcases List.mem_cons.1 hc with rfl | hc
      · exact hx c List.mem_cons_self
      · exact hx' c hc
  | @gap a b u v ha hb has hbs hG hu hv hr ih =>
    intro x s h hs hblank hx
    by_cases hnil : u = []
    · obtain rfl := hr.nil_iff.1 hnil
      subst hnil
      rw [List.append_nil] at h ⊢
      exact hlast a b hG x s h hblank hx
    · have hsplit : u = u.dropLast ++ [u.getLast hnil] := (List.dropLast_append_getLast hnil).symm
      rw [hsplit, ← List.append_assoc] at h
      obtain ⟨rfl, hlasts⟩ := List.append_inj' h rfl
      obtain rfl : u.getLast hnil = s := (List.cons.inj hlasts).1
      rcases ih _ _ hsplit hs hblank fun c hc => hx c (List.mem_append_right _ hc)
        with ⟨x', s', rfl, hs', hx'⟩
      refine ⟨b ++ x', s', (List.append_assoc _ _ _).symm, hs', fun c hc => ?_⟩
      rcases List.mem_append.1 hc with hc | hc
      · exact hall a b hG (fun d hd => hx d (List.mem_append_left _ hd)) c hc
      · exact hx' c hc

end Respaced

/-! ## Expressions -/

namespace Regex

variable {space : Char → Bool} {G : List Char → List Char → Prop}

/-- Of its surroundings a match depends on the two neighbours, and of these on whether they are
word characters. -/
theorem Matches.congr {r : Regex} {prev prev' : Option Char} {w rest rest' : List Char}
    {cs : List (List Char)} (hprev : prev.any isWord = prev'.any isWord)
    (hrest : rest.head?.any isWord = rest'.head?.any isWord) (h : r.Matches prev w rest cs) :
    r.Matches prev' w rest' cs := by
  induction r generalizing prev prev' w rest rest' cs with
  | empty => exact h
  | set p => exact h
  | many p lo hi => exact h
  | wordBoundary =>
    rcases h with ⟨rfl, hb, rfl⟩
    refine ⟨rfl, ?_, rfl⟩
    rw [atBoundary] at hb ⊢
    rwa [← hprev, ← hrest]
  | seq r r' ih ih' =>
    rcases h with ⟨u, v, cu, cv, rfl, rfl, hu, hv⟩
    refine ⟨u, v, cu, cv, rfl, rfl, ih hprev ?_ hu, ih' ?_ hrest hv⟩
    · cases v with
      | nil => exact hrest
      | cons c v => rfl
    · rw [lastOf, lastOf]
      cases u.getLast? with
      | none => exact hprev
      | some c => rfl
  | alt r r' ih ih' =>
    rcases h with h | h
    · exact .inl (ih hprev hrest h)
    · exact .inr (ih' hprev hrest h)
  | group r ih =>
    rcases h with ⟨cr, hr, rfl⟩
    exact ⟨cr, ih hprev hrest hr, rfl⟩

/-- No match starts with a space. -/
def Starts (space : Char → Bool) (r : Regex) : Prop :=
  ∀ ⦃prev w rest cs⦄, r.Matches prev w rest cs → ∃ c v, w = c :: v ∧ space c = false

/-- No match ends with a space. -/
def Ends (space : Char → Bool) (r : Regex) : Prop :=
  ∀ ⦃prev w rest cs⦄, r.Matches prev w rest cs → ∃ v c, w = v ++ [c] ∧ space c = false

/-- A match in a text is one in any text that is respaced from there on. -/
def Carries (space : Char → Bool) (G : List Char → List Char → Prop) (r : Regex) : Prop :=
  ∀ ⦃prev prev' w rest z cs⦄, prev.any isWord = prev'.any isWord →
    Respaced space G (w ++ rest) z → r.Matches prev w rest cs →
    ∃ w' rest' cs', z = w' ++ rest' ∧ Respaced space G rest rest' ∧
      (lastOf prev w).any isWord = (lastOf prev' w').any isWord ∧ r.Matches prev' w' rest' cs'

theorem starts_set {p : Char → Bool} (hp : ∀ c, p c = true → space c = false) :
    Starts space (.set p) := by
  rintro prev w rest cs ⟨c, rfl, hc, -⟩
  exact ⟨c, [], rfl, hp c hc⟩

theorem Starts.seq {r r' : Regex} (h : Starts space r) : Starts space (.seq r r') := by
  rintro prev w rest cs ⟨u, v, cu, cv, rfl, rfl, hu, -⟩
  rcases h hu with ⟨c, u, rfl, hc⟩
  exact ⟨c, u ++ v, rfl, hc⟩

theorem Starts.boundary {r : Regex} (h : Starts space r) :
    Starts space (.seq .wordBoundary r) := by
  rintro prev w rest cs ⟨u, v, cu, cv, rfl, rfl, ⟨rfl, -, -⟩, hv⟩
  exact h hv

theorem Starts.alt {r r' : Regex} (h : Starts space r) (h' : Starts space r') :
    Starts space (.alt r r') := by
  rintro prev w rest cs (hr | hr)
  · exact h hr
  · exact h' hr

theorem ends_set {p : Char → Bool} (hp : ∀ c, p c = true → space c = false) :
    Ends space (.set p) := by
  rintro prev w rest cs ⟨c, rfl, hc, -⟩
  exact ⟨[], c, rfl, hp c hc⟩

theorem Ends.seq {r r' : Regex} (h : Ends space r') : Ends space (.seq r r') := by
  rintro prev w rest cs ⟨u, v, cu, cv, rfl, rfl, -, hv⟩
  rcases h hv with ⟨v, c, rfl, hc⟩
  exact ⟨u ++ v, c, (List.append_assoc _ _ _).symm, hc⟩

theorem Ends.empty {r : Regex} (h : Ends space r) : Ends space (.seq r .empty) := by
  rintro prev w rest cs ⟨u, v, cu, cv, rfl, rfl, hu, ⟨rfl, -⟩⟩
  rw [List.append_nil]
  exact h hu

theorem Ends.boundary {r : Regex} (h : Ends space r) : Ends space (.seq r .wordBoundary) := by
  rintro prev w rest cs ⟨u, v, cu, cv, rfl, rfl, hu, ⟨rfl, -, -⟩⟩
  rw [List.append_nil]
  exact h hu

theorem Ends.many {r : Regex} {p : Char → Bool} {lo : Nat} {hi : Option Nat} (h : Ends space r)
    (hp : ∀ c, p c = true → space c = false) : Ends space (.seq r (.many p lo hi)) := by
  rintro prev w rest cs ⟨u, v, cu, cv, rfl, rfl, hu, ⟨-, -, hv, -⟩⟩
  by_cases hnil : v = []
  · rw [hnil, List.append_nil]
    exact h hu
  · refine ⟨u ++ v.dropLast, v.getLast hnil, ?_, hp _ (hv _ (List.getLast_mem hnil))⟩
    rw [List.append_assoc, List.dropLast_append_getLast hnil]

theorem Ends.alt {r r' : Regex} (h : Ends space r) (h' : Ends space r') :
    Ends space (.alt r r') := by
  rintro prev w rest cs (hr | hr)
  · exact h hr
  · exact h' hr

theorem lastOf_append (prev : Option Char) (u v : List Char) :
    lastOf prev (u ++ v) = lastOf (lastOf prev u) v := by
  rw [lastOf, lastOf, lastOf, List.getLast?_append, Option.or_assoc]

/-! ### What is carried over -/

section Carries

theorem carries_empty : Carries space G .empty := by
  rintro prev prev' w rest z cs hprev hz ⟨rfl, rfl⟩
  exact ⟨[], z, [], rfl, hz, hprev, rfl, rfl⟩

theorem carries_set {p : Char → Bool} (hp : ∀ c, p c = true → space c = false) :
    Carries space G (.set p) := by
  rintro prev prev' w rest z cs hprev hz ⟨c, rfl, hc, rfl⟩
  rcases hz.split (hp c hc) (x := []) rfl with ⟨x', y', rfl, hx, hy⟩
  obtain rfl := hx.nil_iff.1 rfl
  exact ⟨[c], y', [], rfl, hy, rfl, c, rfl, hc, rfl⟩

theorem Carries.seq {r r' : Regex} (h : Carries space G r) (h' : Carries space G r') :
    Carries space G (.seq r r') := by
  rintro prev prev' w rest z cs hprev hz ⟨u, v, cu, cv, rfl, rfl, hu, hv⟩
  rw [List.append_assoc] at hz
  rcases h hprev hz hu with ⟨u', z', cu', rfl, hz', hlast, hu'⟩
  rcases h' hlast hz' hv with ⟨v', rest', cv', rfl, hrest, hlast', hv'⟩
  refine ⟨u' ++ v', rest', cu' ++ cv', (List.append_assoc _ _ _).symm, hrest, ?_,
    u', v', cu', cv', rfl, rfl, hu', hv'⟩
  rw [lastOf_append, lastOf_append]
  exact hlast'

theorem Carries.alt {r r' : Regex} (h : Carries space G r) (h' : Carries space G r') :
    Carries space G (.alt r r') := by
  rintro prev prev' w rest z cs hprev hz (hr | hr)
  · rcases h hprev hz hr with ⟨w', rest', cs', hz', hrest, hlast, hr'⟩
    exact ⟨w', rest', cs', hz', hrest, hlast, .inl hr'⟩
  · rcases h' hprev hz hr with ⟨w', rest', cs', hz', hrest, hlast, hr'⟩
    exact ⟨w', rest', cs', hz', hrest, hlast, .inr hr'⟩

/-- A choice behind something is a choice of what is behind it. -/
theorem Carries.seq_alt {r a b : Regex} (h : Carries space G (.seq r a))
    (h' : Carries space G (.seq r b)) : Carries space G (.seq r (.alt a b)) := by
  rintro prev prev' w rest z cs hprev hz ⟨u, v, cu, cv, rfl, rfl, hu, hv | hv⟩
  · rcases h hprev hz ⟨u, v, cu, cv, rfl, rfl, hu, hv⟩ with
      ⟨w', rest', cs', hz', hrest, hlast, u', v', cu', cv', hw, hc, hu', hv'⟩
    exact ⟨w', rest', cs', hz', hrest, hlast, u', v', cu', cv', hw, hc, hu', .inl hv'⟩
  · rcases h' hprev hz ⟨u, v, cu, cv, rfl, rfl, hu, hv⟩ with
      ⟨w', rest', cs', hz', hrest, hlast, u', v', cu', cv', hw, hc, hu', hv'⟩
    exact ⟨w', rest', cs', hz', hrest, hlast, u', v', cu', cv', hw, hc, hu', .inr hv'⟩

/-- A character that may be there and is no space. -/
theorem carries_optional {p : Char → Bool} (hp : ∀ c, p c = true → space c = false) :
    Carries space G (.many p 0 (some 1)) := by
  rintro prev prev' w rest z cs hprev hz ⟨-, hle, hall, rfl⟩
  cases w with
  | nil => exact ⟨[], z, [], rfl, hz, hprev, Nat.zero_le _, fun n _ => Nat.zero_le n, hall, rfl⟩
  | cons c w =>
    obtain rfl : w = [] := List.eq_nil_of_length_eq_zero (by
      have hone : (c :: w).length ≤ 1 := hle 1 rfl
      rw [List.length_cons] at hone
      omega)
    have hc := hp c (hall c List.mem_cons_self)
    rcases hz.split hc (x := []) rfl with ⟨x', y', rfl, hx, hy⟩
    obtain rfl := hx.nil_iff.1 rfl
    exact ⟨[c], y', [], rfl, hy, rfl, Nat.zero_le _, hle, hall, rfl⟩

variable (hword : ∀ c, space c = true → isWord c = false)

include hword

theorem carries_wordBoundary : Carries space G .wordBoundary := by
  rintro prev prev' w rest z cs hprev hz ⟨rfl, hb, rfl⟩
  refine ⟨[], z, [], rfl, hz, hprev, rfl, ?_, rfl⟩
  rw [atBoundary] at hb ⊢
  rwa [← hprev, ← hz.head hword]

theorem lastOf_respaced {prev prev' : Option Char} (hprev : prev.any isWord = prev'.any isWord)
    {u v : List Char} (hr : Respaced space G u v) :
    (lastOf prev u).any isWord = (lastOf prev' v).any isWord := by
  have hlast := hr.last hword
  rw [lastOf, lastOf]
  by_cases hu : u = []
  · rw [hu, hr.nil_iff.1 hu]
    exact hprev
  · rw [List.getLast?_eq_some_getLast hu,
      List.getLast?_eq_some_getLast (mt hr.nil_iff.2 hu)] at hlast ⊢
    exact hlast

theorem lastOf_spaces {prev : Option Char} {a : List Char} (ha : a ≠ [])
    (has : ∀ c ∈ a, space c = true) : (lastOf prev a).any isWord = false := by
  rw [lastOf, List.getLast?_eq_some_getLast ha]
  exact hword _ (has _ (List.getLast_mem ha))

/-- A run of blanks in front of something that does not start with a space: the run is a whole one,
and the relation leaves blanks of it. -/
theorem Carries.blanks {blank : Char → Bool} {r : Regex} (hblank : ∀ c, blank c = true →
      space c = true) (hG : ∀ a b, G a b → (∀ c ∈ a, blank c = true) → ∀ c ∈ b, blank c = true)
    (h : Carries space G r) (hstart : Starts space r) :
    Carries space G (.seq (.many blank 1 none) r) := by
  rintro prev prev' w rest z cs hprev hz ⟨u, v, cu, cv, rfl, rfl, ⟨hlo, -, hall, rfl⟩, hv⟩
  rcases hstart hv with ⟨c, v₁, rfl, hc⟩
  have hne : u ≠ [] := List.ne_nil_of_length_pos hlo
  have hspaces : ∀ c ∈ u, space c = true := fun c hc => hblank c (hall c hc)
  rw [List.append_assoc] at hz
  rcases hz.split_gap hne hspaces hc with ⟨b, z', rfl, hb, hbs, hab, hz'⟩
  have hlast : (lastOf prev u).any isWord = (lastOf prev' b).any isWord :=
    (lastOf_spaces hword hne hspaces).trans (lastOf_spaces hword hb hbs).symm
  rcases h hlast hz' hv with ⟨v', rest', cv', rfl, hrest, hlast', hv'⟩
  refine ⟨b ++ v', rest', cv', (List.append_assoc _ _ _).symm, hrest, ?_, b, v', [], cv', rfl, rfl,
    ⟨List.length_pos_iff.2 hb, ?_, hG u b hab hall, rfl⟩, hv'⟩
  · rw [lastOf_append, lastOf_append]
    exact hlast'
  · intro n hn
    cases hn

/-- Anything of a kind in front of something that does not start with a space. -/
theorem Carries.anything {f : Char → Bool} {r : Regex}
    (hall : ∀ a b, G a b → (∀ c ∈ a, f c = true) → ∀ c ∈ b, f c = true)
    (h : Carries space G r) (hstart : Starts space r) :
    Carries space G (.seq (.many f 0 none) r) := by
  rintro prev prev' w rest z cs hprev hz ⟨u, v, cu, cv, rfl, rfl, ⟨-, -, hu, rfl⟩, hv⟩
  rcases hstart hv with ⟨c, v₁, rfl, hc⟩
  rw [List.append_assoc] at hz
  rcases hz.split hc rfl with ⟨u', z', rfl, hu', hz'⟩
  rcases h (lastOf_respaced hword hprev hu') (.char hc hz') hv with
    ⟨v', rest', cv', hsplit, hrest, hlast, hv'⟩
  refine ⟨u' ++ v', rest', cv', ?_, hrest, ?_, u', v', [], cv', rfl, rfl,
    ⟨Nat.zero_le _, ?_, hu'.all hall hu, rfl⟩, hv'⟩
  · rw [List.append_assoc, hsplit]
  · rw [lastOf_append, lastOf_append]
    exact hlast
  · intro n hn
    cases hn

/-- Anything of a kind, and then a blank in front of something that does not start with one. -/
theorem Carries.anything_blank {blank f : Char → Bool} {r : Regex}
    (hblank : ∀ c, blank c = true → space c = true)
    (hall : ∀ a b, G a b → (∀ c ∈ a, f c = true) → ∀ c ∈ b, f c = true)
    (hlast : ∀ a b, G a b → ∀ x s, a = x ++ [s] → blank s = true → (∀ c ∈ x, f c = true) →
      ∃ x' s', b = x' ++ [s'] ∧ blank s' = true ∧ ∀ c ∈ x', f c = true)
    (h : Carries space G r) (hstart : Starts space r) :
    Carries space G (.seq (.many f 0 none) (.seq (.set blank) r)) := by
  rintro prev prev' w rest z cs hprev hz
    ⟨u, v, cu, cv, rfl, rfl, ⟨-, -, hu, rfl⟩, ⟨s, v₂, cs, cv₂, rfl, rfl, ⟨s, rfl, hs, rfl⟩, hv⟩⟩
  rcases hstart hv with ⟨c, v₁, rfl, hc⟩
  have hassoc : u ++ ([s] ++ c :: v₁) ++ rest = (u ++ [s]) ++ c :: (v₁ ++ rest) := by
    simp
  rw [hassoc] at hz
  rcases hz.split hc rfl with ⟨u', z', rfl, hu', hz'⟩
  rcases hu'.split_last hall hlast u s rfl (hblank s hs) hs hu with ⟨x', s', rfl, hs', hx'⟩
  have hone : (lastOf (lastOf prev u) [s]).any isWord =
      (lastOf (lastOf prev' x') [s']).any isWord :=
    (hword s (hblank s hs)).trans (hword s' (hblank s' hs')).symm
  rcases h hone (.char hc hz') hv with ⟨v', rest', cv', hsplit, hrest, hlasts, hv'⟩
  refine ⟨x' ++ ([s'] ++ v'), rest', cv', ?_, hrest, ?_, x', [s'] ++ v', [], cv', rfl, rfl,
    ⟨Nat.zero_le _, ?_, hx', rfl⟩, [s'], v', [], cv', rfl, rfl, ⟨s', rfl, hs', rfl⟩, hv'⟩
  · rw [List.append_assoc, List.append_assoc, List.append_assoc, ← hsplit]
  · rw [lastOf_append, lastOf_append, lastOf_append, lastOf_append]
    exact hlasts
  · intro n hn
    cases hn

end Carries

/-! ## Whole texts -/

/-- An expression that neither starts nor ends with a space, and is carried over. -/
structure Solid (space : Char → Bool) (G : List Char → List Char → Prop) (r : Regex) : Prop where
  starts : Starts space r
  ends : Ends space r
  carries : Carries space G r

theorem Solid.alt {r r' : Regex} (h : Solid space G r) (h' : Solid space G r') :
    Solid space G (.alt r r') where
  starts := h.starts.alt h'.starts
  ends := h.ends.alt h'.ends
  carries := h.carries.alt h'.carries

section Rules

variable (hword : ∀ c, space c = true → isWord c = false)

include hword

/-- Between word boundaries. -/
theorem Solid.whole {r : Regex} (h : Solid space G r) :
    Solid space G (.seq .wordBoundary (.seq r .wordBoundary)) where
  starts := h.starts.seq.boundary
  ends := h.ends.boundary.seq
  carries := (carries_wordBoundary hword).seq (h.carries.seq (carries_wordBoundary hword))

theorem Solid.boundary {r : Regex} (h : Solid space G r) :
    Solid space G (.seq r .wordBoundary) where
  starts := h.starts.seq
  ends := h.ends.boundary
  carries := h.carries.seq (carries_wordBoundary hword)

/-- Two expressions with blanks between them. -/
theorem Solid.blanks {blank : Char → Bool} {r r' : Regex}
    (hblank : ∀ c, blank c = true → space c = true)
    (hG : ∀ a b, G a b → (∀ c ∈ a, blank c = true) → ∀ c ∈ b, blank c = true)
    (h : Solid space G r) (h' : Solid space G r') :
    Solid space G (.seq r (.seq (.many blank 1 none) r')) where
  starts := h.starts.seq
  ends := h'.ends.seq.seq
  carries := h.carries.seq (h'.carries.blanks hword hblank hG h'.starts)

end Rules

/-- A run of spaces behind another character is all of the end. -/
theorem spaces_split_end {a u x y : List Char} {c : Char} (ha : ∀ d ∈ a, space d = true)
    (hc : space c = false) (h : u ++ a = x ++ c :: y) :
    ∃ y₁, y = y₁ ++ a ∧ u = x ++ c :: y₁ := by
  rcases List.append_eq_append_iff.1 h with ⟨z, -, ha'⟩ | ⟨z, hu, hz⟩
  · have hspace := ha c (by rw [ha']; exact List.mem_append_right z List.mem_cons_self)
    rw [hc] at hspace
    cases hspace
  · cases z with
    | nil =>
      have hspace := ha c (by rw [← List.nil_append a, ← hz]; exact List.mem_cons_self)
      rw [hc] at hspace
      cases hspace
    | cons d z =>
      obtain ⟨rfl, rfl⟩ := List.cons.inj hz
      exact ⟨z, rfl, hu⟩

section Whole

variable (hword : ∀ c, space c = true → isWord c = false) {r : Regex}

include hword

/-- Spaces around a text are no word characters. -/
theorem getLast?_spaces {a : List Char} (ha : ∀ c ∈ a, space c = true) (b : List Char) :
    (a ++ b).getLast?.any isWord = b.getLast?.any isWord := by
  rw [List.getLast?_append]
  cases b.getLast? with
  | none => exact Respaced.getLast?_any_space hword ha
  | some c => rfl

theorem head?_spaces {a : List Char} (ha : ∀ c ∈ a, space c = true) (b : List Char) :
    (b ++ a).head?.any isWord = b.head?.any isWord := by
  cases b with
  | cons c b => rfl
  | nil =>
    cases a with
    | nil => rfl
    | cons c a => exact hword c (ha c List.mem_cons_self)

/-- Found in a text, the expression is found in one that is respaced. -/
theorem Solid.isMatch (hr : Solid space G r) {lead u trail lead' v trail' : List Char}
    (hlead : ∀ c ∈ lead, space c = true) (htrail : ∀ c ∈ trail, space c = true)
    (hlead' : ∀ c ∈ lead', space c = true) (htrail' : ∀ c ∈ trail', space c = true)
    (huv : Respaced space G u v) (h : r.isMatch (lead ++ (u ++ trail)) = true) :
    r.isMatch (lead' ++ (v ++ trail')) = true := by
  rcases isMatch_iff.1 h with ⟨cs, before, w, rest, hs, hm⟩
  obtain ⟨c, w₁, hw, hc⟩ := hr.starts hm
  obtain ⟨w₂, d, hw', hd⟩ := hr.ends hm
  -- the match lies between the outer spaces
  obtain ⟨b, rfl, hu⟩ : ∃ b, before = lead ++ b ∧ u ++ trail = b ++ (w ++ rest) := by
    rw [hw, List.cons_append] at hs ⊢
    exact Respaced.spaces_split hlead hc hs.symm
  obtain ⟨rest₁, rfl, rfl⟩ : ∃ rest₁, rest = rest₁ ++ trail ∧ u = b ++ (w ++ rest₁) := by
    rw [hw', List.append_assoc, List.singleton_append, ← List.append_assoc] at hu
    rcases spaces_split_end htrail hd hu with ⟨y₁, hy, hu'⟩
    refine ⟨y₁, hy, ?_⟩
    rw [hu', hw', List.append_assoc, List.append_assoc, List.singleton_append]
  have hm' : r.Matches b.getLast? w rest₁ cs :=
    hm.congr (getLast?_spaces hword hlead b) (head?_spaces hword htrail rest₁)
  -- cut in front of the match, and carry it over
  rw [hw, List.cons_append] at huv
  rcases huv.split hc rfl with ⟨b', y', rfl, hb, hy⟩
  have hwrest : Respaced space G (w ++ rest₁) (c :: y') := by
    rw [hw, List.cons_append]
    exact .char hc hy
  rcases hr.carries (hb.last hword) hwrest hm' with ⟨w', rest', cs', hsplit, -, -, hmatch⟩
  refine isMatch_iff.2 ⟨cs', lead' ++ b', w', rest' ++ trail', ?_, ?_⟩
  · rw [hsplit]
    simp only [List.append_assoc]
  · exact hmatch.congr (getLast?_spaces hword hlead' b').symm
      (head?_spaces hword htrail' rest').symm

end Whole

end Regex

/-! ## Texts and their words -/

namespace Respaced

open Spaces

variable {space : Char → Bool} {sep : Char}

/-- A run of spaces of `s` against one blank. -/
def Blanked (sep : Char) (s a b : List Char) : Prop := (∀ c ∈ a, c ∈ s) ∧ b = [sep]

theorem join_cons {sep : Char} (w : List Char) {ws : List (List Char)} (h : ws ≠ []) :
    join sep (w :: ws) = w ++ sep :: join sep ws := by
  cases ws with
  | nil => exact absurd rfl h
  | cons v vs => rfl

theorem join_cons_char {sep c : Char} (v : List Char) (vs : List (List Char)) :
    join sep ((c :: v) :: vs) = c :: join sep (v :: vs) := by
  cases vs with
  | nil => rfl
  | cons x xs => rfl

/-- Without the spaces around it, a text is its words joined by blanks, respaced. -/
theorem exists_core (hsep : space sep = true) (s : List Char) : ∃ lead u trail,
    s = lead ++ (u ++ trail) ∧ (∀ c ∈ lead, space c = true) ∧ (∀ c ∈ trail, space c = true) ∧
      u.head?.all (fun c => !space c) = true ∧
      Respaced space (Blanked sep s) u (join sep (words space s)) := by
  induction s with
  | nil => exact ⟨[], [], [], rfl, by simp, by simp, rfl, .nil⟩
  | cons c t ih =>
    rcases ih with ⟨lead, u, trail, ht, hlead, htrail, hhead, hr⟩
    have hmono : Respaced space (Blanked sep (c :: t)) u (join sep (words space t)) :=
      hr.mono fun a b _ _ h => ⟨fun d hd => List.mem_cons_of_mem c (h.1 d hd), h.2⟩
    cases hc : space c with
    | true =>
      refine ⟨c :: lead, u, trail, by rw [ht]; rfl, ?_, htrail, hhead, ?_⟩
      · intro d hd
        rcases List.mem_cons.1 hd with rfl | hd
        · exact hc
        · exact hlead d hd
      · rwa [words_space hc]
    | false =>
      have hnot : (!space c) = true := by rw [hc]; rfl
      cases t with
      | nil =>
        exact ⟨[], [c], [], rfl, by simp, by simp, hnot, by
          rw [words_single hc]
          exact .char hc .nil⟩
      | cons d t =>
        cases hd : space d with
        | true =>
          by_cases hu : u = []
          · -- nothing but spaces follows
            have hjoin : join sep (words space (d :: t)) = [] := hr.nil_iff.1 hu
            have hwords : words space (d :: t) = [] := by
              cases hws : words space (d :: t) with
              | nil => rfl
              | cons v vs =>
                rw [hws] at hjoin
                have hmem : v ∈ words space (d :: t) := by
                  rw [hws]
                  exact List.mem_cons_self
                exact absurd hjoin (join_ne_nil (words_spec (d :: t) v hmem).1 vs)
            subst hu
            refine ⟨[], [c], lead ++ trail, by rw [ht]; rfl, by simp, ?_, hnot, ?_⟩
            · intro e he
              rcases List.mem_append.1 he with he | he
              · exact hlead e he
              · exact htrail e he
            · rw [words_char_space hc hd, hwords]
              exact .char hc .nil
          · -- a run of spaces, and then a word
            have hne : lead ≠ [] := by
              rintro rfl
              obtain ⟨e, u, rfl⟩ := List.exists_cons_of_ne_nil hu
              obtain ⟨rfl, -⟩ := List.cons.inj ht
              rw [List.head?_cons, Option.all_some, hd] at hhead
              cases hhead
            have hwords : words space (d :: t) ≠ [] := by
              intro h
              rw [h] at hr
              exact hu (hr.nil_iff.2 rfl)
            have hheads : (join sep (words space (d :: t))).head?.all (!space ·) = true := by
              obtain ⟨e, u, rfl⟩ := List.exists_cons_of_ne_nil hu
              have he : space e = false := by
                rw [List.head?_cons, Option.all_some] at hhead
                exact Bool.not_eq_true' _ ▸ hhead
              rcases hr.split he (x := []) rfl with ⟨x', y', hjoin, hx, -⟩
              obtain rfl := hx.nil_iff.1 rfl
              rw [hjoin, List.nil_append, List.head?_cons, Option.all_some, he]
              rfl
            refine ⟨[], c :: (lead ++ u), trail, ?_, by simp, htrail, hnot, ?_⟩
            · rw [ht]
              simp
            · rw [words_char_space hc hd, join_cons _ hwords]
              have hgap : Respaced space (Blanked sep (c :: d :: t)) (lead ++ u)
                  ([sep] ++ join sep (words space (d :: t))) := by
                refine .gap hne (List.cons_ne_nil sep []) hlead ?_ ⟨?_, rfl⟩ hhead hheads hmono
                · intro e he
                  rw [List.mem_singleton.1 he]
                  exact hsep
                · intro e he
                  rw [ht]
                  exact List.mem_cons_of_mem c (List.mem_append_left _ he)
              exact .char hc hgap
        | false =>
          have hnil : lead = [] := by
            cases lead with
            | nil => rfl
            | cons e lead =>
              obtain ⟨rfl, -⟩ := List.cons.inj ht
              rw [hlead _ List.mem_cons_self] at hd
              cases hd
          subst hnil
          rcases words_char_char hc hd t with ⟨v, vs, hv, hcv⟩
          refine ⟨[], c :: u, trail, by rw [ht]; rfl, by simp, htrail, hnot, ?_⟩
          rw [hcv, join_cons_char, ← hv]
          exact .char hc hmono

end Respaced

end Lib
