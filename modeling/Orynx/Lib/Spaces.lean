import Mathlib.Data.List.Basic

/-! # Texts with their spaces normalised

One way cuts a text into its words and joins these with one blank between two. Another replaces
each run of spaces by a blank and takes the blanks off both ends. What a space is, is a parameter
of either.

* `trim_collapse`: with the same spaces, the two ways agree;
* `collapse_eq_iff`: with different ones they do on a text if and only if the two kinds do on its
  characters;
* `words_join`: joined by any space, words come apart again.
-/

namespace Lib.Spaces

variable {p p' : Char → Bool} {sep : Char}

/-! ## Words -/

/-- The words of `s`, the first of which goes on from `word`. -/
def wordsFrom (p : Char → Bool) : List Char → List Char → List (List Char)
  | word, [] => if word = [] then [] else [word]
  | word, c :: s =>
    if p c then if word = [] then wordsFrom p [] s else word :: wordsFrom p [] s
    else wordsFrom p (word ++ [c]) s

def words (p : Char → Bool) (s : List Char) : List (List Char) := wordsFrom p [] s

def join (sep : Char) : List (List Char) → List Char
  | [] => []
  | [w] => w
  | w :: ws => w ++ sep :: join sep ws

/-! ## Runs -/

/-- Each run of spaces replaced by one blank; `inRun` says that the blank is there already. -/
def collapseFrom (p : Char → Bool) (sep : Char) : Bool → List Char → List Char
  | _, [] => []
  | inRun, c :: s =>
    if p c then if inRun then collapseFrom p sep true s else sep :: collapseFrom p sep true s
    else c :: collapseFrom p sep false s

def collapse (p : Char → Bool) (sep : Char) (s : List Char) : List Char :=
  collapseFrom p sep false s

def trimEnd (sep : Char) : List Char → List Char
  | [] => []
  | c :: s => if trimEnd sep s = [] ∧ c = sep then [] else c :: trimEnd sep s

def trim (sep : Char) (s : List Char) : List Char := trimEnd sep (s.dropWhile (· == sep))

/-! ## Words and runs -/

theorem wordsFrom_ne_nil (s : List Char) : ∀ w, ∀ v ∈ wordsFrom p w s, v ≠ [] := by
  induction s with
  | nil =>
    intro w v hv
    rw [wordsFrom] at hv
    split at hv
    · cases hv
    · rename_i hw
      rwa [List.mem_singleton.1 hv]
  | cons c s ih =>
    intro w v hv
    rw [wordsFrom] at hv
    split at hv
    · split at hv
      · exact ih [] v hv
      · rename_i hw
        rcases List.mem_cons.1 hv with rfl | hv
        · exact hw
        · exact ih [] v hv
    · exact ih _ v hv

theorem join_ne_nil {v : List Char} (hv : v ≠ []) (vs : List (List Char)) :
    join sep (v :: vs) ≠ [] := by
  cases vs with
  | nil => exact hv
  | cons w ws => simp [join]

/-- Behind a word and behind a run the words are what is left of the collapsed text. -/
theorem join_wordsFrom (hsep : p sep = true) (s : List Char) :
    (∀ w, w ≠ [] → (∀ c ∈ w, p c = false) →
      join sep (wordsFrom p w s) = w ++ trimEnd sep (collapseFrom p sep false s)) ∧
    join sep (wordsFrom p [] s) = trimEnd sep (collapseFrom p sep true s) := by
  induction s with
  | nil =>
    refine ⟨fun w hw _ => ?_, rfl⟩
    rw [wordsFrom, if_neg hw, collapseFrom, trimEnd, List.append_nil, join]
  | cons c s ih =>
    by_cases hc : p c = true
    · refine ⟨fun w hw hall => ?_, ?_⟩
      · rw [wordsFrom, if_pos hc, if_neg hw, collapseFrom, if_pos hc, if_neg Bool.false_ne_true,
          trimEnd, ← ih.2]
        cases hrest : wordsFrom p [] s with
        | nil => rw [join, join, if_pos ⟨rfl, rfl⟩, List.append_nil]
        | cons v vs =>
          have hv : v ≠ [] := wordsFrom_ne_nil s [] v (hrest ▸ List.mem_cons_self)
          rw [join, if_neg fun h => join_ne_nil hv vs h.1]
          exact fun h => by cases h
      · rw [wordsFrom, if_pos hc, if_pos rfl, collapseFrom, if_pos hc, if_pos rfl]
        exact ih.2
    · have hcsep : c ≠ sep := by
        rintro rfl
        exact hc hsep
      refine ⟨fun w hw hall => ?_, ?_⟩
      · rw [wordsFrom, if_neg hc, collapseFrom, if_neg hc, ih.1 (w ++ [c]) (by simp) ?_,
          trimEnd, if_neg fun h => hcsep h.2, List.append_assoc, List.singleton_append]
        intro d hd
        rcases List.mem_append.1 hd with hd | hd
        · exact hall d hd
        · rw [List.mem_singleton.1 hd]
          exact Bool.eq_false_iff.2 hc
      · rw [wordsFrom, if_neg hc, collapseFrom, if_neg hc, List.nil_append, ih.1 [c] (by simp) ?_,
          trimEnd, if_neg fun h => hcsep h.2, List.singleton_append]
        intro d hd
        rw [List.mem_singleton.1 hd]
        exact Bool.eq_false_iff.2 hc

/-- Behind a run there is no blank. -/
theorem dropWhile_collapseFrom (hsep : p sep = true) (s : List Char) :
    (collapseFrom p sep true s).dropWhile (· == sep) = collapseFrom p sep true s := by
  induction s with
  | nil => rfl
  | cons c s ih =>
    rw [collapseFrom]
    by_cases hc : p c = true
    · rw [if_pos hc, if_pos rfl, ih]
    · rw [if_neg hc]
      refine List.dropWhile_cons_of_neg fun h => hc ?_
      rw [beq_iff_eq.1 h]
      exact hsep

theorem trim_collapse (hsep : p sep = true) (s : List Char) :
    trim sep (collapse p sep s) = join sep (words p s) := by
  have hrun : trim sep (collapseFrom p sep true s) = join sep (words p s) := by
    rw [trim, dropWhile_collapseFrom hsep, words, (join_wordsFrom hsep s).2]
  cases s with
  | nil => rfl
  | cons c s =>
    rw [collapse, collapseFrom]
    rw [collapseFrom] at hrun
    by_cases hc : p c = true
    · rw [if_pos hc, if_pos rfl] at hrun
      rw [if_pos hc, if_neg Bool.false_ne_true, trim, List.dropWhile_cons_of_pos (by simp)]
      exact hrun
    · rw [if_neg hc] at hrun ⊢
      exact hrun

/-! ## Different spaces -/

theorem mem_trimEnd {c : Char} (hc : c ≠ sep) (s : List Char) : c ∈ trimEnd sep s ↔ c ∈ s := by
  induction s with
  | nil => exact Iff.rfl
  | cons d s ih =>
    rw [trimEnd, List.mem_cons]
    by_cases h : trimEnd sep s = [] ∧ d = sep
    · rw [if_pos h, ← ih, h.1, h.2]
      simp [hc]
    · rw [if_neg h, List.mem_cons, ih]

theorem mem_collapseFrom {c : Char} (hc : c ≠ sep) (s : List Char) (inRun : Bool) :
    c ∈ collapseFrom p sep inRun s ↔ c ∈ s ∧ p c = false := by
  induction s generalizing inRun with
  | nil => simp [collapseFrom]
  | cons d s ih =>
    rw [collapseFrom, List.mem_cons]
    by_cases hd : p d = true
    · have hdc : p c = false → c ≠ d := by
        rintro hpc rfl
        rw [hpc] at hd
        cases hd
      rw [if_pos hd]
      cases inRun with
      | true =>
        rw [if_pos rfl, ih]
        exact ⟨fun h => ⟨.inr h.1, h.2⟩, fun h => ⟨h.1.resolve_left (hdc h.2), h.2⟩⟩
      | false =>
        rw [if_neg Bool.false_ne_true, List.mem_cons, ih]
        exact ⟨fun h => h.elim (fun h => absurd h hc) fun h => ⟨.inr h.1, h.2⟩,
          fun h => .inr ⟨h.1.resolve_left (hdc h.2), h.2⟩⟩
    · rw [if_neg hd, List.mem_cons, ih]
      constructor
      · rintro (rfl | h)
        · exact ⟨.inl rfl, Bool.eq_false_iff.2 hd⟩
        · exact ⟨.inr h.1, h.2⟩
      · rintro ⟨rfl | h, hpc⟩
        · exact .inl rfl
        · exact .inr ⟨h, hpc⟩

/-- Apart from blanks, the normalised text has just the characters that are no spaces. -/
theorem mem_trim_collapse {c : Char} (hc : c ≠ sep) (s : List Char) :
    c ∈ trim sep (collapse p sep s) ↔ c ∈ s ∧ p c = false := by
  have hdrop (s : List Char) : c ∈ s.dropWhile (· == sep) ↔ c ∈ s := by
    induction s with
    | nil => exact Iff.rfl
    | cons d s ih =>
      by_cases hd : d = sep
      · rw [List.dropWhile_cons_of_pos (by simp [hd]), ih, List.mem_cons, hd]
        simp [hc]
      · rw [List.dropWhile_cons_of_neg (by simpa using hd)]
  rw [trim, mem_trimEnd hc, hdrop, collapse, mem_collapseFrom hc]

theorem collapseFrom_congr {s : List Char} (h : ∀ c ∈ s, p c = p' c) (inRun : Bool) :
    collapseFrom p sep inRun s = collapseFrom p' sep inRun s := by
  induction s generalizing inRun with
  | nil => rfl
  | cons c s ih =>
    have hs := ih fun d hd => h d (List.mem_cons_of_mem c hd)
    rw [collapseFrom, collapseFrom, h c List.mem_cons_self, hs, hs]

/-- With a change of the characters that neither moves nor makes a space. -/
theorem collapse_eq_iff (hsep : p sep = true) (hsep' : p' sep = true) {f : Char → Char}
    (hf : ∀ c, p c = true ∨ p' c = true → f c = c)
    (hf' : ∀ c, p (f c) = true ∨ p' (f c) = true → f c = c) (s : List Char) :
    (trim sep (collapse p sep s)).map f = (trim sep (collapse p' sep s)).map f ↔
      ∀ c ∈ s, p c = p' c := by
  have hone {p p' : Char → Bool} (hsep' : p' sep = true)
      (hf : ∀ c, p c = true ∨ p' c = true → f c = c)
      (hf' : ∀ c, p (f c) = true ∨ p' (f c) = true → f c = c)
      (heq : (trim sep (collapse p sep s)).map f = (trim sep (collapse p' sep s)).map f) {c : Char}
      (hcs : c ∈ s) (hpc : p c = true) : p' c = true := by
    by_contra hpc'
    have hpc' : p' c = false := Bool.eq_false_iff.2 hpc'
    have hc : c ≠ sep := by
      rintro rfl
      rw [hsep'] at hpc'
      cases hpc'
    -- `c` is left by the one way, so it has to be left by the other
    have hmem : c ∈ (trim sep (collapse p sep s)).map f := by
      rw [heq]
      exact List.mem_map.2 ⟨c, (mem_trim_collapse hc s).2 ⟨hcs, hpc'⟩, hf c (.inl hpc)⟩
    rcases List.mem_map.1 hmem with ⟨d, hd, hdc⟩
    have hfd : f d = d := hf' d (.inl (by rw [hdc]; exact hpc))
    rw [← hfd, hdc] at hd
    rw [((mem_trim_collapse hc s).1 hd).2] at hpc
    cases hpc
  constructor
  · intro heq c hcs
    refine Bool.eq_iff_iff.2 ⟨hone hsep' hf hf' heq hcs, ?_⟩
    exact hone hsep (fun c h => hf c h.symm) (fun c h => hf' c h.symm) heq.symm hcs
  · intro h
    rw [collapse, collapse, collapseFrom_congr h]

/-! ## One character more -/

theorem words_space {c : Char} (hc : p c = true) (s : List Char) :
    words p (c :: s) = words p s := by
  rw [words, wordsFrom, if_pos hc, if_pos rfl]
  rfl

/-- A character in front of a word. -/
theorem wordsFrom_cons (c : Char) (s : List Char) : ∀ w, w ≠ [] →
    ∃ v vs, wordsFrom p w s = v :: vs ∧ wordsFrom p (c :: w) s = (c :: v) :: vs := by
  induction s with
  | nil =>
    intro w hw
    exact ⟨w, [], if_neg hw, rfl⟩
  | cons d s ih =>
    intro w hw
    by_cases hd : p d = true
    · refine ⟨w, wordsFrom p [] s, ?_, ?_⟩
      · rw [wordsFrom, if_pos hd, if_neg hw]
      · rw [wordsFrom, if_pos hd, if_neg (List.cons_ne_nil c w)]
    · rcases ih (w ++ [d]) (by simp) with ⟨v, vs, hv, hcv⟩
      refine ⟨v, vs, ?_, ?_⟩
      · rw [wordsFrom, if_neg hd, hv]
      · rw [wordsFrom, if_neg hd, List.cons_append, hcv]

theorem words_single {c : Char} (hc : p c = false) : words p [c] = [[c]] := by
  rw [words, wordsFrom, if_neg (Bool.eq_false_iff.1 hc)]
  rfl

/-- A character in front of a space is a word of its own. -/
theorem words_char_space {c d : Char} (hc : p c = false) (hd : p d = true) (s : List Char) :
    words p (c :: d :: s) = [c] :: words p (d :: s) := by
  rw [words_space hd, words, wordsFrom, if_neg (Bool.eq_false_iff.1 hc), List.nil_append,
    wordsFrom, if_pos hd, if_neg (List.cons_ne_nil c [])]
  rfl

/-- A character in front of another one belongs to its word. -/
theorem words_char_char {c d : Char} (hc : p c = false) (hd : p d = false) (s : List Char) :
    ∃ v vs, words p (d :: s) = v :: vs ∧ words p (c :: d :: s) = (c :: v) :: vs := by
  rcases wordsFrom_cons (p := p) c s [d] (List.cons_ne_nil d []) with ⟨v, vs, hv, hcv⟩
  refine ⟨v, vs, ?_, ?_⟩
  · rw [words, wordsFrom, if_neg (Bool.eq_false_iff.1 hd), List.nil_append, hv]
  · rw [words, wordsFrom, if_neg (Bool.eq_false_iff.1 hc), List.nil_append, wordsFrom,
      if_neg (Bool.eq_false_iff.1 hd), List.singleton_append, hcv]

theorem wordsFrom_nonspace (s : List Char) : ∀ w, (∀ c ∈ w, p c = false) →
    ∀ v ∈ wordsFrom p w s, ∀ c ∈ v, p c = false := by
  induction s with
  | nil =>
    intro w hw v hv
    rw [wordsFrom] at hv
    split at hv
    · cases hv
    · rw [List.mem_singleton.1 hv]
      exact hw
  | cons d s ih =>
    intro w hw v hv
    rw [wordsFrom] at hv
    split at hv
    · split at hv
      · exact ih [] (by simp) v hv
      · rcases List.mem_cons.1 hv with rfl | hv
        · exact hw
        · exact ih [] (by simp) v hv
    · rename_i hd
      refine ih (w ++ [d]) (fun c hc => ?_) v hv
      rcases List.mem_append.1 hc with hc | hc
      · exact hw c hc
      · rw [List.mem_singleton.1 hc]
        exact Bool.eq_false_iff.2 hd

theorem wordsFrom_append {w : List Char} (hw : ∀ c ∈ w, p c = false) (s : List Char) :
    ∀ u, wordsFrom p u (w ++ s) = wordsFrom p (u ++ w) s := by
  induction w with
  | nil =>
    intro u
    rw [List.append_nil]
    rfl
  | cons c w ih =>
    intro u
    have hc := Bool.eq_false_iff.1 (hw c List.mem_cons_self)
    rw [List.cons_append, wordsFrom, if_neg hc,
      ih (fun d hd => hw d (List.mem_cons_of_mem c hd)), List.append_assoc, List.singleton_append]

/-- Joined by a space, whichever it is, words come apart again. -/
theorem words_join (hsep : p sep = true) {ws : List (List Char)}
    (h : ∀ w ∈ ws, w ≠ [] ∧ ∀ c ∈ w, p c = false) : words p (join sep ws) = ws := by
  induction ws with
  | nil => rfl
  | cons w ws ih =>
    rcases h w List.mem_cons_self with ⟨hw, hall⟩
    have hws := ih fun v hv => h v (List.mem_cons_of_mem w hv)
    cases ws with
    | nil =>
      have hlone := wordsFrom_append hall [] []
      rw [List.append_nil, List.nil_append, wordsFrom, if_neg hw] at hlone
      exact hlone
    | cons v vs =>
      rw [join, words, wordsFrom_append hall, List.nil_append, wordsFrom, if_pos hsep, if_neg hw]
      · exact congrArg _ hws
      · exact fun h => by cases h

/-- The words of a text are words. -/
theorem words_spec (s : List Char) : ∀ w ∈ words p s, w ≠ [] ∧ ∀ c ∈ w, p c = false :=
  fun w hw => ⟨wordsFrom_ne_nil s [] w hw, wordsFrom_nonspace s [] (by simp) w hw⟩

theorem mem_join {c : Char} (ws : List (List Char)) (hc : c ∈ join sep ws) :
    c = sep ∨ ∃ w ∈ ws, c ∈ w := by
  induction ws with
  | nil => cases hc
  | cons w ws ih =>
    cases ws with
    | nil => exact .inr ⟨w, List.mem_cons_self, hc⟩
    | cons v vs =>
      rw [join] at hc
      · rcases List.mem_append.1 hc with hc | hc
        · exact .inr ⟨w, List.mem_cons_self, hc⟩
        · rcases List.mem_cons.1 hc with rfl | hc
          · exact .inl rfl
          · rcases ih hc with rfl | ⟨x, hx, hcx⟩
            · exact .inl rfl
            · exact .inr ⟨x, List.mem_cons_of_mem w hx, hcx⟩
      · exact fun h => by cases h

end Lib.Spaces
