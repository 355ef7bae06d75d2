import Mathlib.Data.List.Induction
import Orynx.Daemon.CodexRead

/-! # The lines of a Codex configuration

What the edits do to the lines of the file that say something, each under the header in force.

* `skillsConfigLines_eq`, `legacySandboxLines_eq`, `strip_eq`: the three strippings take out lines
  by themselves and their headers only;
* `removeFrom_eq_self`: nothing is cut out of a file without managed blocks;
* `headed_filter`, `sieve_sieve`: what stays is under the header that it was under, so that one
  stripping after the other is one of both.
-/

namespace Orynx.CodexConfig

open Lib.Toml
open LocalSkills (trimSpace)
open Redact (word inOrder)

/-! ## Texts and their lines -/

theorem newline_notMem {content : Text} {l : Line} (h : l ∈ lines content) : '\n' ∉ l := by
  induction content generalizing l with
  | nil =>
    obtain rfl := List.mem_singleton.1 h
    exact List.not_mem_nil
  | cons c s ih =>
    rw [lines, List.splitOn_cons_eq_if_modifyHead] at h
    by_cases hc : c = '\n'
    · rw [if_pos (by simpa using hc), List.mem_cons] at h
      rcases h with rfl | h
      · exact List.not_mem_nil
      · exact ih h
    · rw [if_neg (by simpa using hc)] at h
      cases hs : lines s with
      | nil => exact absurd hs (List.splitOn_ne_nil _ _)
      | cons l' ls =>
        rw [← lines, hs, List.modifyHead_cons, List.mem_cons] at h
        rcases h with rfl | h
        · rw [List.mem_cons, not_or]
          exact ⟨Ne.symm hc, ih (by rw [hs]; exact List.mem_cons_self)⟩
        · exact ih (by rw [hs]; exact List.mem_cons_of_mem l' h)

theorem joined_lines (content : Text) : joined (lines content) = content :=
  List.intercalate_splitOn '\n'

theorem lines_joined {ls : List Line} (hne : ls ≠ []) (h : ∀ l ∈ ls, '\n' ∉ l) :
    lines (joined ls) = ls :=
  List.splitOn_intercalate '\n' h hne

theorem lines_append (s t : Text) : lines (s ++ '\n' :: t) = lines s ++ lines t :=
  List.splitOn_append_cons_self s t

theorem joined_append {ls ls' : List Line} (hls : ls ≠ []) (hls' : ls' ≠ []) :
    joined (ls ++ ls') = joined ls ++ '\n' :: joined ls' := by
  rcases List.exists_cons_of_ne_nil hls' with ⟨l', ls', rfl⟩
  induction ls with
  | nil => exact absurd rfl hls
  | cons l ls ih =>
    cases ls with
    | nil => simp [joined, List.intercalate]
    | cons x xs =>
      have hstep : ∀ t, joined (l :: x :: xs ++ t) = l ++ '\n' :: joined (x :: xs ++ t) :=
        fun t => by simp [joined, List.intercalate]
      have hone := hstep []
      rw [List.append_nil, List.append_nil] at hone
      rw [hstep, ih (List.cons_ne_nil _ _), hone]
      simp

theorem infix_of_mem_lines {content : Text} {l : Line} (h : l ∈ lines content) :
    l <:+: content := by
  rcases List.append_of_mem h with ⟨xs, ys, hsplit⟩
  have hjoined := joined_lines content
  rw [hsplit] at hjoined
  rw [← hjoined]
  have hright : ∀ ys : List Line, l <+: joined (l :: ys) := by
    intro ys
    cases ys with
    | nil => simp [joined, List.intercalate]
    | cons y ys =>
      rw [show l :: y :: ys = [l] ++ y :: ys from rfl,
        joined_append (List.cons_ne_nil _ _) (List.cons_ne_nil _ _)]
      have hsingle : joined [l] = l := by simp [joined, List.intercalate]
      rw [hsingle]
      exact List.prefix_append _ _
  cases xs with
  | nil => exact (hright ys).isInfix
  | cons x xs =>
    rw [joined_append (List.cons_ne_nil _ _) (List.cons_ne_nil _ _), List.append_cons]
    exact (hright ys).isInfix.trans (List.suffix_append _ _).isInfix

theorem mem_of_mem_lines {content : Text} {l : Line} (h : l ∈ lines content) {c : Char}
    (hc : c ∈ l) : c ∈ content :=
  (infix_of_mem_lines h).subset hc

theorem trimSpace_isInfix (l : Line) : trimSpace l <:+: l :=
  (List.rdropWhile_prefix _ _).isInfix.trans (List.dropWhile_suffix _).isInfix

theorem all_isSpace_of_trimSpace {s : Text} (h : trimSpace s = []) : s.all isSpace = true := by
  rw [trimSpace, List.rdropWhile_eq_nil_iff] at h
  rw [List.all_eq_true]
  intro c hc
  rw [← List.takeWhile_append_dropWhile (p := isSpace) (l := s), List.mem_append] at hc
  rcases hc with hc | hc
  · exact List.mem_takeWhile_imp hc
  · exact h c hc

/-- Empty lines come and go. -/
def Dense (ls ls' : List Line) : Prop :=
  ls.filter (fun l => !l.isEmpty) = ls'.filter fun l => !l.isEmpty

theorem Dense.mem {ls ls' : List Line} (h : Dense ls ls') {l : Line} (hl : l ∈ ls) :
    l ∈ ls' ∨ l = [] := by
  by_cases hne : l = []
  · exact .inr hne
  · have hmem : l ∈ ls.filter fun l => !l.isEmpty := by simp [hl, hne]
    rw [h] at hmem
    exact .inl (List.mem_filter.1 hmem).1

theorem Dense.append {as as' bs bs' : List Line} (ha : Dense as as') (hb : Dense bs bs') :
    Dense (as ++ bs) (as' ++ bs') := by
  rw [Dense, List.filter_append, List.filter_append, ha, hb]

theorem Dense.cons {ls ls' : List Line} (h : Dense ls ls') (l : Line) :
    Dense (l :: ls) (l :: ls') := by
  rw [Dense, List.filter_cons, List.filter_cons, h]

theorem dense_joined {ls : List Line} (h : ∀ l ∈ ls, '\n' ∉ l) : Dense (lines (joined ls)) ls := by
  by_cases hne : ls = []
  · subst hne
    rfl
  · rw [lines_joined hne h]
    rfl

theorem dense_trimLeft (content : Text) : Dense (lines (trimLeft content)) (lines content) := by
  induction content with
  | nil => rfl
  | cons c s ih =>
    rw [trimLeft]
    by_cases hc : c = '\n'
    · subst hc
      rw [List.dropWhile_cons_of_pos rfl]
      have hlines : lines ('\n' :: s) = [] :: lines s := lines_append [] s
      rw [hlines, Dense, List.filter_cons_of_neg Bool.false_ne_true]
      exact ih
    · rw [List.dropWhile_cons_of_neg (by simpa [isNewline] using hc)]
      rfl

theorem dense_trimRight (content : Text) : Dense (lines (trimRight content)) (lines content) := by
  induction content using List.reverseRecOn with
  | nil => rfl
  | append_singleton s c ih =>
    rw [trimRight]
    by_cases hc : c = '\n'
    · subst hc
      rw [List.rdropWhile_concat_pos _ _ _ rfl, lines_append, Dense, List.filter_append]
      exact ih.trans (List.append_nil _).symm
    · rw [List.rdropWhile_concat_neg _ _ _ (by simpa [isNewline] using hc)]
      rfl

theorem dense_prepend (block existing : Text) :
    Dense (lines (prepend block existing)) (lines block ++ lines existing) := by
  rw [prepend]
  by_cases h : existing = []
  · rw [if_pos h, h, Dense, List.filter_append]
    exact (List.append_nil _).symm
  · rw [if_neg h, lines_append]
    rfl

/-! ## Blocks -/

def IsComment (l : Line) : Prop := ∃ s, l = '#' :: s ∧ s.any isControl = false

theorem IsComment.newline_notMem {l : Line} (h : IsComment l) : '\n' ∉ l := by
  rcases h with ⟨s, rfl, hs⟩
  rw [List.mem_cons, not_or]
  refine ⟨by decide, fun hmem => ?_⟩
  exact absurd (List.any_eq_true.2 ⟨'\n', hmem, by decide⟩) (Bool.eq_false_iff.1 hs)

theorem IsComment.read {V : Type} {read : List Char → Option V} {l : Line} (h : IsComment l) :
    readLine read l = some .blank := by
  rcases h with ⟨s, rfl, hs⟩
  have hreturn : dropReturn ('#' :: s) = '#' :: s := by
    rw [dropReturn, if_neg]
    intro hlast
    rcases List.mem_cons.1 (List.mem_of_getLast? hlast) with heq | hmem
    · exact absurd heq (by decide)
    · exact absurd (List.any_eq_true.2 ⟨'\r', hmem, by decide⟩) (Bool.eq_false_iff.1 hs)
  have hskip : skip ('#' :: s) = '#' :: s := List.dropWhile_cons_of_neg (by decide)
  simp only [readLine, hreturn, hskip]
  rw [if_pos trivial, hs]
  rfl

def managedBlocks : List Block :=
  [multicaManaged, multicaMultiAgent, multicaMemoryFeature, multicaMemoryConfig]

theorem isComment_markers {b : Block} (hb : b ∈ managedBlocks) :
    IsComment b.beginMarker ∧ IsComment b.endMarker := by
  simp only [managedBlocks, List.mem_cons, List.not_mem_nil, or_false] at hb
  rcases hb with rfl | rfl | rfl | rfl <;>
    exact ⟨⟨_, String.toList_ofList, by decide +kernel⟩,
      ⟨_, String.toList_ofList, by decide +kernel⟩⟩

/-- The lines of a managed block. -/
structure Block.Lined (b : Block) (body : List Line) : Prop where
  managed : b ∈ managedBlocks
  body : ∀ l ∈ body, '\n' ∉ l

/-- The lines of a block. -/
def Block.block (b : Block) (body : List Line) : List Line :=
  b.beginMarker :: body ++ [b.endMarker]

theorem Block.render_eq (b : Block) (body : List Line) :
    b.render body = joined (b.block body) ++ ['\n'] := by
  have hparts : b.beginMarker :: body ++ [b.endMarker, []] = b.block body ++ [[]] := by
    simp [Block.block]
  rw [Block.render, hparts, joined_append (by simp [Block.block]) (by simp)]
  rfl

theorem Block.trimRight_render {b : Block} {body : List Line} (hb : b.Lined body) :
    trimRight (b.render body) = joined (b.block body) := by
  have hend := (isComment_markers hb.managed).2
  rcases List.eq_nil_or_concat b.endMarker with hnil | ⟨s, c, hs⟩
  · rcases hend with ⟨t, ht, -⟩
    rw [hnil] at ht
    cases ht
  rw [List.concat_eq_append] at hs
  have hc : c ≠ '\n' := by
    rintro rfl
    exact hend.newline_notMem (by rw [hs]; simp)
  have hlast : joined (b.block body) = (joined (b.beginMarker :: body) ++ '\n' :: s) ++ [c] := by
    rw [Block.block, joined_append (List.cons_ne_nil _ _) (List.cons_ne_nil _ _)]
    have hsingle : joined [b.endMarker] = b.endMarker := by simp [joined, List.intercalate]
    rw [hsingle, hs]
    simp
  rw [Block.render_eq, trimRight, List.rdropWhile_concat_pos _ _ _ rfl, hlast,
    List.rdropWhile_concat_neg _ _ _ (by simpa [isNewline] using hc)]

theorem Block.newline_notMem {b : Block} {body : List Line} (hb : b.Lined body) :
    ∀ l ∈ b.block body, '\n' ∉ l := by
  intro l hl
  rw [Block.block, List.cons_append, List.mem_cons, List.mem_append, List.mem_singleton] at hl
  rcases hl with rfl | hl | rfl
  · exact (isComment_markers hb.managed).1.newline_notMem
  · exact hb.body l hl
  · exact (isComment_markers hb.managed).2.newline_notMem

theorem Block.lines_trimRight_render {b : Block} {body : List Line} (hb : b.Lined body) :
    lines (trimRight (b.render body)) = b.block body := by
  rw [b.trimRight_render hb]
  exact lines_joined (List.cons_ne_nil _ _) (b.newline_notMem hb)

theorem Block.cut_eq_self {b : Block} {ls : List Line} (h : b.isMatch ls = false) :
    b.cut .outside ls = ls := by
  induction ls with
  | nil => rfl
  | cons l ls ih =>
    rw [Block.isMatch, Bool.or_eq_false_iff] at h
    rw [Block.cut, if_neg (by simp [h.1]), ih h.2]

theorem Block.removeFrom_eq_self {b : Block} {content : Text}
    (h : b.isMatch (lines content) = false) : b.removeFrom content = content := by
  rw [Block.removeFrom, Block.cut_eq_self h, joined_lines]

/-! ## Lines under their headers -/

/-- A line and the header in force; a header is under itself, and the root has none. -/
structure Headed where
  header : Line
  line : Line
deriving DecidableEq

def headed (h : Line) : List Line → List Headed
  | [] => []
  | l :: ls =>
    let h := if isHeaderLine l then l else h
    ⟨h, l⟩ :: headed h ls

def inSkillsConfig (x : Headed) : Bool := trimSpace x.header == skillsConfigHeader

def inWorkspaceWrite (x : Headed) : Bool := trimSpace x.header == workspaceWriteHeader

def isSandboxMode (x : Headed) : Bool := sandboxModeKey.isPrefixOf (trimSpace x.line)

def isLegacy (x : Headed) : Bool := inWorkspaceWrite x || isSandboxMode x

def Directives.takesLine (d : Directives) (x : Headed) : Bool :=
  !isHeaderLine x.line && d.takes (d.tableOf x.header) (trimSpace x.line)

/-- The lines of the user's file that one of the edits takes out. -/
def taken (x : Headed) : Bool :=
  inSkillsConfig x || isLegacy x || userMultiAgentDirectives.takesLine x ||
    userMemoryDirectives.takesLine x

variable {h : Line} {ls : List Line} {keep keep' : Headed → Bool}

theorem headed_cons_header {l : Line} (hl : isHeaderLine l = true) :
    headed h (l :: ls) = ⟨l, l⟩ :: headed l ls := by
  simp only [headed, if_pos hl]

theorem headed_cons {l : Line} (hl : isHeaderLine l = false) :
    headed h (l :: ls) = ⟨h, l⟩ :: headed h ls := by
  simp only [headed, hl, Bool.false_eq_true, if_false]

theorem exists_headed_cons (h l : Line) :
    ∃ h', ∀ xs, headed h (l :: xs) = ⟨h', l⟩ :: headed h' xs :=
  ⟨_, fun _ => rfl⟩

theorem map_headed : (headed h ls).map Headed.line = ls := by
  induction ls generalizing h with
  | nil => rfl
  | cons l ls ih => rw [headed, List.map_cons, ih]

theorem mem_headed_header {x : Headed} (hx : x ∈ headed h ls) (hl : isHeaderLine x.line = true) :
    x.header = x.line := by
  induction ls generalizing h with
  | nil => cases hx
  | cons l ls ih =>
    rw [headed, List.mem_cons] at hx
    rcases hx with rfl | hx
    · exact if_pos hl
    · exact ih hx

/-- Headers are lines, but for the one that the text starts under. -/
theorem header_mem {x : Headed} (hx : x ∈ headed h ls) : x.header = h ∨ x.header ∈ ls := by
  induction ls generalizing h with
  | nil => cases hx
  | cons l ls ih =>
    cases hl : isHeaderLine l with
    | true =>
      rw [headed_cons_header hl, List.mem_cons] at hx
      rcases hx with rfl | hx
      · exact .inr List.mem_cons_self
      · right
        rcases ih hx with hheader | hheader
        · rw [hheader]
          exact List.mem_cons_self
        · exact List.mem_cons_of_mem l hheader
    | false =>
      rw [headed_cons hl, List.mem_cons] at hx
      rcases hx with rfl | hx
      · exact .inl rfl
      · exact (ih hx).imp_right (List.mem_cons_of_mem l)

theorem headed_append_keys {zs : List Line} (hzs : ∀ l ∈ zs, isHeaderLine l = false) :
    headed h (zs ++ ls) = zs.map (fun l => ⟨h, l⟩) ++ headed h ls := by
  induction zs with
  | nil => rfl
  | cons l zs ih =>
    rw [List.cons_append, headed_cons (hzs l List.mem_cons_self),
      ih fun l hl => hzs l (List.mem_cons_of_mem _ hl)]
    rfl

/-- A header that goes takes its lines with it. -/
def Sectional (keep : Headed → Bool) : Prop :=
  ∀ h, isHeaderLine h = true → keep ⟨h, h⟩ = false → ∀ l, keep ⟨h, l⟩ = false

/-- What stays is under the header that it was under. -/
theorem headed_filter (hkeep : Sectional keep) {h' : Line}
    (hh : h' = h ∨ ∀ l, keep ⟨h, l⟩ = false) :
    headed h' (((headed h ls).filter keep).map Headed.line) = (headed h ls).filter keep := by
  induction ls generalizing h h' with
  | nil => rfl
  | cons l ls ih =>
    cases hl : isHeaderLine l with
    | true =>
      rw [headed_cons_header hl, List.filter_cons]
      cases hk : keep ⟨l, l⟩ with
      | true =>
        rw [if_pos rfl, List.map_cons, headed_cons_header hl, ih (.inl rfl)]
      | false =>
        rw [if_neg Bool.false_ne_true]
        exact ih (.inr (hkeep l hl hk))
    | false =>
      rw [headed_cons hl, List.filter_cons]
      cases hk : keep ⟨h, l⟩ with
      | true =>
        rcases hh with rfl | hh
        · rw [if_pos rfl, List.map_cons, headed_cons hl, ih (.inl rfl)]
        · rw [hh l] at hk
          cases hk
      | false =>
        rw [if_neg Bool.false_ne_true]
        exact ih hh

/-- The lines that stay. -/
def sieve (keep : Headed → Bool) (ls : List Line) : List Line :=
  ((headed [] ls).filter keep).map Headed.line

theorem sieve_sieve (hkeep : Sectional keep) :
    sieve keep' (sieve keep ls) = sieve (fun x => keep x && keep' x) ls := by
  rw [sieve, sieve, headed_filter hkeep (.inl rfl), List.filter_filter, sieve]
  exact congrArg (List.map Headed.line) (List.filter_congr fun x _ => Bool.and_comm _ _)

theorem sieve_append_keys {zs : List Line} (hzs : ∀ l ∈ zs, isHeaderLine l = false)
    (hkeep : ∀ l ∈ zs, keep ⟨[], l⟩ = true) : sieve keep (zs ++ ls) = zs ++ sieve keep ls := by
  have hall : (zs.map (Headed.mk [])).filter keep = zs.map (Headed.mk []) := by
    refine List.filter_eq_self.2 fun x hx => ?_
    rcases List.mem_map.1 hx with ⟨l, hl, rfl⟩
    exact hkeep l hl
  rw [sieve, headed_append_keys hzs, List.filter_append, hall, List.map_append, List.map_map]
  exact congrArg (· ++ _) (List.map_id zs)

theorem sieve_sublist : (sieve keep ls).Sublist ls := by
  have := (List.filter_sublist (p := keep) (l := headed [] ls)).map Headed.line
  rwa [map_headed] at this

/-- Lines that are no headers can be left out before. -/
theorem headed_filter_line {f : Line → Bool} (hf : ∀ l ∈ ls, isHeaderLine l = true → f l = true) :
    headed h (ls.filter f) = (headed h ls).filter fun x => f x.line := by
  induction ls generalizing h with
  | nil => rfl
  | cons l ls ih =>
    have hrest := fun h => ih (h := h) fun l hl => hf l (List.mem_cons_of_mem _ hl)
    rw [List.filter_cons]
    cases hl : isHeaderLine l with
    | true =>
      have hfl := hf l List.mem_cons_self hl
      rw [if_pos hfl, headed_cons_header hl, headed_cons_header hl, hrest, List.filter_cons,
        if_pos hfl]
    | false =>
      rw [headed_cons hl, List.filter_cons]
      by_cases hfl : f l = true
      · rw [if_pos hfl, if_pos hfl, headed_cons hl, hrest]
      · rw [if_neg hfl, if_neg hfl, hrest]

theorem sieve_filter {f : Line → Bool} (hf : ∀ l ∈ ls, isHeaderLine l = true → f l = true) :
    sieve keep (ls.filter f) = (sieve keep ls).filter f := by
  rw [sieve, headed_filter_line hf, sieve, List.filter_map, List.filter_filter, List.filter_filter]
  exact congrArg (List.map Headed.line) (List.filter_congr fun x _ => Bool.and_comm _ _)

theorem Dense.sieve {ls' : List Line} (h : Dense ls ls') :
    Dense (sieve keep ls) (sieve keep ls') := by
  have hhead : ∀ ls : List Line, ∀ l ∈ ls, isHeaderLine l = true → (!l.isEmpty) = true := by
    rintro ls l - hl
    cases l with
    | nil => cases hl
    | cons c l => rfl
  rw [Dense, ← sieve_filter (hhead ls), ← sieve_filter (hhead ls'), h]

theorem isHeaderLine_iff {l : Line} :
    isHeaderLine l = true ↔ ∃ s, trimSpace l = '[' :: s := by
  rw [isHeaderLine, beq_iff_eq, List.head?_eq_some_iff]

theorem isSandboxMode_of_header {x : Headed} (hl : isHeaderLine x.line = true) :
    isSandboxMode x = false := by
  rcases isHeaderLine_iff.1 hl with ⟨s, hs⟩
  rw [isSandboxMode, hs]
  rfl

theorem skillsConfigLines_eq :
    skillsConfigLines (trimSpace h == skillsConfigHeader) ls =
      ((headed h ls).filter fun x => !inSkillsConfig x).map Headed.line := by
  induction ls generalizing h with
  | nil => rfl
  | cons l ls ih =>
    rw [skillsConfigLines]
    cases hl : isHeaderLine l with
    | true =>
      rw [if_pos rfl, headed_cons_header hl, List.filter_cons]
      have hrest := ih (h := l)
      by_cases ht : trimSpace l = skillsConfigHeader
      · rw [beq_iff_eq.2 ht] at hrest
        rw [if_pos ht, if_neg (by simp [inSkillsConfig, ht]), hrest]
      · rw [beq_eq_false_iff_ne.2 ht] at hrest
        rw [if_neg ht, if_pos (by simp [inSkillsConfig, ht]), List.map_cons, hrest]
    | false =>
      rw [if_neg Bool.false_ne_true, headed_cons hl, List.filter_cons]
      have hrest := ih (h := h)
      by_cases ht : trimSpace h = skillsConfigHeader
      · rw [beq_iff_eq.2 ht] at hrest ⊢
        rw [if_pos rfl, if_neg (by simp [inSkillsConfig, ht]), hrest]
      · rw [beq_eq_false_iff_ne.2 ht] at hrest ⊢
        rw [if_neg Bool.false_ne_true, if_pos (by simp [inSkillsConfig, ht]), List.map_cons, hrest]

theorem legacySandboxLines_eq :
    legacySandboxLines (trimSpace h == workspaceWriteHeader) ls =
      ((headed h ls).filter fun x => !isLegacy x).map Headed.line := by
  induction ls generalizing h with
  | nil => rfl
  | cons l ls ih =>
    rw [legacySandboxLines]
    cases hl : isHeaderLine l with
    | true =>
      rw [if_pos rfl, headed_cons_header hl, List.filter_cons]
      have hrest := ih (h := l)
      have hmode := isSandboxMode_of_header (x := ⟨l, l⟩) hl
      by_cases ht : trimSpace l = workspaceWriteHeader
      · rw [beq_iff_eq.2 ht] at hrest
        rw [if_pos ht, if_neg (by simp [isLegacy, inWorkspaceWrite, ht]), hrest]
      · rw [beq_eq_false_iff_ne.2 ht] at hrest
        rw [if_neg ht, if_pos (by simp [isLegacy, inWorkspaceWrite, ht, hmode]), List.map_cons,
          hrest]
    | false =>
      rw [if_neg Bool.false_ne_true, headed_cons hl, List.filter_cons]
      have hrest := ih (h := h)
      by_cases ht : trimSpace h = workspaceWriteHeader
      · rw [beq_iff_eq.2 ht] at hrest ⊢
        rw [if_pos rfl, if_neg (by simp [isLegacy, inWorkspaceWrite, ht]), hrest]
      · rw [beq_eq_false_iff_ne.2 ht] at hrest ⊢
        rw [if_neg Bool.false_ne_true]
        by_cases hp : sandboxModeKey.isPrefixOf (trimSpace l) = true
        · rw [if_pos hp, if_neg (by simp [isLegacy, isSandboxMode, hp]), hrest]
        · rw [if_neg hp, if_pos (by simp [isLegacy, inWorkspaceWrite, isSandboxMode, ht, hp]),
            List.map_cons, hrest]

/-- The tables that are looked for have headers. -/
def Directives.Sound (d : Directives) : Prop :=
  ∀ t ∈ d.tables, ∀ l, matchesWhole t.1 l = true → isHeaderLine l = true

theorem Directives.strip_eq {d : Directives} (hd : d.Sound) :
    d.strip (d.tableOf h) ls =
      ((headed h ls).filter fun x => !d.takesLine x).map Headed.line := by
  induction ls generalizing h with
  | nil => rfl
  | cons l ls ih =>
    rw [Directives.strip]
    have hhead : (d.tables.any (fun t => matchesWhole t.1 l) || isHeaderLine l) =
        isHeaderLine l := by
      cases hl : isHeaderLine l with
      | true => exact Bool.or_true _
      | false =>
        rw [Bool.or_false, Bool.eq_false_iff]
        intro hany
        rcases List.any_eq_true.1 hany with ⟨t, ht, hm⟩
        rw [hd t ht l hm] at hl
        cases hl
    rw [hhead]
    cases hl : isHeaderLine l with
    | true =>
      rw [if_pos rfl, headed_cons_header hl, List.filter_cons,
        if_pos (by simp [Directives.takesLine, hl]), List.map_cons, ih]
    | false =>
      rw [if_neg Bool.false_ne_true, headed_cons hl, List.filter_cons]
      by_cases ht : d.takes (d.tableOf h) (trimSpace l) = true
      · rw [if_pos ht, if_neg (by simp [Directives.takesLine, hl, ht]), ih]
      · rw [if_neg ht, if_pos (by simp [Directives.takesLine, hl, ht]), List.map_cons, ih]

end Orynx.CodexConfig
