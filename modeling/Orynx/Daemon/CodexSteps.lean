import Orynx.Daemon.CodexLines

/-! # The steps of editing a Codex configuration

The lines that each edit leaves, for a file without managed blocks.

* `dense_stripSkillsConfigEntries`, `dense_ensureCodexSandboxConfig`,
  `dense_ensureCodexMultiAgentConfig`, `dense_ensureCodexMemoryConfig`: one edit;
* `dense_editedConfig`: all of them.
-/

namespace Orynx.CodexConfig

open Lib.Toml
open LocalSkills (trimSpace)

variable {b : Block} {ls ls' zs : List Line}

/-! ## Files without managed blocks -/

/-- The line opens a block, or closes one. -/
def Block.isMarker (b : Block) (l : Line) : Bool :=
  b.beginMarker.isPrefixOf l || b.endMarker.isPrefixOf l

theorem Block.isMatch_filter : b.isMatch (ls.filter b.isMarker) = b.isMatch ls := by
  have hany : ∀ ls : List Line, (ls.filter b.isMarker).any (fun l => b.endMarker.isPrefixOf l) =
      ls.any fun l => b.endMarker.isPrefixOf l := by
    intro ls
    rw [List.any_filter]
    refine List.any_congr rfl fun l => ?_
    cases hl : b.endMarker.isPrefixOf l <;> simp [Block.isMarker, hl]
  induction ls with
  | nil => rfl
  | cons l ls ih =>
    rw [List.filter_cons, Block.isMatch]
    by_cases hl : b.isMarker l = true
    · rw [if_pos hl, Block.isMatch, hany, ih]
    · have hbegin : b.beginMarker.isPrefixOf l = false := by
        cases hb : b.beginMarker.isPrefixOf l with
        | false => rfl
        | true => simp [Block.isMarker, hb] at hl
      rw [if_neg hl, ih, hbegin, Bool.false_and, Bool.false_or]

theorem Block.isMatch_sublist (hls : ls'.Sublist ls) (h : b.isMatch ls = false) :
    b.isMatch ls' = false := by
  induction hls with
  | slnil => rfl
  | cons l _ ih =>
    rw [Block.isMatch, Bool.or_eq_false_iff] at h
    exact ih h.2
  | @cons_cons ls₁ ls₂ l hsub ih =>
    rw [Block.isMatch, Bool.or_eq_false_iff, Bool.and_eq_false_iff] at h ⊢
    refine ⟨h.1.imp_right fun hany => ?_, ih h.2⟩
    rw [List.any_eq_false] at hany ⊢
    exact fun x hx => hany x (hsub.subset hx)

theorem Dense.isMatch (hb : b ∈ managedBlocks) (hls : Dense ls ls') : b.isMatch ls = b.isMatch ls' := by
  have hempty : ∀ ls : List Line, (ls.filter fun l => !l.isEmpty).filter b.isMarker =
      ls.filter b.isMarker := by
    intro ls
    rw [List.filter_filter]
    refine List.filter_congr fun l _ => ?_
    cases l with
    | nil =>
      rcases isComment_markers hb with ⟨⟨s, hs, -⟩, ⟨t, ht, -⟩⟩
      simp [Block.isMarker, hs, ht]
    | cons c l => exact Bool.and_true _
  rw [← Block.isMatch_filter, ← hempty, hls, hempty, Block.isMatch_filter]

/-- Lines that are no markers can be left out. -/
theorem Block.isMatch_append (hzs : ∀ l ∈ zs, b.isMarker l = false) :
    b.isMatch (zs ++ ls) = b.isMatch ls := by
  have hnil : zs.filter b.isMarker = [] :=
    List.filter_eq_nil_iff.2 fun l hl => by simp [hzs l hl]
  rw [← Block.isMatch_filter, List.filter_append, hnil, List.nil_append, Block.isMatch_filter]

theorem Block.isMatch_insertAfter {f : Line → Bool} (hzs : ∀ l ∈ zs, b.isMarker l = false) :
    b.isMatch (insertAfter f zs ls) = b.isMatch ls := by
  have hnil : zs.filter b.isMarker = [] :=
    List.filter_eq_nil_iff.2 fun l hl => by simp [hzs l hl]
  have hfilter : (insertAfter f zs ls).filter b.isMarker = ls.filter b.isMarker := by
    induction ls with
    | nil => rfl
    | cons l ls ih =>
      rw [insertAfter]
      by_cases hl : f l = true
      · rw [if_pos hl, List.filter_cons, List.filter_append, hnil, List.filter_cons]
        rfl
      · rw [if_neg hl, List.filter_cons, ih, List.filter_cons]
  rw [← Block.isMatch_filter, hfilter, Block.isMatch_filter]

/-! ## Blocks in front -/

theorem render_ne_nil (b : Block) (body : List Line) : b.render body ≠ [] := by
  rcases hb : b.beginMarker with _ | ⟨c, s⟩ <;>
    cases body <;> simp [Block.render, joined, List.intercalate, hb]

theorem dense_render_append {body : List Line} (hb : b.Lined body) (s : Text) :
    Dense (lines (b.render body ++ s)) (b.block body ++ lines s) := by
  rw [b.render_eq, List.append_assoc]
  show Dense (lines (joined (b.block body) ++ '\n' :: s)) _
  rw [lines_append, ← b.trimRight_render hb, b.lines_trimRight_render hb]
  rfl

theorem dense_render {body : List Line} (hb : b.Lined body) :
    Dense (lines (b.render body)) (b.block body) := by
  have h := dense_render_append hb []
  rw [List.append_nil] at h
  refine h.trans ?_
  rw [List.filter_append]
  exact List.append_nil _

theorem dense_prepend_block {body : List Line} {existing : Text} (hb : b.Lined body)
    (h : Dense (lines existing) ls) :
    Dense (lines (prepend (b.render body) (trimLeft existing))) (b.block body ++ ls) :=
  (dense_prepend _ _).trans ((dense_render hb).append ((dense_trimLeft existing).trans h))

/-- Stripping lines of the text strips the lines that it has. -/
theorem dense_sieve {keep : Headed → Bool} {content : Text} (h : Dense (lines content) ls) :
    Dense (lines (joined (sieve keep (lines content)))) (sieve keep ls) :=
  (dense_joined fun _ hl => newline_notMem (sieve_sublist.subset hl)).trans h.sieve

/-! ## Skills -/

theorem sectional_skillsConfig : Sectional fun x => !inSkillsConfig x := fun _ _ h _ => h

/-- The file is left empty where only white space would stay. -/
theorem dense_stripSkillsConfigEntries (content : Text) :
    ∃ L, Dense (lines (stripSkillsConfigEntries content)) L ∧
      (L = sieve (fun x => !inSkillsConfig x) (lines content) ∨
        L = [] ∧ ∀ l ∈ sieve (fun x => !inSkillsConfig x) (lines content),
          l.all isSpace = true) := by
  have hlines : skillsConfigLines false (lines content) =
      sieve (fun x => !inSkillsConfig x) (lines content) :=
    skillsConfigLines_eq (h := [])
  rw [stripSkillsConfigEntries]
  by_cases hmark : Lib.Marker.contains skillsConfigHeader content = true
  · rw [if_pos hmark, hlines]
    dsimp only
    generalize hkept : sieve (fun x => !inSkillsConfig x) (lines content) = kept
    have hnewline : ∀ l ∈ kept, '\n' ∉ l := by
      rintro l hl
      rw [← hkept] at hl
      exact newline_notMem (sieve_sublist.subset hl)
    have hdense : Dense (lines (trimRight (joined kept) ++ ['\n'])) kept := by
      rw [lines_append, Dense, List.filter_append]
      exact ((List.append_nil _).trans (dense_trimRight (joined kept))).trans
        (dense_joined hnewline)
    by_cases hspace : trimSpace (trimRight (joined kept) ++ ['\n']) = []
    · refine ⟨[], ?_, .inr ⟨rfl, ?_⟩⟩
      · rw [if_pos hspace]
        rfl
      · -- each line is part of the text, whose white space is trimmed
        have hall : (trimRight (joined kept) ++ ['\n']).all isSpace = true :=
          all_isSpace_of_trimSpace hspace
        intro l hl
        by_cases hne : l = []
        · rw [hne]
          rfl
        · have hmem : l ∈ lines (trimRight (joined kept) ++ ['\n']) := by
            have hfilter : l ∈ kept.filter fun l => !l.isEmpty := by simp [hl, hne]
            rw [← hdense] at hfilter
            exact (List.mem_filter.1 hfilter).1
          rw [List.all_eq_true] at hall ⊢
          exact fun c hc => hall c (mem_of_mem_lines hmem hc)
    · rw [if_neg hspace]
      exact ⟨kept, hdense, .inl rfl⟩
  · rw [if_neg hmark]
    refine ⟨_, rfl, .inl ?_⟩
    -- no line is the header, which is nowhere in the text
    have hnone : ∀ x ∈ headed [] (lines content), inSkillsConfig x = false := by
      intro x hx
      rw [inSkillsConfig, beq_eq_false_iff_ne]
      intro heq
      rcases header_mem hx with hheader | hheader
      · rw [hheader] at heq
        cases heq
      · refine hmark (Lib.Marker.contains_iff.2 ?_)
        rw [← heq]
        exact (trimSpace_isInfix x.header).trans (infix_of_mem_lines hheader)
    rw [sieve, List.filter_eq_self.2 fun x hx => by simp [hnone x hx], map_headed]

/-! ## Sandbox -/

theorem sectional_legacy : Sectional fun x => !isLegacy x := by
  intro h hh hgone l
  have hmode := isSandboxMode_of_header (x := ⟨h, h⟩) hh
  simp only [isLegacy, hmode, Bool.or_false, Bool.not_eq_false'] at hgone
  have hheader : inWorkspaceWrite ⟨h, l⟩ = true := hgone
  simp [isLegacy, hheader]

theorem lined_managed (policy : CodexSandboxPolicy) :
    multicaManaged.Lined (managedLines policy) where
  managed := by simp [managedBlocks]
  body := by
    rcases policy with ⟨mode, networkAccess⟩
    cases mode <;> cases networkAccess <;> decide

theorem dense_ensureCodexSandboxConfig {data : Text} (policy : CodexSandboxPolicy)
    (hunmarked : multicaManaged.isMatch (lines data) = false) (h : Dense (lines data) ls) :
    Dense (lines (ensureCodexSandboxConfig data policy))
      (multicaManaged.block (managedLines policy) ++ sieve (fun x => !isLegacy x) ls) := by
  have hstrip : stripLegacySandboxDirectives data =
      joined (sieve (fun x => !isLegacy x) (lines data)) :=
    congrArg joined (legacySandboxLines_eq (h := []))
  have hexisting : (if data ≠ [] ∧ multicaManaged.isMatch (lines data) = false then
      stripLegacySandboxDirectives data else data) = stripLegacySandboxDirectives data := by
    by_cases hempty : data = []
    · subst hempty
      rfl
    · rw [if_pos ⟨hempty, hunmarked⟩]
  have hdense : Dense (lines (stripLegacySandboxDirectives data))
      (sieve (fun x => !isLegacy x) ls) := by
    rw [hstrip]
    exact dense_sieve h
  have hmarked : multicaManaged ∈ managedBlocks := by simp [managedBlocks]
  have hstill : multicaManaged.isMatch (lines (stripLegacySandboxDirectives data)) = false := by
    rw [hdense.isMatch hmarked]
    refine Block.isMatch_sublist sieve_sublist ?_
    rw [← h.isMatch hmarked]
    exact hunmarked
  rw [ensureCodexSandboxConfig, hexisting, upsertMulticaManagedBlock,
    Block.removeFrom_eq_self hstill]
  exact dense_prepend_block (lined_managed policy) hdense

/-! ## Blocks behind a header -/

section Insert

variable {f : Line → Bool}

theorem insertAfter_filter {g : Line → Bool} (hg : ∀ l, f l = true → g l = true) :
    (insertAfter f zs ls).filter g = insertAfter f (zs.filter g) (ls.filter g) := by
  induction ls with
  | nil => rfl
  | cons l ls ih =>
    rw [insertAfter, List.filter_cons]
    by_cases hf : f l = true
    · rw [if_pos hf, if_pos (hg l hf), insertAfter, if_pos hf, List.filter_cons, if_pos (hg l hf),
        List.filter_append]
    · rw [if_neg hf, List.filter_cons, ih]
      by_cases hl : g l = true
      · rw [if_pos hl, if_pos hl, insertAfter, if_neg hf]
      · rw [if_neg hl, if_neg hl]

theorem Dense.insertAfter (hf : f [] = false) (h : Dense ls ls') :
    Dense (insertAfter f zs ls) (insertAfter f zs ls') := by
  have hne : ∀ l, f l = true → (!l.isEmpty) = true := by
    intro l hl
    cases l with
    | nil => rw [hf] at hl; cases hl
    | cons c l => rfl
  rw [Dense, insertAfter_filter hne, insertAfter_filter hne, h]

theorem Dense.any (hf : f [] = false) (h : Dense ls ls') : ls.any f = ls'.any f := by
  have hfilter : ∀ ls : List Line, (ls.filter fun l => !l.isEmpty).any f = ls.any f := by
    intro ls
    rw [List.any_filter]
    refine List.any_congr rfl fun l => ?_
    cases l with
    | nil => rw [hf]; rfl
    | cons c l => rfl
  rw [← hfilter, h, hfilter]

theorem dense_dropEmpty (ls : List Line) : Dense (dropEmpty ls) ls := by
  induction ls with
  | nil => rfl
  | cons l ls ih =>
    cases ls with
    | nil => rfl
    | cons l' ls =>
      rw [dropEmpty]
      by_cases hl : l = []
      · subst hl
        rw [if_pos rfl]
        exact ih
      · rw [if_neg hl]
        rfl

theorem dense_insertAfterHeader :
    Dense (insertAfterHeader f zs ls) (insertAfter f zs ls) := by
  induction ls with
  | nil => rfl
  | cons l ls ih =>
    rw [insertAfterHeader, Lib.Toml.insertAfter]
    by_cases hl : f l = true
    · rw [if_pos hl, if_pos hl]
      exact (Dense.append rfl (dense_dropEmpty ls)).cons l
    · rw [if_neg hl, if_neg hl]
      exact ih.cons l

/-- Only headers have blocks behind them, and these stay. -/
theorem sieve_insertAfter {keep : Headed → Bool} (hf : ∀ l, f l = true → isHeaderLine l = true)
    (hzs : ∀ l ∈ zs, isHeaderLine l = false) (hhead : ∀ l, f l = true → keep ⟨l, l⟩ = true)
    (hkeep : ∀ h, f h = true → ∀ l ∈ zs, keep ⟨h, l⟩ = true) :
    sieve keep (insertAfter f zs ls) = insertAfter f zs (sieve keep ls) := by
  have hgeneral : ∀ h, ((headed h (insertAfter f zs ls)).filter keep).map Headed.line =
      insertAfter f zs (((headed h ls).filter keep).map Headed.line) := by
    induction ls with
    | nil => intro h; rfl
    | cons l ls ih =>
      intro h
      rw [Lib.Toml.insertAfter]
      by_cases hl : f l = true
      · have hall : (zs.map (Headed.mk l)).filter keep = zs.map (Headed.mk l) := by
          refine List.filter_eq_self.2 fun x hx => ?_
          rcases List.mem_map.1 hx with ⟨z, hz, rfl⟩
          exact hkeep l hl z hz
        rw [if_pos hl, headed_cons_header (hf l hl), headed_cons_header (hf l hl),
          headed_append_keys hzs, List.filter_cons, if_pos (hhead l hl), List.filter_append, hall,
          List.map_cons, List.map_append, List.map_map, List.filter_cons, if_pos (hhead l hl),
          List.map_cons, Lib.Toml.insertAfter, if_pos hl]
        exact congrArg (fun zs => l :: (zs ++ _)) (List.map_id zs)
      · rcases exists_headed_cons h l with ⟨h', hcons⟩
        rw [if_neg hl, hcons, hcons, List.filter_cons, List.filter_cons]
        by_cases hk : keep ⟨h', l⟩ = true
        · rw [if_pos hk, if_pos hk, List.map_cons, List.map_cons, ih, Lib.Toml.insertAfter,
            if_neg hl]
        · rw [if_neg hk, if_neg hk, ih]
  exact hgeneral []

end Insert

/-! ## Multi-agent -/

theorem lined_multiAgent (inFeaturesTable : Bool) :
    multicaMultiAgent.Lined [multiAgentLine inFeaturesTable] where
  managed := by simp [managedBlocks]
  body := by cases inFeaturesTable <;> decide

theorem sound_multiAgent : userMultiAgentDirectives.Sound := by
  intro t ht l hl
  obtain rfl := List.mem_singleton.1 ht
  exact isHeaderLine_of_tableHeader hl

theorem not_isFeaturesHeader_nil : isFeaturesHeader [] = false := by decide

theorem not_isMemoriesHeader_nil : isMemoriesHeader [] = false := by decide

theorem dense_ensureCodexMultiAgentConfig {data : Text}
    (hunmarked : multicaMultiAgent.isMatch (lines data) = false) (h : Dense (lines data) ls) :
    let kept := sieve (fun x => !userMultiAgentDirectives.takesLine x) ls
    Dense (lines (ensureCodexMultiAgentConfig false data))
      ((if kept.any isFeaturesHeader then [] else multicaMultiAgent.block [multiAgentLine false]) ++
        insertAfter isFeaturesHeader (multicaMultiAgent.block [multiAgentLine true]) kept) := by
  intro kept
  have hstrip : stripUserMultiAgentDirectives data =
      joined (sieve (fun x => !userMultiAgentDirectives.takesLine x) (lines data)) :=
    congrArg joined (Directives.strip_eq sound_multiAgent (h := []))
  have hdense : Dense (lines (stripUserMultiAgentDirectives data)) kept := by
    rw [hstrip]
    exact dense_sieve h
  have hany := hdense.any not_isFeaturesHeader_nil
  rw [ensureCodexMultiAgentConfig, if_neg Bool.false_ne_true, Block.removeFrom_eq_self hunmarked]
  dsimp only
  rw [hasRootFeaturesTable, hany]
  cases hfound : kept.any isFeaturesHeader with
  | true =>
    rw [if_pos rfl, if_pos rfl, injectManagedBlockIntoFeaturesTable, renderMulticaMultiAgentBlock,
      Block.lines_trimRight_render (lined_multiAgent true)]
    refine (dense_joined ?_).trans (hdense.insertAfter not_isFeaturesHeader_nil)
    intro l hl
    rcases (mem_insertAfter (hany.trans hfound)).1 hl with hl | hl
    · exact multicaMultiAgent.newline_notMem (lined_multiAgent true) l hl
    · exact newline_notMem hl
  | false =>
    rw [if_neg Bool.false_ne_true, if_neg Bool.false_ne_true, insertAfter_eq_self hfound]
    exact dense_prepend_block (lined_multiAgent false) hdense

/-! ## Memory -/

theorem not_tableHeader {name : String} {z : Line} (h : isHeaderLine z = false) :
    matchesWhole (tableHeaderRe name) z = false := by
  rw [Bool.eq_false_iff]
  intro hmatch
  rw [isHeaderLine_of_tableHeader hmatch] at h
  cases h

theorem IsComment.isHeaderLine {z : Line} (h : IsComment z) : isHeaderLine z = false := by
  rcases h with ⟨s, rfl, -⟩
  rw [CodexConfig.isHeaderLine, trimSpace_cons (by decide)]
  rfl

theorem forall_mem_block {body : List Line} {P : Line → Prop} (hbegin : P b.beginMarker)
    (hbody : ∀ z ∈ body, P z) (hend : P b.endMarker) : ∀ z ∈ b.block body, P z := by
  intro z hz
  rw [Block.block, List.cons_append, List.mem_cons, List.mem_append, List.mem_singleton] at hz
  rcases hz with rfl | hz | rfl
  · exact hbegin
  · exact hbody z hz
  · exact hend

theorem not_isMemoriesHeader_memoryFeature :
    ∀ z ∈ multicaMemoryFeature.block [memoryFeatureLine true], isMemoriesHeader z = false := by
  have hcomments := isComment_markers (b := multicaMemoryFeature) (by simp [managedBlocks])
  refine forall_mem_block (not_tableHeader hcomments.1.isHeaderLine) ?_
    (not_tableHeader hcomments.2.isHeaderLine)
  intro z hz
  rw [List.mem_singleton.1 hz]
  exact not_tableHeader (by decide +kernel)

theorem lined_memoryFeature (inFeaturesTable : Bool) :
    multicaMemoryFeature.Lined [memoryFeatureLine inFeaturesTable] where
  managed := by simp [managedBlocks]
  body := by cases inFeaturesTable <;> decide

theorem lined_memoryConfig (inMemoriesTable : Bool) :
    multicaMemoryConfig.Lined (memoryConfigLines inMemoriesTable) where
  managed := by simp [managedBlocks]
  body := by cases inMemoriesTable <;> decide

theorem sound_memory : userMemoryDirectives.Sound := by
  intro t ht l hl
  simp only [userMemoryDirectives, List.mem_cons, List.not_mem_nil, or_false] at ht
  rcases ht with rfl | rfl <;> exact isHeaderLine_of_tableHeader hl

/-- A block behind the header of its table, if the file has one. -/
theorem dense_inject {f : Line → Bool} (hf : f [] = false) {body : List Line} (hb : b.Lined body)
    {content : Text} (h : Dense (lines content) ls) :
    Dense (lines (if ls.any f then injectAfterHeader content f (b.render body) else content))
      (insertAfter f (b.block body) ls) := by
  cases hfound : ls.any f with
  | true =>
    rw [if_pos rfl, injectAfterHeader, Block.lines_trimRight_render hb]
    have hinsert : Dense (insertAfterHeader f (b.block body) (lines content))
        (insertAfter f (b.block body) (lines content)) := dense_insertAfterHeader
    refine (dense_joined ?_).trans (hinsert.trans (h.insertAfter hf))
    intro l hl
    rcases hinsert.mem hl with hl | rfl
    · rcases (mem_insertAfter ((h.any hf).trans hfound)).1 hl with hl | hl
      · exact b.newline_notMem hb l hl
      · exact newline_notMem hl
    · exact List.not_mem_nil
  | false =>
    rw [if_neg Bool.false_ne_true, insertAfter_eq_self hfound]
    exact h

/-- The header of another table is found just as before. -/
theorem any_insertAfter {f g : Line → Bool} (hzs : ∀ l ∈ zs, g l = false) :
    (insertAfter f zs ls).any g = ls.any g := by
  have hnone : zs.any g = false := List.any_eq_false.2 fun l hl => by simp [hzs l hl]
  induction ls with
  | nil => rfl
  | cons l ls ih =>
    rw [insertAfter]
    by_cases hl : f l = true
    · rw [if_pos hl, List.any_cons, List.any_append, hnone, Bool.false_or, List.any_cons]
    · rw [if_neg hl, List.any_cons, ih, List.any_cons]

/-- The blocks that no table of the user holds, in front of the file. -/
theorem dense_prependStr {hasFeatures hasMemories : Bool} {existing : Text}
    (h : Dense (lines existing) ls) :
    let prependStr := (if hasFeatures then [] else renderMulticaMemoryFeatureBlock false) ++
      if hasMemories then [] else renderMulticaMemoryConfigBlock false
    Dense (lines (if prependStr = [] then trimLeft existing
        else prepend prependStr (trimLeft existing)))
      ((if hasFeatures then [] else multicaMemoryFeature.block [memoryFeatureLine false]) ++
        ((if hasMemories then [] else multicaMemoryConfig.block (memoryConfigLines false)) ++
          ls)) := by
  intro prependStr
  have hfeature := lined_memoryFeature false
  have hconfig := lined_memoryConfig false
  cases hasFeatures with
  | true =>
    cases hasMemories with
    | true => exact (dense_trimLeft _).trans h
    | false =>
      have hne : prependStr ≠ [] := render_ne_nil _ _
      rw [if_neg hne]
      exact dense_prepend_block hconfig h
  | false =>
    have hne : prependStr ≠ [] := List.append_ne_nil_of_left_ne_nil (render_ne_nil _ _) _
    rw [if_neg hne]
    cases hasMemories with
    | true =>
      have heq : prependStr = renderMulticaMemoryFeatureBlock false := List.append_nil _
      rw [heq]
      exact dense_prepend_block hfeature h
    | false =>
      have hblocks : Dense (lines prependStr)
          (multicaMemoryFeature.block [memoryFeatureLine false] ++
            multicaMemoryConfig.block (memoryConfigLines false)) :=
        (dense_render_append hfeature _).trans (Dense.append rfl (dense_render hconfig))
      have hall := (dense_prepend prependStr (trimLeft existing)).trans
        (hblocks.append ((dense_trimLeft existing).trans h))
      rw [List.append_assoc] at hall
      exact hall

theorem dense_ensureCodexMemoryConfig {data : Text}
    (hfeature : multicaMemoryFeature.isMatch (lines data) = false)
    (hconfig : multicaMemoryConfig.isMatch (lines data) = false) (h : Dense (lines data) ls) :
    let kept := sieve (fun x => !userMemoryDirectives.takesLine x) ls
    Dense (lines (ensureCodexMemoryConfig false data))
      ((if kept.any isFeaturesHeader then []
          else multicaMemoryFeature.block [memoryFeatureLine false]) ++
        ((if kept.any isMemoriesHeader then []
            else multicaMemoryConfig.block (memoryConfigLines false)) ++
          insertAfter isMemoriesHeader (multicaMemoryConfig.block (memoryConfigLines true))
            (insertAfter isFeaturesHeader
              (multicaMemoryFeature.block [memoryFeatureLine true]) kept))) := by
  intro kept
  have hstrip : stripUserMemoryDirectives data =
      joined (sieve (fun x => !userMemoryDirectives.takesLine x) (lines data)) :=
    congrArg joined (Directives.strip_eq sound_memory (h := []))
  have hdense : Dense (lines (stripUserMemoryDirectives data)) kept := by
    rw [hstrip]
    exact dense_sieve h
  have hfirst := dense_inject not_isFeaturesHeader_nil (lined_memoryFeature true) hdense
  have hmemories : (insertAfter isFeaturesHeader
      (multicaMemoryFeature.block [memoryFeatureLine true]) kept).any isMemoriesHeader =
      kept.any isMemoriesHeader := any_insertAfter not_isMemoriesHeader_memoryFeature
  have hsecond := dense_inject not_isMemoriesHeader_nil (lined_memoryConfig true) hfirst
  rw [hmemories] at hsecond
  rw [ensureCodexMemoryConfig, if_neg Bool.false_ne_true, Block.removeFrom_eq_self hfeature,
    Block.removeFrom_eq_self hconfig]
  dsimp only
  rw [hasRootFeaturesTable, hasRootMemoriesTable, hdense.any not_isFeaturesHeader_nil,
    hdense.any not_isMemoriesHeader_nil]
  exact dense_prependStr hsecond

/-! ## All edits -/

/-- No line that opens a managed block has one below it that closes the block. -/
def Unmarked (content : Text) : Prop :=
  ∀ b ∈ managedBlocks, b.isMatch (lines content) = false

/-- A file without comments has no blocks. -/
theorem unmarked_of_notMem {content : Text} (h : '#' ∉ content) : Unmarked content := by
  intro b hb
  rcases (isComment_markers hb).1 with ⟨s, hs, -⟩
  have hnone : ∀ ls : List Line, (∀ l ∈ ls, '#' ∉ l) → b.isMatch ls = false := by
    intro ls hls
    induction ls with
    | nil => rfl
    | cons l ls ih =>
      have hl : b.beginMarker.isPrefixOf l = false := by
        rw [Bool.eq_false_iff]
        intro hpre
        refine hls l List.mem_cons_self ((List.isPrefixOf_iff_prefix.1 hpre).subset ?_)
        rw [hs]
        exact List.mem_cons_self
      rw [Block.isMatch, hl, Bool.false_and, Bool.false_or]
      exact ih fun l' hl' => hls l' (List.mem_cons_of_mem l hl')
  exact hnone _ fun l hl hmem => h (mem_of_mem_lines hl hmem)

/-- The managed lines that stand at the root, where a table has a header of its own or not. -/
def rootBlocks (policy : CodexSandboxPolicy) (hasFeatures hasMemories : Bool) : List Line :=
  (if hasFeatures then [] else multicaMemoryFeature.block [memoryFeatureLine false]) ++
    ((if hasMemories then [] else multicaMemoryConfig.block (memoryConfigLines false)) ++
      ((if hasFeatures then [] else multicaMultiAgent.block [multiAgentLine false]) ++
        multicaManaged.block (managedLines policy)))

def featuresBlocks : List Line :=
  multicaMemoryFeature.block [memoryFeatureLine true] ++
    multicaMultiAgent.block [multiAgentLine true]

def memoriesBlock : List Line := multicaMemoryConfig.block (memoryConfigLines true)

/-- The user's lines with the managed ones. -/
def layout (policy : CodexSandboxPolicy) (kept : List Line) : List Line :=
  rootBlocks policy (kept.any isFeaturesHeader) (kept.any isMemoriesHeader) ++
    insertAfter isMemoriesHeader memoriesBlock (insertAfter isFeaturesHeader featuresBlocks kept)

theorem insertAfter_append {f : Line → Bool} {xs : List Line} (hxs : ∀ l ∈ xs, f l = false) :
    insertAfter f zs (xs ++ ls) = xs ++ insertAfter f zs ls := by
  induction xs with
  | nil => rfl
  | cons l xs ih =>
    rw [List.cons_append, insertAfter, if_neg (by simp [hxs l List.mem_cons_self]),
      ih fun l hl => hxs l (List.mem_cons_of_mem _ hl)]
    rfl

theorem insertAfter_insertAfter {f : Line → Bool} {zs' : List Line} :
    insertAfter f zs (insertAfter f zs' ls) = insertAfter f (zs ++ zs') ls := by
  induction ls with
  | nil => rfl
  | cons l ls ih =>
    rw [insertAfter, insertAfter]
    by_cases hl : f l = true
    · rw [if_pos hl, if_pos hl, insertAfter, if_pos hl, List.append_assoc]
    · rw [if_neg hl, if_neg hl, insertAfter, if_neg hl, ih]

theorem any_append_of_none {f : Line → Bool} (hzs : ∀ l ∈ zs, f l = false) :
    (zs ++ ls).any f = ls.any f := by
  have hnone : zs.any f = false := List.any_eq_false.2 fun l hl => by simp [hzs l hl]
  rw [List.any_append, hnone, Bool.false_or]

/-- What one edit puts in is nothing to the others. -/
structure Foreign (z : Line) : Prop where
  header : isHeaderLine z = false
  features : isFeaturesHeader z = false
  memories : isMemoriesHeader z = false
  memoryFeature : multicaMemoryFeature.isMarker z = false
  memoryConfig : multicaMemoryConfig.isMarker z = false

theorem foreign_of_header {z : Line} (h : isHeaderLine z = false)
    (hfeature : multicaMemoryFeature.isMarker z = false)
    (hconfig : multicaMemoryConfig.isMarker z = false) : Foreign z :=
  ⟨h, not_tableHeader h, not_tableHeader h, hfeature, hconfig⟩

/-- No marker of a block starts with one of another. -/
theorem isMarker_markers :
    (∀ b ∈ [multicaMultiAgent, multicaMemoryFeature, multicaMemoryConfig],
      b.isMarker multicaManaged.beginMarker = false ∧
        b.isMarker multicaManaged.endMarker = false) ∧
    ∀ b ∈ [multicaMemoryFeature, multicaMemoryConfig],
      b.isMarker multicaMultiAgent.beginMarker = false ∧
        b.isMarker multicaMultiAgent.endMarker = false := by
  have hmanaged : multicaManaged = ⟨_, _⟩ :=
    congrArg₂ Block.mk String.toList_ofList String.toList_ofList
  have hmultiAgent : multicaMultiAgent = ⟨_, _⟩ :=
    congrArg₂ Block.mk String.toList_ofList String.toList_ofList
  have hfeature : multicaMemoryFeature = ⟨_, _⟩ :=
    congrArg₂ Block.mk String.toList_ofList String.toList_ofList
  have hconfig : multicaMemoryConfig = ⟨_, _⟩ :=
    congrArg₂ Block.mk String.toList_ofList String.toList_ofList
  rw [hmanaged, hmultiAgent, hfeature, hconfig]
  decide +kernel

theorem not_isMarker {z : Line} (hb : b ∈ managedBlocks) (hz : z.head? ≠ some '#') :
    b.isMarker z = false := by
  rcases isComment_markers hb with ⟨⟨s, hs, -⟩, ⟨t, ht, -⟩⟩
  rw [Block.isMarker, hs, ht]
  cases z with
  | nil => rfl
  | cons c z =>
    have hc : ('#' == c) = false := beq_eq_false_iff_ne.2 fun h => hz (by rw [h]; rfl)
    rw [List.isPrefixOf, List.isPrefixOf, hc]
    rfl

/-! ### Comments -/

/-- No directive is found in a comment. -/
def Directives.Quiet (d : Directives) : Prop :=
  ∀ k ∈ d.keys, ∀ r ∈ k.2, ∀ s, matchesStart r ('#' :: s) = false

theorem quiet_multiAgent : userMultiAgentDirectives.Quiet := by
  intro k hk r hr s
  simp only [userMultiAgentDirectives, List.mem_cons, List.not_mem_nil, or_false] at hk
  rcases hk with rfl | rfl <;> rw [List.mem_singleton.1 hr]
  · exact not_matchesStart_dottedKey (by decide) (by decide) s
  · exact not_matchesStart_key (by decide) s

theorem quiet_memory : userMemoryDirectives.Quiet := by
  intro k hk r hr s
  simp only [userMemoryDirectives, List.mem_cons, List.not_mem_nil, or_false] at hk
  rcases hk with rfl | rfl | rfl <;>
    simp only [List.mem_cons, List.not_mem_nil, or_false] at hr
  · rcases hr with rfl | rfl | rfl <;>
      exact not_matchesStart_dottedKey (by decide) (by decide) s
  · rw [hr]
    exact not_matchesStart_key (by decide) s
  · rcases hr with rfl | rfl <;> exact not_matchesStart_key (by decide) s

theorem IsComment.takes {d : Directives} (hd : d.Quiet) {z : Line} (h : IsComment z) (t : Line) :
    d.takes t (trimSpace z) = false := by
  rcases h with ⟨s, rfl, -⟩
  rw [trimSpace_cons (by decide), Directives.takes, List.any_eq_false]
  intro k hk
  simp [List.any_eq_false.2 fun r hr => Bool.eq_false_iff.1 (hd k hk r hr _)]

theorem IsComment.takesLine {d : Directives} (hd : d.Quiet) {z : Line} (h : IsComment z)
    (header : Line) : d.takesLine ⟨header, z⟩ = false := by
  rw [Directives.takesLine, h.takes hd, Bool.and_false]

/-! ### Managed keys -/

theorem foreign_managed (policy : CodexSandboxPolicy) :
    ∀ z ∈ multicaManaged.block (managedLines policy), Foreign z ∧
      userMultiAgentDirectives.takesLine ⟨[], z⟩ = false ∧
      userMemoryDirectives.takesLine ⟨[], z⟩ = false ∧ multicaMultiAgent.isMarker z = false := by
  have hcomments := isComment_markers (b := multicaManaged) (by simp [managedBlocks])
  have hmarkers := isMarker_markers.1
  simp only [List.forall_mem_cons, List.not_mem_nil, false_imp_iff, implies_true,
    and_true] at hmarkers
  rcases hmarkers with ⟨hmultiAgent, hfeature, hconfig⟩
  refine forall_mem_block ?_ ?_ ?_
  · exact ⟨foreign_of_header hcomments.1.isHeaderLine hfeature.1 hconfig.1,
      hcomments.1.takesLine quiet_multiAgent [], hcomments.1.takesLine quiet_memory [],
      hmultiAgent.1⟩
  · have hkeys : ∀ z ∈ managedLines policy, isHeaderLine z = false ∧ z.head? ≠ some '#' ∧
        userMultiAgentDirectives.takesLine ⟨[], z⟩ = false ∧
        userMemoryDirectives.takesLine ⟨[], z⟩ = false := by
      rcases policy with ⟨mode, networkAccess⟩
      cases mode <;> cases networkAccess <;> decide +kernel
    intro z hz
    rcases hkeys z hz with ⟨hheader, hhead, htakes, htakes'⟩
    have hquiet : ∀ b ∈ managedBlocks, b.isMarker z = false := fun b hb => not_isMarker hb hhead
    exact ⟨foreign_of_header hheader (hquiet _ (by simp [managedBlocks]))
      (hquiet _ (by simp [managedBlocks])), htakes, htakes', hquiet _ (by simp [managedBlocks])⟩
  · exact ⟨foreign_of_header hcomments.2.isHeaderLine hfeature.2 hconfig.2,
      hcomments.2.takesLine quiet_multiAgent [], hcomments.2.takesLine quiet_memory [],
      hmultiAgent.2⟩

theorem foreign_multiAgent (inFeaturesTable : Bool) :
    ∀ z ∈ multicaMultiAgent.block [multiAgentLine inFeaturesTable], Foreign z ∧
      userMemoryDirectives.takesLine ⟨[], z⟩ = false ∧
      userMemoryDirectives.takes featuresTable (trimSpace z) = false := by
  have hcomments := isComment_markers (b := multicaMultiAgent) (by simp [managedBlocks])
  have hmarkers := isMarker_markers.2
  simp only [List.forall_mem_cons, List.not_mem_nil, false_imp_iff, implies_true,
    and_true] at hmarkers
  rcases hmarkers with ⟨hfeature, hconfig⟩
  refine forall_mem_block ?_ ?_ ?_
  · exact ⟨foreign_of_header hcomments.1.isHeaderLine hfeature.1 hconfig.1,
      hcomments.1.takesLine quiet_memory [], hcomments.1.takes quiet_memory _⟩
  · intro z hz
    rw [List.mem_singleton.1 hz]
    have hkey : isHeaderLine (multiAgentLine inFeaturesTable) = false ∧
        (multiAgentLine inFeaturesTable).head? ≠ some '#' ∧
        userMemoryDirectives.takesLine ⟨[], multiAgentLine inFeaturesTable⟩ = false ∧
        userMemoryDirectives.takes featuresTable
          (trimSpace (multiAgentLine inFeaturesTable)) = false := by
      cases inFeaturesTable <;> decide +kernel
    rcases hkey with ⟨hheader, hhead, htakes⟩
    exact ⟨foreign_of_header hheader (not_isMarker (by simp [managedBlocks]) hhead)
      (not_isMarker (by simp [managedBlocks]) hhead), htakes⟩
  · exact ⟨foreign_of_header hcomments.2.isHeaderLine hfeature.2 hconfig.2,
      hcomments.2.takesLine quiet_memory [], hcomments.2.takes quiet_memory _⟩

theorem isHeaderLine_of_isFeaturesHeader {l : Line} (h : isFeaturesHeader l = true) :
    isHeaderLine l = true :=
  isHeaderLine_of_tableHeader h

theorem tableOf_features {l : Line} (h : isFeaturesHeader l = true) :
    userMemoryDirectives.tableOf l = featuresTable := by
  have hfind : userMemoryDirectives.tables.find? (fun t => matchesWhole t.1 l) =
      some (rootFeaturesTableHeaderRe, featuresTable) := List.find?_cons_of_pos h
  rw [Directives.tableOf, hfind]
  rfl

theorem Sectional.and {keep keep' : Headed → Bool} (h : Sectional keep)
    (hkeep' : ∀ l, isHeaderLine l = true → keep' ⟨l, l⟩ = true) :
    Sectional fun x => keep x && keep' x := by
  intro l hl hgone l'
  dsimp only at hgone ⊢
  rw [hkeep' l hl, Bool.and_true] at hgone
  rw [h l hl hgone l', Bool.false_and]

/-- Headers that stay are found just as before. -/
theorem any_sieve {f : Line → Bool} {keep : Headed → Bool}
    (hf : ∀ l, f l = true → isHeaderLine l = true)
    (hkeep : ∀ l ∈ ls, f l = true → keep ⟨l, l⟩ = true) : (sieve keep ls).any f = ls.any f := by
  have hgeneral : ∀ h, (((headed h ls).filter keep).map Headed.line).any f = ls.any f := by
    induction ls with
    | nil => intro h; rfl
    | cons l ls ih =>
      intro h
      have hrest := ih fun l hl => hkeep l (List.mem_cons_of_mem _ hl)
      rw [List.any_cons]
      by_cases hl : f l = true
      · rw [headed_cons_header (hf l hl), List.filter_cons, if_pos (hkeep l List.mem_cons_self hl),
          List.map_cons, List.any_cons, hrest]
      · have hno : f l = false := by simpa using hl
        rcases exists_headed_cons h l with ⟨h', hcons⟩
        rw [hcons, List.filter_cons, hno, Bool.false_or]
        by_cases hk : keep ⟨h', l⟩ = true
        · rw [if_pos hk, List.map_cons, List.any_cons, hrest, hno, Bool.false_or]
        · rw [if_neg hk, hrest]
  exact hgeneral []

/-- What the memory edit strips from a file with the other blocks. -/
theorem sieve_multiAgent (policy : CodexSandboxPolicy) (kept : List Line) :
    let staying : Headed → Bool := fun x => !userMemoryDirectives.takesLine x
    sieve staying
        ((if kept.any isFeaturesHeader then []
          else multicaMultiAgent.block [multiAgentLine false]) ++
          (multicaManaged.block (managedLines policy) ++
            insertAfter isFeaturesHeader (multicaMultiAgent.block [multiAgentLine true]) kept)) =
      (if kept.any isFeaturesHeader then [] else multicaMultiAgent.block [multiAgentLine false]) ++
        (multicaManaged.block (managedLines policy) ++
          insertAfter isFeaturesHeader (multicaMultiAgent.block [multiAgentLine true])
            (sieve staying kept)) := by
  intro staying
  have hinsert : sieve staying
      (insertAfter isFeaturesHeader (multicaMultiAgent.block [multiAgentLine true]) kept) =
      insertAfter isFeaturesHeader (multicaMultiAgent.block [multiAgentLine true])
        (sieve staying kept) := by
    refine sieve_insertAfter (fun l => isHeaderLine_of_isFeaturesHeader)
      (fun z hz => (foreign_multiAgent true z hz).1.header) ?_ ?_
    · intro l hl
      have hhead := isHeaderLine_of_isFeaturesHeader hl
      simp [staying, Directives.takesLine, hhead]
    · intro l hl z hz
      have htakes := (foreign_multiAgent true z hz).2.2
      simp [staying, Directives.takesLine, tableOf_features hl, htakes]
  have hroot : sieve staying (multicaManaged.block (managedLines policy) ++
      insertAfter isFeaturesHeader (multicaMultiAgent.block [multiAgentLine true]) kept) =
      multicaManaged.block (managedLines policy) ++
        insertAfter isFeaturesHeader (multicaMultiAgent.block [multiAgentLine true])
          (sieve staying kept) := by
    rw [sieve_append_keys (fun z hz => (foreign_managed policy z hz).1.header), hinsert]
    exact fun z hz => by simp [staying, (foreign_managed policy z hz).2.2.1]
  cases kept.any isFeaturesHeader with
  | true => exact hroot
  | false =>
    rw [if_neg Bool.false_ne_true,
      sieve_append_keys (fun z hz => (foreign_multiAgent false z hz).1.header), hroot]
    exact fun z hz => by simp [staying, (foreign_multiAgent false z hz).2.1]

/-- The lines after the sandbox and the multi-agent edits. -/
theorem dense_ensureMultiAgent (policy : CodexSandboxPolicy) {content : Text}
    (hunmarked : Unmarked content) (h : Dense (lines content) ls) :
    let kept := sieve (fun x => !isLegacy x && !userMultiAgentDirectives.takesLine x) ls
    Dense
      (lines (ensureCodexMultiAgentConfig false (ensureCodexSandboxConfig content policy)))
      ((if kept.any isFeaturesHeader then [] else multicaMultiAgent.block [multiAgentLine false]) ++
        (multicaManaged.block (managedLines policy) ++
          insertAfter isFeaturesHeader (multicaMultiAgent.block [multiAgentLine true]) kept)) := by
  intro kept
  have hforeign := foreign_managed policy
  have hmarked : multicaMultiAgent ∈ managedBlocks := by simp [managedBlocks]
  have h₁ := dense_ensureCodexSandboxConfig policy
    (hunmarked multicaManaged (by simp [managedBlocks])) h
  have hunmarked₁ : multicaMultiAgent.isMatch
      (lines (ensureCodexSandboxConfig content policy)) = false := by
    rw [h₁.isMatch hmarked, Block.isMatch_append fun z hz => (hforeign z hz).2.2.2]
    refine Block.isMatch_sublist sieve_sublist ?_
    rw [← h.isMatch hmarked]
    exact hunmarked _ hmarked
  have h₂ := dense_ensureCodexMultiAgentConfig hunmarked₁ h₁
  dsimp only at h₂
  rw [sieve_append_keys (fun z hz => (hforeign z hz).1.header)
      (fun z hz => by simp [(hforeign z hz).2.1]), sieve_sieve sectional_legacy,
    any_append_of_none fun z hz => (hforeign z hz).1.features,
    insertAfter_append fun z hz => (hforeign z hz).1.features] at h₂
  exact h₂

/-- The lines of the edited file, from the lines that the skills leave. -/
theorem dense_ensure (policy : CodexSandboxPolicy) {content : Text}
    (hunmarked : Unmarked content) (h : Dense (lines content) ls) :
    Dense
      (lines (ensureCodexMemoryConfig false (ensureCodexMultiAgentConfig false
        (ensureCodexSandboxConfig content policy))))
      (layout policy (sieve (fun x => (!isLegacy x && !userMultiAgentDirectives.takesLine x) &&
        !userMemoryDirectives.takesLine x) ls)) := by
  have hmanaged := foreign_managed policy
  have hroot := foreign_multiAgent false
  have htable := foreign_multiAgent true
  have h₂ := dense_ensureMultiAgent policy hunmarked h
  dsimp only at h₂
  have hsectional : Sectional fun x => !isLegacy x && !userMultiAgentDirectives.takesLine x :=
    sectional_legacy.and fun l hl => by simp [Directives.takesLine, hl]
  -- the other blocks are still not there
  have hunmarked₂ : ∀ b : Block, b ∈ managedBlocks → b.isMatch (lines content) = false →
      (∀ z, Foreign z → b.isMarker z = false) →
      b.isMatch (lines (ensureCodexMultiAgentConfig false
        (ensureCodexSandboxConfig content policy))) = false := by
    intro b hmarked hb hquiet
    have hkept : b.isMatch
        (sieve (fun x => !isLegacy x && !userMultiAgentDirectives.takesLine x) ls) = false := by
      refine Block.isMatch_sublist sieve_sublist ?_
      rw [← h.isMatch hmarked]
      exact hb
    have hrest : b.isMatch (multicaManaged.block (managedLines policy) ++
        insertAfter isFeaturesHeader (multicaMultiAgent.block [multiAgentLine true])
          (sieve (fun x => !isLegacy x && !userMultiAgentDirectives.takesLine x) ls)) = false := by
      rw [Block.isMatch_append fun z hz => hquiet z (hmanaged z hz).1,
        Block.isMatch_insertAfter fun z hz => hquiet z (htable z hz).1, hkept]
    rw [h₂.isMatch hmarked]
    split
    · exact hrest
    · rw [Block.isMatch_append fun z hz => hquiet z (hroot z hz).1, hrest]
  have hfeature : multicaMemoryFeature ∈ managedBlocks := by simp [managedBlocks]
  have hconfig : multicaMemoryConfig ∈ managedBlocks := by simp [managedBlocks]
  have h₃ := dense_ensureCodexMemoryConfig
    (hunmarked₂ _ hfeature (hunmarked _ hfeature) fun _ hz => hz.memoryFeature)
    (hunmarked₂ _ hconfig (hunmarked _ hconfig) fun _ hz => hz.memoryConfig)
    h₂
  dsimp only at h₃
  have hkept := sieve_multiAgent policy
    (sieve (fun x => !isLegacy x && !userMultiAgentDirectives.takesLine x) ls)
  dsimp only at hkept
  have hany : (sieve (fun x => !userMemoryDirectives.takesLine x)
      (sieve (fun x => !isLegacy x && !userMultiAgentDirectives.takesLine x) ls)).any
        isFeaturesHeader = _ :=
    any_sieve (fun l => isHeaderLine_of_isFeaturesHeader) fun l _ hl => by
      simp [Directives.takesLine, isHeaderLine_of_isFeaturesHeader hl]
  rw [hkept, ← hany, sieve_sieve hsectional] at h₃
  generalize sieve (fun x => (!isLegacy x && !userMultiAgentDirectives.takesLine x) &&
    !userMemoryDirectives.takesLine x) ls = kept at h₃ ⊢
  have hfront : ∃ front, (∀ z ∈ front, Foreign z) ∧
      front = (if kept.any isFeaturesHeader then []
        else multicaMultiAgent.block [multiAgentLine false]) ++
          multicaManaged.block (managedLines policy) := by
    refine ⟨_, fun z hz => ?_, rfl⟩
    rw [List.mem_append] at hz
    rcases hz with hz | hz
    · split at hz
      · cases hz
      · exact (hroot z hz).1
    · exact (hmanaged z hz).1
  rcases hfront with ⟨front, hfront, heq⟩
  rw [← List.append_assoc (if kept.any isFeaturesHeader then [] else _), ← heq] at h₃
  -- the blocks at the root have no headers
  rw [any_append_of_none fun z hz => (hfront z hz).features,
    any_append_of_none fun z hz => (hfront z hz).memories,
    any_insertAfter fun z hz => (htable z hz).1.features,
    any_insertAfter fun z hz => (htable z hz).1.memories,
    insertAfter_append fun z hz => (hfront z hz).features, insertAfter_insertAfter,
    insertAfter_append fun z hz => (hfront z hz).memories] at h₃
  rw [layout, rootBlocks, featuresBlocks, memoriesBlock, ← heq]
  simp only [List.append_assoc] at h₃ ⊢
  exact h₃

theorem dense_editedConfig (policy : CodexSandboxPolicy) {content : Text}
    (hunmarked : Unmarked content) :
    ∃ kept, Dense (lines (editedConfig policy content)) (layout policy kept) ∧
      (kept = sieve (fun x => !taken x) (lines content) ∨
        kept = [] ∧ ∀ l ∈ sieve (fun x => !taken x) (lines content), l.all isSpace = true) := by
  rcases dense_stripSkillsConfigEntries content with ⟨L, hdense, hL⟩
  have hunmarked' : Unmarked (stripSkillsConfigEntries content) := by
    intro b hb
    rw [hdense.isMatch hb]
    rcases hL with rfl | ⟨rfl, -⟩
    · exact Block.isMatch_sublist sieve_sublist (hunmarked b hb)
    · rfl
  have hall : sieve (fun x => (!isLegacy x && !userMultiAgentDirectives.takesLine x) &&
      !userMemoryDirectives.takesLine x) (sieve (fun x => !inSkillsConfig x) (lines content)) =
      sieve (fun x => !taken x) (lines content) := by
    rw [sieve_sieve sectional_skillsConfig]
    refine congrArg (List.map Headed.line) (List.filter_congr fun x _ => ?_)
    simp [taken, Bool.and_assoc]
  refine ⟨_, dense_ensure policy hunmarked' hdense, ?_⟩
  rcases hL with rfl | ⟨rfl, hspace⟩
  · exact .inl hall
  · refine .inr ⟨rfl, fun l hl => ?_⟩
    rw [← hall] at hl
    exact hspace l (sieve_sublist.subset hl)

end Orynx.CodexConfig
