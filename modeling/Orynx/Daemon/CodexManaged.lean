import Orynx.Daemon.CodexEdits

/-! # The edited configuration

What the edits of a Codex configuration do to its meaning.

* `usesOfFile_editedConfig`, `hasTable_editedConfig`: the edited file has the managed keys and what
  the lines that stay have;
* `document_filter`: the lines that stay are in the tables that they were in.
-/

namespace Orynx.CodexConfig

open Lib.Toml
open LocalSkills (trimSpace)

section

variable {V : Type} {T : Values V} {content : Text} {policy : CodexSandboxPolicy}
  {ls : List Line} {x : Place × Headed}

/-! ## Lines without their headers -/

def Values.usesOfLines (T : Values V) (ls : List Line) : List (Place × Use V) :=
  usesIn T.entry (tables T.entry root ls)

theorem tables_line (hs : List Headed) : tables T.entry root (hs.map Headed.line) =
    (tables T.headedEntry root hs).map fun x => (x.1, x.2.line) :=
  tables_map Headed.line hs

theorem usesOfLines_line (hs : List Headed) : T.usesOfLines (hs.map Headed.line) =
    (tables T.headedEntry root hs).flatMap T.usesOfLine := by
  rw [Values.usesOfLines, tables_line, usesIn, List.flatMap_map]
  rfl

theorem headers_line (hs : List Headed) (t : Place) :
    (∃ x ∈ tables T.entry root (hs.map Headed.line),
      (T.entry x.2).isHeader = true ∧ x.1 = t) ↔
      ∃ x ∈ tables T.headedEntry root hs, (T.entry x.2.line).isHeader = true ∧ x.1 = t := by
  rw [tables_line]
  constructor
  · rintro ⟨y, hy, hhead, ht⟩
    rcases List.mem_map.1 hy with ⟨x, hx, rfl⟩
    exact ⟨x, hx, hhead, ht⟩
  · rintro ⟨x, hx, hhead, ht⟩
    exact ⟨_, List.mem_map_of_mem hx, hhead, ht⟩

theorem usesOfFile_eq (content : Text) : T.usesOfFile content = T.usesOfLines (lines content) := by
  have huses := usesOfLines_line (T := T) (headed [] (lines content))
  rw [map_headed] at huses
  exact huses.symm

theorem hasTable_iff {t : Place} : T.HasTable content t ↔
    ∃ x ∈ tables T.entry root (lines content), (T.entry x.2).isHeader = true ∧ x.1 = t := by
  have hheaders := headers_line (T := T) (headed [] (lines content)) t
  rw [map_headed] at hheaders
  exact hheaders.symm

/-! ## Blank lines -/

theorem entry_of_white {l : Line} (hl : l.all isSpace = true) : T.entry l = .blank := by
  cases hread : readLine T.read l with
  | none => rw [Values.entry, hread]; rfl
  | some e =>
    rcases exists_skip hread with ⟨t, ht, hskip⟩
    have htrim : trimSpace l = [] := by
      have hall : l.dropWhile isSpace = [] :=
        List.dropWhile_eq_nil_iff.2 fun c hc => List.all_eq_true.1 hl c hc
      rw [trimSpace, hall]
      rfl
    rw [htrim, List.nil_append] at hskip
    rw [Values.entry, hread]
    cases t with
    | nil =>
      simp only [readLine, hskip] at hread
      exact (Option.some.inj hread).symm
    | cons c t =>
      have htoken := isToken_of_readLine hread hskip
      rw [space_isSpace.token c (ht c List.mem_cons_self)] at htoken
      cases htoken

theorem isHeaderLine_of_white {l : Line} (hl : l.all isSpace = true) : isHeaderLine l = false := by
  have hall : l.dropWhile isSpace = [] :=
    List.dropWhile_eq_nil_iff.2 fun c hc => List.all_eq_true.1 hl c hc
  rw [isHeaderLine, trimSpace, hall]
  rfl

/-- The lines that say something. -/
def Values.said (T : Values V) (ls : List Line) : List Line :=
  ls.filter fun l => !(T.entry l).isBlank

theorem said_of_dense {ls' : List Line} (h : Dense ls ls') : T.said ls = T.said ls' := by
  have hsaid : ∀ ls, T.said ls = T.said (ls.filter fun l => !l.isEmpty) := by
    intro ls
    rw [Values.said, Values.said, List.filter_filter]
    refine List.filter_congr fun l _ => ?_
    cases l with
    | nil => rfl
    | cons c l => simp
  rw [hsaid, h, ← hsaid]

/-- The lines that stay. -/
def keptLines (content : Text) : List Line := sieve (fun x => !taken x) (lines content)

theorem isHeaderLine_of_isMemoriesHeader {l : Line} (h : isMemoriesHeader l = true) :
    isHeaderLine l = true :=
  isHeaderLine_of_tableHeader h

theorem said_editedConfig (hunmarked : Unmarked content) :
    T.said (lines (editedConfig policy content)) = T.said (layout policy (keptLines content)) := by
  rcases dense_editedConfig policy hunmarked with ⟨kept, hdense, hkept⟩
  rw [said_of_dense hdense]
  rcases hkept with rfl | ⟨rfl, hwhite⟩
  · rfl
  -- nothing but white space stays
  have hnone : ∀ f : Line → Bool, (∀ l, f l = true → isHeaderLine l = true) →
      (keptLines content).any f = false := by
    intro f hf
    rw [List.any_eq_false]
    intro l hl hfl
    have hhead := hf l hfl
    rw [isHeaderLine_of_white (hwhite l hl)] at hhead
    cases hhead
  have hsaid : T.said (keptLines content) = [] := by
    refine List.filter_eq_nil_iff.2 fun l hl => ?_
    rw [entry_of_white (hwhite l hl)]
    exact Bool.false_ne_true
  have hF := hnone isFeaturesHeader fun _ => isHeaderLine_of_isFeaturesHeader
  have hM := hnone isMemoriesHeader fun _ => isHeaderLine_of_isMemoriesHeader
  have hlayout : layout policy (keptLines content) =
      rootBlocks policy false false ++ keptLines content := by
    rw [layout, hF, hM, insertAfter_eq_self hF, insertAfter_eq_self hM]
  have hempty : layout policy [] = rootBlocks policy false false ++ [] := rfl
  rw [hlayout, hempty, Values.said, List.filter_append, Values.said, List.filter_append]
  exact congrArg (_ ++ ·) hsaid.symm

/-- Lines that say the same have the same uses and headers. -/
theorem usesOfLines_congr {ls' : List Line} (h : T.said ls = T.said ls') :
    T.usesOfLines ls = T.usesOfLines ls' ∧ ∀ P : Place × Line → Prop,
      (∃ x ∈ tables T.entry root ls, (T.entry x.2).isHeader = true ∧ P x) ↔
        ∃ x ∈ tables T.entry root ls', (T.entry x.2).isHeader = true ∧ P x :=
  tables_congr h

/-- The edited file has the uses of its layout. -/
theorem usesOfFile_editedConfig (hunmarked : Unmarked content) :
    T.usesOfFile (editedConfig policy content) =
      T.usesOfLines (layout policy (keptLines content)) := by
  rw [usesOfFile_eq]
  exact (usesOfLines_congr (said_editedConfig hunmarked)).1

/-! ## The managed keys -/

/-- The lines are read, as pairs and comments. -/
def Values.Keys (T : Values V) (ls : List Line) : Prop :=
  ∀ l ∈ ls, (readLine T.read l).isSome = true ∧ (T.entry l).isHeader = false

theorem Values.Keys.no_header (h : T.Keys ls) : ∀ l ∈ ls, (T.entry l).isHeader = false :=
  fun l hl => (h l hl).2

theorem block_keys {b : Block} {body : List Line} (hb : b ∈ managedBlocks)
    (hbody : ∀ l ∈ body, ∃ p v, T.entry l = .pair p v) : T.Keys (b.block body) := by
  have hblank : ∀ {l}, IsComment l →
      (readLine T.read l).isSome = true ∧ (T.entry l).isHeader = false := by
    intro l hl
    rw [Values.entry, hl.read]
    exact ⟨rfl, rfl⟩
  intro l hl
  rw [Block.block, List.cons_append, List.mem_cons, List.mem_append, List.mem_singleton] at hl
  rcases hl with rfl | hl | rfl
  · exact hblank (isComment_markers hb).1
  · rcases hbody l hl with ⟨p, v, hentry⟩
    rw [hentry]
    rw [Values.entry] at hentry
    cases hread : readLine T.read l with
    | none => rw [hread] at hentry; cases hentry
    | some e => exact ⟨rfl, rfl⟩
  · exact hblank (isComment_markers hb).2

theorem keys_memoryFeature (b : Bool) :
    T.Keys (multicaMemoryFeature.block [memoryFeatureLine b]) := by
  refine block_keys (by simp [managedBlocks]) fun l hl => ?_
  rw [List.mem_singleton.1 hl, entry_memoryFeature]
  exact ⟨_, _, rfl⟩

theorem keys_multiAgent (b : Bool) : T.Keys (multicaMultiAgent.block [multiAgentLine b]) := by
  refine block_keys (by simp [managedBlocks]) fun l hl => ?_
  rw [List.mem_singleton.1 hl, entry_multiAgent]
  exact ⟨_, _, rfl⟩

theorem keys_memoryConfig (b : Bool) :
    T.Keys (multicaMemoryConfig.block (memoryConfigLines b)) := by
  refine block_keys (by simp [managedBlocks]) fun l hl => ?_
  have hentry := List.mem_map_of_mem (f := T.entry) hl
  rw [entry_memoryConfig] at hentry
  rcases List.mem_map.1 hentry with ⟨n, -, hn⟩
  exact ⟨_, _, hn.symm⟩

theorem keys_managed (policy : CodexSandboxPolicy) :
    T.Keys (multicaManaged.block (managedLines policy)) := by
  refine block_keys (by simp [managedBlocks]) fun l hl => ?_
  rcases List.mem_cons.1 hl with rfl | hl
  · exact ⟨_, _, entry_mode _⟩
  · rw [List.mem_ite_nil_right, List.mem_singleton] at hl
    rw [hl.2]
    exact ⟨_, _, entry_networkAccess _⟩

theorem keys_featuresBlocks : T.Keys featuresBlocks := by
  intro l hl
  rcases List.mem_append.1 hl with hl | hl
  · exact keys_memoryFeature true l hl
  · exact keys_multiAgent true l hl

theorem keys_rootBlocks (policy : CodexSandboxPolicy) (hasFeatures hasMemories : Bool) :
    T.Keys (rootBlocks policy hasFeatures hasMemories) := by
  intro l hl
  simp only [rootBlocks, List.mem_append, List.mem_ite_nil_left] at hl
  rcases hl with hl | hl | hl | hl
  · exact keys_memoryFeature false l hl.2
  · exact keys_memoryConfig false l hl.2
  · exact keys_multiAgent false l hl.2
  · exact keys_managed policy l hl

/-! ## The managed keys -/

theorem usesIn_memoryFeature (b : Bool) (t : Place) :
    usesIn T.entry ((multicaMemoryFeature.block [memoryFeatureLine b]).map fun l => (t, l)) =
      usesOf t (.pair ((if b then [] else ["features".toList]) ++ ["memories".toList])
        (T.ofBool false)) := by
  rw [usesIn_block (by simp [managedBlocks]), List.map_singleton, entry_memoryFeature, List.flatMap_singleton]

theorem usesIn_multiAgent (b : Bool) (t : Place) :
    usesIn T.entry ((multicaMultiAgent.block [multiAgentLine b]).map fun l => (t, l)) =
      usesOf t (.pair ((if b then [] else ["features".toList]) ++ ["multi_agent".toList])
        (T.ofBool false)) := by
  rw [usesIn_block (by simp [managedBlocks]), List.map_singleton, entry_multiAgent, List.flatMap_singleton]

theorem usesIn_memoryConfig (b : Bool) (t : Place) :
    usesIn T.entry ((multicaMemoryConfig.block (memoryConfigLines b)).map fun l => (t, l)) =
      usesOf t (.pair ((if b then [] else ["memories".toList]) ++ ["generate_memories".toList])
          (T.ofBool false)) ++
        usesOf t (.pair ((if b then [] else ["memories".toList]) ++ ["use_memories".toList])
          (T.ofBool false)) := by
  rw [usesIn_block (by simp [managedBlocks]), entry_memoryConfig, List.map_cons, List.map_singleton,
    List.flatMap_cons, List.flatMap_singleton]

theorem usesIn_managed (policy : CodexSandboxPolicy) :
    usesIn T.entry ((multicaManaged.block (managedLines policy)).map fun l => ([], l)) =
      (ManagedKey.sandboxMode.place, .value (T.ofMode policy.mode)) ::
        if policy.mode = .workspaceWrite then
          [(place ["sandbox_workspace_write"], .dotted),
            (ManagedKey.networkAccess.place, .value (T.ofBool policy.networkAccess))]
        else [] := by
  rw [usesIn_block (by simp [managedBlocks]), managedLines, List.map_cons, entry_mode, List.flatMap_cons]
  by_cases hmode : policy.mode = .workspaceWrite
  · rw [if_pos hmode, if_pos hmode, List.map_singleton, entry_networkAccess,
      List.flatMap_singleton]
    rfl
  · rw [if_neg hmode, if_neg hmode]
    rfl

/-- The keys that the blocks add, those of the root in front of those of the tables. -/
def tableUses (T : Values V) (hasFeatures hasMemories : Bool) : List (Place × Use V) :=
  let value (k : ManagedKey) := (k.place, Use.value (T.ofBool false))
  (if hasMemories then [value .generateMemories, value .useMemories] else []) ++
    if hasFeatures then [value .memories, value .multiAgent] else []

theorem managedUses_eq (policy : CodexSandboxPolicy) (hasFeatures hasMemories : Bool) :
    managedUses T policy hasFeatures hasMemories =
      usesIn T.entry ((rootBlocks policy hasFeatures hasMemories).map fun l => ([], l)) ++
        tableUses T hasFeatures hasMemories := by
  rw [managedUses, tableUses, rootBlocks]
  refine congrArg (· ++ _) ?_
  rw [List.map_append, usesIn_append, List.map_append, usesIn_append, List.map_append,
    usesIn_append, usesIn_managed]
  cases hasFeatures <;> cases hasMemories <;>
    simp only [Bool.false_eq_true, if_false, if_true, usesIn_memoryFeature, usesIn_multiAgent,
      usesIn_memoryConfig] <;> rfl

/-- Headers that the edits look for are those of tables of the root. -/
theorem table_of_lines (h : T.IsToml content) (hls : ls ⊆ lines content) {y : Place × Line}
    (hy : y ∈ tables T.entry root ls) {name : String} (hname : Bare name.toList)
    (hmatch : matchesWhole (tableHeaderRe name) y.2 = true) : y.1 = place [name] := by
  have hvalid : Valid T.entry (lines content) := by
    have hagree := h.agree
    rwa [usesOfFile_eq] at hagree
  exact hvalid.table_of_key h.reads_lines.named hls hy
    (entry_of_tableHeader hname hmatch (h.reads_lines _ (hls (mem_of_mem_tables hy))))

theorem isHeader_of_match (h : T.IsToml content) (hls : ls ⊆ lines content) {l : Line}
    (hl : l ∈ ls) {name : String} (hmatch : matchesWhole (tableHeaderRe name) l = true) :
    (T.entry l).isHeader = true :=
  (h.reads_lines.isHeader_iff (hls hl)).2 (isHeaderLine_of_tableHeader hmatch)

theorem adds_block {f : Line → Bool} {zs : List Line}
    (hzs : ∀ l ∈ zs, (T.entry l).isHeader = false) (hf : ls.any f = true) :
    ∃ y ∈ tables T.entry root ls, f y.2 = true ∧
      Adds (usesIn T.entry (zs.map fun l => (y.1, l))) (T.usesOfLines ls)
        (T.usesOfLines (insertAfter f zs ls)) :=
  adds_insertAfter hzs hf

theorem not_isMemoriesHeader_featuresBlocks :
    ∀ z ∈ featuresBlocks, isMemoriesHeader z = false := by
  intro z hz
  rcases List.mem_append.1 hz with hz | hz
  · exact not_isMemoriesHeader_memoryFeature z hz
  · exact (foreign_multiAgent true z hz).1.memories

/-- The uses of the layout are those of the lines and the managed ones. -/
theorem adds_layout (h : T.IsToml content) (hls : ls ⊆ lines content)
    (policy : CodexSandboxPolicy) :
    Adds (managedUses T policy (ls.any isFeaturesHeader) (ls.any isMemoriesHeader))
      (T.usesOfLines ls) (T.usesOfLines (layout policy ls)) := by
  have hfeatures : Adds
      (if ls.any isFeaturesHeader then
        [(ManagedKey.memories.place, .value (T.ofBool false)),
          (ManagedKey.multiAgent.place, .value (T.ofBool false))]
      else []) (T.usesOfLines ls)
      (T.usesOfLines (insertAfter isFeaturesHeader featuresBlocks ls)) := by
    cases hF : ls.any isFeaturesHeader with
    | false =>
      rw [insertAfter_eq_self hF]
      exact Adds.refl _
    | true =>
      rcases adds_block (T := T) keys_featuresBlocks.no_header hF with ⟨y, hy, hmatch, hadds⟩
      rw [table_of_lines h hls hy (by decide) hmatch, featuresBlocks, List.map_append,
        usesIn_append, usesIn_memoryFeature, usesIn_multiAgent] at hadds
      exact hadds
  have hmemories : Adds
      (if ls.any isMemoriesHeader then
        [(ManagedKey.generateMemories.place, .value (T.ofBool false)),
          (ManagedKey.useMemories.place, .value (T.ofBool false))]
      else []) (T.usesOfLines (insertAfter isFeaturesHeader featuresBlocks ls))
      (T.usesOfLines (insertAfter isMemoriesHeader memoriesBlock
        (insertAfter isFeaturesHeader featuresBlocks ls))) := by
    have hsame : (insertAfter isFeaturesHeader featuresBlocks ls).any isMemoriesHeader =
        ls.any isMemoriesHeader := any_insertAfter not_isMemoriesHeader_featuresBlocks
    cases hM : ls.any isMemoriesHeader with
    | false =>
      rw [insertAfter_eq_self (hsame.trans hM)]
      exact Adds.refl _
    | true =>
      rcases adds_block (T := T) (keys_memoryConfig true).no_header (hsame.trans hM)
        with ⟨y, hy, hmatch, hadds⟩
      have hmem : y.2 ∈ ls := by
        cases hF : ls.any isFeaturesHeader with
        | false =>
          rw [insertAfter_eq_self hF] at hy
          exact mem_of_mem_tables hy
        | true =>
          refine ((mem_insertAfter hF).1 (mem_of_mem_tables hy)).resolve_left fun hblock => ?_
          rw [not_isMemoriesHeader_featuresBlocks _ hblock] at hmatch
          cases hmatch
      -- the header was there before the other block was put in
      rcases (headers_insertAfter keys_featuresBlocks.no_header
          fun z => isMemoriesHeader z.2 = true ∧ z.1 = y.1).1
        ⟨y, hy, isHeader_of_match h hls hmem hmatch, hmatch, rfl⟩ with ⟨z, hz, -, hzmatch, hzplace⟩
      rw [← hzplace, table_of_lines h hls hz (by decide) hzmatch, usesIn_memoryConfig] at hadds
      exact hadds
  rw [managedUses_eq, tableUses, layout]
  exact (hfeatures.trans hmemories).trans (adds_root (keys_rootBlocks _ _ _).no_header)

/-- The edited file has the headers of the lines that stay. -/
theorem headers_layout (policy : CodexSandboxPolicy) (P : Place × Line → Prop) :
    (∃ y ∈ tables T.entry root (layout policy ls), (T.entry y.2).isHeader = true ∧ P y) ↔
      ∃ y ∈ tables T.entry root ls, (T.entry y.2).isHeader = true ∧ P y :=
  (headers_root (keys_rootBlocks _ _ _).no_header P).trans
    ((headers_insertAfter (keys_memoryConfig true).no_header P).trans
      (headers_insertAfter keys_featuresBlocks.no_header P))

theorem hasTable_editedConfig (hunmarked : Unmarked content) {t : Place} :
    T.HasTable (editedConfig policy content) t ↔
      ∃ y ∈ tables T.entry root (keptLines content), (T.entry y.2).isHeader = true ∧ y.1 = t := by
  rw [hasTable_iff]
  exact ((usesOfLines_congr (said_editedConfig hunmarked)).2 _).trans (headers_layout policy _)

/-! ## The lines that stay -/

theorem taken_header {l : Line} (hl : isHeaderLine l = true) :
    taken ⟨l, l⟩ = true ↔
      trimSpace l = skillsConfigHeader ∨ trimSpace l = workspaceWriteHeader := by
  have hmode : isSandboxMode ⟨l, l⟩ = false := isSandboxMode_of_header hl
  simp [taken, isLegacy, hmode, Directives.takesLine, hl, inSkillsConfig, inWorkspaceWrite]

theorem sectional_taken : Sectional fun x => !taken x := by
  intro l hl hgone l'
  rw [Bool.not_eq_false', taken_header hl] at hgone
  rw [Bool.not_eq_false']
  rcases hgone with hgone | hgone
  · simp [taken, inSkillsConfig, hgone]
  · simp [taken, isLegacy, inWorkspaceWrite, hgone]

/-- Headers of tables that are looked for stay. -/
theorem any_keptLines (h : T.IsToml content) {name : String} (hname : Bare name.toList)
    (hne : name ≠ "sandbox_workspace_write") :
    (keptLines content).any (matchesWhole (tableHeaderRe name)) =
      (lines content).any (matchesWhole (tableHeaderRe name)) := by
  refine any_sieve (fun l => isHeaderLine_of_tableHeader) fun l hl hmatch => ?_
  have hread := h.reads_lines l hl
  have hentry := entry_of_tableHeader hname hmatch hread
  rw [Bool.not_eq_true', Bool.eq_false_iff, Ne, taken_header (isHeaderLine_of_tableHeader hmatch)]
  rintro (hskills | hww)
  · rw [entry_of_skillsConfig hskills hread] at hentry
    cases hentry
  · rw [entry_of_workspaceWrite hww hread] at hentry
    have hnames := List.cons.inj (Entry.table.inj hentry)
    exact hne (String.toList_inj.1 hnames.1).symm

theorem keptLines_subset : keptLines content ⊆ lines content := sieve_sublist.subset

/-- The edited file has the managed uses and those of the lines that stay. -/
theorem adds_editedConfig (h : T.IsToml content) (hunmarked : Unmarked content)
    (policy : CodexSandboxPolicy) :
    Adds (managedUses T policy ((lines content).any isFeaturesHeader)
        ((lines content).any isMemoriesHeader))
      (T.usesOfLines (keptLines content)) (T.usesOfFile (editedConfig policy content)) := by
  have hadds := adds_layout h keptLines_subset policy
  have hF : (keptLines content).any isFeaturesHeader = (lines content).any isFeaturesHeader :=
    any_keptLines h (by decide) (by decide)
  have hM : (keptLines content).any isMemoriesHeader = (lines content).any isMemoriesHeader :=
    any_keptLines h (by decide) (by decide)
  rwa [hF, hM, ← usesOfFile_editedConfig hunmarked] at hadds

theorem mem_insertAfter_or {f : Line → Bool} {zs : List Line} {l : Line}
    (hl : l ∈ insertAfter f zs ls) : l ∈ zs ∨ l ∈ ls := by
  cases hf : ls.any f with
  | false =>
    rw [insertAfter_eq_self hf] at hl
    exact .inr hl
  | true => exact (mem_insertAfter hf).1 hl

/-- The edited file is read. -/
theorem reads_editedConfig (h : T.IsToml content) (hunmarked : Unmarked content) :
    ∀ l ∈ lines (editedConfig policy content), (readLine T.read l).isSome = true := by
  rcases dense_editedConfig policy hunmarked with ⟨kept, hdense, hkept⟩
  have hsub : kept ⊆ lines content := by
    rcases hkept with rfl | ⟨rfl, -⟩
    · exact keptLines_subset
    · exact List.nil_subset _
  intro l hl
  rcases hdense.mem hl with hl | rfl
  · rcases List.mem_append.1 hl with hl | hl
    · exact (keys_rootBlocks _ _ _ l hl).1
    · rcases mem_insertAfter_or hl with hl | hl
      · exact (keys_memoryConfig true l hl).1
      · rcases mem_insertAfter_or hl with hl | hl
        · exact (keys_featuresBlocks l hl).1
        · exact h.reads l (hsub hl)
  · rfl

/-! ## Tables -/

/-- A header that goes takes its section with it, as TOML reads it, too. -/
theorem sections_headed (h : T.Reads ls) {keep : Headed → Bool} (hkeep : Sectional keep)
    {hd : Line} {b : Bool} (hb : ∀ l, keep ⟨hd, l⟩ = true → b = true) :
    Sections T.headedEntry keep b (headed hd ls) := by
  induction ls generalizing hd b with
  | nil => exact trivial
  | cons l ls ih =>
    have hrest : T.Reads ls := fun l hl => h l (List.mem_cons_of_mem _ hl)
    have hhead : ∀ hd, (T.headedEntry ⟨hd, l⟩).isHeader = true ↔ isHeaderLine l = true :=
      fun _ => h.isHeader_iff List.mem_cons_self
    cases hl : isHeaderLine l with
    | true =>
      rw [headed_cons_header hl, Sections, if_pos ((hhead l).2 hl)]
      refine ih hrest fun l' hl' => ?_
      by_contra hno
      rw [hkeep l hl (Bool.eq_false_iff.2 hno) l'] at hl'
      cases hl'
    | false =>
      have hno : ¬(T.headedEntry ⟨hd, l⟩).isHeader = true := by
        rw [hhead, hl]
        exact Bool.false_ne_true
      rw [headed_cons hl, Sections, if_neg hno]
      exact ⟨hb l, ih hrest hb⟩

/-- The array `skills.config`, of any element of `skills`. -/
def skillsArray (t : Place) : Bool := t.map Prod.fst == ["skills".toList, "config".toList]

theorem skillsEntry_of_through {t : Place} (h : Through skillsArray t) : SkillsEntry t := by
  rcases h with ⟨a, k, n, b, rfl, hS⟩
  rw [skillsArray, beq_iff_eq, List.map_append] at hS
  rcases a with _ | ⟨⟨k₀, m⟩, _ | ⟨_, a⟩⟩
  · cases hS
  · obtain ⟨rfl, rfl⟩ : k₀ = "skills".toList ∧ k = "config".toList := by simpa using hS
    exact ⟨m, n, b, rfl⟩
  · have hlength := congrArg List.length hS
    simp at hlength

theorem headed_header (hx : x ∈ T.document content) (hl : isHeaderLine x.2.line = true) :
    x.2 = ⟨x.2.line, x.2.line⟩ := by
  rcases x with ⟨t, ⟨hd, l⟩⟩
  have hheader : hd = l := mem_headed_header (mem_of_mem_tables hx) hl
  rw [hheader]

variable (h : T.IsToml content)

include h

theorem isHeader_iff_document (hx : x ∈ T.document content) :
    (T.entry x.2.line).isHeader = true ↔ isHeaderLine x.2.line = true :=
  h.reads_lines.isHeader_iff (document_line_mem hx)

/-- A header stays if it opens neither the section of the sandbox nor an entry of the skills. -/
theorem taken_of_header (hx : x ∈ T.document content)
    (hhead : (T.entry x.2.line).isHeader = true) : taken x.2 = true ↔
      trimSpace x.2.line = skillsConfigHeader ∨ trimSpace x.2.line = workspaceWriteHeader := by
  have hl := (isHeader_iff_document h hx).1 hhead
  rw [headed_header hx hl]
  exact taken_header hl

section

variable (hskills : ∀ x ∈ T.document content, (T.entry x.2.line).isHeader = true →
  SkillsEntry x.1 → trimSpace x.2.line = skillsConfigHeader)

include hskills

/-- The lines that stay are in the tables that they were in. -/
theorem document_filter : tables T.headedEntry root
      ((headed [] (lines content)).filter fun y => !taken y) =
    (T.document content).filter fun x => !taken x.2 := by
  refine tables_filter (S := skillsArray) (b := true) h.headed_named
    (sections_headed h.reads_lines sectional_taken fun _ _ => rfl) rfl (fun _ => rfl) ?_ ?_
  · intro x hx hhead hkeep hthrough
    have htrim := hskills x hx hhead (skillsEntry_of_through hthrough)
    rw [(taken_of_header h hx hhead).2 (.inl htrim)] at hkeep
    cases hkeep
  · intro x hx helement hgone
    have hhead : (T.entry x.2.line).isHeader = true := by
      cases he : T.headedEntry x.2 with
      | element p => exact congrArg Entry.isHeader he
      | table p => rw [he] at helement; cases helement
      | blank => rw [he] at helement; cases helement
      | pair p v => rw [he] at helement; cases helement
    have hread := h.reads_lines _ (document_line_mem hx)
    rw [Bool.not_eq_false', taken_of_header h hx hhead] at hgone
    rcases hgone with htrim | htrim
    · have hentry : T.headedEntry x.2 = .element ["skills".toList, "config".toList] :=
        entry_of_skillsConfig htrim hread
      rw [skillsArray, map_whole, path_of_header hx (.inr hentry)]
      rfl
    · have hentry : T.headedEntry x.2 = .table ["sandbox_workspace_write".toList] :=
        entry_of_workspaceWrite htrim hread
      rw [hentry] at helement
      cases helement

theorem mem_usesOfLines_kept {u : Place × Use V} : u ∈ T.usesOfLines (keptLines content) ↔
    ∃ x ∈ T.document content, taken x.2 = false ∧ u ∈ T.usesOfLine x := by
  rw [keptLines, sieve, usesOfLines_line, document_filter h hskills, List.mem_flatMap]
  simp only [List.mem_filter, Bool.not_eq_true', and_assoc]

theorem agree_kept : (T.usesOfLines (keptLines content)).Pairwise Agree := by
  have hagree := h.agree
  rw [Values.usesOfFile, List.pairwise_flatMap] at hagree
  rw [keptLines, sieve, usesOfLines_line, document_filter h hskills, List.pairwise_flatMap]
  exact ⟨fun x hx => hagree.1 x (List.mem_of_mem_filter hx), hagree.2.filter _⟩

theorem hasTable_kept {t : Place} (hunmarked : Unmarked content) :
    T.HasTable (editedConfig policy content) t ↔
      ∃ x ∈ T.document content, taken x.2 = false ∧ (T.entry x.2.line).isHeader = true ∧
        x.1 = t := by
  rw [hasTable_editedConfig hunmarked, keptLines, sieve, headers_line, document_filter h hskills]
  simp only [List.mem_filter, Bool.not_eq_true', and_assoc]

end

end

end Orynx.CodexConfig
