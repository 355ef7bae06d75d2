import Orynx.Daemon.CodexSteps

/-! # Only the managed keys change

What the edits of a Codex configuration do to its meaning. The file is a TOML document whose lines
each hold at most one value; what stands behind the sign of a pair is read by a function that is
given, of which nothing is known but that it reads the daemon's own values.

* `Edited`: the edits change the managed keys and nothing else;
* `Clean`: what has to hold of the user's file for that.
-/

namespace Orynx.CodexConfig

open Lib.Toml
open LocalSkills (trimSpace)

/-! ## Values -/

/-- The values of TOML. -/
structure Values (V : Type) where
  read : List Char → Option V
  ofBool : Bool → V
  ofMode : SandboxMode → V
  read_ofBool : ∀ b : Bool, read (' ' :: (toString b).toList) = some (ofBool b)
  read_ofMode : ∀ m : SandboxMode, read (" \"".toList ++ m.text ++ "\"".toList) = some (ofMode m)

variable {V : Type} (T : Values V)

namespace Values

def entry (l : Line) : Entry V := (readLine T.read l).getD .blank

/-- The lines of the file, each with its table and its header. -/
def document (content : Text) : List (Place × Headed) :=
  tables (fun x => T.entry x.line) root (headed [] (lines content))

def usesOfLine (x : Place × Headed) : List (Place × Use V) := usesOf x.1 (T.entry x.2.line)

def usesOfFile (content : Text) : List (Place × Use V) :=
  (T.document content).flatMap T.usesOfLine

def HasValue (content : Text) (a : Place) (v : V) : Prop := (a, .value v) ∈ T.usesOfFile content

/-- The place is a table that has a header. -/
def HasTable (content : Text) (t : Place) : Prop :=
  ∃ x ∈ T.document content, (T.entry x.2.line).isHeader = true ∧ x.1 = t

structure IsToml (content : Text) : Prop where
  reads : ∀ l ∈ lines content, (readLine T.read l).isSome = true
  agree : (T.usesOfFile content).Pairwise Agree

end Values

/-! ## Keys -/

def place (names : List String) : Place := names.map fun n => (n.toList, 0)

inductive ManagedKey where
  | multiAgent
  | memories
  | generateMemories
  | useMemories
  | sandboxMode
  | networkAccess
deriving DecidableEq

def ManagedKey.place : ManagedKey → Place
  | .multiAgent => CodexConfig.place ["features", "multi_agent"]
  | .memories => CodexConfig.place ["features", "memories"]
  | .generateMemories => CodexConfig.place ["memories", "generate_memories"]
  | .useMemories => CodexConfig.place ["memories", "use_memories"]
  | .sandboxMode => CodexConfig.place ["sandbox_mode"]
  | .networkAccess => CodexConfig.place ["sandbox_workspace_write", "network_access"]

/-- The daemon's value; it has none for the network outside of the workspace-write mode. -/
def ManagedKey.value (policy : CodexSandboxPolicy) : ManagedKey → Option V
  | .multiAgent | .memories | .generateMemories | .useMemories => some (T.ofBool false)
  | .sandboxMode => some (T.ofMode policy.mode)
  | .networkAccess =>
    if policy.mode = .workspaceWrite then some (T.ofBool policy.networkAccess) else none

/-- The place is an entry of the array `skills.config`, or inside of one. -/
def SkillsEntry (t : Place) : Prop :=
  ∃ m n r, t = ("skills".toList, m) :: ("config".toList, n + 1) :: r

/-- The edits changed the managed keys of the user's file, took the `skills.config` entries out and
did nothing else to it. -/
structure Edited (policy : CodexSandboxPolicy) (content edited : Text) : Prop where
  toml : T.IsToml edited
  managed : ∀ (k : ManagedKey) v, k.value T policy = some v →
    ∀ w, T.HasValue edited k.place w ↔ w = v
  others : ∀ a, (∀ k : ManagedKey, a ≠ k.place) →
    ∀ v, T.HasValue edited a v ↔ T.HasValue content a v ∧ ¬SkillsEntry a
  tables : ∀ t, T.HasTable edited t → T.HasTable content t ∧ ¬SkillsEntry t

/-! ## Clean files -/

/-- The tables of managed keys that no header opens which the edits know. -/
def rootTables (policy : CodexSandboxPolicy) (content : Text) : List Place :=
  (if policy.mode = .workspaceWrite then [place ["sandbox_workspace_write"]] else []) ++
    ((if (lines content).any isFeaturesHeader then [] else [place ["features"]]) ++
      if (lines content).any isMemoriesHeader then [] else [place ["memories"]])

/-- Nothing of the user's file stands in the way of the edits. -/
structure Clean (policy : CodexSandboxPolicy) (content : Text) : Prop where
  /-- A line that starts with `sandbox_mode` is that key of the root, or goes with its section. -/
  sandboxMode : ∀ x ∈ T.document content, isSandboxMode x.2 = true →
    inSkillsConfig x.2 = false → inWorkspaceWrite x.2 = false →
    x.1 = [] ∧ ∃ v, T.entry x.2.line = .pair ["sandbox_mode".toList] v
  /-- The section `[sandbox_workspace_write]` has no key but the managed one. -/
  workspaceWrite : ∀ x ∈ T.document content, inWorkspaceWrite x.2 = true →
    ∀ p v, T.entry x.2.line = .pair p v → p = ["network_access".toList]
  /-- The name of a managed key is used by lines that are taken out only. -/
  keys : ∀ x ∈ T.document content, taken x.2 = false → ∀ u ∈ T.usesOfLine x,
    ∀ k : ManagedKey, (k.value T policy).isSome = true → u.1 ≠ k.place
  /-- The tables of the keys that are put at the root have no headers and no values. -/
  tables : ∀ x ∈ T.document content, taken x.2 = false → ∀ u ∈ T.usesOfLine x,
    u.1 ∈ rootTables policy content → u.2 = .above ∨ u.2 = .dotted
  /-- The entries of `skills.config` have no headers but those that are taken out. -/
  skills : ∀ x ∈ T.document content, (T.entry x.2.line).isHeader = true → SkillsEntry x.1 →
    trimSpace x.2.line = skillsConfigHeader

/-! ## The user's file -/

section File

variable {T : Values V} {content : Text} {policy : CodexSandboxPolicy} {x : Place × Headed}
  {ls : List Line}

/-- A line under its header, as TOML reads it. -/
def Values.headedEntry (T : Values V) (x : Headed) : Entry V := T.entry x.line

/-- The lines are all read. -/
def Values.Reads (T : Values V) (ls : List Line) : Prop :=
  ∀ l ∈ ls, readLine T.read l = some (T.entry l)

theorem Values.IsToml.reads_lines (h : T.IsToml content) : T.Reads (lines content) := by
  intro l hl
  rcases Option.isSome_iff_exists.1 (h.reads l hl) with ⟨e, he⟩
  rw [Values.entry, he]
  rfl

theorem Values.Reads.named (h : T.Reads ls) : ∀ l ∈ ls, (T.entry l).Named := fun l hl =>
  named_of_readLine (h l hl)

theorem Values.Reads.isHeader_iff (h : T.Reads ls) {l : Line} (hl : l ∈ ls) :
    (T.entry l).isHeader = true ↔ isHeaderLine l = true :=
  isHeader_iff_isHeaderLine (h l hl)

theorem headed_line_mem {h : Line} {y : Headed} (hy : y ∈ headed h ls) : y.line ∈ ls := by
  have hmem := List.mem_map_of_mem (f := Headed.line) hy
  rwa [map_headed] at hmem

theorem document_line_mem (hx : x ∈ T.document content) : x.2.line ∈ lines content :=
  headed_line_mem (mem_of_mem_tables hx)

/-- Each line is in the table of its header, or of the root. -/
theorem header_of_mem_tables (h : T.Reads ls) {hd : Line} {here : Here}
    (hx : x ∈ tables T.headedEntry here (headed hd ls)) :
    (x.2.header = hd ∧ x.1 = here.table) ∨ ∃ y ∈ tables T.headedEntry here (headed hd ls),
      isHeaderLine y.2.line = true ∧ y.2.line = x.2.header ∧ y.1 = x.1 := by
  induction ls generalizing hd here with
  | nil => cases hx
  | cons l ls ih =>
    have hrest : T.Reads ls := fun l hl => h l (List.mem_cons_of_mem _ hl)
    cases hl : isHeaderLine l with
    | true =>
      rw [headed_cons_header hl, tables] at hx ⊢
      have hfirst : (x.2.header = l ∧ x.1 = (here.next (T.entry l)).table) →
          ∃ y ∈ ((here.next (T.headedEntry ⟨l, l⟩)).table, (⟨l, l⟩ : Headed)) ::
            tables T.headedEntry (here.next (T.headedEntry ⟨l, l⟩)) (headed l ls),
            isHeaderLine y.2.line = true ∧ y.2.line = x.2.header ∧ y.1 = x.1 := by
        rintro ⟨hheader, htable⟩
        exact ⟨_, List.mem_cons_self, hl, hheader.symm, htable.symm⟩
      right
      rcases List.mem_cons.1 hx with rfl | hx
      · exact hfirst ⟨rfl, rfl⟩
      · rcases ih hrest hx with hcur | ⟨y, hy, hyl, hheader, htable⟩
        · exact hfirst hcur
        · exact ⟨y, List.mem_cons_of_mem _ hy, hyl, hheader, htable⟩
    | false =>
      have hnext : here.next (T.headedEntry ⟨hd, l⟩) = here := by
        refine next_of_not_header ?_
        rw [Bool.eq_false_iff, Ne, Values.headedEntry, h.isHeader_iff List.mem_cons_self, hl]
        exact Bool.false_ne_true
      rw [headed_cons hl, tables, hnext] at hx ⊢
      rcases List.mem_cons.1 hx with rfl | hx
      · exact .inl ⟨rfl, rfl⟩
      · rcases ih hrest hx with hcur | ⟨y, hy, hyl, hheader, htable⟩
        · exact .inl hcur
        · exact .inr ⟨y, List.mem_cons_of_mem _ hy, hyl, hheader, htable⟩

theorem Values.IsToml.header (h : T.IsToml content) (hx : x ∈ T.document content) :
    (x.2.header = [] ∧ x.1 = []) ∨ ∃ y ∈ T.document content, isHeaderLine y.2.line = true ∧
      y.2.line = x.2.header ∧ y.1 = x.1 :=
  header_of_mem_tables h.reads_lines hx

theorem Values.IsToml.valid (h : T.IsToml content) :
    Valid T.headedEntry (headed [] (lines content)) := h.agree

theorem Values.IsToml.headed_named (h : T.IsToml content) :
    ∀ y ∈ headed [] (lines content), (T.headedEntry y).Named := fun _ hy =>
  h.reads_lines.named _ (headed_line_mem hy)

/-- A table of the root with a header is where its name says. -/
theorem Values.IsToml.table_of_key (h : T.IsToml content) (hx : x ∈ T.document content)
    {k : Key} (hk : T.entry x.2.line = .table [k]) : x.1 = [(k, 0)] :=
  h.valid.table_of_key h.headed_named (List.Subset.refl _) hx hk

/-! ## Keys that are taken out -/

/-- Where a line has its value. -/
def keyPlace (t : Place) (p : List Key) : Place := t ++ p.map fun k => (k, 0)

/-- The lines that count as a table's are in it. -/
theorem Values.IsToml.table_of_tableOf (h : T.IsToml content) (hx : x ∈ T.document content)
    {d : Directives} (hd : d.Sound) {name : String} (hname : Bare name.toList)
    (htables : ∀ t ∈ d.tables, t.2 = '[' :: (name.toList ++ [']']) → t.1 = tableHeaderRe name)
    (hof : d.tableOf x.2.header = '[' :: (name.toList ++ [']'])) : x.1 = [(name.toList, 0)] := by
  have hentry : ∀ l ∈ lines content, d.tableOf l = '[' :: (name.toList ++ [']']) →
      T.entry l = .table [name.toList] := by
    intro l hl hof
    have hread := h.reads_lines l hl
    rw [Directives.tableOf] at hof
    cases hfind : d.tables.find? fun t => matchesWhole t.1 l with
    | none =>
      rw [hfind] at hof
      exact entry_of_trimmed hname hof hread
    | some t =>
      rw [hfind] at hof
      have hmatch := List.find?_some hfind
      rw [htables t (List.mem_of_find?_eq_some hfind) hof] at hmatch
      exact entry_of_tableHeader hname hmatch hread
  rcases h.header hx with ⟨hheader, -⟩ | ⟨y, hy, hyl, hheader, htable⟩
  · -- the root has no name
    rw [hheader, Directives.tableOf] at hof
    cases hfind : d.tables.find? fun t => matchesWhole t.1 [] with
    | none => rw [hfind] at hof; cases hof
    | some t =>
      have hmatch := List.find?_some hfind
      cases hd t (List.mem_of_find?_eq_some hfind) [] hmatch
  · rw [← htable]
    refine h.table_of_key hy (hentry _ (document_line_mem hy) ?_)
    rw [hheader]
    exact hof

/-- Lines that count as the root's are. -/
theorem Values.IsToml.table_of_root (h : T.IsToml content) (hx : x ∈ T.document content)
    {d : Directives} (htables : ∀ t ∈ d.tables, t.2 ≠ [])
    (hof : d.tableOf x.2.header = []) : x.1 = [] := by
  rcases h.header hx with ⟨-, htable⟩ | ⟨y, hy, hyl, hheader, -⟩
  · exact htable
  · rw [← hheader, Directives.tableOf] at hof
    cases hfind : d.tables.find? fun t => matchesWhole t.1 y.2.line with
    | none =>
      rw [hfind] at hof
      rcases isHeaderLine_iff.1 hyl with ⟨s, hs⟩
      rw [Option.map_none, Option.getD_none, hs] at hof
      cases hof
    | some t =>
      rw [hfind] at hof
      exact absurd hof (htables t (List.mem_of_find?_eq_some hfind))

/-- What the multi-agent edit takes out is its key. -/
theorem place_of_multiAgent (h : T.IsToml content) (hx : x ∈ T.document content)
    (htakes : userMultiAgentDirectives.takesLine x.2 = true) :
    ∃ p v, T.entry x.2.line = .pair p v ∧ keyPlace x.1 p = ManagedKey.multiAgent.place := by
  have hread := h.reads_lines _ (document_line_mem hx)
  rw [Directives.takesLine, Bool.and_eq_true] at htakes
  have htakes := htakes.2
  simp only [Directives.takes, userMultiAgentDirectives, List.any_cons, List.any_nil,
    Bool.or_false, Bool.or_eq_true, Bool.and_eq_true, beq_iff_eq] at htakes
  rcases htakes with ⟨htable, hre⟩ | ⟨htable, hre⟩
  · rcases entry_of_dottedKey (by decide) (by decide) hre hread with ⟨v, hv⟩
    have ht : x.1 = [] := h.table_of_root hx (d := userMultiAgentDirectives) (by decide) htable.symm
    exact ⟨_, v, hv, by rw [ht]; rfl⟩
  · rcases entry_of_key (by decide) hre hread with ⟨v, hv⟩
    have ht : x.1 = [("features".toList, 0)] := by
      refine h.table_of_tableOf hx sound_multiAgent (by decide) ?_ htable.symm
      intro t ht _
      rw [List.mem_singleton.1 ht]
      rfl
    exact ⟨_, v, hv, by rw [ht]; rfl⟩

/-- What the memory edit takes out are its keys. -/
theorem place_of_memory (h : T.IsToml content) (hx : x ∈ T.document content)
    (htakes : userMemoryDirectives.takesLine x.2 = true) :
    ∃ p v, T.entry x.2.line = .pair p v ∧ ∃ k : ManagedKey, keyPlace x.1 p = k.place := by
  have hread := h.reads_lines _ (document_line_mem hx)
  have hfeatures : userMemoryDirectives.tableOf x.2.header = featuresTable →
      x.1 = [("features".toList, 0)] := by
    refine h.table_of_tableOf hx sound_memory (by decide : Bare "features".toList) ?_
    rintro t ht hname
    rcases List.mem_cons.1 ht with rfl | ht
    · rfl
    · rw [List.mem_singleton.1 ht] at hname
      cases hname
  have hmemories : userMemoryDirectives.tableOf x.2.header = memoriesTable →
      x.1 = [("memories".toList, 0)] := by
    refine h.table_of_tableOf hx sound_memory (by decide : Bare "memories".toList) ?_
    rintro t ht hname
    rcases List.mem_cons.1 ht with rfl | ht
    · cases hname
    · rw [List.mem_singleton.1 ht]
      rfl
  have hroot : userMemoryDirectives.tableOf x.2.header = [] → x.1 = [] :=
    h.table_of_root hx (by decide)
  rw [Directives.takesLine, Bool.and_eq_true] at htakes
  have htakes := htakes.2
  simp only [Directives.takes, List.any_eq_true, Bool.and_eq_true, beq_iff_eq] at htakes
  rcases htakes with ⟨⟨name, res⟩, hkeys, htable, re, hmem, hre⟩
  simp only [userMemoryDirectives, List.mem_cons, List.not_mem_nil, or_false,
    Prod.mk.injEq] at hkeys
  rcases hkeys with ⟨rfl, rfl⟩ | ⟨rfl, rfl⟩ | ⟨rfl, rfl⟩
  · have ht := hroot htable.symm
    simp only [List.mem_cons, List.not_mem_nil, or_false] at hmem
    rcases hmem with rfl | rfl | rfl
    · rcases entry_of_dottedKey (by decide) (by decide) hre hread with ⟨v, hv⟩
      exact ⟨_, v, hv, .memories, by rw [ht]; rfl⟩
    · rcases entry_of_dottedKey (by decide) (by decide) hre hread with ⟨v, hv⟩
      exact ⟨_, v, hv, .generateMemories, by rw [ht]; rfl⟩
    · rcases entry_of_dottedKey (by decide) (by decide) hre hread with ⟨v, hv⟩
      exact ⟨_, v, hv, .useMemories, by rw [ht]; rfl⟩
  · obtain rfl := List.mem_singleton.1 hmem
    rcases entry_of_key (by decide) hre hread with ⟨v, hv⟩
    exact ⟨_, v, hv, .memories, by rw [hfeatures htable.symm]; rfl⟩
  · have ht := hmemories htable.symm
    simp only [List.mem_cons, List.not_mem_nil, or_false] at hmem
    rcases hmem with rfl | rfl
    · rcases entry_of_key (by decide) hre hread with ⟨v, hv⟩
      exact ⟨_, v, hv, .generateMemories, by rw [ht]; rfl⟩
    · rcases entry_of_key (by decide) hre hread with ⟨v, hv⟩
      exact ⟨_, v, hv, .useMemories, by rw [ht]; rfl⟩

/-- The section that the sandbox edit takes out is the table of its name. -/
theorem table_of_workspaceWrite (h : T.IsToml content) (hx : x ∈ T.document content)
    (hww : inWorkspaceWrite x.2 = true) : x.1 = place ["sandbox_workspace_write"] := by
  rw [inWorkspaceWrite, beq_iff_eq] at hww
  rcases h.header hx with ⟨hheader, -⟩ | ⟨y, hy, -, hheader, htable⟩
  · rw [hheader] at hww
    cases hww
  · rw [← hheader] at hww
    rw [← htable]
    exact h.table_of_key hy (entry_of_workspaceWrite hww (h.reads_lines _ (document_line_mem hy)))

/-- The sections that the skills edit takes out are the entries. -/
theorem skillsEntry_of_inSkillsConfig (h : T.IsToml content) (hx : x ∈ T.document content)
    (hskills : inSkillsConfig x.2 = true) : SkillsEntry x.1 := by
  rw [inSkillsConfig, beq_iff_eq] at hskills
  rcases h.header hx with ⟨hheader, -⟩ | ⟨y, hy, -, hheader, htable⟩
  · rw [hheader] at hskills
    cases hskills
  rw [← hheader] at hskills
  have helement : T.headedEntry y.2 = .element ["skills".toList, "config".toList] :=
    entry_of_skillsConfig hskills (h.reads_lines _ (document_line_mem hy))
  have hpath := path_of_header hy (.inr helement)
  rcases ht : y.1 with _ | ⟨⟨k, m⟩, _ | ⟨⟨k', n⟩, _ | ⟨_, t⟩⟩⟩ <;> rw [ht] at hpath <;>
    simp only [List.map_cons, List.map_nil, List.cons.injEq, reduceCtorEq, and_false,
      and_true] at hpath
  obtain ⟨rfl, rfl⟩ := hpath
  rcases List.append_of_mem hy with ⟨X, Y, hsplit⟩
  -- the header leads into the element that it opens
  have hindex := index_iff h.headed_named hsplit (by rw [helement]; rfl)
    (a := [("skills".toList, m)]) ht
  have hn : n ≠ 0 := hindex.2 ⟨y, by simp, by rw [helement]; rfl, by rw [ht]; rfl⟩
  rcases Nat.exists_eq_succ_of_ne_zero hn with ⟨n, rfl⟩
  exact ⟨m, n, [], htable.symm.trans ht⟩

/-! ## The managed keys -/

theorem entry_of_read {l r : Line} {p : List Key} {v : V}
    (hl : readLine T.read l = (T.read r).map (.pair p)) (hv : T.read r = some v) :
    T.entry l = .pair p v := by
  rw [Values.entry, hl, hv]
  rfl

theorem entry_multiAgent (inFeaturesTable : Bool) : T.entry (multiAgentLine inFeaturesTable) =
    .pair ((if inFeaturesTable then [] else ["features".toList]) ++ ["multi_agent".toList])
      (T.ofBool false) := by
  cases inFeaturesTable <;> exact entry_of_read rfl (T.read_ofBool false)

theorem entry_memoryFeature (inFeaturesTable : Bool) :
    T.entry (memoryFeatureLine inFeaturesTable) =
      .pair ((if inFeaturesTable then [] else ["features".toList]) ++ ["memories".toList])
        (T.ofBool false) := by
  cases inFeaturesTable <;> exact entry_of_read rfl (T.read_ofBool false)

theorem entry_memoryConfig (inMemoriesTable : Bool) :
    (memoryConfigLines inMemoriesTable).map T.entry =
      ["generate_memories", "use_memories"].map fun n =>
        .pair ((if inMemoriesTable then [] else ["memories".toList]) ++ [n.toList])
          (T.ofBool false) := by
  have hentry : ∀ {l r : Line} {p : List Key}, readLine T.read l = (T.read r).map (.pair p) →
      r = ' ' :: (toString false).toList → T.entry l = .pair p (T.ofBool false) := by
    rintro l r p hl rfl
    exact entry_of_read hl (T.read_ofBool false)
  cases inMemoriesTable
  · exact congrArg₂ List.cons (hentry rfl rfl) (congrArg₂ List.cons (hentry rfl rfl) rfl)
  · exact congrArg₂ List.cons (hentry rfl rfl) (congrArg₂ List.cons (hentry rfl rfl) rfl)

theorem entry_mode (mode : SandboxMode) :
    T.entry mode.line = .pair ["sandbox_mode".toList] (T.ofMode mode) := by
  cases mode
  · exact entry_of_read rfl (T.read_ofMode .workspaceWrite)
  · exact entry_of_read rfl (T.read_ofMode .dangerFullAccess)

theorem entry_networkAccess (networkAccess : Bool) : T.entry (networkAccessLine networkAccess) =
    .pair ["sandbox_workspace_write".toList, "network_access".toList] (T.ofBool networkAccess) := by
  cases networkAccess
  · exact entry_of_read rfl (T.read_ofBool false)
  · exact entry_of_read rfl (T.read_ofBool true)

/-- The uses of the keys in a block in a table. -/
theorem usesIn_block {b : Block} {body : List Line} {t : Place} (hb : b ∈ managedBlocks) :
    usesIn T.entry ((b.block body).map fun l => (t, l)) =
      (body.map T.entry).flatMap (usesOf t) := by
  have hblank : ∀ {l}, IsComment l → T.entry l = .blank := fun hl => by
    rw [Values.entry, hl.read]
    rfl
  rw [usesIn, Block.block, List.flatMap_map, List.flatMap_append, List.flatMap_cons,
    List.flatMap_singleton, hblank (isComment_markers hb).1, hblank (isComment_markers hb).2,
    List.flatMap_map]
  exact List.append_nil _

/-- The uses of the keys that the edits put in. -/
def managedUses (T : Values V) (policy : CodexSandboxPolicy) (hasFeatures hasMemories : Bool) :
    List (Place × Use V) :=
  let value (k : ManagedKey) := (k.place, Use.value (T.ofBool false))
  ((if hasFeatures then [] else [(place ["features"], .dotted), value .memories]) ++
    ((if hasMemories then []
        else [(place ["memories"], .dotted), value .generateMemories, (place ["memories"], .dotted),
          value .useMemories]) ++
      ((if hasFeatures then [] else [(place ["features"], .dotted), value .multiAgent]) ++
        ((ManagedKey.sandboxMode.place, .value (T.ofMode policy.mode)) ::
          if policy.mode = .workspaceWrite then
            [(place ["sandbox_workspace_write"], .dotted),
              (ManagedKey.networkAccess.place, .value (T.ofBool policy.networkAccess))]
          else [])))) ++
    ((if hasMemories then [value .generateMemories, value .useMemories] else []) ++
      if hasFeatures then [value .memories, value .multiAgent] else [])

/-- What is put in for a key: its value, and the table on the way to it. -/
theorem of_mem_managedUses {hasFeatures hasMemories : Bool} {u : Place × Use V}
    (hu : u ∈ managedUses T policy hasFeatures hasMemories) :
    (∃ k : ManagedKey, ∃ v, k.value T policy = some v ∧ u = (k.place, .value v)) ∨
      u.2 = .dotted ∧ (u.1 = place ["features"] ∧ hasFeatures = false ∨
        u.1 = place ["memories"] ∧ hasMemories = false ∨
        u.1 = place ["sandbox_workspace_write"] ∧ policy.mode = .workspaceWrite) := by
  have hvalue : ∀ k : ManagedKey, ∀ v, k.value T policy = some v → u = (k.place, .value v) →
      ∃ k : ManagedKey, ∃ v, k.value T policy = some v ∧ u = (k.place, .value v) :=
    fun k v hv hu => ⟨k, v, hv, hu⟩
  simp only [managedUses, List.mem_append, List.mem_cons, List.mem_ite_nil_left,
    List.mem_ite_nil_right, List.not_mem_nil, or_false] at hu
  rcases hu with (⟨hF, rfl | hu⟩ | ⟨hM, rfl | hu | rfl | hu⟩ | ⟨hF, rfl | hu⟩ | hu |
    ⟨hmode, rfl | hu⟩) | ⟨hM, hu | hu⟩ | ⟨hF, hu | hu⟩
  · exact .inr ⟨rfl, .inl ⟨rfl, by simpa using hF⟩⟩
  · exact .inl (hvalue .memories _ rfl hu)
  · exact .inr ⟨rfl, .inr (.inl ⟨rfl, by simpa using hM⟩)⟩
  · exact .inl (hvalue .generateMemories _ rfl hu)
  · exact .inr ⟨rfl, .inr (.inl ⟨rfl, by simpa using hM⟩)⟩
  · exact .inl (hvalue .useMemories _ rfl hu)
  · exact .inr ⟨rfl, .inl ⟨rfl, by simpa using hF⟩⟩
  · exact .inl (hvalue .multiAgent _ rfl hu)
  · exact .inl (hvalue .sandboxMode _ rfl hu)
  · exact .inr ⟨rfl, .inr (.inr ⟨rfl, hmode⟩)⟩
  · exact .inl (hvalue .networkAccess _ (if_pos hmode) hu)
  · exact .inl (hvalue .generateMemories _ rfl hu)
  · exact .inl (hvalue .useMemories _ rfl hu)
  · exact .inl (hvalue .memories _ rfl hu)
  · exact .inl (hvalue .multiAgent _ rfl hu)

theorem value_mem_managedUses (hasFeatures hasMemories : Bool) {k : ManagedKey} {v : V}
    (hv : k.value T policy = some v) :
    (k.place, .value v) ∈ managedUses T policy hasFeatures hasMemories := by
  cases k with
  | multiAgent =>
    obtain rfl := Option.some.inj hv
    cases hasFeatures <;> simp [managedUses]
  | memories =>
    obtain rfl := Option.some.inj hv
    cases hasFeatures <;> simp [managedUses]
  | generateMemories =>
    obtain rfl := Option.some.inj hv
    cases hasMemories <;> simp [managedUses]
  | useMemories =>
    obtain rfl := Option.some.inj hv
    cases hasMemories <;> simp [managedUses]
  | sandboxMode =>
    obtain rfl := Option.some.inj hv
    simp [managedUses]
  | networkAccess =>
    rcases Option.ite_none_right_eq_some.1 hv with ⟨hmode, hv⟩
    obtain rfl := Option.some.inj hv
    simp [managedUses, hmode]

theorem dotted_mem_managedUses {t : Place} (ht : t ∈ rootTables policy content) :
    (t, .dotted) ∈ managedUses T policy ((lines content).any isFeaturesHeader)
      ((lines content).any isMemoriesHeader) := by
  simp only [rootTables, List.mem_append, List.mem_ite_nil_left, List.mem_ite_nil_right,
    List.mem_singleton] at ht
  rcases ht with ⟨hmode, rfl⟩ | ⟨hF, rfl⟩ | ⟨hM, rfl⟩
  · simp [managedUses, hmode]
  · rw [Bool.not_eq_true] at hF
    simp [managedUses, hF]
  · rw [Bool.not_eq_true] at hM
    simp [managedUses, hM]

/-- Values of which nothing is known. -/
def noValues : Values Unit where
  read _ := some ()
  ofBool _ := ()
  ofMode _ := ()
  read_ofBool _ := rfl
  read_ofMode _ := rfl

theorem managedUses_agree (hasFeatures hasMemories : Bool) :
    (managedUses T policy hasFeatures hasMemories).Pairwise Agree := by
  have hkinds : (managedUses T policy hasFeatures hasMemories).map (fun u => (u.1, u.2.kind)) =
      managedUses noValues policy hasFeatures hasMemories := by
    rcases policy with ⟨mode, networkAccess⟩
    cases mode <;> cases hasFeatures <;> cases hasMemories <;> rfl
  have hagree : (managedUses noValues policy hasFeatures hasMemories).Pairwise Agree := by
    rcases policy with ⟨mode, networkAccess⟩
    cases mode <;> cases networkAccess <;> cases hasFeatures <;> cases hasMemories <;>
      decide +kernel
  rw [← hkinds, List.pairwise_map] at hagree
  exact hagree.imp agree_kind.1

theorem place_injective {k k' : ManagedKey} (h : k.place = k'.place) : k = k' := by
  cases k <;> cases k' <;> first | rfl | exact absurd h (by decide)

end File

end Orynx.CodexConfig
