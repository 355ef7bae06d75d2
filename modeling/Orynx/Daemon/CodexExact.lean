import Orynx.Daemon.CodexManaged

/-! # What the edits change

The edits of a Codex configuration change the managed keys and nothing else just if the user's file
is clean.

* `Clean.edited`: from a clean file the edits make the file that they should;
* `skills_of_edited`, `lost`: what has to hold of the file for that, since a line that is taken out
  has its key nowhere else;
* `edits_exact_iff`: both together.
-/

namespace Orynx.CodexConfig

open Lib.Toml
open LocalSkills (trimSpace)

section

variable {V : Type} {T : Values V} {content : Text} {policy : CodexSandboxPolicy}
  {x : Place × Headed} {a t : Place} {p : List Key} {v : V}

/-! ## Values and their places -/

theorem value_of_mem (hu : (a, .value v) ∈ T.usesOfLine x) :
    ∃ p, T.entry x.2.line = .pair p v ∧ a = keyPlace x.1 p := by
  rw [Values.usesOfLine] at hu
  cases he : T.entry x.2.line with
  | blank => rw [he] at hu; cases hu
  | table q =>
    rw [he] at hu
    rcases mem_uses.1 hu with ⟨_, _, b, -, heq⟩
    have hvalue := (Prod.mk.inj heq).2
    split at hvalue <;> cases hvalue
  | element q =>
    rw [he] at hu
    rcases mem_uses.1 hu with ⟨_, _, b, -, heq⟩
    have hvalue := (Prod.mk.inj heq).2
    split at hvalue <;> cases hvalue
  | pair q w =>
    rw [he] at hu
    rcases mem_uses.1 hu with ⟨c, k, b, hpath, heq⟩
    obtain ⟨ha, hvalue⟩ := Prod.mk.inj heq
    by_cases hb : b = []
    · rw [if_pos hb] at hvalue
      obtain rfl := Use.value.inj hvalue
      refine ⟨q, rfl, ?_⟩
      -- the last key of the path has the value
      have hk : k ∈ q.map fun k => (k, 0) := by rw [hpath]; simp
      rcases List.mem_map.1 hk with ⟨k', -, rfl⟩
      rw [ha, keyPlace, hpath, hb, List.append_assoc]
    · rw [if_neg hb] at hvalue
      cases hvalue

theorem mem_of_value (hp : p ≠ []) (he : T.entry x.2.line = .pair p v) :
    (keyPlace x.1 p, .value v) ∈ T.usesOfLine x := by
  rw [Values.usesOfLine, he]
  rcases List.eq_nil_or_concat p with rfl | ⟨q, k, rfl⟩
  · exact absurd rfl hp
  · refine mem_uses.2 ⟨q.map fun k => (k, 0), (k, 0), [], by simp, ?_⟩
    simp [keyPlace]

theorem SkillsEntry.append (ht : SkillsEntry t) (b : Place) : SkillsEntry (t ++ b) := by
  rcases ht with ⟨m, n, r, rfl⟩
  exact ⟨m, n, r ++ b, rfl⟩

/-- A key in a table of an entry, and of no other one. -/
theorem skillsEntry_of_keyPlace (ht : SkillsEntry (keyPlace t p)) : SkillsEntry t := by
  rcases ht with ⟨m, n, r, heq⟩
  rw [keyPlace] at heq
  rcases t with _ | ⟨k, _ | ⟨k', t⟩⟩
  · rcases p with _ | ⟨q, _ | ⟨q', p⟩⟩ <;> simp at heq
  · rcases p with _ | ⟨q, p⟩ <;> simp at heq
  · simp only [List.cons_append, List.cons.injEq] at heq
    exact ⟨m, n, t, by rw [heq.1, heq.2.1]⟩

theorem keyPlace_map (t : Place) (p : List Key) :
    (keyPlace t p).map Prod.fst = t.map Prod.fst ++ p := by
  simp [keyPlace, Function.comp_def]

theorem sandboxMode_of_name (κ : ManagedKey) :
    ∀ k ∈ κ.place.map Prod.fst, sandboxModeKey.isPrefixOf k = true → κ = .sandboxMode := by
  cases κ <;> decide

/-- One managed key starts with the name that is looked for. -/
theorem eq_sandboxMode {k : Key} {q : List Key} {κ : ManagedKey} (hk : sandboxModeKey <+: k)
    (heq : keyPlace t (k :: q) = κ.place) : t = [] ∧ k :: q = ["sandbox_mode".toList] := by
  have hnames := congrArg (List.map Prod.fst) heq
  rw [keyPlace_map] at hnames
  have hmem : k ∈ κ.place.map Prod.fst := by
    rw [← hnames]
    simp
  obtain rfl := sandboxMode_of_name κ k hmem (List.isPrefixOf_iff_prefix.2 hk)
  rcases t with _ | ⟨x, t⟩
  · exact ⟨rfl, hnames⟩
  · cases t <;> simp [ManagedKey.place, place] at hnames

theorem eq_networkAccess {κ : ManagedKey}
    (heq : keyPlace (place ["sandbox_workspace_write"]) p = κ.place) :
    p = ["network_access".toList] := by
  have hnames := congrArg (List.map Prod.fst) heq
  rw [keyPlace_map] at hnames
  cases κ <;> simp [ManagedKey.place, place] at hnames
  exact hnames

variable (h : T.IsToml content)

include h

theorem ne_nil_of_pair (hx : x ∈ T.document content) (he : T.entry x.2.line = .pair p v) :
    p ≠ [] := by
  have hread := h.reads_lines _ (document_line_mem hx)
  rw [he] at hread
  exact path_ne_nil_of_readLine hread

/-- A name has no two values. -/
theorem eq_of_value {y : Place × Headed} (hx : x ∈ T.document content)
    (hy : y ∈ T.document content) {w : V} (hv : (a, .value v) ∈ T.usesOfLine x)
    (hw : (a, .value w) ∈ T.usesOfLine y) : x = y := by
  rcases List.append_of_mem hy with ⟨X, Y, hsplit⟩
  have hagree := fun z => h.valid.agree hsplit (z := z) (u := (a, .value v)) (v := (a, .value w))
  have hmem := hx
  rw [hsplit, List.mem_append, List.mem_cons] at hmem
  rcases hmem with hX | heq | hY
  · cases (hagree x).1 hX hv hw rfl
  · exact heq
  · cases (hagree x).2 hY hv hw rfl

section

variable (hskills : ∀ x ∈ T.document content, (T.entry x.2.line).isHeader = true →
  SkillsEntry x.1 → trimSpace x.2.line = skillsConfigHeader)

include hskills

theorem inSkillsConfig_of_skillsEntry (hx : x ∈ T.document content) (ht : SkillsEntry x.1) :
    inSkillsConfig x.2 = true := by
  rcases h.header hx with ⟨-, hroot⟩ | ⟨y, hy, hyl, hheader, htable⟩
  · rw [hroot] at ht
    rcases ht with ⟨m, n, r, heq⟩
    cases heq
  · rw [inSkillsConfig, ← hheader, beq_iff_eq]
    exact hskills y hy ((isHeader_iff_document h hy).2 hyl) (htable ▸ ht)

/-- The uses of the edited file. -/
theorem mem_usesOfFile_edited (hunmarked : Unmarked content) {u : Place × Use V} :
    u ∈ T.usesOfFile (editedConfig policy content) ↔
      u ∈ managedUses T policy ((lines content).any isFeaturesHeader)
        ((lines content).any isMemoriesHeader) ∨
      ∃ x ∈ T.document content, taken x.2 = false ∧ u ∈ T.usesOfLine x := by
  rw [(adds_editedConfig h hunmarked policy).mem, mem_usesOfLines_kept h hskills]

end

/-! ## Clean files -/

/-- What is taken out of a clean file is managed, or of an entry of the skills. -/
theorem Clean.taken (hclean : Clean T policy content) (hx : x ∈ T.document content)
    (htaken : taken x.2 = true) (he : T.entry x.2.line = .pair p v) :
    (∃ k : ManagedKey, keyPlace x.1 p = k.place) ∨ SkillsEntry (keyPlace x.1 p) := by
  simp only [CodexConfig.taken, isLegacy, Bool.or_eq_true] at htaken
  by_cases hin : inSkillsConfig x.2 = true
  · exact .inr ((skillsEntry_of_inSkillsConfig h hx hin).append _)
  left
  by_cases hww : inWorkspaceWrite x.2 = true
  · refine ⟨.networkAccess, ?_⟩
    rw [hclean.workspaceWrite x hx hww p v he, table_of_workspaceWrite h hx hww]
    rfl
  rcases htaken with ((hin' | hww' | hmode) | hmulti) | hmemory
  · exact absurd hin' hin
  · exact absurd hww' hww
  · rcases hclean.sandboxMode x hx hmode (Bool.eq_false_iff.2 hin) (Bool.eq_false_iff.2 hww)
      with ⟨hroot, w, hw⟩
    rw [hw] at he
    obtain ⟨rfl, rfl⟩ := Entry.pair.inj he
    exact ⟨.sandboxMode, by rw [hroot]; rfl⟩
  · rcases place_of_multiAgent h hx hmulti with ⟨q, w, hw, hplace⟩
    rw [hw] at he
    obtain ⟨rfl, rfl⟩ := Entry.pair.inj he
    exact ⟨.multiAgent, hplace⟩
  · rcases place_of_memory h hx hmemory with ⟨q, w, hw, k, hplace⟩
    rw [hw] at he
    obtain ⟨rfl, rfl⟩ := Entry.pair.inj he
    exact ⟨k, hplace⟩

theorem Clean.agree (hclean : Clean T policy content) (hunmarked : Unmarked content) :
    (T.usesOfFile (editedConfig policy content)).Pairwise Agree := by
  rw [(adds_editedConfig h hunmarked policy).pairwise]
  refine ⟨managedUses_agree _ _, agree_kept h hclean.skills, fun z hz u hu => ?_⟩
  rcases (mem_usesOfLines_kept h hclean.skills).1 hu with ⟨x, hx, hkept, hu⟩
  intro heq
  rcases of_mem_managedUses hz with ⟨k, v, hv, rfl⟩ | ⟨hdotted, htable⟩
  · exact absurd heq.symm (hclean.keys x hx hkept u hu k (by rw [hv]; rfl))
  · -- only headers and keys lead through the tables that are put in at the root
    have hroot : u.1 ∈ rootTables policy content := by
      rw [← heq, rootTables, List.mem_append, List.mem_append]
      rcases htable with ⟨hz, hF⟩ | ⟨hz, hM⟩ | ⟨hz, hmode⟩
      · exact .inr (.inl (by simp [hz, hF]))
      · exact .inr (.inr (by simp [hz, hM]))
      · exact .inl (by simp [hz, hmode])
    rw [hdotted]
    rcases hclean.tables x hx hkept u hu hroot with habove | hdotted'
    · rw [habove]; rfl
    · rw [hdotted']; rfl

theorem Clean.edited (hclean : Clean T policy content) (hunmarked : Unmarked content) :
    Edited T policy content (editedConfig policy content) := by
  have hskills := hclean.skills
  refine ⟨⟨reads_editedConfig h hunmarked, hclean.agree h hunmarked⟩, ?_, ?_, ?_⟩
  · intro k v hv w
    rw [Values.HasValue, mem_usesOfFile_edited h hskills hunmarked]
    constructor
    · rintro (hmanaged | ⟨x, hx, hkept, hu⟩)
      · rcases of_mem_managedUses hmanaged with ⟨k', v', hv', heq⟩ | ⟨hdotted, -⟩
        · obtain ⟨hplace, hvalue⟩ := Prod.mk.inj heq
          obtain rfl := place_injective hplace
          rw [hv] at hv'
          obtain rfl := Option.some.inj hv'
          exact Use.value.inj hvalue
        · cases hdotted
      · exact absurd rfl (hclean.keys x hx hkept _ hu k (by rw [hv]; rfl))
    · rintro rfl
      exact .inl (value_mem_managedUses _ _ hv)
  · intro a ha v
    rw [Values.HasValue, mem_usesOfFile_edited h hskills hunmarked]
    constructor
    · rintro (hmanaged | ⟨x, hx, hkept, hu⟩)
      · rcases of_mem_managedUses hmanaged with ⟨k, v', -, heq⟩ | ⟨hdotted, -⟩
        · exact absurd (Prod.mk.inj heq).1 (ha k)
        · cases hdotted
      · refine ⟨List.mem_flatMap.2 ⟨x, hx, hu⟩, fun hentry => ?_⟩
        rcases value_of_mem hu with ⟨p, -, rfl⟩
        have hin := inSkillsConfig_of_skillsEntry h hskills hx (skillsEntry_of_keyPlace hentry)
        simp [CodexConfig.taken, hin] at hkept
    · rintro ⟨hcontent, hentry⟩
      rcases List.mem_flatMap.1 hcontent with ⟨x, hx, hu⟩
      cases htaken : CodexConfig.taken x.2 with
      | false => exact .inr ⟨x, hx, htaken, hu⟩
      | true =>
        rcases value_of_mem hu with ⟨p, he, rfl⟩
        rcases hclean.taken h hx htaken he with ⟨k, hk⟩ | hin
        · exact absurd hk (ha k)
        · exact absurd hin hentry
  · intro t ht
    rcases (hasTable_kept h hskills hunmarked).1 ht with ⟨x, hx, hkept, hhead, rfl⟩
    refine ⟨⟨x, hx, hhead, rfl⟩, fun hentry => ?_⟩
    have hin := inSkillsConfig_of_skillsEntry h hskills hx hentry
    simp [CodexConfig.taken, hin] at hkept

/-! ## Edited files -/

/-- No header of an entry of the skills is left. -/
theorem skills_of_edited (hunmarked : Unmarked content)
    (hedited : Edited T policy content (editedConfig policy content)) :
    ∀ x ∈ T.document content, (T.entry x.2.line).isHeader = true → SkillsEntry x.1 →
      trimSpace x.2.line = skillsConfigHeader := by
  intro x hx hhead hentry
  by_contra htrim
  rcases hentry with ⟨m, n, r, ht⟩
  have hkeep : (!taken x.2) = true := by
    rw [Bool.not_eq_true', Bool.eq_false_iff, Ne, taken_of_header h hx hhead]
    rintro (hskills | hww)
    · exact htrim hskills
    · have hentry : T.headedEntry x.2 = .table ["sandbox_workspace_write".toList] :=
        entry_of_workspaceWrite hww (h.reads_lines _ (document_line_mem hx))
      have hpath := path_of_header hx (.inl hentry)
      rw [ht] at hpath
      simp at hpath
  -- the arrays of the root stay whole
  have hwhole : ∀ y ∈ headed [] (lines content), T.headedEntry y = .element ["skills".toList] →
      (!taken y) = true := by
    intro y hy helement
    have hmem : ∃ z ∈ tables T.headedEntry root (headed [] (lines content)), z.2 = y :=
      exists_mem_tables hy
    rcases hmem with ⟨z, hz, rfl⟩
    have hzhead : (T.entry z.2.line).isHeader = true := congrArg Entry.isHeader helement
    have hread := h.reads_lines _ (document_line_mem hz)
    rw [Bool.not_eq_true', Bool.eq_false_iff, Ne, taken_of_header h hz hzhead]
    rintro (hskills | hww)
    · have hentry : T.headedEntry z.2 = _ := entry_of_skillsConfig hskills hread
      rw [helement] at hentry
      cases hentry
    · have hentry : T.headedEntry z.2 = _ := entry_of_workspaceWrite hww hread
      rw [helement] at hentry
      cases hentry
  rcases exists_first_filter h.headed_named hwhole hx hkeep hhead ht with ⟨y, hy, hyx, r', hyt⟩
  have hyhead : (T.entry y.2.line).isHeader = true := by rw [hyx]; exact hhead
  -- so the header that stays is in the same element of them
  have htable : T.HasTable (editedConfig policy content) y.1 := by
    rw [hasTable_editedConfig hunmarked, keptLines, sieve, headers_line]
    exact ⟨y, hy, hyhead, rfl⟩
  rcases hedited.tables y.1 htable with ⟨⟨z, hz, hzhead, hzt⟩, hno⟩
  have hpath : y.1.map Prod.fst = x.1.map Prod.fst := by
    cases he : T.headedEntry x.2 with
    | blank => rw [Values.headedEntry] at he; rw [he] at hhead; cases hhead
    | pair q w => rw [Values.headedEntry] at he; rw [he] at hhead; cases hhead
    | table q => rw [path_of_header hy (.inl (hyx ▸ he)), path_of_header hx (.inl he)]
    | element q => rw [path_of_header hy (.inr (hyx ▸ he)), path_of_header hx (.inr he)]
  rw [hyt, ht, List.map_cons, List.map_cons, List.map_cons] at hpath
  rcases r' with _ | ⟨⟨k, n'⟩, r'⟩
  · cases (List.cons.inj hpath).2
  obtain rfl : k = "config".toList := (List.cons.inj (List.cons.inj hpath).2).1
  cases n' with
  | succ n' => exact hno ⟨m, n', r', hyt⟩
  | zero =>
    -- the user's file has a plain table where it has the array
    rcases List.append_of_mem hx with ⟨X, Y, hsplit⟩
    rcases (index_iff h.headed_named hsplit hhead (a := ["skills".toList].map fun k => (k, m))
      ht).1 (Nat.succ_ne_zero n) with ⟨w, hw, helement, hwarray⟩
    have hwmem : w ∈ T.document content := by
      rw [hsplit]
      refine List.mem_append.2 ((List.mem_append.1 hw).imp_right fun hw => ?_)
      rw [List.mem_singleton.1 hw]
      exact List.mem_cons_self
    exact (h.valid.through_array h.headed_named hwmem helement hz hzhead hwarray
      (hzt.trans hyt)).1 rfl

/-- A key that is taken out is nowhere else. -/
theorem lost (hunmarked : Unmarked content)
    (hedited : Edited T policy content (editedConfig policy content)) (hx : x ∈ T.document content)
    (htaken : taken x.2 = true) (he : T.entry x.2.line = .pair p v) :
    (∃ k : ManagedKey, keyPlace x.1 p = k.place) ∨ SkillsEntry (keyPlace x.1 p) := by
  by_contra hno
  rw [not_or, not_exists] at hno
  have hskills := skills_of_edited h hunmarked hedited
  have hu := mem_of_value (ne_nil_of_pair h hx he) he
  have hkept := (hedited.others _ hno.1 v).2 ⟨List.mem_flatMap.2 ⟨x, hx, hu⟩, hno.2⟩
  rw [Values.HasValue, mem_usesOfFile_edited h hskills hunmarked] at hkept
  rcases hkept with hmanaged | ⟨y, hy, hykept, hyu⟩
  · rcases of_mem_managedUses hmanaged with ⟨k, w, -, heq⟩ | ⟨hdotted, -⟩
    · exact hno.1 k (Prod.mk.inj heq).1
    · cases hdotted
  · obtain rfl := eq_of_value h hx hy hu hyu
    rw [htaken] at hykept
    cases hykept

theorem Edited.clean (hunmarked : Unmarked content)
    (hedited : Edited T policy content (editedConfig policy content)) :
    Clean T policy content := by
  have hskills := skills_of_edited h hunmarked hedited
  have hagree := hedited.toml.agree
  rw [(adds_editedConfig h hunmarked policy).pairwise] at hagree
  have hcross : ∀ z ∈ managedUses T policy ((lines content).any isFeaturesHeader)
      ((lines content).any isMemoriesHeader), ∀ x ∈ T.document content, taken x.2 = false →
      ∀ u ∈ T.usesOfLine x, Agree z u := fun z hz x hx hkept u hu =>
    hagree.2.2 z hz u ((mem_usesOfLines_kept h hskills).2 ⟨x, hx, hkept, hu⟩)
  refine ⟨?_, ?_, ?_, ?_, hskills⟩
  · intro x hx hmode hin hww
    rcases entry_of_sandboxMode (List.isPrefixOf_iff_prefix.1 hmode)
      (h.reads_lines _ (document_line_mem hx)) with ⟨k, q, v, he, hk⟩
    rcases lost h hunmarked hedited hx (by simp [taken, isLegacy, hmode]) he with ⟨κ, hκ⟩ | hentry
    · rcases eq_sandboxMode hk hκ with ⟨hroot, hpath⟩
      exact ⟨hroot, v, by rw [he, hpath]⟩
    · rw [inSkillsConfig_of_skillsEntry h hskills hx (skillsEntry_of_keyPlace hentry)] at hin
      cases hin
  · intro x hx hww p v he
    have htable := table_of_workspaceWrite h hx hww
    rcases lost h hunmarked hedited hx (by simp [taken, isLegacy, hww]) he with ⟨κ, hκ⟩ | hentry
    · rw [htable] at hκ
      exact eq_networkAccess hκ
    · rw [htable] at hentry
      rcases skillsEntry_of_keyPlace hentry with ⟨m, n, r, heq⟩
      cases heq
  · intro x hx hkept u hu k hk hplace
    rcases Option.isSome_iff_exists.1 hk with ⟨v, hv⟩
    have hno := hcross _ (value_mem_managedUses _ _ hv) x hx hkept u hu hplace.symm
    rcases u with ⟨b, use⟩
    cases use <;> cases hno
  · intro x hx hkept u hu hroot
    have hyes := hcross _ (dotted_mem_managedUses hroot) x hx hkept u hu rfl
    rcases u with ⟨b, use⟩
    cases use with
    | above => exact .inl rfl
    | dotted => exact .inr rfl
    | value v => cases hyes
    | table => cases hyes
    | array => cases hyes

end

/-- The edits of the user's own file change the managed keys and nothing else just if the file is
clean. -/
theorem edits_exact_iff {V : Type} (T : Values V) (policy : CodexSandboxPolicy) (content : Text)
    (h : T.IsToml content) (hunmarked : Unmarked content) :
    Edited T policy content (editedConfig policy content) ↔ Clean T policy content :=
  ⟨fun hedited => hedited.clean h hunmarked, fun hclean => hclean.edited h hunmarked⟩

/-! ## A profile -/

inductive Scalar where
  | bool (b : Bool)
  | string (s : List Char)
deriving DecidableEq

/-- Booleans, and strings that have no escapes. -/
def readScalar (s : List Char) : Option Scalar :=
  let s := (s.dropWhile (· == ' ')).rdropWhile (· == ' ')
  if s = "true".toList then some (.bool true)
  else if s = "false".toList then some (.bool false)
  else if s.head? = some '"' ∧ s.tail.getLast? = some '"' ∧ '"' ∉ s.tail.dropLast ∧ '\\' ∉ s then
    some (.string s.tail.dropLast)
  else none

def scalars : Values Scalar where
  read := readScalar
  ofBool := .bool
  ofMode m := .string m.text
  read_ofBool b := by cases b <;> decide
  read_ofMode m := by cases m <;> decide

instance (content : Text) : Decidable (scalars.IsToml content) :=
  decidable_of_iff ((∀ l ∈ lines content, (readLine scalars.read l).isSome = true) ∧
    (scalars.usesOfFile content).Pairwise Agree) ⟨fun h => ⟨h.1, h.2⟩, fun h => ⟨h.1, h.2⟩⟩

def networkPolicy : CodexSandboxPolicy := ⟨.workspaceWrite, true⟩

def profileConfig : Text := "[profiles.review]\nsandbox_mode = \"read-only\"\n".toList

theorem edits_exact_iff_profile :
    Edited scalars networkPolicy profileConfig (editedConfig networkPolicy profileConfig) ↔
      Clean scalars networkPolicy profileConfig :=
  edits_exact_iff scalars networkPolicy profileConfig (by decide +kernel)
    (unmarked_of_notMem (by decide +kernel))

/-- The sandbox mode of a profile is lost. -/
theorem not_edited_profile : scalars.IsToml profileConfig ∧ Unmarked profileConfig ∧
    ¬Edited scalars networkPolicy profileConfig (editedConfig networkPolicy profileConfig) := by
  have htoml : scalars.IsToml profileConfig := by decide +kernel
  have hunmarked : Unmarked profileConfig := unmarked_of_notMem (by decide +kernel)
  refine ⟨htoml, hunmarked, fun hedited => ?_⟩
  have hmode : ∃ x ∈ scalars.document profileConfig, isSandboxMode x.2 = true ∧
      inSkillsConfig x.2 = false ∧ inWorkspaceWrite x.2 = false ∧ x.1 ≠ [] := by
    decide +kernel
  rcases hmode with ⟨x, hx, hmode, hskills, hww, hne⟩
  exact hne ((hedited.clean htoml hunmarked).sandboxMode x hx hmode hskills hww).1

end Orynx.CodexConfig
