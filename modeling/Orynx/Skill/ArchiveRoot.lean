import Orynx.Skill.Archive

/-! # Where a skill archive is rooted

An archive with one `SKILL.md` above all others should be imported from there, whatever else it has
and in whatever order.

* `foldlM_addFile`: which limit is hit, if one is, or else what is imported;
* `importEntry_eq`: an entry is imported just if it is below the directory of the root and passes
  the filters;
* `rooted_iff`: the root is found just if it has the shortest directory, counted in bytes.
-/

namespace Orynx.SkillArchive

open Lib Lib.SlashPath
open LocalSkills (isSkillMd toLower trimSpace)

/-! ## Directories -/

def names (f : ZipFile) : List Name := split (clean f.name)

def dirNames (f : ZipFile) : List Name := (names f).dropLast

/-- The number of directories that the entry is in. -/
def depth (f : ZipFile) : Nat := (dirNames f).length

/-- The entry lies in the directory of `e`. -/
def below (e f : ZipFile) : Bool :=
  (dirNames e).isPrefixOf (names f) && decide ((dirNames e).length < (names f).length)

/-- What becomes of an entry where the archive is rooted at `e`. -/
def supporting (e f : ZipFile) : Option ImportedFile :=
  let rel := join ((names f).drop (dirNames e).length)
  if f.isDir = false ∧ below e f ∧ isSkillMd (baseName rel) = false ∧
      isIgnoredArchiveEntry rel = false ∧ validateFilePath rel ∧
      f.content.length ≤ maxImportFileSize ∧ isLikelyBinaryFilePath rel = false then
    some ⟨rel, f.content⟩
  else none

def bundleBytes (files : List ImportedFile) : Nat := (files.map fun f => f.content.length).sum

/-! ## Archives -/

/-- No two files of the archive have one cleaned name. -/
def Distinct (archive : List ZipFile) : Prop :=
  ((archive.filter fun f => !f.isDir).map fun f => clean f.name).Nodup

/-- The `SKILL.md` that all others are deeper than. -/
structure Shallowest (archive : List ZipFile) (e : ZipFile) : Prop where
  mem : e ∈ archive
  candidate : isCandidate e = true
  depth_lt : ∀ f ∈ archive, isCandidate f = true → f ≠ e → depth e < depth f

section

variable (parseSkillFrontmatter : Bytes → Text × Text) (filename : Text)

/-- The root can be read and has a name. -/
def Importable (e : ZipFile) : Prop :=
  e.content.length ≤ maxImportFileSize ∧ skillName parseSkillFrontmatter filename e ≠ []

/-- The archive is rooted at this entry. -/
structure Rooted (archive : List ZipFile) (e : ZipFile) : Prop where
  primary : ∀ archive', archive'.Perm archive → findRoot archive' = some e
  order : ∀ archive', archive'.Perm archive →
    parseSkillArchive parseSkillFrontmatter archive' filename =
      parseSkillArchive parseSkillFrontmatter archive filename
  accepted : (∃ s, parseSkillArchive parseSkillFrontmatter archive filename = .ok s) ↔
    Importable parseSkillFrontmatter filename e ∧
      (archive.filterMap (supporting e)).length ≤ maxImportFileCount ∧
      bundleBytes (archive.filterMap (supporting e)) ≤ maxImportTotalSize
  imports : ∀ s, parseSkillArchive parseSkillFrontmatter archive filename = .ok s →
    s.content = e.content ∧ (s.files.map ImportedFile.path).Nodup ∧
      ∀ x, x ∈ s.files ↔ ∃ f ∈ archive, supporting e f = some x
  outside : parseSkillArchive parseSkillFrontmatter (archive.filter (below e)) filename =
    parseSkillArchive parseSkillFrontmatter archive filename

end

/-- The directory of the root has the shortest path, in bytes. -/
def ShortestPrefix (archive : List ZipFile) (e : ZipFile) : Prop :=
  ∀ f ∈ archive, isCandidate f = true → f ≠ e → len (entryPrefix e) < len (entryPrefix f)

/-- If so many of the files as may be imported fit into the limit, then any so many do. -/
def OneLimit (files : List ImportedFile) : Prop :=
  ∀ xs ys : List ImportedFile, xs.Sublist files → ys.Sublist files →
    xs.length = maxImportFileCount → ys.length = maxImportFileCount →
    bundleBytes xs ≤ maxImportTotalSize → bundleBytes ys ≤ maxImportTotalSize

/-! ## The limits -/

theorem bundleBytes_cons (x : ImportedFile) (xs : List ImportedFile) :
    bundleBytes (x :: xs) = x.content.length + bundleBytes xs := List.sum_cons

theorem bundleBytes_perm {xs ys : List ImportedFile} (h : xs.Perm ys) :
    bundleBytes xs = bundleBytes ys := (h.map _).sum_nat

/-- What the files come to, one after the other. -/
def bundled (s : ImportedSkill) (files : List ImportedFile) : Except ImportError ImportedSkill :=
  if maxImportTotalSize < s.bundleSize + bundleBytes (files.take (maxImportFileCount -
      s.files.length)) then .error .byteLimit
  else if maxImportFileCount < s.files.length + files.length then .error .fileLimit
  else
    .ok { s with
      bundleSize := s.bundleSize + bundleBytes files, files := s.files ++ files }

theorem foldlM_addFile {s : ImportedSkill} {files : List ImportedFile}
    (hcount : s.files.length ≤ maxImportFileCount) (hsize : s.bundleSize ≤ maxImportTotalSize)
    (htext : ∀ x ∈ files, isLikelyBinaryFilePath x.path = false) :
    files.foldlM (fun s x => s.addFile x.path x.content) s = bundled s files := by
  induction files generalizing s with
  | nil =>
    have hno : ¬maxImportTotalSize < s.bundleSize := by omega
    have hno' : ¬maxImportFileCount < s.files.length := by omega
    simp [bundled, bundleBytes, hno, hno', pure, Except.pure]
  | cons x files ih =>
    have hx := htext x List.mem_cons_self
    rw [List.foldlM_cons, ImportedSkill.addFile, if_neg (by simp [hx])]
    by_cases hfull : maxImportFileCount ≤ s.files.length
    · -- no room for another file
      have hnone : maxImportFileCount - s.files.length = 0 := by omega
      rw [if_pos hfull, bundled, hnone, List.take_zero, if_neg (by simp [bundleBytes]; omega),
        if_pos (by simp; omega)]
      rfl
    rw [if_neg hfull]
    have hroom : maxImportFileCount - s.files.length =
        (maxImportFileCount - (s.files.length + 1)) + 1 := by omega
    by_cases hlarge : maxImportTotalSize < s.bundleSize + x.content.length
    · rw [if_pos hlarge, bundled, hroom, List.take_succ_cons, bundleBytes_cons, if_pos (by omega)]
      rfl
    · rw [if_neg hlarge]
      show files.foldlM _ _ = _
      rw [ih (by simp; omega) (by simpa using hlarge)
        fun y hy => htext y (List.mem_cons_of_mem x hy), bundled, bundled, hroom,
        List.take_succ_cons, bundleBytes_cons, bundleBytes_cons]
      simp [Nat.add_assoc, Nat.add_comm, Nat.add_left_comm]

/-! ## The search for the root -/

variable {archive : List ZipFile} {e f : ZipFile}

theorem pickRoot_other {best : Option ZipFile} (hf : ¬isCandidate f = true) :
    pickRoot best f = best := if_neg hf

theorem pickRoot_none (hf : isCandidate f = true) : pickRoot none f = some f := if_pos hf

theorem pickRoot_some {best : ZipFile} (hf : isCandidate f = true) :
    pickRoot (some best) f =
      some (if len (entryPrefix f) < len (entryPrefix best) then f else best) := by
  refine (if_pos hf).trans ?_
  dsimp only
  split <;> rfl

/-- The search ends with `e` if nothing is in its way. -/
theorem foldl_pickRoot {best : Option ZipFile} (hcand : isCandidate e = true)
    (hbest : ∀ b, best = some b → b = e ∨ len (entryPrefix e) < len (entryPrefix b))
    (hmem : best = some e ∨ e ∈ archive) (hshort : ShortestPrefix archive e) :
    archive.foldl pickRoot best = some e := by
  induction archive generalizing best with
  | nil => exact hmem.resolve_right List.not_mem_nil
  | cons f archive ih =>
    have hshort' : ShortestPrefix archive e := fun g hg => hshort g (List.mem_cons_of_mem f hg)
    rw [List.foldl_cons]
    by_cases hfe : f = e
    · -- from here on it is `e`
      have hpick : pickRoot best f = some e := by
        cases best with
        | none => rw [pickRoot_none (by rw [hfe]; exact hcand), hfe]
        | some best =>
          rw [pickRoot_some (by rw [hfe]; exact hcand), hfe]
          rcases hbest best rfl with rfl | hlt
          · rw [ite_self]
          · rw [if_pos hlt]
      rw [hpick]
      refine ih ?_ (.inl rfl) hshort'
      rintro b ⟨rfl⟩
      exact .inl rfl
    have hmem' : best = some e ∨ e ∈ archive :=
      hmem.imp_right fun h => (List.mem_cons.1 h).resolve_left (Ne.symm hfe)
    by_cases hf : isCandidate f = true
    · have hlt := hshort f List.mem_cons_self hf hfe
      cases best with
      | none =>
        rw [pickRoot_none hf]
        refine ih ?_ (.inr (hmem'.resolve_left fun h => by cases h)) hshort'
        rintro b ⟨rfl⟩
        exact .inr hlt
      | some best =>
        rw [pickRoot_some hf]
        by_cases hshorter : len (entryPrefix f) < len (entryPrefix best)
        · rw [if_pos hshorter]
          refine ih ?_ (.inr (hmem'.resolve_left ?_)) hshort'
          · rintro b ⟨rfl⟩
            exact .inr hlt
          · rintro ⟨rfl⟩
            exact absurd hlt (Nat.not_lt.2 hshorter.le)
        · rw [if_neg hshorter]
          exact ih hbest hmem' hshort'
    · rw [pickRoot_other hf]
      exact ih hbest hmem' hshort'

theorem findRoot_eq (hmem : e ∈ archive) (hcand : isCandidate e = true)
    (hshort : ShortestPrefix archive e) : findRoot archive = some e :=
  foldl_pickRoot hcand (fun _ h => by cases h) (.inr hmem) hshort

/-- The search does not come back to `e` once it has something that is not longer. -/
theorem foldl_pickRoot_ne {b : ZipFile} (hb : b ≠ e)
    (hle : len (entryPrefix b) ≤ len (entryPrefix e)) :
    archive.foldl pickRoot (some b) ≠ some e := by
  induction archive generalizing b with
  | nil =>
    rintro ⟨rfl⟩
    exact hb rfl
  | cons f archive ih =>
    rw [List.foldl_cons]
    by_cases hf : isCandidate f = true
    · rw [pickRoot_some hf]
      by_cases hshorter : len (entryPrefix f) < len (entryPrefix b)
      · rw [if_pos hshorter]
        refine ih ?_ (hshorter.le.trans hle)
        rintro rfl
        exact absurd hshorter (Nat.not_lt.2 hle)
      · rw [if_neg hshorter]
        exact ih hb hle
    · rw [pickRoot_other hf]
      exact ih hb hle

theorem shortestPrefix_of_primary (h : ∀ archive', archive'.Perm archive →
    findRoot archive' = some e) : ShortestPrefix archive e := by
  intro f hf hcand hne
  by_contra hlt
  -- the order with this one first
  have hfirst := h _ (List.perm_cons_erase hf).symm
  rw [findRoot, List.foldl_cons, pickRoot_none hcand] at hfirst
  exact foldl_pickRoot_ne hne (Nat.not_lt.1 hlt) hfirst

/-! ## What is imported -/

theorem names_of_candidate (hcand : isCandidate e = true) :
    (∀ n ∈ names e, Plain n) ∧ clean e.name = join (names e) := by
  simp only [isCandidate, Bool.and_eq_true] at hcand
  obtain ⟨⟨-, hbase⟩, hvalid⟩ := hcand
  have hparts : clean e.name ≠ [] ∧ (clean e.name).head? ≠ some '/' ∧
      ¬dotdot <+: clean (clean e.name) := by
    unfold validateFilePath at hvalid
    split at hvalid
    · cases hvalid
    · next hnil =>
      split at hvalid
      · cases hvalid
      · next hhead =>
        refine ⟨hnil, hhead, fun hup => ?_⟩
        rw [List.isPrefixOf_iff_prefix.2 hup] at hvalid
        cases hvalid
  rcases clean_plain hparts.2.1 hparts.2.2 with hdot | ⟨ns, hplain, hne, hclean⟩
  · rw [hdot] at hbase
    cases hbase
  · have hnames : names e = ns := by rw [names, hclean, split_join hplain hne]
    rw [hnames]
    exact ⟨hplain, hclean⟩

theorem names_ne_nil (f : ZipFile) : names f ≠ [] := split_ne_nil _

theorem dropLast_append_names (f : ZipFile) : ∃ n, names f = dirNames f ++ [n] :=
  ⟨_, (List.dropLast_append_getLast (names_ne_nil f)).symm⟩

theorem dirNames_plain (hcand : isCandidate e = true) : ∀ n ∈ dirNames e, Plain n := fun n hn =>
  (names_of_candidate hcand).1 n ((List.dropLast_subset _) hn)

theorem rdropWhile_isSlash {n : List Char} (hn : '/' ∉ n) (s : List Char) :
    (s ++ n).rdropWhile (fun c => !isSlash c) = s.rdropWhile fun c => !isSlash c := by
  induction n using List.reverseRecOn with
  | nil => rw [List.append_nil]
  | append_singleton n c ih =>
    rw [List.mem_append, List.mem_singleton, not_or] at hn
    rw [← List.append_assoc, List.rdropWhile_concat_pos, ih hn.1]
    simpa [isSlash] using Ne.symm hn.2

/-- The prefix of the root is its directory. -/
theorem entryPrefix_eq (hcand : isCandidate e = true) :
    entryPrefix e = if dirNames e = [] then [] else join (dirNames e) ++ ['/'] := by
  rcases names_of_candidate hcand with ⟨hplain, hclean⟩
  rcases dropLast_append_names e with ⟨n, hnames⟩
  have hdir := dirNames_plain hcand
  have hn : Plain n := hplain n (by rw [hnames]; simp)
  rw [entryPrefix, archiveEntryPrefix, dirName, hclean, hnames]
  by_cases hnil : dirNames e = []
  · rw [hnil, if_pos rfl, List.nil_append]
    have hone : join [n] = [] ++ n := by simp [join, List.intercalate]
    rw [hone, rdropWhile_isSlash hn.noSlash]
    decide
  · have hlast : join (dirNames e ++ [n]) = join (dirNames e) ++ ['/'] ++ n := by
      rw [join_append hnil (List.cons_ne_nil _ _)]
      simp [join, List.intercalate]
    rw [if_neg hnil, hlast, rdropWhile_isSlash hn.noSlash,
      List.rdropWhile_concat_neg _ _ _ (by decide),
      clean_join_slash hdir hnil, if_neg]
    rintro (hdot | hslash)
    · have hsplit := split_join hdir hnil
      rw [hdot] at hsplit
      exact (hdir dot (by rw [← hsplit]; decide)).ne_dot rfl
    · exact head?_join hdir (by rw [hslash]; rfl)

/-- An entry is below the root just if its name starts with the prefix, and goes on with its names
below the root. -/
theorem below_iff_prefix (hcand : isCandidate e = true) :
    (below e f = true ↔ entryPrefix e <+: clean f.name) ∧
      (below e f = true → (clean f.name).drop (entryPrefix e).length =
        join ((names f).drop (dirNames e).length)) := by
  rw [entryPrefix_eq hcand]
  by_cases hnil : dirNames e = []
  · rw [if_pos hnil, below, hnil]
    refine ⟨?_, fun _ => (join_split _).symm⟩
    simp [List.length_pos_iff.2 (names_ne_nil f)]
  · rw [if_neg hnil]
    have hslash : ∀ n ∈ dirNames e, '/' ∉ n := fun n hn => (dirNames_plain hcand n hn).noSlash
    have hbelow : below e f = true ↔ ∃ rest, rest ≠ [] ∧ names f = dirNames e ++ rest := by
      rw [below, Bool.and_eq_true, List.isPrefixOf_iff_prefix, decide_eq_true_eq]
      constructor
      · rintro ⟨⟨rest, hrest⟩, hlt⟩
        refine ⟨rest, ?_, hrest.symm⟩
        rintro rfl
        rw [← hrest, List.append_nil] at hlt
        exact absurd hlt (Nat.lt_irrefl _)
      · rintro ⟨rest, hne, hrest⟩
        refine ⟨⟨rest, hrest.symm⟩, ?_⟩
        rw [hrest, List.length_append]
        have := List.length_pos_iff.2 hne
        omega
    refine ⟨hbelow.trans (below_iff hnil hslash).symm, fun h => ?_⟩
    rcases hbelow.1 h with ⟨rest, hne, hrest⟩
    rw [drop_below hnil hne hrest, hrest, List.drop_left]

/-- An entry that is imported, or else passed over. -/
def addSupporting (s : ImportedSkill) (x : Option ImportedFile) :
    Except ImportError ImportedSkill :=
  x.elim (.ok s) fun x => s.addFile x.path x.content

theorem importEntry_eq (hcand : isCandidate e = true) (s : ImportedSkill) :
    importEntry (entryPrefix e) s f = addSupporting s (supporting e f) := by
  rcases below_iff_prefix (f := f) hcand with ⟨hbelow, hrel⟩
  unfold importEntry
  rw [supporting]
  dsimp only
  by_cases hstarts : entryPrefix e <+: clean f.name
  · have hin : below e f = true := hbelow.2 hstarts
    rw [if_pos (List.isPrefixOf_iff_prefix.2 hstarts), hrel hin]
    generalize join ((names f).drop (dirNames e).length) = rel
    cases hdir : f.isDir with
    | true => simp [addSupporting]
    | false =>
      have hstarts' : (entryPrefix e).isPrefixOf (clean f.name) = true :=
        List.isPrefixOf_iff_prefix.2 hstarts
      have hempty : rel = [] → isIgnoredArchiveEntry rel = true := by
        rintro rfl
        decide
      rw [if_neg Bool.false_ne_true, if_neg (by simp [hstarts'])]
      by_cases hnil : rel = []
      · rw [if_pos hnil, if_neg (by simp [hempty hnil])]
        rfl
      rw [if_neg hnil]
      cases hmd : isSkillMd (baseName rel) with
      | true => simp [addSupporting]
      | false =>
        cases hignored : isIgnoredArchiveEntry rel with
        | true => simp [addSupporting]
        | false =>
          cases hvalid : validateFilePath rel with
          | false => simp [addSupporting]
          | true =>
            by_cases hlarge : maxImportFileSize < f.content.length
            · simp [addSupporting, readZipFile, hlarge, Nat.not_le.2 hlarge]
            · cases hbinary : isLikelyBinaryFilePath rel with
              | true => simp [addSupporting, readZipFile, hlarge, ImportedSkill.addFile, hbinary]
              | false => simp [addSupporting, readZipFile, hlarge, Nat.not_lt.1 hlarge, hin]
  · -- outside of the directory
    have hout : below e f = false := Bool.eq_false_iff.2 fun h => hstarts (hbelow.1 h)
    have hout' : (entryPrefix e).isPrefixOf (clean f.name) = false :=
      Bool.eq_false_iff.2 fun h => hstarts (List.isPrefixOf_iff_prefix.1 h)
    have hne : entryPrefix e ≠ [] := by
      intro hnil
      rw [hnil] at hstarts
      exact hstarts List.nil_prefix
    cases hdir : f.isDir <;> simp [addSupporting, hout, hout', hne]

theorem foldlM_importEntry (hcand : isCandidate e = true) (s : ImportedSkill) :
    archive.foldlM (importEntry (entryPrefix e)) s =
      (archive.filterMap (supporting e)).foldlM (fun s x => s.addFile x.path x.content) s := by
  induction archive generalizing s with
  | nil => rfl
  | cons f archive ih =>
    rw [List.foldlM_cons, importEntry_eq hcand, List.filterMap_cons]
    cases hf : supporting e f with
    | none => exact ih s
    | some x =>
      dsimp only
      rw [List.foldlM_cons, addSupporting, Option.elim_some]
      cases hadd : s.addFile x.path x.content with
      | error err => rfl
      | ok s' => exact ih s'

theorem supporting_eq_some {x : ImportedFile} (h : supporting e f = some x) :
    f.isDir = false ∧ below e f = true ∧ isLikelyBinaryFilePath x.path = false ∧
      x.path = join ((names f).drop (dirNames e).length) := by
  rcases Option.ite_none_right_eq_some.1 h with ⟨hcond, h⟩
  obtain rfl := Option.some.inj h
  exact ⟨hcond.1, hcond.2.1, hcond.2.2.2.2.2.2, rfl⟩

section

variable (parseSkillFrontmatter : Bytes → Text × Text) (filename : Text)

/-- The skill before its files. -/
def bare (e : ZipFile) : ImportedSkill where
  name := skillName parseSkillFrontmatter filename e
  description := (parseSkillFrontmatter e.content).2
  content := e.content

/-- The import of these files with the root `e`. -/
def importAt (e : ZipFile) (files : List ImportedFile) : Except ImportError ImportedSkill :=
  if maxImportFileSize < e.content.length then .error (.oversized e.name)
  else if skillName parseSkillFrontmatter filename e = [] then .error .unnamed
  else
    (bundled (bare parseSkillFrontmatter filename e) files).map fun s =>
      { s with files := sortBy ImportedFile.path s.files }

theorem parseSkillArchive_eq (hroot : findRoot archive = some e) (hcand : isCandidate e = true) :
    parseSkillArchive parseSkillFrontmatter archive filename =
      importAt parseSkillFrontmatter filename e (archive.filterMap (supporting e)) := by
  simp only [parseSkillArchive, hroot, importAt, readZipFile]
  by_cases hlarge : maxImportFileSize < e.content.length
  · rw [if_pos hlarge, if_pos hlarge]
  rw [if_neg hlarge, if_neg hlarge]
  dsimp only
  split
  · rfl
  · have htext : ∀ x ∈ archive.filterMap (supporting e),
        isLikelyBinaryFilePath x.path = false := by
      intro x hx
      rcases List.mem_filterMap.1 hx with ⟨f, -, hf⟩
      exact (supporting_eq_some hf).2.2.1
    rw [foldlM_importEntry hcand, foldlM_addFile (Nat.zero_le _) (Nat.zero_le _) htext]
    rfl

variable {parseSkillFrontmatter filename} {files files' : List ImportedFile} {s : ImportedSkill}

/-- Of the two limits, the bytes of the first files are looked at before there are too many. -/
theorem bundled_bare : bundled (bare parseSkillFrontmatter filename e) files =
    if maxImportTotalSize < bundleBytes (files.take maxImportFileCount) then .error .byteLimit
    else if maxImportFileCount < files.length then .error .fileLimit
    else .ok { bare parseSkillFrontmatter filename e with
      bundleSize := bundleBytes files, files := files } := by
  simp [bundled, bare]

/-- The import succeeds if the root is in order and the files are within both limits. -/
theorem importAt_eq_ok_iff : importAt parseSkillFrontmatter filename e files = .ok s ↔
    (Importable parseSkillFrontmatter filename e ∧ files.length ≤ maxImportFileCount ∧
      bundleBytes files ≤ maxImportTotalSize) ∧
      s = { bare parseSkillFrontmatter filename e with
        bundleSize := bundleBytes files, files := sortBy ImportedFile.path files } := by
  rw [importAt, Importable, bundled_bare]
  by_cases hlarge : maxImportFileSize < e.content.length
  · simp [hlarge, Nat.not_le.2 hlarge]
  by_cases hname : skillName parseSkillFrontmatter filename e = []
  · simp [hlarge, hname]
  rw [if_neg hlarge, if_neg hname]
  by_cases hcount : files.length ≤ maxImportFileCount
  · rw [List.take_of_length_le hcount]
    by_cases hsize : bundleBytes files ≤ maxImportTotalSize
    · rw [if_neg (Nat.not_lt.2 hsize), if_neg (Nat.not_lt.2 hcount)]
      simp [Except.map, hcount, hsize, hname, Nat.not_lt.1 hlarge, eq_comm]
    · rw [if_pos (Nat.not_le.1 hsize)]
      simp [Except.map, hsize]
  · rw [if_pos (Nat.not_le.1 hcount)]
    split <;> simp [Except.map, hcount]

/-- Where one limit is hit, it is the same one in any order. -/
theorem importAt_perm (hperm : files'.Perm files) (hpaths : (files.map ImportedFile.path).Nodup)
    (hlimit : Importable parseSkillFrontmatter filename e → OneLimit files) :
    importAt parseSkillFrontmatter filename e files' =
      importAt parseSkillFrontmatter filename e files := by
  rw [importAt, importAt]
  by_cases hlarge : maxImportFileSize < e.content.length
  · rw [if_pos hlarge, if_pos hlarge]
  by_cases hname : skillName parseSkillFrontmatter filename e = []
  · simp only [if_neg hlarge, if_pos hname]
  rw [if_neg hlarge, if_neg hlarge, if_neg hname, if_neg hname, bundled_bare, bundled_bare,
    hperm.length_eq, bundleBytes_perm hperm]
  have hsorted : sortBy ImportedFile.path files' = sortBy ImportedFile.path files :=
    ((sortBy_eq_iff _ hpaths).2 hperm.symm).symm
  have hfirst : (maxImportTotalSize < bundleBytes (files'.take maxImportFileCount)) =
      (maxImportTotalSize < bundleBytes (files.take maxImportFileCount)) := by
    by_cases hcount : files.length ≤ maxImportFileCount
    · rw [List.take_of_length_le hcount, List.take_of_length_le (hperm.length_eq.trans_le hcount),
        bundleBytes_perm hperm]
    · -- the first files of either order are so many of the files
      have hone := hlimit ⟨Nat.not_lt.1 hlarge, hname⟩
      rcases ((List.take_sublist maxImportFileCount files').subperm.trans hperm.subperm)
        with ⟨xs, hxs, hsub⟩
      have hlength : xs.length = maxImportFileCount := by
        rw [hxs.length_eq, List.length_take, hperm.length_eq]
        omega
      have htake : (files.take maxImportFileCount).length = maxImportFileCount := by
        rw [List.length_take]
        omega
      rw [← bundleBytes_perm hxs, eq_iff_iff, ← not_iff_not, Nat.not_lt, Nat.not_lt]
      exact ⟨hone _ _ hsub (List.take_sublist _ _) hlength htake,
        hone _ _ (List.take_sublist _ _) hsub htake hlength⟩
  simp only [hfirst]
  split
  · rfl
  · split
    · rfl
    · simp [Except.map, hsorted]

/-! ## Rooted archives -/

theorem paths_nodup (hcand : isCandidate e = true) (hdistinct : Distinct archive) :
    ((archive.filterMap (supporting e)).map ImportedFile.path).Nodup := by
  rw [Distinct, List.Nodup, List.pairwise_map, List.pairwise_filter] at hdistinct
  rw [List.Nodup, List.pairwise_map, List.pairwise_filterMap]
  refine hdistinct.imp ?_
  intro f g hne x hx y hy hpath
  rcases supporting_eq_some hx with ⟨hfile, hin, -, hxpath⟩
  rcases supporting_eq_some hy with ⟨hfile', hin', -, hypath⟩
  refine hne (by simp [hfile]) (by simp [hfile']) ?_
  rcases below_iff_prefix (f := f) hcand with ⟨hstarts, hrel⟩
  rcases below_iff_prefix (f := g) hcand with ⟨hstarts', hrel'⟩
  -- both names are the directory's and the path
  calc clean f.name = entryPrefix e ++ (clean f.name).drop (entryPrefix e).length :=
        (List.prefix_iff_eq_append.1 (hstarts.1 hin)).symm
    _ = entryPrefix e ++ (clean g.name).drop (entryPrefix e).length := by
        rw [hrel hin, ← hxpath, hpath, hypath, hrel' hin']
    _ = clean g.name := List.prefix_iff_eq_append.1 (hstarts'.1 hin')

theorem below_self (e : ZipFile) : below e e = true := by
  rcases dropLast_append_names e with ⟨n, hnames⟩
  rw [below, hnames]
  simp

/-- Any of the files that are imported come first in some order. -/
theorem exists_order {xs : List ImportedFile}
    (hxs : xs.Sublist (archive.filterMap (supporting e))) :
    ∃ (archive' : List ZipFile) (rest : List ImportedFile), archive'.Perm archive ∧
      archive'.filterMap (supporting e) = xs ++ rest := by
  rcases List.sublist_filterMap_iff.1 hxs with ⟨first, hfirst, rfl⟩
  rcases hfirst.exists_perm_append with ⟨rest, hperm⟩
  exact ⟨first ++ rest, rest.filterMap (supporting e), hperm.symm, List.filterMap_append⟩

theorem oneLimit_of_order (hcand : isCandidate e = true)
    (hroot : ∀ archive', archive'.Perm archive → findRoot archive' = some e)
    (horder : ∀ archive', archive'.Perm archive →
      parseSkillArchive parseSkillFrontmatter archive' filename =
        parseSkillArchive parseSkillFrontmatter archive filename)
    (himportable : Importable parseSkillFrontmatter filename e) :
    OneLimit (archive.filterMap (supporting e)) := by
  intro xs ys hxs hys hxcount hycount hfit
  by_contra hlarge
  have hmore : maxImportFileCount < (archive.filterMap (supporting e)).length := by
    refine lt_of_le_of_ne (hxcount ▸ hxs.length_le) fun heq => hlarge ?_
    rw [hys.eq_of_length (hycount.trans heq), ← hxs.eq_of_length (hxcount.trans heq)]
    exact hfit
  -- the first files decide which limit is hit
  have hfirst : ∀ zs : List ImportedFile, zs.Sublist (archive.filterMap (supporting e)) →
      zs.length = maxImportFileCount →
      parseSkillArchive parseSkillFrontmatter archive filename =
        .error (if maxImportTotalSize < bundleBytes zs then .byteLimit else .fileLimit) := by
    intro zs hzs hcount
    rcases exists_order hzs with ⟨archive', rest, hperm, hfiles⟩
    have hlength : (zs ++ rest).length = (archive.filterMap (supporting e)).length := by
      rw [← hfiles]
      exact (hperm.filterMap _).length_eq
    rw [← horder archive' hperm, parseSkillArchive_eq _ _ (hroot archive' hperm) hcand, hfiles,
      importAt, if_neg (Nat.not_lt.2 himportable.1), if_neg himportable.2, bundled_bare,
      ← hcount, List.take_left, hlength, hcount]
    by_cases hzlarge : maxImportTotalSize < bundleBytes zs
    · rw [if_pos hzlarge, if_pos hzlarge]
      rfl
    · rw [if_neg hzlarge, if_neg hzlarge, if_pos hmore]
      rfl
  have hx := hfirst xs hxs hxcount
  have hy := hfirst ys hys hycount
  rw [if_neg (Nat.not_lt.2 hfit)] at hx
  rw [hx, if_pos (Nat.not_le.1 hlarge)] at hy
  cases hy

end

/-- The archive is rooted at its shallowest `SKILL.md` just if the path of its directory is the
shortest one, too, and if it does not depend on the order which limit is hit. -/
theorem rooted_iff (parseSkillFrontmatter : Bytes → Text × Text) (filename : Text)
    (archive : List ZipFile) (e : ZipFile) (hdistinct : Distinct archive)
    (he : Shallowest archive e) :
    Rooted parseSkillFrontmatter filename archive e ↔
      ShortestPrefix archive e ∧ (Importable parseSkillFrontmatter filename e →
        OneLimit (archive.filterMap (supporting e))) := by
  have hcand := he.candidate
  constructor
  · intro h
    exact ⟨shortestPrefix_of_primary h.primary, oneLimit_of_order hcand h.primary h.order⟩
  · rintro ⟨hshort, hlimit⟩
    have hroot : ∀ archive', archive'.Perm archive → findRoot archive' = some e := by
      intro archive' hperm
      exact findRoot_eq (hperm.mem_iff.2 he.mem) hcand fun f hf => hshort f (hperm.mem_iff.1 hf)
    have hparse : ∀ archive', archive'.Perm archive →
        parseSkillArchive parseSkillFrontmatter archive' filename =
          importAt parseSkillFrontmatter filename e (archive'.filterMap (supporting e)) :=
      fun archive' hperm => parseSkillArchive_eq _ _ (hroot archive' hperm) hcand
    have hself := hparse archive (List.Perm.refl _)
    have hpaths := paths_nodup hcand hdistinct
    refine ⟨hroot, ?_, ?_, ?_, ?_⟩
    · intro archive' hperm
      rw [hparse archive' hperm, hself]
      exact importAt_perm (hperm.filterMap _) hpaths hlimit
    · rw [hself]
      simp only [importAt_eq_ok_iff]
      exact ⟨fun ⟨_, h, _⟩ => h, fun h => ⟨_, h, rfl⟩⟩
    · intro s hs
      rw [hself] at hs
      obtain ⟨-, rfl⟩ := importAt_eq_ok_iff.1 hs
      have hsorted := perm_sortBy ImportedFile.path (archive.filterMap (supporting e))
      refine ⟨rfl, (hsorted.map _).nodup_iff.2 hpaths, fun x => ?_⟩
      exact hsorted.mem_iff.trans List.mem_filterMap
    · -- the entries outside are not supporting files either
      have hfiles : (archive.filter (below e)).filterMap (supporting e) =
          archive.filterMap (supporting e) := by
        rw [List.filterMap_filter]
        refine List.filterMap_congr fun f _ => ?_
        by_cases hin : below e f = true
        · rw [if_pos hin]
        · rw [if_neg hin]
          cases hf : supporting e f with
          | none => rfl
          | some x => exact absurd (supporting_eq_some hf).2.1 hin
      have hin : findRoot (archive.filter (below e)) = some e :=
        findRoot_eq (List.mem_filter.2 ⟨he.mem, below_self e⟩) hcand fun f hf =>
          hshort f (List.mem_filter.1 hf).1
      rw [parseSkillArchive_eq _ _ hin hcand, hfiles, hself]

instance (archive : List ZipFile) : Decidable (Distinct archive) :=
  inferInstanceAs (Decidable (List.Nodup _))

instance (archive : List ZipFile) (e : ZipFile) : Decidable (ShortestPrefix archive e) :=
  inferInstanceAs (Decidable (∀ f ∈ archive, _ → _ → _ < _))

instance (archive : List ZipFile) (e : ZipFile) : Decidable (Shallowest archive e) :=
  decidable_of_iff (e ∈ archive ∧ isCandidate e = true ∧
      ∀ f ∈ archive, isCandidate f = true → f ≠ e → depth e < depth f)
    ⟨fun h => ⟨h.1, h.2.1, h.2.2⟩, fun h => ⟨h.mem, h.candidate, h.depth_lt⟩⟩

def skillMdAt (name : String) : ZipFile := ⟨name.toList, "# A".toList.map Char.toUInt8, false⟩

def noFrontmatter : Bytes → Text × Text := fun _ => ([], [])

/-- A skill with an example of another skill in it. -/
def nested : List ZipFile := [skillMdAt "deploy/docs/SKILL.md", skillMdAt "deploy/SKILL.md"]

theorem rooted_iff_nested :
    Rooted noFrontmatter [] nested (skillMdAt "deploy/SKILL.md") ↔
      ShortestPrefix nested (skillMdAt "deploy/SKILL.md") ∧
        (Importable noFrontmatter [] (skillMdAt "deploy/SKILL.md") →
          OneLimit (nested.filterMap (supporting (skillMdAt "deploy/SKILL.md")))) :=
  rooted_iff noFrontmatter [] nested (skillMdAt "deploy/SKILL.md") (by decide +kernel)
    (by decide +kernel)

/-- A skill next to one whose directories have short names. -/
def besideShort : List ZipFile := [skillMdAt "code-review/SKILL.md", skillMdAt "x/y/SKILL.md"]

theorem not_rooted_besideShort :
    Distinct besideShort ∧ Shallowest besideShort (skillMdAt "code-review/SKILL.md") ∧
      ¬Rooted noFrontmatter [] besideShort (skillMdAt "code-review/SKILL.md") := by
  refine ⟨by decide +kernel, by decide +kernel, fun h => ?_⟩
  have hroot := h.primary besideShort (List.Perm.refl _)
  revert hroot
  decide +kernel

end Orynx.SkillArchive
