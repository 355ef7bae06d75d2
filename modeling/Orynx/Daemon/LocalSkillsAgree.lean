import Orynx.Daemon.LocalSkills

/-! # Can what is listed be loaded?

Listing and loading share the reading of one skill, but not the way to it: the listing keeps the
directory that it has walked to, and loading goes by the key alone, root by root.

* `collect_lighter`: the limits of the bundle are no obstacle;
* `mem_rootSkills`, `mem_mergeRoots`: what is known of a listed skill;
* `loadFromRoots_ok_iff`: where a key leads;
* `listed_loadable_iff`: when every listed skill can be loaded.
-/

namespace Orynx.LocalSkills

open Lib.SlashPath

/-! ## The bundle -/

/-- The same has been looked at, and no more has been kept. -/
structure Lighter (c c' : Collected) : Prop where
  totalSize : c'.totalSize = c.totalSize
  files : c'.files.length ≤ c.files.length

theorem collectFile_lighter {path : List Name} {size : Nat} {content : Option Text}
    {c c' d : Collected} (hlight : Lighter c c')
    (h : collectFile false path size content c = some d) :
    ∃ d', collectFile true path size content c' = some d' ∧ Lighter d d' := by
  unfold collectFile at h ⊢
  by_cases hsize : maxLocalSkillFileSize < size
  · rw [if_pos hsize] at h ⊢
    exact ⟨c', rfl, Option.some.inj h ▸ hlight⟩
  · rw [if_neg hsize] at h ⊢
    by_cases hcount : maxLocalSkillFileCount ≤ c.files.length
    · rw [if_pos hcount] at h
      cases h
    · -- with fewer files so far there is room where there was
      have hcount' : ¬maxLocalSkillFileCount ≤ c'.files.length := fun hle =>
        hcount (hle.trans hlight.files)
      rw [if_neg hcount] at h
      rw [if_neg hcount', hlight.totalSize]
      by_cases htotal : maxLocalSkillBundleSize < c.totalSize + size
      · rw [if_pos htotal] at h
        cases h
      · rw [if_neg htotal] at h ⊢
        simp only [Bool.false_eq_true, if_false, Option.some.injEq] at h
        subst h
        have hfiles := hlight.files
        cases content with
        | none =>
          refine ⟨_, rfl, rfl, ?_⟩
          rw [List.length_append]
          exact Nat.le_add_right_of_le hfiles
        | some content =>
          refine ⟨_, rfl, rfl, ?_⟩
          rw [List.length_append, List.length_append]
          exact Nat.add_le_add_right hfiles _

mutual

theorem collectNode_lighter {dir : List Name} {name : Name} {c c' d : Collected} :
    ∀ node : Node, Lighter c c' → collectNode false dir name node c = some d →
      ∃ d', collectNode true dir name node c' = some d' ∧ Lighter d d'
  | .symlink, hlight, h => by
    rw [collectNode, Option.some.injEq] at h
    subst h
    exact ⟨c', by rw [collectNode], hlight⟩
  | .dir entries, hlight, h => by
    rw [collectNode] at h ⊢
    by_cases hignored : isIgnoredLocalSkillEntry name = true
    · rw [if_pos hignored] at h ⊢
      exact ⟨c', rfl, Option.some.inj h ▸ hlight⟩
    · rw [if_neg hignored] at h ⊢
      exact collectEntries_lighter entries hlight h
  | .file size content, hlight, h => by
    rw [collectNode] at h ⊢
    by_cases hignored : (isIgnoredLocalSkillEntry name || isSkillMd name) = true
    · rw [if_pos hignored] at h ⊢
      exact ⟨c', rfl, Option.some.inj h ▸ hlight⟩
    · rw [if_neg hignored] at h ⊢
      exact collectFile_lighter hlight h

theorem collectEntries_lighter {dir : List Name} {c c' d : Collected} :
    ∀ entries : List (Name × Node), Lighter c c' →
      collectEntries false dir entries c = some d →
      ∃ d', collectEntries true dir entries c' = some d' ∧ Lighter d d'
  | [], hlight, h => by
    rw [collectEntries, Option.some.injEq] at h
    subst h
    exact ⟨c', by rw [collectEntries], hlight⟩
  | (name, node) :: entries, hlight, h => by
    rw [collectEntries, Option.bind_eq_some_iff] at h
    rcases h with ⟨e, he, h⟩
    rcases collectNode_lighter node hlight he with ⟨e', he', hlight'⟩
    rcases collectEntries_lighter entries hlight' h with ⟨d', hd', hlight''⟩
    exact ⟨d', by rw [collectEntries, he', Option.bind_some, hd'], hlight''⟩

end

theorem collectRoot_lighter {node : Option Node} {d : Collected}
    (h : collectRoot false node = some d) : ∃ d', collectRoot true node = some d' := by
  cases node with
  | none => exact ⟨_, rfl⟩
  | some node =>
    cases node with
    | file size content => exact ⟨_, rfl⟩
    | symlink => exact ⟨_, rfl⟩
    | dir entries =>
      rcases collectEntries_lighter entries ⟨rfl, Nat.le_refl _⟩ h with ⟨d', hd', -⟩
      exact ⟨d', hd'⟩

/-- A bundle that is listed is not too large to be loaded. -/
theorem collect_lighter {h : Host} {skillDir : Path} {files : List SkillFileData}
    (hfiles : collectLocalSkillFiles h skillDir false = some files) :
    ∃ files', collectLocalSkillFiles h skillDir true = some files' := by
  rcases Option.map_eq_some_iff.1 hfiles with ⟨d, hd, -⟩
  rcases collectRoot_lighter hd with ⟨d', hd'⟩
  exact ⟨_, Option.map_eq_some_iff.2 ⟨d', hd', rfl⟩⟩

/-! ## Listed skills -/

section Listed

variable {h : Host} {provider : String} {root : LocalSkillRoot} {rel : List Name} {s : Summary}

/-- There was no error. -/
def Stat.ok : Stat → Bool
  | .dir | .file _ => true
  | .notExist | .fault => false

/-- Where a skill of a root was found, and that there was something to list. -/
structure Found (h : Host) (provider : String) (root : LocalSkillRoot) (rel : List Name)
    (s : Summary) : Prop where
  dir : h.stat (root.path ++ rel) = .dir
  main : (h.stat (root.path ++ rel ++ [skillMd])).ok = true
  summary : summarize h provider root rel = some s

/-- What the listing reads of a skill can be read again. -/
theorem summarize_eq_some (hs : summarize h provider root rel = some s) :
    ∃ normalized content files,
      normalizeLocalSkillKey (join rel) = some normalized ∧
      readLocalSkillMainFile h (root.path ++ rel) = some content ∧
      collectLocalSkillFiles h (root.path ++ rel) true = some files ∧
      s.key = root.keyPrefix ++ normalized ∧
      s.name = skillName root s.key (root.path ++ rel) (h.parseSkillFrontmatter content).1 ∧
      s.description = (h.parseSkillFrontmatter content).2 ∧
      s.sourcePath = relativizeHomePath h (root.path ++ rel) := by
  unfold summarize at hs
  rcases Option.bind_eq_some_iff.1 hs with ⟨normalized, hnormalized, hs⟩
  rcases Option.bind_eq_some_iff.1 hs with ⟨content, hcontent, hs⟩
  rcases Option.bind_eq_some_iff.1 hs with ⟨files, hfiles, hs⟩
  rcases collect_lighter hfiles with ⟨files', hfiles'⟩
  obtain rfl := Option.some.inj hs
  exact ⟨normalized, content, files', hnormalized, hcontent, hfiles', rfl, rfl, rfl, rfl⟩

theorem mem_append_summary {skills : List Summary}
    (hskills : ∀ s ∈ skills, ∃ rel, Found h provider root rel s)
    (hdir : h.stat (root.path ++ rel) = .dir)
    (hmain : (h.stat (root.path ++ rel ++ [skillMd])).ok = true) :
    ∀ s ∈ skills ++ (summarize h provider root rel).toList,
      ∃ rel, Found h provider root rel s := by
  intro s hs
  rcases List.mem_append.1 hs with hs | hs
  · exact hskills s hs
  · exact ⟨rel, hdir, hmain, Option.mem_toList.1 hs⟩

theorem enumerate_found (levels : Nat) (rel : List Name) (w : Walked)
    (hw : ∀ s ∈ w.skills, ∃ rel, Found h provider root rel s) :
    ∀ s ∈ (enumerateLocalSkills h provider root levels rel w).skills,
      ∃ rel, Found h provider root rel s := by
  induction levels generalizing rel w with
  | zero => exact hw
  | succ levels ih =>
    rw [enumerateLocalSkills]
    cases h.evalSymlinks (root.path ++ rel) with
    | none => exact hw
    | some resolved =>
      dsimp only
      split
      · exact hw
      · cases h.readDir (root.path ++ rel) with
        | none => exact hw
        | some names =>
          -- every entry of the directory adds skills that were found
          refine names.foldlRecOn _ (motive := fun w : Walked =>
            ∀ s ∈ w.skills, ∃ rel, Found h provider root rel s) hw fun w hw name _ => ?_
          by_cases hignored : isIgnoredLocalSkillEntry name = true
          · rw [if_pos hignored]
            exact hw
          rw [if_neg hignored]
          by_cases hdir : h.stat (root.path ++ (rel ++ [name])) = .dir
          · rw [if_neg (not_not_intro hdir)]
            cases hmain : h.stat (root.path ++ (rel ++ [name]) ++ [skillMd]) with
            | dir => exact mem_append_summary hw hdir (by rw [hmain]; rfl)
            | file size => exact mem_append_summary hw hdir (by rw [hmain]; rfl)
            | notExist => exact ih (rel ++ [name]) w hw
            | fault => exact ih (rel ++ [name]) w hw
          · rw [if_pos hdir]
            exact hw

theorem mem_rootSkills (hs : s ∈ rootSkills h provider root) :
    ∃ rel, Found h provider root rel s :=
  enumerate_found _ _ _ (fun _ hs => absurd hs List.not_mem_nil) s hs

theorem mem_mergeSkills {skills new : List Summary} (hs : s ∈ new.foldl mergeSkills skills) :
    s ∈ skills ∨ s ∈ new := by
  induction new generalizing skills with
  | nil => exact .inl hs
  | cons t new ih =>
    rcases ih hs with hs | hs
    · unfold mergeSkills at hs
      split at hs
      · exact .inl hs
      · rcases List.mem_append.1 hs with hs | hs
        · exact .inl hs
        · exact .inr (List.mem_cons.2 (.inl (List.mem_singleton.1 hs)))
    · exact .inr (List.mem_cons_of_mem _ hs)

/-- Every key is listed once. -/
theorem nodup_mergeSkills {skills new : List Summary} (hnodup : (skills.map Summary.key).Nodup) :
    ((new.foldl mergeSkills skills).map Summary.key).Nodup := by
  induction new generalizing skills with
  | nil => exact hnodup
  | cons t new ih =>
    refine ih ?_
    unfold mergeSkills
    split
    · exact hnodup
    · rename_i hfresh
      rw [List.map_append, List.map_singleton, List.nodup_append]
      refine ⟨hnodup, List.nodup_singleton _, ?_⟩
      rintro key hkey key' hkey' rfl
      rw [List.mem_singleton.1 hkey'] at hkey
      exact hfresh hkey

theorem mergeRoots_spec {roots : List LocalSkillRoot} {before skills : List Summary}
    (hmerge : mergeRoots h provider roots before = some skills)
    (hnodup : (before.map Summary.key).Nodup) :
    (skills.map Summary.key).Nodup ∧
      ∀ s ∈ skills, s ∈ before ∨ ∃ root ∈ roots, ∃ rel, Found h provider root rel s := by
  induction roots generalizing before with
  | nil =>
    obtain rfl := Option.some.inj hmerge
    exact ⟨hnodup, fun s hs => .inl hs⟩
  | cons root roots ih =>
    rw [mergeRoots] at hmerge
    have hadd (hmerge : mergeRoots h provider roots
        ((rootSkills h provider root).foldl mergeSkills before) = some skills) :
        (skills.map Summary.key).Nodup ∧ ∀ s ∈ skills, s ∈ before ∨
          ∃ root' ∈ root :: roots, ∃ rel, Found h provider root' rel s := by
      rcases ih hmerge (nodup_mergeSkills hnodup) with ⟨hkeys, hfound⟩
      refine ⟨hkeys, fun s hs => ?_⟩
      rcases hfound s hs with hs | ⟨root', hroot', hfound⟩
      · rcases mem_mergeSkills hs with hs | hs
        · exact .inl hs
        · exact .inr ⟨root, List.mem_cons_self, mem_rootSkills hs⟩
      · exact .inr ⟨root', List.mem_cons_of_mem _ hroot', hfound⟩
    cases hstat : h.stat root.path with
    | dir => exact hadd (by simpa only [hstat] using hmerge)
    | file size => exact hadd (by simpa only [hstat] using hmerge)
    | fault => simp [hstat] at hmerge
    | notExist =>
      simp only [hstat] at hmerge
      rcases ih hmerge hnodup with ⟨hkeys, hfound⟩
      refine ⟨hkeys, fun s hs => (hfound s hs).imp_right ?_⟩
      rintro ⟨root', hroot', hfound⟩
      exact ⟨root', List.mem_cons_of_mem _ hroot', hfound⟩

/-- Listed skills have different keys, and each was found below a root. -/
theorem list_spec {skills : List Summary}
    (hlist : listRuntimeLocalSkills h provider = some skills) :
    (skills.map Summary.key).Nodup ∧ ∀ s ∈ skills, ∃ roots root rel,
      localSkillRootsForProvider h provider = some roots ∧ Found h provider root rel s := by
  unfold listRuntimeLocalSkills at hlist
  cases hroots : localSkillRootsForProvider h provider with
  | none =>
    simp only [hroots, Option.some.injEq] at hlist
    subst hlist
    exact ⟨List.nodup_nil, fun s hs => absurd hs List.not_mem_nil⟩
  | some roots =>
    simp only [hroots, Option.map_eq_some_iff] at hlist
    rcases hlist with ⟨merged, hmerged, rfl⟩
    rcases mergeRoots_spec hmerged List.nodup_nil with ⟨hkeys, hfound⟩
    have hperm := List.perm_insertionSort (fun a b : Summary => a.key ≤ b.key) merged
    refine ⟨(hperm.map _).nodup_iff.2 hkeys, fun s hs => ?_⟩
    rcases hfound s (hperm.mem_iff.1 hs) with hs | ⟨root, -, rel, hs⟩
    · exact absurd hs List.not_mem_nil
    · exact ⟨roots, root, rel, rfl, hs⟩

end Listed

/-! ## Where a key leads -/

/-- The root is passed over: the key is none of its own, or there is nothing, no directory or no
`SKILL.md` in it. -/
def LocalSkillRoot.lacks (h : Host) (key : Text) (root : LocalSkillRoot) : Bool :=
  (root.rootKey key).all fun rootKey =>
    match h.stat (joinPath root.path rootKey) with
    | .notExist | .file _ => true
    | .fault => false
    | .dir => h.stat (joinPath root.path rootKey ++ [skillMd]) == .notExist

/-- The key leads to a directory in the first root that does not pass it over. -/
structure Leads (h : Host) (roots : List LocalSkillRoot) (key : Text) (root : LocalSkillRoot)
    (skillDir : Path) : Prop where
  first : ∃ before after, roots = before ++ root :: after ∧
    ∀ r ∈ before, r.lacks h key = true
  below : (root.rootKey key).map (joinPath root.path) = some skillDir

section Load

variable {h : Host} {provider : String} {key : Text} {root : LocalSkillRoot}
  {roots : List LocalSkillRoot} {skillDir : Path} {b : Bundle}

theorem loadFromRoots_lacks (hlacks : root.lacks h key = true) :
    loadFromRoots h provider key (root :: roots) = loadFromRoots h provider key roots := by
  rw [loadFromRoots]
  unfold LocalSkillRoot.lacks at hlacks
  cases hkey : root.rootKey key with
  | none => rfl
  | some rootKey =>
    simp only [hkey, Option.all_some] at hlacks
    cases hstat : h.stat (joinPath root.path rootKey) with
    | notExist => simp only [hstat]
    | file size => simp only [hstat]
    | fault => simp [hstat] at hlacks
    | dir =>
      simp only [hstat, beq_iff_eq] at hlacks
      simp only [hstat, hlacks]

/-- A root that has the key answers for it. -/
theorem loadFromRoots_found (hbelow : (root.rootKey key).map (joinPath root.path) = some skillDir)
    (hdir : h.stat skillDir = .dir) (hmain : (h.stat (skillDir ++ [skillMd])).ok = true) :
    loadFromRoots h provider key (root :: roots) = loadSkillDir h provider root key skillDir := by
  rcases Option.map_eq_some_iff.1 hbelow with ⟨rootKey, hkey, rfl⟩
  rw [loadFromRoots]
  simp only [hkey, hdir]
  cases hstat : h.stat (joinPath root.path rootKey ++ [skillMd]) with
  | dir => rfl
  | file size => rfl
  | notExist => simp [hstat, Stat.ok] at hmain
  | fault => simp [hstat, Stat.ok] at hmain

theorem loadFromRoots_leads (hleads : Leads h roots key root skillDir)
    (hdir : h.stat skillDir = .dir) (hmain : (h.stat (skillDir ++ [skillMd])).ok = true) :
    loadFromRoots h provider key roots = loadSkillDir h provider root key skillDir := by
  rcases hleads with ⟨⟨before, after, rfl, hlacks⟩, hbelow⟩
  induction before with
  | nil => exact loadFromRoots_found hbelow hdir hmain
  | cons r before ih =>
    rw [List.cons_append, loadFromRoots_lacks (hlacks r List.mem_cons_self)]
    exact ih fun r' hr' => hlacks r' (List.mem_cons_of_mem _ hr')

/-- What was loaded was loaded from where the key leads. -/
theorem leads_of_loadFromRoots (hload : loadFromRoots h provider key roots = .ok b) :
    ∃ root skillDir, Leads h roots key root skillDir ∧
      loadSkillDir h provider root key skillDir = .ok b := by
  induction roots with
  | nil => cases hload
  | cons r roots ih =>
    cases hlacks : r.lacks h key with
    | true =>
      rw [loadFromRoots_lacks hlacks] at hload
      rcases ih hload with ⟨root, skillDir, ⟨⟨before, after, rfl, hbefore⟩, hbelow⟩, hdir⟩
      refine ⟨root, skillDir, ⟨⟨r :: before, after, rfl, ?_⟩, hbelow⟩, hdir⟩
      intro r' hr'
      rcases List.mem_cons.1 hr' with rfl | hr'
      · exact hlacks
      · exact hbefore r' hr'
    | false =>
      -- the root has something at the key, which is what was loaded
      unfold LocalSkillRoot.lacks at hlacks
      rw [loadFromRoots] at hload
      cases hkey : r.rootKey key with
      | none => simp [hkey] at hlacks
      | some rootKey =>
        simp only [hkey, Option.all_some] at hlacks hload
        refine ⟨r, joinPath r.path rootKey,
          ⟨⟨[], roots, rfl, fun r' hr' => absurd hr' List.not_mem_nil⟩, by rw [hkey]; rfl⟩, ?_⟩
        cases hstat : h.stat (joinPath r.path rootKey) with
        | notExist => simp [hstat] at hlacks
        | file size => simp [hstat] at hlacks
        | fault => simp [hstat] at hload
        | dir =>
          simp only [hstat, beq_eq_false_iff_ne] at hlacks hload
          cases hmain : h.stat (joinPath r.path rootKey ++ [skillMd]) with
          | notExist => exact absurd hmain hlacks
          | fault => simp [hmain] at hload
          | dir => simpa only [hmain] using hload
          | file size => simpa only [hmain] using hload

end Load

/-! ## Listing against loading -/

theorem relativize_injective {h : Host} {path path' : Path}
    (heq : relativizeHomePath h path = relativizeHomePath h path') : path = path' := by
  unfold relativizeHomePath at heq
  split at heq <;> split at heq
  · rename_i hpath hpath'
    have hdrop : path.drop h.home.length = path'.drop h.home.length := SourcePath.home.inj heq
    rw [← List.prefix_iff_eq_append.1 (List.isPrefixOf_iff_prefix.1 hpath), hdrop,
      List.prefix_iff_eq_append.1 (List.isPrefixOf_iff_prefix.1 hpath')]
  · cases heq
  · cases heq
  · exact SourcePath.absolute.inj heq

/-- The listed key loads the skill that was listed. -/
def LoadsBack (h : Host) (provider : String) (s : Summary) : Prop :=
  ∃ b, loadRuntimeLocalSkillBundle h provider s.key = .ok b ∧ b.sourcePath = s.sourcePath ∧
    b.name = s.name ∧ b.description = s.description

/-- Normalised once more, the key leads to the skill's own directory, in a root that gives the
skill the same name. -/
def KeyLeadsBack (h : Host) (provider : String) (s : Summary) : Prop :=
  ∃ roots key root skillDir, localSkillRootsForProvider h provider = some roots ∧
    normalizeLocalSkillKey s.key = some key ∧ Leads h roots key root skillDir ∧
    relativizeHomePath h skillDir = s.sourcePath ∧
    ∀ content, readLocalSkillMainFile h skillDir = some content →
      skillName root key skillDir (h.parseSkillFrontmatter content).1 = s.name

theorem loadsBack_iff {h : Host} {provider : String} {roots : List LocalSkillRoot}
    {root : LocalSkillRoot} {rel : List Name} {s : Summary}
    (hroots : localSkillRootsForProvider h provider = some roots)
    (hfound : Found h provider root rel s) :
    LoadsBack h provider s ↔ KeyLeadsBack h provider s := by
  rcases summarize_eq_some hfound.summary with
    ⟨-, content, files, -, hcontent, hfiles, -, -, hdescription, hsource⟩
  constructor
  · rintro ⟨b, hload, hpath, hname, -⟩
    unfold loadRuntimeLocalSkillBundle at hload
    simp only [hroots] at hload
    cases hkey : normalizeLocalSkillKey s.key with
    | none => simp [hkey] at hload
    | some key =>
      simp only [hkey] at hload
      rcases leads_of_loadFromRoots hload with ⟨root', skillDir, hleads, hdir⟩
      unfold loadSkillDir at hdir
      cases hmain : readLocalSkillMainFile h skillDir with
      | none => simp [hmain] at hdir
      | some content' =>
        simp only [hmain] at hdir
        cases hcollect : collectLocalSkillFiles h skillDir true with
        | none => simp [hcollect] at hdir
        | some files' =>
          simp only [hcollect, Except.ok.injEq] at hdir
          subst hdir
          refine ⟨roots, key, root', skillDir, hroots, hkey, hleads, hpath, ?_⟩
          intro content'' hcontent''
          obtain rfl := Option.some.inj (hmain.symm.trans hcontent'')
          exact hname
  · rintro ⟨roots', key, root', skillDir, hroots', hkey, hleads, hpath, hname⟩
    obtain rfl := Option.some.inj (hroots.symm.trans hroots')
    -- the directory is the one that was listed, and all of it could be read
    obtain rfl : skillDir = root.path ++ rel := relativize_injective (hpath.trans hsource)
    refine ⟨⟨skillName root' key (root.path ++ rel) (h.parseSkillFrontmatter content).1,
      (h.parseSkillFrontmatter content).2, content, relativizeHomePath h (root.path ++ rel),
      provider, files⟩, ?_, hpath, hname content hcontent, hdescription.symm⟩
    unfold loadRuntimeLocalSkillBundle
    simp only [hroots, hkey]
    rw [loadFromRoots_leads hleads hfound.dir hfound.main]
    unfold loadSkillDir
    simp only [hcontent, hfiles]

/-- Every two listed skills have different keys, and every one can be loaded. -/
def ListedLoadable (h : Host) (provider : String) : Prop :=
  ∀ skills, listRuntimeLocalSkills h provider = some skills →
    (skills.map Summary.key).Nodup ∧ ∀ s ∈ skills, LoadsBack h provider s

/-- Listed skills can be loaded exactly if each key still leads to its skill. -/
theorem listed_loadable_iff (h : Host) (provider : String) :
    ListedLoadable h provider ↔
      ∀ skills, listRuntimeLocalSkills h provider = some skills →
        ∀ s ∈ skills, KeyLeadsBack h provider s := by
  constructor
  · intro hloadable skills hlist s hs
    rcases (list_spec hlist).2 s hs with ⟨roots, root, rel, hroots, hfound⟩
    exact (loadsBack_iff hroots hfound).1 ((hloadable skills hlist).2 s hs)
  · intro hleads skills hlist
    refine ⟨(list_spec hlist).1, fun s hs => ?_⟩
    rcases (list_spec hlist).2 s hs with ⟨roots, root, rel, hroots, hfound⟩
    exact (loadsBack_iff hroots hfound).2 (hleads skills hlist s hs)

/-! ## Plain paths -/

section Plain

variable {rel : List Name}

theorem plain_of_listed {n : Name} (hlisted : isIgnoredLocalSkillEntry n = false)
    (hslash : '/' ∉ n) : Plain n := by
  cases n with
  | nil => simp [isIgnoredLocalSkillEntry] at hlisted
  | cons c n =>
    have hc : c ≠ '.' := by
      rintro rfl
      simp [isIgnoredLocalSkillEntry] at hlisted
    refine ⟨List.cons_ne_nil _ _, ?_, ?_, hslash⟩
    · rintro hdot
      exact hc (List.cons.inj hdot).1
    · rintro hdotdot
      exact hc (List.cons.inj hdotdot).1

/-- The text of a path that was walked does not start with a dot. -/
theorem join_eq_cons (hlisted : ∀ n ∈ rel, isIgnoredLocalSkillEntry n = false) (hne : rel ≠ []) :
    ∃ c s, join rel = c :: s ∧ c ≠ '.' := by
  cases rel with
  | nil => exact absurd rfl hne
  | cons n rel =>
    have hn := hlisted n List.mem_cons_self
    cases n with
    | nil => simp [isIgnoredLocalSkillEntry] at hn
    | cons c n =>
      have hc : c ≠ '.' := by
        rintro rfl
        simp [isIgnoredLocalSkillEntry] at hn
      cases rel with
      | nil => exact ⟨c, n, by simp [join], hc⟩
      | cons m rel => exact ⟨c, _, by rw [join, List.intercalate_cons_cons]; rfl, hc⟩

/-- A path that has no blank at its ends is its own key. -/
theorem normalize_plain (hlisted : ∀ n ∈ rel, isIgnoredLocalSkillEntry n = false)
    (hslash : ∀ n ∈ rel, '/' ∉ n) (hne : rel ≠ []) (htrim : trimSpace (join rel) = join rel) :
    normalizeLocalSkillKey (join rel) = some (join rel) := by
  have hplain : ∀ n ∈ rel, Plain n := fun n hn => plain_of_listed (hlisted n hn) (hslash n hn)
  rcases join_eq_cons hlisted hne with ⟨c, s, hjoin, hc⟩
  have hblank : (join rel).all isSpace = false := by
    by_contra hall
    rw [Bool.not_eq_false, List.all_eq_true] at hall
    have hnil : trimSpace (join rel) = [] := by
      rw [trimSpace, List.dropWhile_eq_nil_iff.2 hall, List.rdropWhile_nil]
    rw [htrim, hjoin] at hnil
    cases hnil
  unfold normalizeLocalSkillKey
  rw [hblank, htrim, clean_join hplain hne, if_neg Bool.false_ne_true]
  refine if_neg ?_
  rintro (hdot | habs | hdots)
  · rw [hjoin] at hdot
    exact hc (List.cons.inj hdot).1
  · exact head?_join hplain habs
  · rw [hjoin] at hdots
    simp [dotdot, List.isPrefixOf, hc.symm] at hdots

/-- A standalone skill on such a path is led back to once no root before its own has anything
there. -/
theorem keyLeadsBack_of_plain {h : Host} {provider : String}
    {before after : List LocalSkillRoot} {root : LocalSkillRoot} {s : Summary}
    (hroots : localSkillRootsForProvider h provider = some (before ++ root :: after))
    (hfound : Found h provider root rel s) (hbare : root.keyPrefix = [])
    (hlisted : ∀ n ∈ rel, isIgnoredLocalSkillEntry n = false)
    (hslash : ∀ n ∈ rel, '/' ∉ n) (hne : rel ≠ []) (htrim : trimSpace (join rel) = join rel)
    (hlacks : ∀ r ∈ before, r.lacks h (join rel) = true) : KeyLeadsBack h provider s := by
  have hplain : ∀ n ∈ rel, Plain n := fun n hn => plain_of_listed (hlisted n hn) (hslash n hn)
  have hnormal := normalize_plain hlisted hslash hne htrim
  rcases summarize_eq_some hfound.summary with
    ⟨normalized, content, -, hnormalized, hcontent, -, hkey, hname, -, hsource⟩
  obtain rfl : join rel = normalized := Option.some.inj (hnormal.symm.trans hnormalized)
  have hkey : s.key = join rel := by rw [hkey, hbare, List.nil_append]
  refine ⟨_, join rel, root, root.path ++ rel, hroots, hkey ▸ hnormal,
    ⟨⟨before, after, rfl, hlacks⟩, ?_⟩, hsource.symm, ?_⟩
  · have hrootKey : root.rootKey (join rel) = some (join rel) := by
      simp [LocalSkillRoot.rootKey, hbare]
    rw [hrootKey, Option.map_some, joinPath_join root.path hplain hne]
  · intro content' hcontent'
    obtain rfl := Option.some.inj (hcontent.symm.trans hcontent')
    rw [hname, hkey]

end Plain

/-! ## A skill in a skill -/

/-- The entry at a path, or what is in the way. -/
inductive Reached where
  | node (n : Node)
  | missing
  | notADirectory

def entryAt (entries : List (Name × Node)) (name : Name) : Option Node :=
  (entries.find? fun e => e.1 == name).map Prod.snd

def Node.walk (n : Node) : Path → Reached
  | [] => .node n
  | name :: rest =>
    match n with
    | .dir entries =>
      match entryAt entries name with
      | none => .missing
      | some n => n.walk rest
    | .file _ _ | .symlink => .notADirectory

/-- A machine with the given tree, without links. -/
def treeHost (root : Node) (home : Path) : Host where
  stat path :=
    match root.walk path with
    | .node (.dir _) => .dir
    | .node (.file size _) => .file size
    | .node .symlink | .missing => .notExist
    | .notADirectory => .fault
  readDir path :=
    match root.walk path with
    | .node (.dir entries) => some (entries.map Prod.fst)
    | _ => none
  evalSymlinks path :=
    match root.walk path with
    | .node _ => some path
    | _ => none
  readFile path :=
    match root.walk path with
    | .node (.file _ content) => content
    | _ => none
  node path :=
    match root.walk path with
    | .node n => some n
    | _ => none
  home := home
  parseSkillFrontmatter _ := ([], [])

def dirOf (name : String) (entries : List (Name × Node)) : Name × Node :=
  (name.toList, .dir entries)

def skillFile (content : String) : Name × Node := (skillMd, .file 4 (some content.toList))

/-- Below the provider's root, `a` is a skill and so is `a/b` in it; below the universal root there
is only `a/b`. -/
def nestedSkills : Host :=
  treeHost
    (.dir
      [dirOf ".agents" [dirOf "skills" [dirOf "a" [dirOf "b" [skillFile "mine"]]]],
        dirOf ".claude"
          [dirOf "skills" [dirOf "a" [skillFile "a", dirOf "b" [skillFile "other"]]]]])
    []

/-- What is loaded is not from the path that was listed. -/
def loadsElsewhere (h : Host) (provider : String) (s : Summary) : Bool :=
  match loadRuntimeLocalSkillBundle h provider s.key with
  | .ok b => b.sourcePath != s.sourcePath
  | .error _ => true

/-- The listing stops at `a` below the provider's root and lists the universal `a/b`; loading goes
into `a`. -/
theorem nested_skill_shadows : ¬ListedLoadable nestedSkills "claude" := by
  intro hloadable
  have hrun : (listRuntimeLocalSkills nestedSkills "claude").any (fun skills =>
      skills.any fun s => s.key == "a/b".toList && loadsElsewhere nestedSkills "claude" s) = true :=
    by decide +kernel
  rcases (Option.any_eq_true _ _).1 hrun with ⟨skills, hlist, hany⟩
  rcases List.any_eq_true.1 hany with ⟨s, hs, hkey⟩
  rcases (hloadable skills hlist).2 s hs with ⟨b, hload, hpath, -⟩
  rw [loadsElsewhere, hload] at hkey
  simp [hpath] at hkey

end Orynx.LocalSkills
