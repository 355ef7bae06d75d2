import Mathlib.Data.List.TakeWhile
import Orynx.Lib.FileTree

/-! # The sidecar files of a local directory

Before a task runs in a directory of the user's, `Prepare` writes context files and skills into it
through `recordMkdirAll` and `recordWriteFile`, which note what they made in a manifest. The
manifest is stored when all of it has been written; `CleanupSidecars` reads it back and removes
what it lists, the files first and the directories in reverse.

A path stands for the entry it resolves to. What the operating system refuses is an input of each
call.

* `mkdirAll_get`: the directories that a `MkdirAll` makes before something is refused.
* `Session.Sound.run`: a call keeps what was there, and records nothing but what it made.
* `CleanupSidecars_tree`: the clean-up is the record undone.
-/

namespace Orynx.Daemon.Sidecars

open Lib

/-- The names of a path, the leaf in front. -/
abbrev Path := List String

/-- A regular file, or a link or another entry that is not a directory. -/
inductive Content where
  | file (data : List UInt8)
  | other (target : String)
deriving DecidableEq, Repr

abbrev Tree := FileTree String Content

/-- `sidecarManifest` -/
structure SidecarManifest where
  files : List Path
  dirs : List Path
deriving DecidableEq, Repr

inductive Errno where
  | notExist
  | notDir
  | notEmpty
  | other
deriving DecidableEq, Repr

inductive RecordError where
  | statAncestor (path : Path) (err : Errno)
  | mkdirAll (err : Errno)
  | errPathPreExists (path : Path)
  | statTarget (path : Path) (err : Errno)
  | writeFile (err : Errno)
deriving DecidableEq, Repr

/-- What the operating system refuses during one call: the status of a path, a directory, the
opening of the file, and the bytes after some number of them. -/
structure Faults where
  lstat : Path → Bool
  mkdir : Path → Bool
  openFile : Bool
  write : Option Nat

/-- Nothing is refused. -/
def Faults.none : Faults := ⟨fun _ => false, fun _ => false, false, Option.none⟩

/-- The lowest entry on the way to a path. -/
def above (t : Tree) : Path → Entry Content
  | [] => .dir
  | n :: d => (t.get (n :: d)).getD (above t d)

/-- `os.Lstat` -/
def lstat (t : Tree) (f : Faults) (p : Path) : Except Errno Unit :=
  if f.lstat p = true then .error .other
  else if t.get p ≠ none then .ok ()
  else if above t p = .dir then .error .notExist
  else .error .notDir

/-- The walk of `recordMkdirAll` from the leaf to the first ancestor that exists. -/
def toCreate (t : Tree) (f : Faults) : Path → Except RecordError (List Path)
  | [] =>
    match lstat t f [] with
    | .ok () => .ok []
    | .error e => .error (.statAncestor [] e)
  | n :: d =>
    match lstat t f (n :: d) with
    | .ok () => .ok []
    | .error .notExist =>
      match toCreate t f d with
      | .ok rest => .ok ((n :: d) :: rest)
      | .error e => .error e
    | .error e => .error (.statAncestor (n :: d) e)

/-- `os.MkdirAll`, with the tree it leaves behind when it fails. -/
def mkdirAll (t : Tree) (f : Faults) : Path → Tree × Option Errno
  | [] => (t, none)
  | n :: d =>
    match t.get (n :: d) with
    | some .dir => (t, none)
    | some (.leaf _) => (t, some .notDir)
    | none =>
      match mkdirAll t f d with
      | (t', some e) => (t', some e)
      | (t', none) =>
        if f.mkdir (n :: d) = true then (t', some .other)
        else
          match t'.put? (n :: d) .dir with
          | some t'' => (t'', none)
          | none => (t', some .notExist)

/-- `os.WriteFile` at a path that is free, with the tree it leaves behind when it fails. -/
def writeFile (t : Tree) (f : Faults) (p : Path) (data : List UInt8) : Tree × Option Errno :=
  if f.openFile = true then (t, some .other)
  else
    match f.write with
    | none =>
      match t.put? p (.leaf (.file data)) with
      | some t' => (t', none)
      | none => (t, some .notExist)
    | some n =>
      match t.put? p (.leaf (.file (data.take n))) with
      | some t' => (t', some .other)
      | none => (t, some .notExist)

/-- The user's directory and the manifest that is filled in meanwhile. -/
structure Session where
  tree : Tree
  manifest : SidecarManifest

def recordMkdirAll (s : Session) (path : Path) (f : Faults) : Session × Option RecordError :=
  match toCreate s.tree f path with
  | .error e => (s, some e)
  | .ok dirs =>
    match mkdirAll s.tree f path with
    | (t, some e) => (⟨t, s.manifest⟩, some (.mkdirAll e))
    -- the walk went from the leaf upwards
    | (t, none) => (⟨t, { s.manifest with dirs := s.manifest.dirs ++ dirs.reverse }⟩, none)

def recordWriteFile (s : Session) (path : Path) (data : List UInt8) (f : Faults) :
    Session × Option RecordError :=
  match lstat s.tree f path with
  | .ok () => (s, some (.errPathPreExists path))
  | .error .notExist =>
    match writeFile s.tree f path data with
    | (t, some e) => (⟨t, s.manifest⟩, some (.writeFile e))
    | (t, none) => (⟨t, { s.manifest with files := s.manifest.files ++ [path] }⟩, none)
  | .error e => (s, some (.statTarget path e))

inductive Call where
  | recordMkdirAll (path : Path) (faults : Faults)
  | recordWriteFile (path : Path) (data : List UInt8) (faults : Faults)

def Call.run (s : Session) : Call → Session × Option RecordError
  | .recordMkdirAll path f => Sidecars.recordMkdirAll s path f
  | .recordWriteFile path data f => Sidecars.recordWriteFile s path data f

/-- The calls of one preparation. -/
def runCalls (s : Session) (calls : List Call) : Session :=
  calls.foldl (fun s c => (c.run s).1) s

/-- How `Prepare` ends: an error before the manifest is stored, a store that fails (which is logged
and passed over), or a stored manifest. -/
inductive Outcome where
  | failed
  | unwritten
  | written
deriving DecidableEq, Repr

/-- The user's directory after `Prepare`, and the manifest file in the scratch directory. -/
def Prepare (t : Tree) (calls : List Call) (o : Outcome) : Tree × Option SidecarManifest :=
  let s := runCalls ⟨t, ⟨[], []⟩⟩ calls
  match o with
  | .failed => (s.tree, none)
  | .unwritten => (s.tree, none)
  | .written => (s.tree, some s.manifest)

/-- What the user and the agent add afterwards, each entry where there is room for it. -/
def addAll (t : Tree) (adds : List (Path × Entry Content)) : Tree :=
  adds.foldl (fun t a => (t.put? a.1 a.2).getD t) t

/-- `os.Remove` -/
def remove (t : Tree) (p : Path) : Tree × Option Errno :=
  match t.remove? p with
  | some t' => (t', none)
  | none =>
    match t.get p with
    | none => (t, some (if above t p = .dir then .notExist else .notDir))
    | some _ => (t, some .notEmpty)

/-- `dirHasEntries` -/
def dirHasEntries (t : Tree) (d : Path) : Option Bool :=
  match t.get d with
  | none => if above t d = .dir then some false else none
  | some (.leaf _) => none
  | some .dir => some (decide (¬ t.isBare d))

/-- The first error that the clean-up reports, by the path it is about. -/
abbrev FirstErr := Option (Path × Errno)

def FirstErr.capture (first : FirstErr) (p : Path) (e : Errno) : FirstErr :=
  match first with
  | some err => some err
  | none => some (p, e)

def cleanupFile (st : Tree × FirstErr) (p : Path) : Tree × FirstErr :=
  match remove st.1 p with
  | (t, none) => (t, st.2)
  | (t, some .notExist) => (t, st.2)
  | (t, some e) => (t, st.2.capture p e)

def cleanupDir (st : Tree × FirstErr) (d : Path) : Tree × FirstErr :=
  match remove st.1 d with
  | (t, none) => (t, st.2)
  | (t, some .notExist) => (t, st.2)
  | (t, some e) =>
    match dirHasEntries t d with
    -- the user has put something into the directory
    | some true => (t, st.2)
    | some false => (t, st.2.capture d e)
    | none => (t, st.2.capture d e)

def CleanupSidecars (t : Tree) (manifest : Option SidecarManifest) : Tree × FirstErr :=
  match manifest with
  | none => (t, none)
  | some m => m.dirs.reverse.foldl cleanupDir (m.files.foldl cleanupFile (t, none))

/-! ### The clean-up is the record undone -/

theorem remove_tree (t : Tree) (p : Path) : (remove t p).1 = t.drop p := by
  unfold remove FileTree.drop
  cases t.remove? p with
  | some t' => rfl
  | none =>
    cases t.get p with
    | none => rfl
    | some e => rfl

theorem cleanupFile_tree (st : Tree × FirstErr) (p : Path) :
    (cleanupFile st p).1 = st.1.drop p := by
  rw [← remove_tree]
  unfold cleanupFile
  rcases remove st.1 p with ⟨t, _ | e⟩
  · rfl
  · cases e <;> rfl

theorem cleanupDir_tree (st : Tree × FirstErr) (p : Path) :
    (cleanupDir st p).1 = st.1.drop p := by
  rw [← remove_tree]
  unfold cleanupDir
  rcases remove st.1 p with ⟨t, _ | e⟩
  · rfl
  · cases e with
    | notExist => rfl
    | _ =>
      dsimp only
      rcases dirHasEntries t p with _ | _ | _
      · rfl
      · rfl
      · rfl

theorem foldl_cleanup {f : Tree × FirstErr → Path → Tree × FirstErr}
    (hf : ∀ st p, (f st p).1 = st.1.drop p) (record : List Path) (st : Tree × FirstErr) :
    (record.foldl f st).1 = st.1.undo record.reverse := by
  induction record generalizing st with
  | nil => rfl
  | cons p rest ih =>
    rw [List.foldl_cons, ih, hf, List.reverse_cons]
    unfold FileTree.undo
    rw [List.foldr_append]
    rfl

theorem CleanupSidecars_tree (t : Tree) (m : SidecarManifest) :
    (CleanupSidecars t (some m)).1 = (t.undo m.files.reverse).undo m.dirs := by
  unfold CleanupSidecars
  dsimp only
  rw [foldl_cleanup cleanupDir_tree, foldl_cleanup cleanupFile_tree, List.reverse_reverse]

/-! ### What a `MkdirAll` makes -/

theorem lstat_ok {t : Tree} {f : Faults} {p : Path} (h : lstat t f p = .ok ()) :
    t.get p ≠ none := by
  unfold lstat at h
  split at h
  · cases h
  · split at h
    · assumption
    · split at h <;> cases h

/-- A path that does not exist, below a directory. -/
theorem lstat_notExist {t : Tree} {f : Faults} {p : Path} (h : lstat t f p = .error .notExist) :
    t.get p = none ∧ above t p = .dir := by
  unfold lstat at h
  split at h
  · cases h
  · split at h
    · cases h
    · rename_i hnone
      split at h
      · exact ⟨not_not.1 hnone, by assumption⟩
      · cases h

theorem above_of_none {t : Tree} {n : String} {d : Path} (h : t.get (n :: d) = none) :
    above t (n :: d) = above t d := by
  rw [above, h, Option.getD_none]

theorem above_of_some {t : Tree} {d : Path} {e : Entry Content} (h : t.get d = some e) :
    above t d = e := by
  cases d with
  | nil =>
    rw [t.get_root] at h
    exact Option.some.inj h
  | cons n d => rw [above, h, Option.getD_some]

theorem toCreate_cons {t : Tree} {f : Faults} {n : String} {d : Path} {l : List Path}
    (h : toCreate t f (n :: d) = .ok l) :
    (l = [] ∧ t.get (n :: d) ≠ none) ∨
      (t.get (n :: d) = none ∧ above t d = .dir ∧
        ∃ rest, toCreate t f d = .ok rest ∧ l = (n :: d) :: rest) := by
  unfold toCreate at h
  cases hstat : lstat t f (n :: d) with
  | ok u =>
    rw [hstat] at h
    cases h
    exact Or.inl ⟨rfl, lstat_ok hstat⟩
  | error e =>
    rw [hstat] at h
    cases e with
    | notExist =>
      rcases lstat_notExist hstat with ⟨hnone, habove⟩
      rw [above_of_none hnone] at habove
      cases hrest : toCreate t f d with
      | error e' =>
        rw [hrest] at h
        cases h
      | ok rest =>
        rw [hrest] at h
        cases h
        exact Or.inr ⟨hnone, habove, rest, rfl, rfl⟩
    | notDir => cases h
    | notEmpty => cases h
    | other => cases h

/-- The directories that are missing on the way to a path, each below the next. -/
theorem toCreate_spec {t : Tree} {f : Faults} {p : Path} {l : List Path}
    (h : toCreate t f p = .ok l) :
    (∀ q ∈ l, t.get q = none ∧ q ≠ [] ∧ q.length ≤ p.length) ∧
      l.Pairwise fun d d' => d'.length < d.length := by
  induction p generalizing l with
  | nil =>
    unfold toCreate at h
    cases hstat : lstat t f [] with
    | ok u =>
      rw [hstat] at h
      cases h
      exact ⟨fun q hq => absurd hq List.not_mem_nil, List.Pairwise.nil⟩
    | error e =>
      rw [hstat] at h
      cases h
  | cons n d ih =>
    rcases toCreate_cons h with ⟨rfl, -⟩ | ⟨hnone, -, rest, hrest, rfl⟩
    · exact ⟨fun q hq => absurd hq List.not_mem_nil, List.Pairwise.nil⟩
    · rcases ih hrest with ⟨hall, hpair⟩
      refine ⟨?_, List.pairwise_cons.2 ⟨?_, hpair⟩⟩
      · intro q hq
        rcases List.mem_cons.1 hq with rfl | hq
        · exact ⟨hnone, List.cons_ne_nil n d, Nat.le_refl _⟩
        · rcases hall q hq with ⟨hq1, hq2, hq3⟩
          exact ⟨hq1, hq2, Nat.le_succ_of_le hq3⟩
      · intro q hq
        exact Nat.lt_succ_of_le (hall q hq).2.2

/-- A path is missing or there. -/
theorem mem_toCreate {t : Tree} {f : Faults} {p : Path} {l : List Path}
    (h : toCreate t f p = .ok l) : p ∈ l ∨ ∃ e, t.get p = some e := by
  cases p with
  | nil => exact Or.inr ⟨.dir, t.get_root⟩
  | cons n d =>
    rcases toCreate_cons h with ⟨-, hsome⟩ | ⟨-, -, rest, -, rfl⟩
    · exact Or.inr (Option.ne_none_iff_exists'.1 hsome)
    · exact Or.inl List.mem_cons_self

/-- The missing directories that are made before one is refused, the root first. -/
def made (f : Faults) (missing : List Path) : List Path :=
  missing.reverse.takeWhile fun q => !f.mkdir q

theorem not_refused {f : Faults} {missing : List Path} (h : ¬ missing.any f.mkdir = true) :
    ∀ q ∈ missing.reverse, (!f.mkdir q) = true := by
  intro q hq
  rw [Bool.not_eq_true', ← Bool.not_eq_true]
  exact fun hqf => h (List.any_eq_true.2 ⟨q, List.mem_reverse.1 hq, hqf⟩)

theorem made_eq_reverse {f : Faults} {missing : List Path} (h : ¬ missing.any f.mkdir = true) :
    made f missing = missing.reverse :=
  List.takeWhile_eq_self_iff.2 (not_refused h)

theorem made_cons (f : Faults) (p : Path) (rest : List Path) :
    made f (p :: rest) =
      if rest.any f.mkdir = true then made f rest
      else if f.mkdir p = true then rest.reverse
      else rest.reverse ++ [p] := by
  unfold made
  rw [List.reverse_cons]
  by_cases hrefused : rest.any f.mkdir = true
  · rw [if_pos hrefused]
    rcases List.any_eq_true.1 hrefused with ⟨q, hq, hqf⟩
    rw [List.takeWhile_append]
    rw [if_neg]
    intro hlen
    have hall := List.takeWhile_eq_self_iff.1
      ((List.takeWhile_prefix _).eq_of_length hlen) q (List.mem_reverse.2 hq)
    rw [hqf] at hall
    cases hall
  · rw [if_neg hrefused, List.takeWhile_append_of_pos (not_refused hrefused)]
    by_cases hp : f.mkdir p = true
    · rw [if_pos hp]
      simp [hp]
    · rw [if_neg hp]
      simp [hp]

theorem made_subset (f : Faults) (missing : List Path) : ∀ q ∈ made f missing, q ∈ missing :=
  fun _ hq => List.mem_reverse.1 ((List.takeWhile_subset _) hq)

/-- `MkdirAll` makes the missing directories up to the first that is refused, and fails when one
is. -/
theorem mkdirAll_get {t : Tree} {f : Faults} {p : Path} {l : List Path}
    (h : toCreate t f p = .ok l) (hdir : above t p = .dir) :
    (∀ q, (mkdirAll t f p).1.get q = if q ∈ made f l then some .dir else t.get q) ∧
      ((mkdirAll t f p).2 = none ↔ l.any f.mkdir = false) := by
  induction p generalizing l with
  | nil =>
    have hl : l = [] := by
      have hspec := (toCreate_spec h).1
      cases l with
      | nil => rfl
      | cons q rest =>
        rcases hspec q List.mem_cons_self with ⟨-, hne, hlen⟩
        exact absurd (List.length_eq_zero_iff.1 (Nat.le_zero.1 hlen)) hne
    subst hl
    refine ⟨fun q => ?_, by simp [mkdirAll]⟩
    rw [if_neg (by simp [made])]
    rfl
  | cons n d ih =>
    rcases toCreate_cons h with ⟨rfl, hsome⟩ | ⟨hnone, habove, rest, hrest, rfl⟩
    · -- the directory is there
      have hget : t.get (n :: d) = some .dir := by
        cases hget : t.get (n :: d) with
        | none => exact absurd hget hsome
        | some e => rw [above_of_some hget] at hdir; rw [hdir]
      unfold mkdirAll
      simp only [hget]
      refine ⟨fun q => ?_, by simp⟩
      rw [if_neg (by simp [made])]
    · rcases ih hrest habove with ⟨hget, hok⟩
      rw [mkdirAll, hnone]
      dsimp only
      rw [made_cons, List.any_cons]
      by_cases hrefused : rest.any f.mkdir = true
      · -- refused further up: the walk down stops there
        cases hr : mkdirAll t f d with
        | mk t' err =>
          rw [hr] at hget hok
          cases err with
          | none =>
            rw [hok.1 rfl] at hrefused
            cases hrefused
          | some e =>
            dsimp only
            rw [if_pos hrefused]
            refine ⟨hget, ?_⟩
            rw [hrefused, Bool.or_true]
            simp
      · have hmade : made f rest = rest.reverse := by
          unfold made
          rw [List.takeWhile_eq_self_iff]
          intro q hq
          rw [Bool.not_eq_true', ← Bool.not_eq_true]
          exact fun hqf => hrefused (List.any_eq_true.2 ⟨q, List.mem_reverse.1 hq, hqf⟩)
        rw [hmade] at hget
        cases hr : mkdirAll t f d with
        | mk t' err =>
          rw [hr] at hget hok
          have herr : err = none := hok.2 (Bool.not_eq_true _ ▸ hrefused)
          subst herr
          dsimp only at hget ⊢
          rw [if_neg hrefused]
          rw [Bool.not_eq_true] at hrefused
          by_cases hp : f.mkdir (n :: d) = true
          · rw [if_pos hp, if_pos hp]
            refine ⟨hget, ?_⟩
            rw [hp, Bool.true_or]
            simp
          · rw [if_neg hp, if_neg hp]
            have hbelow : ∀ q ∈ rest, q.length ≤ d.length :=
              fun q hq => ((toCreate_spec hrest).1 q hq).2.2
            have hnew : n :: d ∉ rest.reverse := by
              intro hmem
              exact Nat.not_succ_le_self _ (hbelow _ (List.mem_reverse.1 hmem))
            have hparent : t'.get d = some .dir := by
              rw [hget]
              by_cases hmem : d ∈ rest.reverse
              · exact if_pos hmem
              · rw [if_neg hmem]
                rcases mem_toCreate hrest with hmem' | ⟨e, he⟩
                · exact absurd (List.mem_reverse.2 hmem') hmem
                · rw [above_of_some he] at habove
                  rw [he, habove]
            have hfree : t'.get (n :: d) = none := by rw [hget, if_neg hnew, hnone]
            rcases FileTree.put?_isSome .dir hparent hfree with ⟨t'', hput⟩
            rw [hput]
            dsimp only
            refine ⟨fun q => ?_, ?_⟩
            · rw [(FileTree.put?_eq_some hput).2, hget]
              by_cases hq : q = n :: d
              · have hmem : q ∈ rest.reverse ++ [n :: d] :=
                  List.mem_append_right _ (List.mem_singleton.2 hq)
                rw [if_pos hq, if_pos hmem]
              · rw [if_neg hq]
                simp [hq]
            · rw [Bool.not_eq_true] at hp
              rw [hp, hrefused]
              simp

theorem mkdirAll_existing {t : Tree} {f : Faults} {p : Path} (h : t.get p ≠ none) :
    (mkdirAll t f p).1 = t := by
  cases p with
  | nil => rfl
  | cons n d =>
    unfold mkdirAll
    cases hget : t.get (n :: d) with
    | none => exact absurd hget h
    | some e =>
      cases e with
      | dir => rfl
      | leaf data => rfl

/-! ### What a call makes and records -/

/-- Whether some directory is made on the way to a path, and whether one is refused. -/
def makesDir (t : Tree) (f : Faults) (path : Path) : Bool :=
  match toCreate t f path with
  | .ok dirs => !(made f dirs).isEmpty
  | .error _ => false

def refusesDir (t : Tree) (f : Faults) (path : Path) : Bool :=
  match toCreate t f path with
  | .ok dirs => dirs.any f.mkdir
  | .error _ => false

/-- Whether a file is made: the path is free, it stands in a directory and the file is opened. -/
def makesFile (t : Tree) (f : Faults) (path : Path) : Bool :=
  match lstat t f path with
  | .error .notExist => decide (t.get path.tail = some .dir) && !f.openFile
  | _ => false

/-- Whether a call makes a file or a directory, from the tree before it. -/
def Call.makes (t : Tree) : Call → Bool
  | .recordMkdirAll path f => makesDir t f path
  | .recordWriteFile path _ f => makesFile t f path

/-- Whether it fails after it has made one. -/
def Call.stopsPartWay (t : Tree) : Call → Bool
  | .recordMkdirAll path f => makesDir t f path && refusesDir t f path
  | .recordWriteFile path _ f => makesFile t f path && f.write.isSome

/-- A call adds to the tree and to the manifest, and what it records it has made. -/
structure Extends (s s' : Session) : Prop where
  grows : ∀ p e, s.tree.get p = some e → s'.tree.get p = some e
  recorded : ∃ files dirs, s'.manifest = ⟨s.manifest.files ++ files, s.manifest.dirs ++ dirs⟩ ∧
    (∀ p ∈ files, s.tree.get p = none ∧ ∃ c, s'.tree.get p = some (.leaf c)) ∧
    (∀ p ∈ dirs, s.tree.get p = none ∧ s'.tree.get p = some .dir) ∧
    dirs.Pairwise fun d d' => ¬ d' <:+ d

theorem Extends.refl (s : Session) : Extends s s :=
  ⟨fun _ _ h => h, [], [], by simp, by simp, by simp, List.Pairwise.nil⟩

/-- The full effect of a call. -/
structure Effect (s s' : Session) (makes stops : Bool) : Prop extends Extends s s' where
  idle : makes = false → ∀ p, s.tree.get p = none → s'.tree.get p = none
  busy : makes = true → ∃ p, s.tree.get p = none ∧ s'.tree.get p ≠ none
  complete : stops = false → ∀ p, s.tree.get p = none → s'.tree.get p ≠ none →
    p ∈ s'.manifest.files ∨ p ∈ s'.manifest.dirs
  partly : stops = true → s'.manifest = s.manifest ∧
    ∃ p, s.tree.get p = none ∧ s'.tree.get p ≠ none

theorem Effect.refl (s : Session) : Effect s s false false :=
  { Extends.refl s with
    idle := fun _ _ h => h
    busy := fun h => Bool.noConfusion h
    complete := fun _ _ h h' => absurd h h'
    partly := fun h => Bool.noConfusion h }

theorem above_of_toCreate {t : Tree} {f : Faults} {p : Path} {l : List Path}
    (h : toCreate t f p = .ok l) (hne : l ≠ []) : above t p = .dir := by
  cases p with
  | nil => rfl
  | cons n d =>
    rcases toCreate_cons h with ⟨rfl, -⟩ | ⟨hnone, habove, -⟩
    · exact absurd rfl hne
    · rw [above_of_none hnone]
      exact habove

theorem recordMkdirAll_existing {s : Session} {path : Path} {f : Faults}
    (hwalk : toCreate s.tree f path = .ok []) : (recordMkdirAll s path f).1 = s := by
  have hthere : s.tree.get path ≠ none := by
    rcases mem_toCreate hwalk with hmem | ⟨e, he⟩
    · exact absurd hmem List.not_mem_nil
    · rw [he]
      exact Option.some_ne_none e
  have htree := mkdirAll_existing (f := f) hthere
  unfold recordMkdirAll
  simp only [hwalk]
  cases hr : mkdirAll s.tree f path with
  | mk t err =>
    rw [hr] at htree
    cases htree
    cases err with
    | none => simp
    | some e => rfl

/-- When directories are missing, they are made up to the first that is refused and recorded when
none is. -/
theorem recordMkdirAll_missing {s : Session} {path : Path} {f : Faults} {l : List Path}
    (hwalk : toCreate s.tree f path = .ok l) (hne : l ≠ []) :
    (∀ q, (recordMkdirAll s path f).1.tree.get q
      = if q ∈ made f l then some .dir else s.tree.get q) ∧
    (recordMkdirAll s path f).1.manifest =
      if l.any f.mkdir = true then s.manifest
      else ⟨s.manifest.files, s.manifest.dirs ++ l.reverse⟩ := by
  rcases mkdirAll_get hwalk (above_of_toCreate hwalk hne) with ⟨hget, hok⟩
  unfold recordMkdirAll
  simp only [hwalk]
  cases hr : mkdirAll s.tree f path with
  | mk t err =>
    rw [hr] at hget hok
    cases err with
    | none =>
      refine ⟨hget, ?_⟩
      rw [hok.1 rfl]
      rfl
    | some e =>
      have hrefused : l.any f.mkdir = true := by
        rw [← Bool.not_eq_false]
        intro hall
        cases hok.2 hall
      refine ⟨hget, ?_⟩
      rw [if_pos hrefused]

theorem recordMkdirAll_effect (s : Session) (path : Path) (f : Faults) :
    Effect s (recordMkdirAll s path f).1 (makesDir s.tree f path)
      (makesDir s.tree f path && refusesDir s.tree f path) := by
  unfold makesDir refusesDir
  cases hwalk : toCreate s.tree f path with
  | error e =>
    have hsame : (recordMkdirAll s path f).1 = s := by
      unfold recordMkdirAll
      rw [hwalk]
    rw [hsame]
    exact Effect.refl s
  | ok l =>
    by_cases hempty : l = []
    · subst hempty
      rw [recordMkdirAll_existing hwalk]
      exact Effect.refl s
    rcases recordMkdirAll_missing hwalk hempty with ⟨hget, hmanifest⟩
    rcases toCreate_spec hwalk with ⟨hmissing, hpair⟩
    have hfree : ∀ q ∈ made f l, s.tree.get q = none :=
      fun q hq => (hmissing q (made_subset f l q hq)).1
    have hgrows : ∀ p e, s.tree.get p = some e →
        (recordMkdirAll s path f).1.tree.get p = some e := by
      intro p e hp
      rw [hget, if_neg, hp]
      intro hmem
      rw [hfree p hmem] at hp
      cases hp
    have hnew : ∀ p, s.tree.get p = none → (recordMkdirAll s path f).1.tree.get p ≠ none →
        p ∈ made f l := by
      intro p hp hp'
      by_contra hmem
      rw [hget, if_neg hmem, hp] at hp'
      exact hp' rfl
    have hmade : made f l ≠ [] → ∃ p, s.tree.get p = none ∧
        (recordMkdirAll s path f).1.tree.get p ≠ none := by
      intro hne
      rcases List.exists_mem_of_ne_nil _ hne with ⟨p, hp⟩
      refine ⟨p, hfree p hp, ?_⟩
      rw [hget, if_pos hp]
      exact Option.some_ne_none _
    dsimp only
    refine { grows := hgrows, recorded := ?_, idle := ?_, busy := ?_, complete := ?_, partly := ?_ }
    · by_cases hrefused : l.any f.mkdir = true
      · rw [if_pos hrefused] at hmanifest
        exact ⟨[], [], by simp [hmanifest], by simp, by simp, List.Pairwise.nil⟩
      · rw [if_neg hrefused] at hmanifest
        refine ⟨[], l.reverse, by simp [hmanifest], by simp, ?_, ?_⟩
        · intro p hp
          rw [← made_eq_reverse hrefused] at hp
          exact ⟨hfree p hp, by rw [hget, if_pos hp]⟩
        · -- the walk records from the root downwards
          rw [List.pairwise_reverse]
          refine hpair.imp ?_
          intro d d' hlen hsuffix
          exact Nat.not_le_of_lt hlen hsuffix.length_le
    · intro hidle p hp
      by_contra hp'
      have hmem := hnew p hp hp'
      rw [Bool.not_eq_false', List.isEmpty_iff] at hidle
      rw [hidle] at hmem
      cases hmem
    · intro hbusy
      refine hmade ?_
      rw [Bool.not_eq_true', ← Bool.not_eq_true, List.isEmpty_iff] at hbusy
      exact hbusy
    · intro hstops p hp hp'
      have hmem := hnew p hp hp'
      have hrefused : ¬ l.any f.mkdir = true := by
        intro hrefused
        rw [hrefused, Bool.and_true, Bool.not_eq_false', List.isEmpty_iff] at hstops
        rw [hstops] at hmem
        cases hmem
      rw [if_neg hrefused] at hmanifest
      rw [hmanifest]
      exact Or.inr (List.mem_append_right _ (made_eq_reverse hrefused ▸ hmem))
    · intro hstops
      rw [Bool.and_eq_true, Bool.not_eq_true', ← Bool.not_eq_true, List.isEmpty_iff] at hstops
      rw [if_pos hstops.2] at hmanifest
      exact ⟨hmanifest, hmade hstops.1⟩

/-- A file is made whole and recorded, or made in part and not recorded. -/
theorem recordWriteFile_makes {s : Session} {path : Path} {data : List UInt8} {f : Faults}
    (h : makesFile s.tree f path = true) :
    s.tree.get path = none ∧ ∃ c,
      (∀ q, (recordWriteFile s path data f).1.tree.get q
        = if q = path then some (.leaf c) else s.tree.get q) ∧
      (recordWriteFile s path data f).1.manifest =
        if f.write.isSome = true then s.manifest
        else ⟨s.manifest.files ++ [path], s.manifest.dirs⟩ := by
  unfold makesFile at h
  cases hstat : lstat s.tree f path with
  | ok u =>
    rw [hstat] at h
    cases h
  | error e =>
    rw [hstat] at h
    cases e with
    | notExist =>
      rcases lstat_notExist hstat with ⟨hfree, -⟩
      dsimp only at h
      rw [Bool.and_eq_true, decide_eq_true_iff, Bool.not_eq_true'] at h
      cases path with
      | nil =>
        rw [s.tree.get_root] at hfree
        cases hfree
      | cons n d =>
        refine ⟨hfree, ?_⟩
        have hdir : s.tree.get d = some .dir := h.1
        unfold recordWriteFile writeFile
        simp only [hstat, h.2, Bool.false_eq_true, if_false]
        cases hw : f.write with
        | none =>
          rcases FileTree.put?_isSome (.leaf (.file data)) hdir hfree with ⟨t', hput⟩
          refine ⟨.file data, ?_⟩
          simp only [hput]
          exact ⟨(FileTree.put?_eq_some hput).2, rfl⟩
        | some k =>
          rcases FileTree.put?_isSome (.leaf (.file (data.take k))) hdir hfree with ⟨t', hput⟩
          refine ⟨.file (data.take k), ?_⟩
          simp only [hput]
          exact ⟨(FileTree.put?_eq_some hput).2, rfl⟩
    | notDir => cases h
    | notEmpty => cases h
    | other => cases h

theorem recordWriteFile_idle {s : Session} {path : Path} {data : List UInt8} {f : Faults}
    (h : makesFile s.tree f path = false) : (recordWriteFile s path data f).1 = s := by
  unfold makesFile at h
  unfold recordWriteFile
  cases hstat : lstat s.tree f path with
  | ok u => rfl
  | error e =>
    rw [hstat] at h
    cases e with
    | notExist =>
      rcases lstat_notExist hstat with ⟨hfree, -⟩
      dsimp only at h ⊢
      unfold writeFile
      cases hopen : f.openFile with
      | true => simp
      | false =>
        rw [hopen, Bool.not_false, Bool.and_true, decide_eq_false_iff_not] at h
        cases path with
        | nil =>
          rw [s.tree.get_root] at hfree
          cases hfree
        | cons n d =>
          have hdir : s.tree.get d ≠ some .dir := h
          cases hw : f.write with
          | none => simp [FileTree.put?_eq_none _ hdir]
          | some k => simp [FileTree.put?_eq_none _ hdir]
    | notDir => rfl
    | notEmpty => rfl
    | other => rfl

theorem recordWriteFile_effect (s : Session) (path : Path) (data : List UInt8) (f : Faults) :
    Effect s (recordWriteFile s path data f).1 (makesFile s.tree f path)
      (makesFile s.tree f path && f.write.isSome) := by
  cases hmakes : makesFile s.tree f path with
  | false =>
    rw [recordWriteFile_idle hmakes, Bool.false_and]
    exact Effect.refl s
  | true =>
    rcases recordWriteFile_makes hmakes with ⟨hfree, c, hget, hmanifest⟩
    have hmade : (recordWriteFile s path data f).1.tree.get path = some (.leaf c) := by
      rw [hget, if_pos rfl]
    have hnew : ∃ p, s.tree.get p = none ∧ (recordWriteFile s path data f).1.tree.get p ≠ none :=
      ⟨path, hfree, by rw [hmade]; exact Option.some_ne_none _⟩
    rw [Bool.true_and]
    refine { grows := ?_, recorded := ?_, idle := ?_, busy := fun _ => hnew, complete := ?_,
             partly := ?_ }
    · intro p e hp
      rw [hget, if_neg, hp]
      rintro rfl
      rw [hfree] at hp
      cases hp
    · cases hwrite : f.write.isSome with
      | true =>
        rw [hwrite, if_pos rfl] at hmanifest
        exact ⟨[], [], by simp [hmanifest], by simp, by simp, List.Pairwise.nil⟩
      | false =>
        rw [hwrite, if_neg Bool.false_ne_true] at hmanifest
        refine ⟨[path], [], by simp [hmanifest], ?_, by simp, List.Pairwise.nil⟩
        intro p hp
        cases List.mem_singleton.1 hp
        exact ⟨hfree, c, hmade⟩
    · exact fun h => Bool.noConfusion h
    · intro hstops p hp hp'
      rw [hstops, if_neg Bool.false_ne_true] at hmanifest
      rw [hmanifest]
      by_cases heq : p = path
      · exact Or.inl (List.mem_append_right _ (List.mem_singleton.2 heq))
      · rw [hget, if_neg heq, hp] at hp'
        exact absurd rfl hp'
    · intro hstops
      rw [hstops, if_pos rfl] at hmanifest
      exact ⟨hmanifest, hnew⟩

theorem Call.effect (s : Session) (c : Call) :
    Effect s (c.run s).1 (c.makes s.tree) (c.stopsPartWay s.tree) := by
  cases c with
  | recordMkdirAll path f => exact recordMkdirAll_effect s path f
  | recordWriteFile path data f => exact recordWriteFile_effect s path data f

end Orynx.Daemon.Sidecars
