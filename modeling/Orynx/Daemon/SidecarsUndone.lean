import Orynx.Daemon.Sidecars

/-! # The clean-up leaves the directory as it was

* `Sound.runCalls`: over any sequence of calls, failing ones among them, what was there stays, and
  the manifest lists new entries only, the directories from the root downwards.
* `Stranded`: a new entry that the stored manifest does not list.
* `cleanup_reversible`: without one, the clean-up removes what was made and nothing else.
-/

namespace Orynx.Daemon.Sidecars

open Lib

/-! ### Every sequence of calls -/

/-- What holds between the tree before the preparation and the session during it. -/
structure Sound (t₀ : Tree) (s : Session) : Prop where
  grows : ∀ p e, t₀.get p = some e → s.tree.get p = some e
  files : ∀ p ∈ s.manifest.files, t₀.get p = none ∧ ∃ c, s.tree.get p = some (.leaf c)
  dirs : ∀ p ∈ s.manifest.dirs, t₀.get p = none ∧ s.tree.get p = some .dir
  ordered : s.manifest.dirs.Pairwise fun d d' => ¬ d' <:+ d

theorem Sound.init (t : Tree) : Sound t ⟨t, ⟨[], []⟩⟩ :=
  ⟨fun _ _ h => h, by simp, by simp, List.Pairwise.nil⟩

theorem Sound.free {t₀ : Tree} {s : Session} (h : Sound t₀ s) {p : Path}
    (hp : s.tree.get p = none) : t₀.get p = none := by
  cases hget : t₀.get p with
  | none => rfl
  | some e =>
    rw [h.grows p e hget] at hp
    cases hp

theorem Sound.extends {t₀ : Tree} {s s' : Session} (h : Sound t₀ s) (hs : Extends s s') :
    Sound t₀ s' := by
  rcases hs.recorded with ⟨files, dirs, hmanifest, hfiles, hdirs, hordered⟩
  rw [SidecarManifest.mk.injEq] at hmanifest
  refine ⟨fun p e hp => hs.grows p e (h.grows p e hp), ?_, ?_, ?_⟩
  · intro p hp
    rw [hmanifest.1] at hp
    rcases List.mem_append.1 hp with hp | hp
    · rcases h.files p hp with ⟨hnone, c, hc⟩
      exact ⟨hnone, c, hs.grows p _ hc⟩
    · exact ⟨h.free (hfiles p hp).1, (hfiles p hp).2⟩
  · intro p hp
    rw [hmanifest.2] at hp
    rcases List.mem_append.1 hp with hp | hp
    · exact ⟨(h.dirs p hp).1, hs.grows p _ (h.dirs p hp).2⟩
    · exact ⟨h.free (hdirs p hp).1, (hdirs p hp).2⟩
  · rw [hmanifest.2, List.pairwise_append]
    refine ⟨h.ordered, hordered, ?_⟩
    -- a new directory is not above one that was there
    intro d hd d' hd' hsuffix
    have hfree := (hdirs d' hd').1
    have hthere := (h.dirs d hd).2
    by_cases heq : d' = d
    · rw [heq, hthere] at hfree
      cases hfree
    · rw [FileTree.get_of_suffix hthere hsuffix heq] at hfree
      cases hfree

theorem Sound.runCalls {t₀ : Tree} {s : Session} (h : Sound t₀ s) (calls : List Call) :
    Sound t₀ (runCalls s calls) := by
  induction calls generalizing s with
  | nil => exact h
  | cons c rest ih => exact ih (h.extends (c.effect s).toExtends)

/-! ### What a sequence loses track of -/

/-- A new entry that the manifest does not list. -/
def Lost (t₀ : Tree) (s : Session) : Prop :=
  ∃ p, t₀.get p = none ∧ s.tree.get p ≠ none ∧ p ∉ s.manifest.files ∧ p ∉ s.manifest.dirs

/-- A new entry. -/
def Grown (t₀ : Tree) (s : Session) : Prop :=
  ∃ p, t₀.get p = none ∧ s.tree.get p ≠ none

theorem Extends.get_ne {s s' : Session} (h : Extends s s') {p : Path} (hp : s.tree.get p ≠ none) :
    s'.tree.get p ≠ none := by
  rcases Option.ne_none_iff_exists'.1 hp with ⟨e, he⟩
  rw [h.grows p e he]
  exact Option.some_ne_none e

/-- What has been lost is not found again: a call records what was free before it only. -/
theorem Lost.extends {t₀ : Tree} {s s' : Session} (h : Lost t₀ s) (hs : Extends s s') :
    Lost t₀ s' := by
  rcases h with ⟨p, hnone, hthere, hfile, hdir⟩
  rcases hs.recorded with ⟨files, dirs, hmanifest, hfiles, hdirs, -⟩
  rw [SidecarManifest.mk.injEq] at hmanifest
  refine ⟨p, hnone, hs.get_ne hthere, ?_, ?_⟩
  · rw [hmanifest.1, List.mem_append, not_or]
    exact ⟨hfile, fun hp => hthere (hfiles p hp).1⟩
  · rw [hmanifest.2, List.mem_append, not_or]
    exact ⟨hdir, fun hp => hthere (hdirs p hp).1⟩

theorem Grown.extends {t₀ : Tree} {s s' : Session} (h : Grown t₀ s) (hs : Extends s s') :
    Grown t₀ s' := by
  rcases h with ⟨p, hnone, hthere⟩
  exact ⟨p, hnone, hs.get_ne hthere⟩

theorem Lost.runCalls {t₀ : Tree} {s : Session} (h : Lost t₀ s) (calls : List Call) :
    Lost t₀ (runCalls s calls) := by
  induction calls generalizing s with
  | nil => exact h
  | cons c rest ih => exact ih (h.extends (c.effect s).toExtends)

theorem Grown.runCalls {t₀ : Tree} {s : Session} (h : Grown t₀ s) (calls : List Call) :
    Grown t₀ (runCalls s calls) := by
  induction calls generalizing s with
  | nil => exact h
  | cons c rest ih => exact ih (h.extends (c.effect s).toExtends)

/-- A condition on the tree before each call of a sequence. -/
def Throughout (cond : Tree → Call → Bool) : Session → List Call → Prop
  | _, [] => True
  | s, c :: rest => cond s.tree c = true ∧ Throughout cond (c.run s).1 rest

def wholeCall (t : Tree) (c : Call) : Bool := !c.stopsPartWay t

def idleCall (t : Tree) (c : Call) : Bool := !c.makes t

/-- Nothing is lost exactly when no call fails after it has made something. -/
theorem not_lost_iff {t₀ : Tree} {s : Session} (h : Sound t₀ s) (hs : ¬ Lost t₀ s)
    (calls : List Call) : ¬ Lost t₀ (runCalls s calls) ↔ Throughout wholeCall s calls := by
  induction calls generalizing s with
  | nil => exact ⟨fun _ => trivial, fun _ => hs⟩
  | cons c rest ih =>
    have heffect := c.effect s
    cases hstops : c.stopsPartWay s.tree with
    | true =>
      rw [hstops] at heffect
      rcases heffect.partly rfl with ⟨hmanifest, p, hfree, hmade⟩
      have hlost : Lost t₀ (c.run s).1 := by
        refine ⟨p, h.free hfree, hmade, ?_, ?_⟩
        · rw [hmanifest]
          intro hp
          rcases (h.files p hp).2 with ⟨data, hdata⟩
          rw [hdata] at hfree
          cases hfree
        · rw [hmanifest]
          intro hp
          rw [(h.dirs p hp).2] at hfree
          cases hfree
      constructor
      · intro hnot
        exact absurd (hlost.runCalls rest) hnot
      · intro hall
        have hwhole := hall.1
        rw [wholeCall, hstops] at hwhole
        cases hwhole
    | false =>
      rw [hstops] at heffect
      have hkept : ¬ Lost t₀ (c.run s).1 := by
        rintro ⟨p, hnone, hthere, hfile, hdir⟩
        by_cases hp : s.tree.get p = none
        · rcases heffect.complete rfl p hp hthere with hmem | hmem
          · exact hfile hmem
          · exact hdir hmem
        · -- it was there before the call, and recorded
          rcases heffect.recorded with ⟨files, dirs, hmanifest, -, -, -⟩
          rw [SidecarManifest.mk.injEq] at hmanifest
          rw [hmanifest.1, List.mem_append, not_or] at hfile
          rw [hmanifest.2, List.mem_append, not_or] at hdir
          exact hs ⟨p, hnone, hp, hfile.1, hdir.1⟩
      have hrest := ih (h.extends heffect.toExtends) hkept
      show ¬ Lost t₀ (Sidecars.runCalls (c.run s).1 rest) ↔ _
      rw [hrest]
      refine ⟨fun h => ⟨?_, h⟩, fun h => h.2⟩
      rw [wholeCall, hstops]
      rfl

/-- Nothing is new exactly when no call makes anything. -/
theorem not_grown_iff {t₀ : Tree} {s : Session} (h : Sound t₀ s) (hs : ¬ Grown t₀ s)
    (calls : List Call) : ¬ Grown t₀ (runCalls s calls) ↔ Throughout idleCall s calls := by
  induction calls generalizing s with
  | nil => exact ⟨fun _ => trivial, fun _ => hs⟩
  | cons c rest ih =>
    have heffect := c.effect s
    cases hmakes : c.makes s.tree with
    | true =>
      rw [hmakes] at heffect
      rcases heffect.busy rfl with ⟨p, hfree, hmade⟩
      have hgrown : Grown t₀ (c.run s).1 := ⟨p, h.free hfree, hmade⟩
      constructor
      · intro hnot
        exact absurd (hgrown.runCalls rest) hnot
      · intro hall
        have hidle := hall.1
        rw [idleCall, hmakes] at hidle
        cases hidle
    | false =>
      rw [hmakes] at heffect
      have hkept : ¬ Grown t₀ (c.run s).1 := by
        rintro ⟨p, hnone, hthere⟩
        by_cases hp : s.tree.get p = none
        · exact hthere (heffect.idle rfl p hp)
        · exact hs ⟨p, hnone, hp⟩
      have hrest := ih (h.extends heffect.toExtends) hkept
      show ¬ Grown t₀ (Sidecars.runCalls (c.run s).1 rest) ↔ _
      rw [hrest]
      refine ⟨fun h => ⟨?_, h⟩, fun h => h.2⟩
      rw [idleCall, hmakes]
      rfl

/-! ### What others add -/

theorem addAll_get {t : Tree} {p : Path} {e : Entry Content} (h : t.get p = some e)
    (adds : List (Path × Entry Content)) : (addAll t adds).get p = some e := by
  induction adds generalizing t with
  | nil => exact h
  | cons a rest ih =>
    refine ih ?_
    show ((t.put? a.1 a.2).getD t).get p = some e
    cases hput : t.put? a.1 a.2 with
    | none => exact h
    | some t' =>
      rcases FileTree.put?_eq_some hput with ⟨hfree, hget⟩
      rw [Option.getD_some, hget, if_neg, h]
      rintro rfl
      rw [hfree] at h
      cases h

/-! ### The clean-up -/

/-- The user's directory when the task has ended. -/
def finished (t₀ : Tree) (calls : List Call) (o : Outcome) (adds : List (Path × Entry Content)) :
    Tree :=
  (CleanupSidecars (addAll (Prepare t₀ calls o).1 adds) (Prepare t₀ calls o).2).1

/-- What was there and what others have added is as it was, and every file and every directory that
the preparation made is gone, but for the directories that others have put something into. -/
structure Reversible (t₀ : Tree) (calls : List Call) (o : Outcome)
    (adds : List (Path × Entry Content)) : Prop where
  before : ∀ p e, t₀.get p = some e → (finished t₀ calls o adds).get p = some e
  others : ∀ p e, (Prepare t₀ calls o).1.get p = none →
    (addAll (Prepare t₀ calls o).1 adds).get p = some e →
    (finished t₀ calls o adds).get p = some e
  files : ∀ p c, t₀.get p = none → (Prepare t₀ calls o).1.get p = some (.leaf c) →
    (finished t₀ calls o adds).get p = none
  dirs : ∀ p, t₀.get p = none → (Prepare t₀ calls o).1.get p = some .dir →
    (∀ q, (Prepare t₀ calls o).1.get q = none →
      (addAll (Prepare t₀ calls o).1 adds).get q ≠ none → ¬ p <:+ q) →
    (finished t₀ calls o adds).get p = none

theorem get_undo_leaf {t : Tree} {record : List Path} {p : Path} {c : Content}
    (h : t.get p = some (.leaf c)) (hmem : p ∈ record) : (t.undo record).get p = none := by
  induction record with
  | nil => cases hmem
  | cons q rest ih =>
    show ((t.undo rest).drop q).get p = none
    by_cases hrest : p ∈ rest
    · have hgone := ih hrest
      by_cases heq : p = q
      · unfold FileTree.drop
        cases hremove : (t.undo rest).remove? q with
        | none => exact hgone
        | some t' => rw [Option.getD_some, FileTree.get_remove hremove, if_pos heq]
      · rw [FileTree.get_drop_ne _ heq, hgone]
    · rcases List.mem_cons.1 hmem with rfl | hmem
      · have hleaf : (t.undo rest).get p = some (.leaf c) := by
          rw [FileTree.get_undo_of_not_mem t hrest, h]
        refine FileTree.get_drop _ ?_ (FileTree.isBare_of_leaf hleaf)
        rintro rfl
        rw [t.get_root] at h
        cases h
      · exact absurd hmem hrest

/-- A session that has lost nothing is undone by its own manifest. -/
theorem cleanup_reversible {t₀ : Tree} {s : Session} (h : Sound t₀ s) (hlost : ¬ Lost t₀ s)
    {t : Tree} (ht : ∀ p e, s.tree.get p = some e → t.get p = some e) {t' : Tree}
    (ht' : t' = (CleanupSidecars t (some s.manifest)).1) :
    (∀ p e, t₀.get p = some e → t'.get p = some e) ∧
    (∀ p e, s.tree.get p = none → t.get p = some e → t'.get p = some e) ∧
    (∀ p c, t₀.get p = none → s.tree.get p = some (.leaf c) → t'.get p = none) ∧
    (∀ p, t₀.get p = none → s.tree.get p = some .dir →
      (∀ q, s.tree.get q = none → t.get q ≠ none → ¬ p <:+ q) → t'.get p = none) := by
  rw [CleanupSidecars_tree] at ht'
  subst ht'
  have hkept : ∀ p, p ∉ s.manifest.files → p ∉ s.manifest.dirs →
      ((t.undo s.manifest.files.reverse).undo s.manifest.dirs).get p = t.get p := by
    intro p hfile hdir
    rw [FileTree.get_undo_of_not_mem _ hdir, FileTree.get_undo_of_not_mem]
    rwa [List.mem_reverse]
  have hlisted : ∀ p, t₀.get p = none → s.tree.get p ≠ none →
      p ∈ s.manifest.files ∨ p ∈ s.manifest.dirs := by
    intro p hnone hthere
    by_contra hnot
    rw [not_or] at hnot
    exact hlost ⟨p, hnone, hthere, hnot.1, hnot.2⟩
  have hgone : ∀ p, p ∈ s.manifest.files → (t.undo s.manifest.files.reverse).get p = none := by
    intro p hp
    rcases (h.files p hp).2 with ⟨c, hc⟩
    exact get_undo_leaf (ht p _ hc) (List.mem_reverse.2 hp)
  refine ⟨?_, ?_, ?_, ?_⟩
  · intro p e hp
    rw [hkept, ht p e (h.grows p e hp)]
    · intro hfile
      rw [(h.files p hfile).1] at hp
      cases hp
    · intro hdir
      rw [(h.dirs p hdir).1] at hp
      cases hp
  · intro p e hfree hp
    rw [hkept, hp]
    · intro hfile
      rcases (h.files p hfile).2 with ⟨c, hc⟩
      rw [hc] at hfree
      cases hfree
    · intro hdir
      rw [(h.dirs p hdir).2] at hfree
      cases hfree
  · intro p c hnone hp
    rcases hlisted p hnone (by rw [hp]; exact Option.some_ne_none _) with hfile | hdir
    · exact FileTree.get_undo_of_none _ _ (hgone p hfile)
    · rw [(h.dirs p hdir).2] at hp
      cases hp
  · intro p hnone hp hothers
    have hmem : p ∈ s.manifest.dirs := by
      rcases hlisted p hnone (by rw [hp]; exact Option.some_ne_none _) with hfile | hdir
      · rcases (h.files p hfile).2 with ⟨c, hc⟩
        rw [hc] at hp
        cases hp
      · exact hdir
    have hroot : [] ∉ s.manifest.dirs := by
      intro hroot
      have hnone := (h.dirs [] hroot).1
      rw [t₀.get_root] at hnone
      cases hnone
    have hshrunk : ∀ q, (t.undo s.manifest.files.reverse).get q ≠ none → t.get q ≠ none := by
      intro q hq hnone
      exact hq (FileTree.get_undo_of_none t _ hnone)
    -- what stands in a new directory is new as well: recorded, or put there by others
    refine FileTree.undo_spec (fun q => s.tree.get q = none ∧ t.get q ≠ none) hroot h.ordered
      ?_ p hmem ?_
    · intro n d hd hchild
      by_cases hfree : s.tree.get (n :: d) = none
      · exact Or.inr ⟨hfree, hshrunk _ hchild⟩
      · have hnew : t₀.get (n :: d) = none := by
          cases hget : t₀.get (n :: d) with
          | none => rfl
          | some e =>
            have hparent := FileTree.get_parent hget
            rw [(h.dirs d hd).1] at hparent
            cases hparent
        rcases hlisted _ hnew hfree with hfile | hdir
        · exact absurd (hgone _ hfile) hchild
        · exact Or.inl hdir
    · intro q hq hsuffix
      exact absurd hsuffix (hothers q hq.1 hq.2)

/-! ### When a preparation is reversible -/

/-- The session at the end of the calls. -/
def ended (t₀ : Tree) (calls : List Call) : Session := runCalls ⟨t₀, ⟨[], []⟩⟩ calls

theorem Prepare_tree (t₀ : Tree) (calls : List Call) (o : Outcome) :
    (Prepare t₀ calls o).1 = (ended t₀ calls).tree := by
  cases o <;> rfl

theorem Prepare_manifest {t₀ : Tree} {calls : List Call} {o : Outcome} (h : o ≠ .written) :
    (Prepare t₀ calls o).2 = none := by
  cases o with
  | failed => rfl
  | unwritten => rfl
  | written => exact absurd rfl h

/-- An entry that is left behind when nobody has added anything. -/
theorem not_reversible_of_left {t₀ : Tree} {calls : List Call} {o : Outcome} {p : Path}
    (hnone : t₀.get p = none) (hthere : (ended t₀ calls).tree.get p ≠ none)
    (hleft : (finished t₀ calls o []).get p ≠ none) : ¬ Reversible t₀ calls o [] := by
  intro hrev
  rcases Option.ne_none_iff_exists'.1 hthere with ⟨e, he⟩
  rw [← Prepare_tree t₀ calls o] at he
  cases e with
  | leaf c => exact hleft (hrev.files p c hnone he)
  | dir =>
    refine hleft (hrev.dirs p hnone he ?_)
    intro q hfree hq
    exact absurd hfree hq

/-- The clean-up is exact, whatever others add, exactly when no call fails after it has made
something, and either the manifest was stored or there is nothing to list in it. -/
theorem sidecars_reversible (t₀ : Tree) (calls : List Call) (o : Outcome) :
    (∀ adds, Reversible t₀ calls o adds) ↔
      Throughout wholeCall ⟨t₀, ⟨[], []⟩⟩ calls ∧
        (o = .written ∨ Throughout idleCall ⟨t₀, ⟨[], []⟩⟩ calls) := by
  have hsound : Sound t₀ (ended t₀ calls) := (Sound.init t₀).runCalls calls
  have hinit : ¬ Lost t₀ ⟨t₀, ⟨[], []⟩⟩ := by
    rintro ⟨p, hnone, hthere, -⟩
    exact hthere hnone
  have hsame : ¬ Grown t₀ ⟨t₀, ⟨[], []⟩⟩ := by
    rintro ⟨p, hnone, hthere⟩
    exact hthere hnone
  have hlostiff : ¬ Lost t₀ (ended t₀ calls) ↔ _ := not_lost_iff (Sound.init t₀) hinit calls
  have hgrowniff : ¬ Grown t₀ (ended t₀ calls) ↔ _ := not_grown_iff (Sound.init t₀) hsame calls
  rw [← hlostiff, ← hgrowniff]
  constructor
  · intro hrev
    have hrev := hrev []
    refine ⟨?_, ?_⟩
    · -- a lost entry is in no manifest, so it is still there
      rintro ⟨p, hnone, hthere, hfile, hdir⟩
      refine not_reversible_of_left hnone hthere ?_ hrev
      unfold finished
      cases o with
      | failed => exact hthere
      | unwritten => exact hthere
      | written =>
        show (CleanupSidecars (ended t₀ calls).tree (some (ended t₀ calls).manifest)).1.get p ≠ none
        rw [CleanupSidecars_tree, FileTree.get_undo_of_not_mem _ hdir,
          FileTree.get_undo_of_not_mem]
        · exact hthere
        · rwa [List.mem_reverse]
    · by_cases hwritten : o = .written
      · exact Or.inl hwritten
      · refine Or.inr ?_
        rintro ⟨p, hnone, hthere⟩
        refine not_reversible_of_left hnone hthere ?_ hrev
        unfold finished
        rw [Prepare_manifest hwritten, Prepare_tree]
        exact hthere
  · rintro ⟨hlost, hwritten⟩ adds
    have hadds : ∀ p e, (ended t₀ calls).tree.get p = some e →
        (addAll (ended t₀ calls).tree adds).get p = some e := fun p e hp => addAll_get hp adds
    by_cases ho : o = .written
    · subst ho
      rcases cleanup_reversible hsound hlost hadds rfl with ⟨hbefore, hothers, hfiles, hdirs⟩
      exact ⟨hbefore, hothers, hfiles, hdirs⟩
    · -- nothing was made, and nothing is removed
      have hidle := hwritten.resolve_left ho
      have hfinished : finished t₀ calls o adds = addAll (ended t₀ calls).tree adds := by
        unfold finished
        rw [Prepare_manifest ho, Prepare_tree]
        rfl
      have hnone : ∀ p, t₀.get p = none → (ended t₀ calls).tree.get p = none := by
        intro p hp
        by_contra hthere
        exact hidle ⟨p, hp, hthere⟩
      refine ⟨?_, ?_, ?_, ?_⟩
      · intro p e hp
        rw [hfinished]
        exact hadds p e (hsound.grows p e hp)
      · intro p e hp he
        rw [Prepare_tree] at he
        rwa [hfinished]
      · intro p c hp hc
        rw [Prepare_tree, hnone p hp] at hc
        cases hc
      · intro p hp hdir
        rw [Prepare_tree, hnone p hp] at hdir
        cases hdir

/-- A `MkdirAll` that makes `.claude` and is refused `.claude/skills`, and a `Prepare` that fails
after it has made `.claude`: the directory stays behind. -/
theorem not_sidecars_reversible :
    ¬ Reversible FileTree.empty
      [.recordMkdirAll ["skills", ".claude"]
        { Faults.none with mkdir := fun p => p == ["skills", ".claude"] }]
      .written [] ∧
    ¬ Reversible FileTree.empty [.recordMkdirAll [".claude"] Faults.none] .failed [] := by
  refine ⟨?_, ?_⟩
  · refine not_reversible_of_left (p := [".claude"]) ?_ ?_ ?_
    · decide +kernel
    · decide +kernel
    · decide +kernel
  · refine not_reversible_of_left (p := [".claude"]) ?_ ?_ ?_
    · decide +kernel
    · decide +kernel
    · decide +kernel

end Orynx.Daemon.Sidecars
