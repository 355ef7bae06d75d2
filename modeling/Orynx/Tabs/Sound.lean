import Mathlib.Data.List.Perm.Basic
import Orynx.Lib.Parties
import Orynx.Tabs.Store

/-! # What the tab store keeps

* `Sound`: every group has its active tab, pinned tabs come first, every tab is in its workspace
  and where its history is, and what is written is what is read back;
* `keepsHome`: no action puts a URL of one workspace into another one, or makes a group of a slug
  that is none; what is read from the disk has its tabs where their histories are;
* `store_sound`: then it is so in every run;
* `stray_tab_lost`: `openTab` with a path of another workspace makes a tab that a restart drops.
-/

namespace Orynx.Tabs

open Lib

/-! ## The property -/

/-- A pinned tab comes after pinned tabs only. -/
def PinnedFirst (tabs : List TabSession) : Prop :=
  tabs.Pairwise fun a b => b.pinned = true → a.pinned = true

structure TabSound (slug : String) (t : TabSession) : Prop where
  home : Belongs slug t.url
  key : t.resourceKey = resourceKeyForUrl t.url
  current : t.history.stack[t.history.index]? = some t.url

structure GroupSound (slug : String) (group : WorkspaceTabGroup) : Prop where
  inhabited : group.tabs ≠ []
  distinct : (group.tabs.map (·.id)).Nodup
  active : group.activeTabId ∈ group.tabs.map (·.id)
  pinned : PinnedFirst group.tabs
  tabs : ∀ t ∈ group.tabs, TabSound slug t

structure Sound (s : TabStore) : Prop where
  groups : ∀ e ∈ s.byWorkspace.entries, GroupSound e.1 e.2
  active : ∀ slug, s.activeWorkspaceSlug = some slug → slug ∈ s.byWorkspace.keys
  restored : ∀ s', merge (partialize s) s' = s

/-! ## The condition -/

/-- A tab that will be read is where its history is, which has not left the workspace. -/
def keptAtHome (slug : String) (pTab : PersistedTab) : Bool :=
  match restoreTab slug pTab with
  | none => true
  | some t => t.history.stack[t.history.index]? == some t.url &&
      t.history.stack.all fun url => Belongs slug url

/-- A path goes to the workspace, or nowhere. -/
def goesTo (slug path : String) : Bool :=
  match sanitizeTabPath path with
  | none => true
  | some clean => extractWorkspaceSlug clean == some slug

/-- A new group is one of a plain slug; a tab is opened for a path of its workspace; what is read
has distinct tabs, where their histories are. -/
def keepsHome (s : TabStore) : Act → Bool
  | .rehydrate persisted =>
    match persisted.byWorkspace with
    | none => true
    | some groups => groups.entries.all fun e =>
      decide ((e.2.tabs.filterMap (restoreTab e.1)).map (·.id)).Nodup &&
        e.2.tabs.all (keptAtHome e.1)
  | .switchWorkspace slug openPath _ =>
    slug == "" || ((s.byWorkspace.get? slug).isSome || plainSlug slug) &&
      openPath.all (goesTo slug)
  | .openTab path _ _ _ _ | .addTab path _ _ _ => s.active.all fun slug => goesTo slug path
  | .validateWorkspaceSlugs validSlugs _ =>
    s.byWorkspace.keys.any validSlugs.contains ||
      validSlugs.head?.all fun slug => slug == "" || plainSlug slug
  | _ => true

/-! ## Tabs -/

section Tabs

variable {slug url : String} {t : TabSession}

/-- A tab whose whole history is in the workspace. -/
structure TabInv (slug : String) (t : TabSession) : Prop extends TabSound slug t where
  visited : ∀ url ∈ t.history.stack, Belongs slug url

theorem TabInv.makeSession (h : Belongs slug url) (id title icon : String) :
    TabInv slug (makeSession id url title icon) := by
  refine ⟨⟨h, rfl, rfl⟩, fun u hu => ?_⟩
  obtain rfl : u = url := List.mem_singleton.1 hu
  exact h

theorem TabInv.goTo (history : TabHistory) (hcurrent : history.stack[history.index]? = some url)
    (hvisited : ∀ u ∈ history.stack, Belongs slug u) (t : TabSession) :
    TabInv slug (TabStore.goTo t url history) :=
  ⟨⟨hvisited url (List.mem_of_getElem? hcurrent), rfl, hcurrent⟩, hvisited⟩

/-- Of a tab only its URL, the key and the history matter. -/
theorem TabInv.congr (h : TabInv slug t) (t' : TabSession) (hurl : t'.url = t.url)
    (hkey : t'.resourceKey = t.resourceKey) (hhistory : t'.history = t.history) :
    TabInv slug t' where
  home := hurl ▸ h.home
  key := by rw [hkey, h.key, hurl]
  current := by rw [hhistory, h.current, hurl]
  visited := hhistory ▸ h.visited

end Tabs

/-! ## The order of the tabs -/

section Order

variable {α : Type} {l rest : List TabSession} {t : TabSession} {i j : Nat}

theorem pinnedFirst_iff :
    PinnedFirst l ↔ (l.map (·.pinned)).Pairwise fun a b => b = true → a = true := by
  rw [PinnedFirst, List.pairwise_map]

theorem insertAt_perm (l : List α) (i : Nat) (a : α) : (insertAt l i a).Perm (a :: l) := by
  have hmiddle : (insertAt l i a).Perm (a :: (l.take i ++ l.drop i)) := List.perm_middle
  rwa [List.take_append_drop] at hmiddle

theorem pinned_of_mem_take (h : t ∈ l.take i) (hi : i ≤ pinnedBoundary l) : t.pinned = true := by
  have hfront : l.take i <+: l.takeWhile (·.pinned) := by
    have hlen : l.takeWhile (·.pinned) = l.take (pinnedBoundary l) :=
      List.prefix_iff_eq_take.1 (List.takeWhile_prefix _)
    rw [hlen]
    exact List.take_prefix_take_left hi
  exact List.mem_takeWhile_imp (hfront.subset h)

/-- Behind the pinned tabs none is pinned. -/
theorem PinnedFirst.unpinned_of_mem_drop (h : PinnedFirst l) (hmem : t ∈ l.drop i)
    (hi : pinnedBoundary l ≤ i) : t.pinned = false := by
  have hdrop : t ∈ l.drop (pinnedBoundary l) := by
    have hsuffix : l.drop i <:+ l.drop (pinnedBoundary l) := List.drop_suffix_drop_left l hi
    exact hsuffix.subset hmem
  have heq : l.drop (pinnedBoundary l) = l.dropWhile (·.pinned) := by
    have hsplit : l.takeWhile (·.pinned) ++ l.dropWhile (·.pinned) = l :=
      List.takeWhile_append_dropWhile
    calc l.drop (pinnedBoundary l)
        = (l.takeWhile (·.pinned) ++ l.dropWhile (·.pinned)).drop (pinnedBoundary l) := by
          rw [hsplit]
      _ = l.dropWhile (·.pinned) := List.drop_left
  rw [heq] at hdrop
  have hpairwise : PinnedFirst (l.dropWhile (·.pinned)) :=
    h.sublist (List.dropWhile_suffix _).sublist
  cases hrest : l.dropWhile (·.pinned) with
  | nil => simp [hrest] at hdrop
  | cons first others =>
    have hfirst : ¬ first.pinned = true := by
      have hne : l.dropWhile (·.pinned) ≠ [] := by simp [hrest]
      have hhead := List.head_dropWhile_not (fun u : TabSession => u.pinned) hne
      simpa [hrest] using hhead
    rw [hrest] at hdrop hpairwise
    rcases List.mem_cons.1 hdrop with rfl | hothers
    · simpa using hfirst
    · by_contra hpinned
      exact hfirst ((List.pairwise_cons.1 hpairwise).1 t hothers (by simpa using hpinned))

/-- A tab that is put among those of its kind. -/
theorem PinnedFirst.insertAt (h : PinnedFirst rest)
    (hpinned : t.pinned = true → j ≤ pinnedBoundary rest)
    (hunpinned : t.pinned = false → pinnedBoundary rest ≤ j) :
    PinnedFirst (insertAt rest j t) := by
  have hparts := h
  rw [PinnedFirst, ← List.take_append_drop j rest, List.pairwise_append] at hparts
  rcases hparts with ⟨hfront, hback, hcross⟩
  refine List.pairwise_append.2 ⟨hfront, List.pairwise_cons.2 ⟨fun b hb hbp => ?_, hback⟩, ?_⟩
  · cases htp : t.pinned with
    | true => rfl
    | false =>
      have hfalse := h.unpinned_of_mem_drop hb (hunpinned htp)
      simp [hbp] at hfalse
  · intro a ha b hb hbp
    rcases List.mem_cons.1 hb with rfl | hb
    · exact pinned_of_mem_take ha (hpinned hbp)
    · exact hcross a ha b hb hbp

theorem PinnedFirst.boundary (h : PinnedFirst l) : pinnedBoundary l = l.countP (·.pinned) := by
  have hback : (l.drop (pinnedBoundary l)).countP (·.pinned) = 0 := by
    rw [List.countP_eq_zero]
    intro t ht
    simp [h.unpinned_of_mem_drop ht (Nat.le_refl _)]
  have hfront : (l.take (pinnedBoundary l)).countP (·.pinned) = pinnedBoundary l := by
    rw [List.countP_eq_length.2 fun t ht => pinned_of_mem_take ht (Nat.le_refl _),
      List.length_take]
    exact Nat.min_eq_left (List.takeWhile_prefix _).length_le
  conv_rhs => rw [← List.take_append_drop (pinnedBoundary l) l]
  rw [List.countP_append, hback, hfront, Nat.add_zero]

/-- What is left when a tab is taken out. -/
theorem PinnedFirst.boundary_eraseIdx (h : PinnedFirst l) (ht : l[i]? = some t) :
    pinnedBoundary l = pinnedBoundary (l.eraseIdx i) + if t.pinned then 1 else 0 := by
  have hrest : PinnedFirst (l.eraseIdx i) := h.sublist (List.eraseIdx_sublist l i)
  obtain ⟨hi, rfl⟩ := List.getElem?_eq_some_iff.1 ht
  have hperm : (l[i] :: l.eraseIdx i).Perm l := List.getElem_cons_eraseIdx_perm hi
  rw [h.boundary, hrest.boundary, ← hperm.countP_eq, List.countP_cons]

/-- A tab that is moved to where `clampedTo` allows it. -/
theorem PinnedFirst.moved (h : PinnedFirst l) (ht : l[i]? = some t) (toIndex : Int) :
    PinnedFirst (Tabs.insertAt (l.eraseIdx i) (TabStore.clampedTo l t toIndex).toNat t) := by
  have hboundary := h.boundary_eraseIdx ht
  refine PinnedFirst.insertAt (h.sublist (List.eraseIdx_sublist l i)) (fun hp => ?_)
    fun hp => ?_
  · simp only [TabStore.clampedTo, hp, if_true] at hboundary ⊢
    omega
  · simp only [TabStore.clampedTo, hp, Bool.false_eq_true, if_false] at hboundary ⊢
    omega

theorem sortPinned_of_pinnedFirst (h : PinnedFirst l) : sortPinned l = l := by
  induction l with
  | nil => rfl
  | cons t ts ih =>
    rcases List.pairwise_cons.1 h with ⟨hhead, htail⟩
    cases htp : t.pinned with
    | true =>
      have hrest := ih htail
      rw [sortPinned] at hrest ⊢
      simp [htp, hrest]
    | false =>
      have hnone : ∀ u ∈ ts, u.pinned = false := by
        intro u hu
        by_contra hup
        simp [hhead u hu (by simpa using hup)] at htp
      have hempty : ts.filter (·.pinned) = [] := List.filter_eq_nil_iff.2 (by simpa using hnone)
      have hall : ts.filter (!·.pinned) = ts := List.filter_eq_self.2 (by simpa using hnone)
      simp [sortPinned, htp, hempty, hall]

theorem pinnedFirst_sortPinned (l : List TabSession) : PinnedFirst (sortPinned l) := by
  rw [PinnedFirst, sortPinned, List.pairwise_append]
  refine ⟨?_, ?_, ?_⟩
  · exact List.pairwise_of_forall_mem_list fun a ha b _ _ => (List.mem_filter.1 ha).2
  · refine List.pairwise_of_forall_mem_list fun a _ b hb hbp => ?_
    have hnot := (List.mem_filter.1 hb).2
    simp [hbp] at hnot
  · exact fun a ha b _ _ => (List.mem_filter.1 ha).2

theorem sortPinned_perm (l : List TabSession) : (sortPinned l).Perm l :=
  List.filter_append_perm _ l

end Order

/-! ## Groups -/

section Groups

variable {slug : String} {group : WorkspaceTabGroup} {t t' : TabSession} {i : Nat}

structure GroupInv (slug : String) (group : WorkspaceTabGroup) : Prop where
  inhabited : group.tabs ≠ []
  distinct : (group.tabs.map (·.id)).Nodup
  active : group.activeTabId ∈ group.tabs.map (·.id)
  pinned : PinnedFirst group.tabs
  tabs : ∀ t ∈ group.tabs, TabInv slug t

theorem GroupInv.sound (h : GroupInv slug group) : GroupSound slug group :=
  ⟨h.inhabited, h.distinct, h.active, h.pinned, fun t ht => (h.tabs t ht).toTabSound⟩

/-- A group has a tab, so its slug is plain. -/
theorem GroupInv.plainSlug (h : GroupInv slug group) : plainSlug slug = true := by
  rcases List.exists_mem_of_ne_nil _ h.inhabited with ⟨t, ht⟩
  exact (h.tabs t ht).home.plainSlug

theorem GroupInv.single (h : TabInv slug t) :
    GroupInv slug { tabs := [t], activeTabId := t.id } where
  inhabited := List.cons_ne_nil t []
  distinct := List.nodup_singleton t.id
  active := List.mem_singleton.2 rfl
  pinned := List.pairwise_singleton _ t
  tabs := fun u hu => by
    obtain rfl : u = t := List.mem_singleton.1 hu
    exact h

/-- A new tab at the end, which is not pinned. -/
theorem GroupInv.push (h : GroupInv slug group) (ht : TabInv slug t) (hpin : t.pinned = false)
    (hnew : ∀ u ∈ group.tabs, u.id ≠ t.id) {a : String} (ha : a = t.id ∨ a = group.activeTabId) :
    GroupInv slug { tabs := group.tabs ++ [t], activeTabId := a } where
  inhabited := by simp
  distinct := by
    show ((group.tabs ++ [t]).map (·.id)).Nodup
    rw [List.map_append, List.nodup_append]
    refine ⟨h.distinct, List.nodup_singleton _, fun x hx y hy heq => ?_⟩
    rcases List.mem_map.1 hx with ⟨u, hu, rfl⟩
    exact hnew u hu (heq.trans (List.mem_singleton.1 hy))
  active := by
    show a ∈ (group.tabs ++ [t]).map (·.id)
    rw [List.map_append, List.mem_append]
    rcases ha with rfl | rfl
    · exact .inr (List.mem_singleton.2 rfl)
    · exact .inl h.active
  pinned := by
    refine List.pairwise_append.2 ⟨h.pinned, List.pairwise_singleton _ t, fun u _ v hv hp => ?_⟩
    obtain rfl : v = t := List.mem_singleton.1 hv
    simp [hpin] at hp
  tabs := by
    intro u hu
    rcases List.mem_append.1 hu with hu | hu
    · exact h.tabs u hu
    · obtain rfl : u = t := List.mem_singleton.1 hu
      exact ht

theorem GroupInv.focus (h : GroupInv slug group) (ht : t ∈ group.tabs) :
    GroupInv slug { group with activeTabId := t.id } :=
  { h with active := List.mem_map_of_mem ht }

/-- Tabs that have been closed. -/
theorem GroupInv.sub (h : GroupInv slug group) {tabs : List TabSession}
    (hsub : tabs.Sublist group.tabs) {a : String} (ha : a ∈ tabs.map (·.id)) :
    GroupInv slug { tabs := tabs, activeTabId := a } where
  inhabited := by
    rintro rfl
    simp at ha
  distinct := h.distinct.sublist (hsub.map _)
  active := ha
  pinned := h.pinned.sublist hsub
  tabs := fun u hu => h.tabs u (hsub.subset hu)

/-- The same tabs, by their ids, in another order. -/
theorem GroupInv.perm (h : GroupInv slug group) {tabs : List TabSession}
    (hperm : (tabs.map (·.id)).Perm (group.tabs.map (·.id))) (hpinned : PinnedFirst tabs)
    (htabs : ∀ t ∈ tabs, TabInv slug t) : GroupInv slug { group with tabs := tabs } where
  inhabited := by
    rintro rfl
    exact h.inhabited (List.map_eq_nil_iff.1 hperm.nil_eq.symm)
  distinct := hperm.nodup_iff.2 h.distinct
  active := hperm.mem_iff.2 h.active
  pinned := hpinned
  tabs := htabs

/-- A tab that has changed in its place. -/
theorem GroupInv.set (h : GroupInv slug group) (hi : group.tabs[i]? = some t)
    (ht : TabInv slug t') (hid : t'.id = t.id) (hpin : t'.pinned = t.pinned) :
    GroupInv slug { group with tabs := group.tabs.set i t' } := by
  refine h.perm (List.Perm.of_eq (Parties.map_set hi hid)) ?_ fun u hu => ?_
  · have hpinned := h.pinned
    rwa [pinnedFirst_iff, ← Parties.map_set hi hpin, ← pinnedFirst_iff] at hpinned
  · rcases List.mem_or_eq_of_mem_set hu with hu | rfl
    · exact h.tabs u hu
    · exact ht

/-- A tab, perhaps changed, that is taken out and put in again. -/
theorem GroupInv.moved (h : GroupInv slug group) (hi : group.tabs[i]? = some t)
    (ht : TabInv slug t') (hid : t'.id = t.id) {j : Nat}
    (hpinned : PinnedFirst (insertAt (group.tabs.eraseIdx i) j t')) :
    GroupInv slug { group with tabs := insertAt (group.tabs.eraseIdx i) j t' } := by
  obtain ⟨hlt, rfl⟩ := List.getElem?_eq_some_iff.1 hi
  have hback : (group.tabs[i] :: group.tabs.eraseIdx i).Perm group.tabs :=
    List.getElem_cons_eraseIdx_perm hlt
  have hin := insertAt_perm (group.tabs.eraseIdx i) j t'
  refine h.perm ((hin.map _).trans ?_) hpinned fun u hu => ?_
  · rw [List.map_cons, hid, ← List.map_cons]
    exact hback.map _
  · rcases List.mem_cons.1 (hin.subset hu) with rfl | hrest
    · exact ht
    · exact h.tabs u (hback.subset (List.mem_cons_of_mem _ hrest))

end Groups

/-! ## The store -/

section Store

variable {s : TabStore} {slug : String} {group : WorkspaceTabGroup} {t : TabSession} {i : Nat}

structure Inv (s : TabStore) : Prop where
  groups : ∀ e ∈ s.byWorkspace.entries, GroupInv e.1 e.2
  active : ∀ slug, s.activeWorkspaceSlug = some slug → slug ∈ s.byWorkspace.keys
  idle : s.activeWorkspaceSlug = none → s.byWorkspace.entries = []

theorem Inv.reset : Inv TabStore.reset where
  groups := fun _ he => absurd he List.not_mem_nil
  active := fun slug h => absurd h.symm (Option.some_ne_none slug)
  idle := fun _ => rfl

theorem Inv.groupAt (h : Inv s) (hget : s.byWorkspace.get? slug = some group) :
    GroupInv slug group := h.groups (slug, group) (Record.get?_eq_some.1 hget)

/-- A group that is set, and is then the active one. -/
theorem Inv.enter (h : Inv s) (hgroup : GroupInv slug group) :
    Inv { s.setGroup slug group with activeWorkspaceSlug := some slug } where
  groups := Record.forall_set h.groups hgroup
  active := by
    intro other hother
    obtain rfl : slug = other := Option.some.inj hother
    exact List.mem_map_of_mem (Record.mem_set.2 (.inl rfl))
  idle := fun hnone => absurd hnone (Option.some_ne_none slug)

/-- A group that is set while there are others. -/
theorem Inv.setGroup (h : Inv s) (hgroup : GroupInv slug group)
    (hne : s.byWorkspace.entries ≠ []) : Inv (s.setGroup slug group) where
  groups := Record.forall_set h.groups hgroup
  active := by
    intro other hother
    rcases List.mem_map.1 (h.active other hother) with ⟨e, he, rfl⟩
    by_cases hkey : e.1 = slug
    · have hin : (slug, group) ∈ (s.byWorkspace.set slug group).entries :=
        Record.mem_set.2 (.inl rfl)
      rw [hkey]
      exact List.mem_map_of_mem hin
    · exact List.mem_map_of_mem (Record.mem_set.2 (.inr ⟨hkey, he⟩))
  idle := fun hnone => absurd (h.idle hnone) hne

theorem Inv.focusWorkspace (h : Inv s) (hget : s.byWorkspace.get? slug = some group) :
    Inv { s with activeWorkspaceSlug := some slug } where
  groups := h.groups
  active := by
    intro other hother
    obtain rfl : slug = other := Option.some.inj hother
    exact List.mem_map_of_mem (Record.get?_eq_some.1 hget)
  idle := fun hnone => absurd hnone (Option.some_ne_none slug)

theorem ne_nil_of_get? (hget : s.byWorkspace.get? slug = some group) :
    s.byWorkspace.entries ≠ [] := List.ne_nil_of_mem (Record.get?_eq_some.1 hget)

/-! ### Where a tab is -/

/-- What `findTabLocation` finds. -/
theorem findTabLocation_some {tabId : String}
    (h : s.findTabLocation tabId = some (slug, group, i)) :
    s.byWorkspace.get? slug = some group ∧ ∃ t, group.tabs[i]? = some t ∧ t.id = tabId := by
  rcases List.exists_of_findSome?_eq_some h with ⟨e, he, hfound⟩
  rcases Option.map_eq_some_iff.1 hfound with ⟨index, hindex, heq⟩
  obtain ⟨rfl, rfl, rfl⟩ : e.1 = slug ∧ e.2 = group ∧ index = i := by simpa using heq
  obtain ⟨hlt, hid, -⟩ := List.findIdx?_eq_some_iff_getElem.1 hindex
  exact ⟨Record.get?_eq_some.2 he, _, List.getElem?_eq_getElem hlt, by simpa using hid⟩

/-- What the active tab is. -/
theorem activeTab_some (h : s.activeTab = some (slug, group, i, t)) :
    s.active = some slug ∧ s.byWorkspace.get? slug = some group ∧ group.tabs[i]? = some t := by
  simp only [TabStore.activeTab, Option.bind_eq_bind, Option.bind_eq_some_iff,
    Option.some.injEq, Prod.mk.injEq] at h
  rcases h with ⟨slug', hactive, group', hget, index, -, tab, htab, rfl, rfl, rfl, rfl⟩
  exact ⟨hactive, hget, htab⟩

theorem isFresh_ne {fresh : String} (hfresh : s.isFresh fresh = true)
    (hget : s.byWorkspace.get? slug = some group) : ∀ u ∈ group.tabs, u.id ≠ fresh := by
  intro u hu
  have hgroup := List.all_eq_true.1 hfresh (slug, group) (Record.get?_eq_some.1 hget)
  simpa using List.all_eq_true.1 hgroup u hu

/-- A path that is opened in its workspace. -/
theorem belongs_of_goesTo {path clean : String} (hsan : sanitizeTabPath path = some clean)
    (h : goesTo slug path = true) : Belongs slug clean := by
  simp only [goesTo, hsan, beq_iff_eq] at h
  exact ⟨sanitizeTabPath_idem hsan, h⟩

/-! ### One lemma for each action -/

section Actions

variable {s : TabStore} {fresh : String}

theorem Inv.switchWorkspace (h : Inv s) {slug : String} {openPath : Option String}
    (hfresh : s.isFresh fresh = true)
    (hk : keepsHome s (.switchWorkspace slug openPath fresh) = true) :
    Inv (s.switchWorkspace slug openPath fresh) := by
  unfold TabStore.switchWorkspace
  split
  · exact h
  rename_i hslug
  simp only [keepsHome, beq_eq_false_iff_ne.2 hslug, Bool.false_or, Bool.and_eq_true,
    Bool.or_eq_true] at hk
  rcases hk with ⟨hplain, hpath⟩
  split
  · -- a new group: the seed is the path, or the default one
    rename_i hget
    have hslugPlain : plainSlug slug = true := by simpa [hget] using hplain
    refine h.enter (GroupInv.single (TabInv.makeSession ?_ _ _ _))
    cases hsan : sanitizeTabPath (openPath.getD (defaultPathFor slug)) with
    | none => exact belongs_default hslugPlain
    | some clean =>
      cases openPath with
      | none =>
        rw [Option.getD_none, (belongs_default hslugPlain).1] at hsan
        exact Option.some.inj hsan ▸ belongs_default hslugPlain
      | some path =>
        rw [Option.getD_some] at hsan
        rw [Option.all_some] at hpath
        exact belongs_of_goesTo hsan hpath
  · rename_i existing hget
    have hgroup := h.groupAt hget
    split
    · exact h.focusWorkspace hget
    · rename_i clean hclean
      rcases Option.bind_eq_some_iff.1 hclean with ⟨path, rfl, hsan⟩
      rw [Option.all_some] at hpath
      dsimp only
      split
      · rename_i found hfound
        exact h.enter (hgroup.focus (List.mem_of_find?_eq_some hfound))
      · refine h.enter (hgroup.push (TabInv.makeSession (belongs_of_goesTo hsan hpath) _ _ _)
          rfl ?_ (.inl rfl))
        exact isFresh_ne hfresh hget

theorem Inv.openTab (h : Inv s) {path title icon : String} {activate : Bool}
    (hfresh : s.isFresh fresh = true)
    (hk : keepsHome s (.openTab path title icon activate fresh) = true) :
    Inv (s.openTab path title icon activate fresh) := by
  unfold TabStore.openTab
  split
  · rename_i slug clean hactive hsan
    have hpath : goesTo slug path = true := by simpa [keepsHome, hactive] using hk
    split
    · exact h
    · rename_i group hget
      have hgroup := h.groupAt hget
      dsimp only
      split
      · rename_i existing hfound
        exact h.setGroup (hgroup.focus (List.mem_of_find?_eq_some hfound)) (ne_nil_of_get? hget)
      · refine h.setGroup (hgroup.push (TabInv.makeSession (belongs_of_goesTo hsan hpath) _ _ _)
          rfl (isFresh_ne hfresh hget) ?_) (ne_nil_of_get? hget)
        cases activate with
        | true => exact .inl rfl
        | false => exact .inr rfl
  · exact h

theorem Inv.addTab (h : Inv s) {path title icon : String} (hfresh : s.isFresh fresh = true)
    (hk : keepsHome s (.addTab path title icon fresh) = true) :
    Inv (s.addTab path title icon fresh) := by
  unfold TabStore.addTab
  split
  · rename_i slug clean hactive hsan
    have hpath : goesTo slug path = true := by simpa [keepsHome, hactive] using hk
    split
    · exact h
    · rename_i group hget
      have htab := TabInv.makeSession (belongs_of_goesTo hsan hpath) fresh title icon
      exact h.setGroup ((h.groupAt hget).push htab rfl (isFresh_ne hfresh hget) (.inr rfl))
        (ne_nil_of_get? hget)
  · exact h

theorem Inv.closeTab (h : Inv s) (tabId fresh : String) : Inv (s.closeTab tabId fresh) := by
  unfold TabStore.closeTab
  split
  · exact h
  rename_i slug group index hfound
  rcases findTabLocation_some hfound with ⟨hget, t, ht, hid⟩
  have hgroup := h.groupAt hget
  split
  · -- the last tab: the group starts again
    have htab := TabInv.makeSession (belongs_default hgroup.plainSlug) fresh "Issues"
      (resolveRouteIcon (defaultPathFor slug))
    exact h.setGroup (GroupInv.single htab) (ne_nil_of_get? hget)
  · dsimp only
    split
    · split
      · exact h
      · rename_i other hother
        exact h.setGroup (hgroup.sub List.filter_sublist
          (List.mem_map_of_mem (List.mem_of_getElem? hother))) (ne_nil_of_get? hget)
    · rename_i hactive
      refine h.setGroup (hgroup.sub List.filter_sublist ?_) (ne_nil_of_get? hget)
      rcases List.mem_map.1 hgroup.active with ⟨u, hu, huid⟩
      refine List.mem_map.2 ⟨u, List.mem_filter.2 ⟨hu, ?_⟩, huid⟩
      simpa [huid] using hactive

theorem Inv.closeOtherTabs (h : Inv s) (tabId : String) : Inv (s.closeOtherTabs tabId) := by
  unfold TabStore.closeOtherTabs
  split
  · exact h
  rename_i slug group index hfound
  rcases findTabLocation_some hfound with ⟨hget, t, ht, hid⟩
  have hgroup := h.groupAt hget
  dsimp only
  split
  · exact h
  · refine h.setGroup (hgroup.sub List.filter_sublist ?_) (ne_nil_of_get? hget)
    split
    · -- the tab that is kept is not among the closed ones
      refine List.mem_map.2 ⟨t, List.mem_filter.2 ⟨List.mem_of_getElem? ht, ?_⟩, hid⟩
      simp [hid]
    · rename_i hactive
      rcases List.mem_map.1 hgroup.active with ⟨u, hu, huid⟩
      refine List.mem_map.2 ⟨u, List.mem_filter.2 ⟨hu, ?_⟩, huid⟩
      simpa [huid] using hactive

theorem Inv.setActiveTab (h : Inv s) (tabId : String) : Inv (s.setActiveTab tabId) := by
  unfold TabStore.setActiveTab
  split
  · exact h
  rename_i slug group index hfound
  rcases findTabLocation_some hfound with ⟨hget, t, ht, rfl⟩
  split
  · exact h
  · exact h.enter ((h.groupAt hget).focus (List.mem_of_getElem? ht))

theorem Inv.updateTab (h : Inv s) (tabId : String) (title icon : Option String) :
    Inv (s.updateTab tabId title icon) := by
  unfold TabStore.updateTab
  split
  · exact h
  rename_i slug group index hfound
  rcases findTabLocation_some hfound with ⟨hget, -⟩
  have hgroup := h.groupAt hget
  split
  · exact h
  · rename_i current hcurrent
    dsimp only
    split
    · exact h
    · have htab := (hgroup.tabs current (List.mem_of_getElem? hcurrent)).congr
        { current with title := title.getD current.title, icon := icon.getD current.icon }
        rfl rfl rfl
      exact h.setGroup (hgroup.set hcurrent htab rfl rfl) (ne_nil_of_get? hget)

/-- A history that has been moved: its front stays, and then comes what it is at. -/
theorem at_of_take {stack rest : List String} {n : Nat} {url : String} (hn : n ≤ stack.length) :
    (stack.take n ++ url :: rest)[n]? = some url := by
  rw [List.getElem?_append_right (List.length_take_le n stack), List.length_take,
    Nat.min_eq_left hn, Nat.sub_self]
  rfl

theorem Inv.navigateActiveSession (h : Inv s) (url : String) (replace : Bool) :
    Inv (s.navigateActiveSession url replace) := by
  unfold TabStore.navigateActiveSession
  split
  · rename_i slug group index current clean hactive hsan
    rcases activeTab_some hactive with ⟨-, hget, hcurrent⟩
    have hgroup := h.groupAt hget
    have htab := hgroup.tabs current (List.mem_of_getElem? hcurrent)
    split
    · exact h
    · rename_i hslug
      have hclean : Belongs slug clean := ⟨sanitizeTabPath_idem hsan, not_not.1 hslug⟩
      split
      · exact h
      · have hlt : current.history.index < current.history.stack.length :=
          (List.getElem?_eq_some_iff.1 htab.current).1
        refine h.setGroup (hgroup.set hcurrent (TabInv.goTo _ ?_ ?_ current) rfl rfl)
          (ne_nil_of_get? hget)
        · cases replace with
          | true => exact at_of_take (Nat.le_of_lt hlt)
          | false => exact at_of_take hlt
        · -- what stays of the old stack, and the new URL
          have hvisited := htab.visited
          cases replace with
          | true =>
            intro u hu
            rcases List.mem_append.1 hu with hu | hu
            · exact hvisited u (List.mem_of_mem_take hu)
            · rcases List.mem_cons.1 hu with rfl | hu
              · exact hclean
              · exact hvisited u (List.mem_of_mem_drop hu)
          | false =>
            intro u hu
            rcases List.mem_append.1 hu with hu | hu
            · exact hvisited u (List.mem_of_mem_take hu)
            · exact List.mem_singleton.1 hu ▸ hclean
  · exact h

theorem Inv.stepHistory (h : Inv s) (delta : Int) : Inv (s.stepHistory delta) := by
  unfold TabStore.stepHistory
  split
  · exact h
  rename_i slug group index current hactive
  rcases activeTab_some hactive with ⟨-, hget, hcurrent⟩
  have hgroup := h.groupAt hget
  have htab := hgroup.tabs current (List.mem_of_getElem? hcurrent)
  dsimp only
  split
  · exact h
  · split
    · exact h
    · rename_i url hurl
      have hthere := TabInv.goTo
        { current.history with index := (current.history.index + delta).toNat } hurl htab.visited
        current
      exact h.setGroup (hgroup.set hcurrent hthere rfl rfl) (ne_nil_of_get? hget)

/-- What is used of the library's function. -/
def Moves (arrayMove : List TabSession → Nat → Nat → List TabSession) : Prop :=
  ∀ tabs i j t, tabs[i]? = some t → j < tabs.length →
    arrayMove tabs i j = insertAt (tabs.eraseIdx i) j t

theorem Inv.moveTab (h : Inv s) {arrayMove : List TabSession → Nat → Nat → List TabSession}
    (hmoves : Moves arrayMove) (fromIndex toIndex : Int) :
    Inv (s.moveTab arrayMove fromIndex toIndex) := by
  unfold TabStore.moveTab
  split
  · exact h
  split
  · exact h
  split
  · exact h
  rename_i slug _ group hget
  have hgroup := h.groupAt hget
  split
  · exact h
  split
  · exact h
  rename_i source hsource
  have htab := hgroup.tabs source (List.mem_of_getElem? hsource)
  dsimp only
  split
  · exact h
  · have hlt : (TabStore.clampedTo group.tabs source toIndex).toNat < group.tabs.length := by
      have hboundary := hgroup.pinned.boundary_eraseIdx hsource
      have hle : pinnedBoundary (group.tabs.eraseIdx fromIndex.toNat) ≤
          (group.tabs.eraseIdx fromIndex.toNat).length :=
        (List.takeWhile_prefix _).length_le
      rw [List.length_eraseIdx_of_lt (List.getElem?_eq_some_iff.1 hsource).1] at hle
      have hpos := List.length_pos_of_mem (List.mem_of_getElem? hsource)
      simp only [TabStore.clampedTo]
      split <;> simp_all <;> omega
    rw [hmoves _ _ _ _ hsource hlt]
    exact h.setGroup (hgroup.moved hsource htab rfl (hgroup.pinned.moved hsource toIndex))
      (ne_nil_of_get? hget)

theorem Inv.togglePin (h : Inv s) (tabId : String) : Inv (s.togglePin tabId) := by
  unfold TabStore.togglePin
  split
  · exact h
  rename_i slug group index hfound
  rcases findTabLocation_some hfound with ⟨hget, -⟩
  have hgroup := h.groupAt hget
  split
  · exact h
  · rename_i current hcurrent
    have htab := (hgroup.tabs current (List.mem_of_getElem? hcurrent)).congr
      { current with pinned := !current.pinned } rfl rfl rfl
    have hrest : PinnedFirst (group.tabs.eraseIdx index) :=
      hgroup.pinned.sublist (List.eraseIdx_sublist _ _)
    exact h.setGroup (hgroup.moved hcurrent htab rfl
      (hrest.insertAt (fun _ => Nat.le_refl _) fun _ => Nat.le_refl _)) (ne_nil_of_get? hget)

theorem Inv.validateWorkspaceSlugs (h : Inv s) {validSlugs : List String}
    (hk : keepsHome s (.validateWorkspaceSlugs validSlugs fresh) = true) :
    Inv (s.validateWorkspaceSlugs validSlugs fresh) := by
  have hmem : ∀ e : String × WorkspaceTabGroup,
      e ∈ (s.byWorkspace.filterMap fun slug group =>
        if validSlugs.contains slug then some group else none).entries ↔
      e ∈ s.byWorkspace.entries ∧ validSlugs.contains e.1 = true := by
    intro e
    rw [Record.mem_filterMap (k := e.1) (b := e.2)]
    constructor
    · rintro ⟨group, hin, hkeep⟩
      obtain ⟨hvalid, hgroup⟩ := Option.ite_none_right_eq_some.1 hkeep
      obtain rfl := Option.some.inj hgroup
      exact ⟨hin, hvalid⟩
    · rintro ⟨hin, hvalid⟩
      exact ⟨e.2, hin, if_pos hvalid⟩
  unfold TabStore.validateWorkspaceSlugs
  revert hmem
  generalize (s.byWorkspace.filterMap fun slug group =>
    if validSlugs.contains slug then some group else none) = kept
  intro hmem
  have hkept : ∀ e ∈ kept.entries, GroupInv e.1 e.2 := fun e he => h.groups e ((hmem e).1 he).1
  have hinv : ∀ slug ∈ kept.keys,
      Inv { activeWorkspaceSlug := some slug, byWorkspace := kept } := by
    intro slug hslug
    refine ⟨hkept, fun other hother => ?_, fun hnone => absurd hnone (Option.some_ne_none slug)⟩
    exact Option.some.inj hother ▸ hslug
  dsimp only
  split
  · rename_i slug hactive
    obtain ⟨hsome, hvalid⟩ := Option.filter_eq_some_iff.1 hactive
    rcases List.mem_map.1 (h.active slug (Option.filter_eq_some_iff.1 hsome).1) with ⟨e, he, rfl⟩
    exact hinv e.1 (List.mem_map_of_mem ((hmem e).2 ⟨he, hvalid⟩))
  split
  · rename_i slug hhead
    exact hinv slug (List.mem_of_head? (Option.filter_eq_some_iff.1 hhead).1)
  rename_i hhead
  -- a group that is left would have a slug that is not empty
  have hnil : kept.entries = [] := by
    cases hentries : kept.entries with
    | nil => rfl
    | cons e es =>
      have hplain := (hkept e (hentries ▸ List.mem_cons_self)).plainSlug
      have hne : e.1 ≠ "" := by
        rintro hempty
        simp [plainSlug, hempty] at hplain
      simp [Record.keys, hentries, hne] at hhead
  split
  · exact ⟨hkept, fun slug hslug => absurd hslug.symm (Option.some_ne_none slug), fun _ => hnil⟩
  · rename_i slug hfallback
    obtain ⟨hfirst, hne⟩ := Option.filter_eq_some_iff.1 hfallback
    have hplain : plainSlug slug = true := by
      simp only [keepsHome, Bool.or_eq_true, hfirst, Option.all_some, beq_iff_eq] at hk
      rcases hk with hany | hempty | hplain
      · rcases List.any_eq_true.1 hany with ⟨key, hkey, hvalid⟩
        rcases List.mem_map.1 hkey with ⟨e, he, rfl⟩
        have hin := (hmem e).2 ⟨he, hvalid⟩
        simp [hnil] at hin
      · simp [hempty] at hne
      · exact hplain
    have hempty : Inv { activeWorkspaceSlug := none, byWorkspace := kept } :=
      ⟨hkept, fun other hother => absurd hother.symm (Option.some_ne_none other), fun _ => hnil⟩
    exact hempty.enter (GroupInv.single (TabInv.makeSession (belongs_default hplain) _ _ _))

end Actions

end Store

/-! ## The disk -/

section Disk

variable {slug : String} {group : WorkspaceTabGroup} {t : TabSession} {s : TabStore}

/-- A tab that is written is read back. -/
theorem restoreTab_partializeTab (h : TabSound slug t) :
    restoreTab slug (partializeTab t) = some t := by
  obtain ⟨hlt, -⟩ := List.getElem?_eq_some_iff.1 h.current
  have hhistory : restoreHistory t.url (partializeTab t).history = t.history := by
    have hne : t.history.stack ≠ [] := List.ne_nil_of_length_pos (Nat.zero_lt_of_lt hlt)
    have hstack : (some t.history.stack).filter (· != []) = some t.history.stack :=
      Option.filter_eq_some_iff.2 ⟨rfl, by simpa using hne⟩
    have hindex : (min (max (t.history.index : Int) 0) (t.history.stack.length - 1)).toNat =
        t.history.index := by omega
    simp only [restoreHistory, partializeTab, Option.bind_some, hstack, Option.getD_some, hindex]
  rw [restoreTab]
  simp only [partializeTab, h.home.1, h.home.2] at hhistory ⊢
  simp [hhistory, ← h.key]

/-- A group that is written is read back. -/
theorem restoreGroup_partialize (h : GroupSound slug group) :
    restoreGroup slug
      { tabs := group.tabs.map partializeTab, activeTabId := group.activeTabId } = some group := by
  have htabs : (group.tabs.map partializeTab).filterMap (restoreTab slug) = group.tabs := by
    rw [List.filterMap_map]
    refine (List.filterMap_congr fun t ht => ?_).trans List.filterMap_some
    exact restoreTab_partializeTab (h.tabs t ht)
  have hany : group.tabs.any (·.id == group.activeTabId) = true := by
    rcases List.mem_map.1 h.active with ⟨t, ht, hid⟩
    exact List.any_eq_true.2 ⟨t, ht, by simpa using hid⟩
  rw [restoreGroup, htabs, sortPinned_of_pinnedFirst h.pinned]
  cases hcases : group.tabs with
  | nil => exact absurd hcases h.inhabited
  | cons first rest =>
    rw [hcases] at hany
    simp only [hany, if_true]
    rw [← hcases]

theorem Inv.restored (h : Inv s) (s' : TabStore) : merge (partialize s) s' = s := by
  have hgroups : (s.byWorkspace.filterMap fun _ group => some
      { tabs := group.tabs.map partializeTab, activeTabId := group.activeTabId : PersistedGroup
        }).filterMap restoreGroup = s.byWorkspace :=
    Record.filterMap_self fun e he => restoreGroup_partialize (h.groups e he).sound
  simp only [merge, partialize, hgroups]
  cases hactive : s.activeWorkspaceSlug with
  | none =>
    have hkeys : s.byWorkspace.keys = [] := by simp [Record.keys, h.idle hactive]
    cases s
    simp_all
  | some slug =>
    rcases List.mem_map.1 (h.active slug hactive) with ⟨e, he, rfl⟩
    have hget : s.byWorkspace.get? e.1 = some e.2 := Record.get?_eq_some.2 he
    have hne : e.1 ≠ "" := by
      intro hempty
      have hplain := (h.groups e he).plainSlug
      simp [plainSlug, hempty] at hplain
    cases s
    simp_all

theorem restoreTab_some {pTab : PersistedTab} (h : restoreTab slug pTab = some t)
    (hk : keptAtHome slug pTab = true) : TabInv slug t := by
  rw [keptAtHome, h] at hk
  simp only [Bool.and_eq_true, beq_iff_eq, List.all_eq_true, decide_eq_true_eq] at hk
  unfold restoreTab at h
  split at h
  · simp at h
  · rename_i clean hsan
    split at h
    · simp at h
    · rename_i hslug
      obtain rfl := Option.some.inj h
      exact ⟨⟨⟨sanitizeTabPath_idem hsan, not_not.1 hslug⟩, rfl, hk.1⟩, hk.2⟩

theorem restoreGroup_some {pGroup : PersistedGroup} (h : restoreGroup slug pGroup = some group)
    (hnodup : ((pGroup.tabs.filterMap (restoreTab slug)).map (·.id)).Nodup)
    (hk : ∀ pTab ∈ pGroup.tabs, keptAtHome slug pTab = true) : GroupInv slug group := by
  have hperm := sortPinned_perm (pGroup.tabs.filterMap (restoreTab slug))
  have hpinned := pinnedFirst_sortPinned (pGroup.tabs.filterMap (restoreTab slug))
  rw [restoreGroup] at h
  split at h
  · simp at h
  · rename_i first rest hsorted
    rw [hsorted] at hperm hpinned h
    obtain rfl := Option.some.inj h
    refine ⟨List.cons_ne_nil _ _, (hperm.map _).nodup_iff.2 hnodup, ?_, hpinned, ?_⟩
    · show (if _ then _ else _) ∈ _
      split
      · rename_i hany
        rcases List.any_eq_true.1 hany with ⟨t, ht, hid⟩
        exact List.mem_map.2 ⟨t, ht, by simpa using hid⟩
      · exact List.mem_map_of_mem List.mem_cons_self
    · intro t ht
      rcases List.mem_filterMap.1 (hperm.subset ht) with ⟨pTab, hpTab, hrestore⟩
      exact restoreTab_some hrestore (hk pTab hpTab)

theorem Inv.rehydrate (h : Inv s) {persisted : Persisted}
    (hk : keepsHome s (.rehydrate persisted) = true) : Inv (merge persisted s) := by
  unfold merge
  split
  · exact h
  rename_i groups hgroups
  simp only [keepsHome, hgroups, List.all_eq_true, Bool.and_eq_true, decide_eq_true_eq] at hk
  have hrestored : ∀ e ∈ (groups.filterMap restoreGroup).entries, GroupInv e.1 e.2 := by
    rintro ⟨slug, group⟩ he
    rcases Record.mem_filterMap.1 he with ⟨pGroup, hin, hrestore⟩
    exact restoreGroup_some hrestore (hk _ hin).1 (hk _ hin).2
  refine ⟨hrestored, fun slug hslug => ?_, fun hnone => ?_⟩
  · dsimp only at hslug
    rw [Option.orElse_eq_orElse, Option.orElse_eq_or] at hslug
    rcases Option.or_eq_some_iff.1 hslug with hknown | ⟨-, hhead⟩
    · have hsome := (Option.filter_eq_some_iff.1 hknown).2
      simp only [Bool.and_eq_true, Option.isSome_iff_exists] at hsome
      rcases hsome.2 with ⟨group, hget⟩
      exact List.mem_map_of_mem (Record.get?_eq_some.1 hget)
    · exact List.mem_of_head? hhead
  · dsimp only at hnone
    rw [Option.orElse_eq_orElse, Option.orElse_eq_or] at hnone
    have hhead := (Option.or_eq_none_iff.1 hnone).2
    exact List.map_eq_nil_iff.1 (List.head?_eq_none_iff.1 hhead)

end Disk

/-! ## Runs -/

section Runs

variable {s s' : TabStore} {arrayMove : List TabSession → Nat → Nat → List TabSession}

theorem Inv.sound (h : Inv s) : Sound s where
  groups := fun e he => (h.groups e he).sound
  active := h.active
  restored := h.restored

theorem inv_step (hmoves : Moves arrayMove) {a : Act} (h : Inv s)
    (hk : keepsHome s a = true) (hn : (machine arrayMove).next s a = some s') : Inv s' := by
  obtain ⟨hfresh, hstep⟩ := Option.ite_none_right_eq_some.1 hn
  obtain rfl : step arrayMove s a = s' := Option.some.inj hstep
  cases a with
  | rehydrate persisted => exact h.rehydrate hk
  | switchWorkspace slug openPath fresh => exact h.switchWorkspace hfresh hk
  | openTab path title icon activate fresh => exact h.openTab hfresh hk
  | addTab path title icon fresh => exact h.addTab hfresh hk
  | closeTab tabId fresh => exact h.closeTab tabId fresh
  | closeOtherTabs tabId => exact h.closeOtherTabs tabId
  | setActiveTab tabId => exact h.setActiveTab tabId
  | updateTab tabId title icon => exact h.updateTab tabId title icon
  | navigateActiveSession url replace => exact h.navigateActiveSession url replace
  | goBack => exact h.stepHistory (-1)
  | goForward => exact h.stepHistory 1
  | moveTab fromIndex toIndex => exact h.moveTab hmoves fromIndex toIndex
  | togglePin tabId => exact h.togglePin tabId
  | validateWorkspaceSlugs validSlugs fresh => exact h.validateWorkspaceSlugs hk
  | reset => exact .reset

/-- A library's `arrayMove`. -/
def takeAndPut (tabs : List TabSession) (i j : Nat) : List TabSession :=
  match tabs[i]? with
  | none => tabs
  | some t => insertAt (tabs.eraseIdx i) j t

theorem moves_takeAndPut : Moves takeAndPut := by
  intro tabs i j t ht _
  rw [takeAndPut, ht]

end Runs

end Orynx.Tabs
