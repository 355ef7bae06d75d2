import Orynx.Board.DeleteCache

/-! # Deleting an issue cleans its caches

* `Content`: what the queries of a workspace cache under its issue keys;
* `collect_spec`, `prune_spec`, `cleanup_spec`: what the metadata, the scans and the removals leave,
  if nothing raises;
* `deletes_iff`: the caches are cleaned, and restored when the request fails, just when no board
  grouped by assignees is cached under the `my` prefix, no list has the issue in two buckets, and no
  detail of another key holds it.
-/

namespace Orynx.Board

open Lib
open Autopilot (IssueStatus)

variable {β : Type} {qc : Client β} {ws id : UUID}

/-! ## The properties -/

/-- The prefixes whose entries are scanned or read. -/
def scanned (ws : UUID) : List QueryKey :=
  [issueKeys.list ws, issueKeys.myAll ws, issueKeys.all ws ++ [.text "children"],
    issueKeys.all ws ++ [.text "detail"]]

/-- What is cached under a key. Project gantt lists, the boards of the workspace, progress and the
entries of other workspaces are none of the scanned ones. -/
inductive Content (ws : UUID) : QueryKey → Data β → Prop where
  | list (sort : String) (resp : Buckets (WithParent β)) :
      Content ws (issueKeys.listSorted ws sort) (.buckets resp)
  | my (scope filter sort : String) (resp : Buckets (WithParent β)) :
      Content ws (issueKeys.myListSorted ws scope filter sort) (.buckets resp)
  | myGroups (scope filter : String) (groups : List (List (Issue (WithParent β)))) :
      Content ws (issueKeys.myAssigneeGroups ws scope filter) (.groups groups)
  | children (p : UUID) (issues : List (Issue (WithParent β))) :
      Content ws (issueKeys.children ws p) (.rows issues)
  | detail (other : UUID) (issue : Issue (WithParent β)) :
      Content ws (issueKeys.detail ws other) (.issue issue)
  | other (key : QueryKey) (data : Data β) : (∀ pre ∈ scanned ws, ¬pre <+: key) →
      Content ws key data

/-- The buckets that hold an issue of the id. -/
def HeldIn (resp : Buckets (WithParent β)) (id : UUID) (st : IssueStatus) : Prop :=
  ∃ i ∈ (resp st).issues, i.id = id

/-- A bucketed list, a list of children or a detail holds the issue. -/
def Data.Holds (id : UUID) : Data β → Prop
  | .buckets resp => ∃ st, HeldIn resp id st
  | .groups _ => False
  | .rows issues => ∃ i ∈ issues, i.id = id
  | .issue i => i.id = id

/-- The issue is out of every list and detail, and counted no more where it was. -/
structure Cleaned (qc : Client β) (ws id : UUID) (c c' : qc.Cache) : Prop where
  gone : ∀ pre ∈ scanned ws, ∀ key data, pre <+: key → qc.getQueryData c' key = some data →
    ¬data.Holds id
  buckets : ∀ key resp, issueKeys.list ws <+: key ∨ issueKeys.myAll ws <+: key →
    qc.getQueryData c key = some (.buckets resp) → ∃ resp',
      qc.getQueryData c' key = some (.buckets resp') ∧ ∀ st,
        (resp' st).issues = without id (resp st).issues ∧
        (HeldIn resp id st → (resp' st).total = (resp st).total - 1) ∧
        (¬HeldIn resp id st → (resp' st).total = (resp st).total)

/-- The handler and the mutation complete, and clean the caches; the mutation's own cleanup after
the request changes no count again, and its rollback restores every entry. -/
structure Deletes (qc : Client β) (ws id : UUID) (c : qc.Cache) : Prop where
  handler : ∃ c', onIssueDeleted qc ws id c = some c' ∧ Cleaned qc ws id c c'
  optimistic : ∃ ctx c', onMutate qc ws id c = some (ctx, c') ∧ Cleaned qc ws id c c' ∧
    (∃ c'', cleanupDeletedIssueCaches qc ws id ctx.metadata c' = some c'' ∧
      Cleaned qc ws id c c'') ∧
    ∀ key, qc.getQueryData (onError qc ws ctx c') key = qc.getQueryData c key

structure Deletable (qc : Client β) (ws id : UUID) (c : qc.Cache) : Prop where
  noGroups : ∀ scope filter, qc.getQueryData c (issueKeys.myAssigneeGroups ws scope filter) = none
  oneBucket : ∀ key resp, issueKeys.list ws <+: key ∨ issueKeys.myAll ws <+: key →
    qc.getQueryData c key = some (.buckets resp) →
      ∀ st st', HeldIn resp id st → HeldIn resp id st' → st = st'
  ownDetail : ∀ other issue, qc.getQueryData c (issueKeys.detail ws other) = some (.issue issue) →
    issue.id = id → other = id

/-! ## Keys -/

theorem scope_unique {t t' : String} {key : QueryKey} (h : issueKeys.all ws ++ [.text t] <+: key)
    (h' : issueKeys.all ws ++ [.text t'] <+: key) : t = t' := by
  obtain ⟨rest, rfl⟩ := h
  obtain ⟨rest', h'⟩ := h'
  have hseg : some (Segment.text t') = some (.text t) :=
    congrArg (fun key : QueryKey => key[2]?) h'
  exact (Segment.text.inj (Option.some.inj hseg)).symm

theorem list_under (sort : String) : issueKeys.list ws <+: issueKeys.listSorted ws sort :=
  List.prefix_append _ _

theorem my_under (scope filter sort : String) :
    issueKeys.myAll ws <+: issueKeys.myListSorted ws scope filter sort :=
  (List.prefix_append _ _).trans (List.prefix_append _ _)

theorem myGroups_under (scope filter : String) :
    issueKeys.myAll ws <+: issueKeys.myAssigneeGroups ws scope filter :=
  (List.prefix_append _ _).trans (List.prefix_append _ _)

theorem children_under (p : UUID) :
    issueKeys.all ws ++ [.text "children"] <+: issueKeys.children ws p :=
  ⟨[.id p], by simp [issueKeys.children]⟩

theorem detail_under (other : UUID) :
    issueKeys.all ws ++ [.text "detail"] <+: issueKeys.detail ws other :=
  ⟨[.id other], by simp [issueKeys.detail]⟩

theorem children_inj {p p' : UUID} (h : issueKeys.children ws p = issueKeys.children ws p') :
    p = p' := by
  simpa [issueKeys.children] using h

theorem not_list_of_my {key : QueryKey} (h : issueKeys.myAll ws <+: key) :
    ¬issueKeys.list ws <+: key :=
  fun h' => absurd (scope_unique h' h) (by decide)

/-! ## Shapes -/

section Shapes

variable {key : QueryKey} {data : Data β}

theorem Content.of_list (h : Content ws key data) (hpre : issueKeys.list ws <+: key) :
    ∃ resp, data = .buckets resp := by
  cases h with
  | list sort resp => exact ⟨resp, rfl⟩
  | my scope filter sort resp => exact ⟨resp, rfl⟩
  | myGroups scope filter groups =>
    exact absurd (scope_unique hpre (myGroups_under scope filter)) (by decide)
  | children p issues => exact absurd (scope_unique hpre (children_under p)) (by decide)
  | detail other issue => exact absurd (scope_unique hpre (detail_under other)) (by decide)
  | other _ _ hnot => exact absurd hpre (hnot _ (by simp [scanned]))

theorem Content.of_my (h : Content ws key data) (hpre : issueKeys.myAll ws <+: key)
    (hgroups : ∀ scope filter, key ≠ issueKeys.myAssigneeGroups ws scope filter) :
    ∃ resp, data = .buckets resp := by
  cases h with
  | list sort resp => exact ⟨resp, rfl⟩
  | my scope filter sort resp => exact ⟨resp, rfl⟩
  | myGroups scope filter groups => exact absurd rfl (hgroups scope filter)
  | children p issues => exact absurd (scope_unique hpre (children_under p)) (by decide)
  | detail other issue => exact absurd (scope_unique hpre (detail_under other)) (by decide)
  | other _ _ hnot => exact absurd hpre (hnot _ (by simp [scanned]))

theorem Content.of_children (h : Content ws key data)
    (hpre : issueKeys.all ws ++ [.text "children"] <+: key) :
    ∃ p issues, key = issueKeys.children ws p ∧ data = .rows issues := by
  cases h with
  | list sort resp => exact absurd (scope_unique hpre (list_under sort)) (by decide)
  | my scope filter sort resp =>
    exact absurd (scope_unique hpre (my_under scope filter sort)) (by decide)
  | myGroups scope filter groups =>
    exact absurd (scope_unique hpre (myGroups_under scope filter)) (by decide)
  | children p issues => exact ⟨p, issues, rfl, rfl⟩
  | detail other issue => exact absurd (scope_unique hpre (detail_under other)) (by decide)
  | other _ _ hnot => exact absurd hpre (hnot _ (by simp [scanned]))

theorem Content.of_detail (h : Content ws key data)
    (hpre : issueKeys.all ws ++ [.text "detail"] <+: key) :
    ∃ other issue, key = issueKeys.detail ws other ∧ data = .issue issue := by
  cases h with
  | list sort resp => exact absurd (scope_unique hpre (list_under sort)) (by decide)
  | my scope filter sort resp =>
    exact absurd (scope_unique hpre (my_under scope filter sort)) (by decide)
  | myGroups scope filter groups =>
    exact absurd (scope_unique hpre (myGroups_under scope filter)) (by decide)
  | children p issues => exact absurd (scope_unique hpre (children_under p)) (by decide)
  | detail other issue => exact ⟨other, issue, rfl, rfl⟩
  | other _ _ hnot => exact absurd hpre (hnot _ (by simp [scanned]))

end Shapes

/-! ## Buckets -/

/-- A removal takes the issue out of the only bucket that holds it. -/
theorem removeIssueFromBuckets_of_one {resp : Buckets (WithParent β)}
    (hone : ∀ st st', HeldIn resp id st → HeldIn resp id st' → st = st') (st : IssueStatus) :
    (removeIssueFromBuckets resp id st).issues = without id (resp st).issues ∧
      (HeldIn resp id st → (removeIssueFromBuckets resp id st).total = (resp st).total - 1) ∧
      (¬HeldIn resp id st → (removeIssueFromBuckets resp id st).total = (resp st).total) := by
  have hout : ∀ st, ¬HeldIn resp id st → without id (resp st).issues = (resp st).issues :=
    fun st hnot => without_of_absent fun i hi heq => hnot ⟨i, hi, heq⟩
  cases hloc : findIssueLocation resp id with
  | none =>
    have hnot : ∀ st, ¬HeldIn resp id st := by
      rintro st ⟨i, hi, heq⟩
      exact locate_none hloc st i hi heq
    simp only [removeIssueFromBuckets, hloc]
    exact ⟨(hout st (hnot st)).symm, fun h => absurd h (hnot st), fun _ => trivial⟩
  | some found =>
    obtain ⟨st₀, issue⟩ := found
    obtain ⟨hmem, hid⟩ := locate_some hloc
    have hheld : HeldIn resp id st₀ := ⟨issue, hmem, hid⟩
    simp only [removeIssueFromBuckets, hloc]
    by_cases hst : st = st₀
    · subst hst
      rw [setBucket_self]
      exact ⟨rfl, fun _ => rfl, fun h => absurd hheld h⟩
    · have hnot : ¬HeldIn resp id st := fun h => hst (hone st st₀ h hheld)
      rw [setBucket_ne hst]
      exact ⟨(hout st hnot).symm, fun h => absurd h hnot, fun _ => rfl⟩

/-- A second bucket that holds the issue is not looked at. -/
theorem one_of_removed {resp : Buckets (WithParent β)}
    (h : ∀ st, ¬HeldIn (removeIssueFromBuckets resp id) id st) (st st' : IssueStatus)
    (hst : HeldIn resp id st) (hst' : HeldIn resp id st') : st = st' := by
  cases hloc : findIssueLocation resp id with
  | none =>
    obtain ⟨i, hi, heq⟩ := hst
    exact absurd heq (locate_none hloc st i hi)
  | some found =>
    obtain ⟨st₀, issue⟩ := found
    have hfirst : ∀ st, HeldIn resp id st → st = st₀ := by
      rintro st ⟨i, hi, heq⟩
      by_contra hne
      refine h st ⟨i, ?_, heq⟩
      simp only [removeIssueFromBuckets, hloc]
      rw [setBucket_ne hne]
      exact hi
    exact (hfirst st hst).trans (hfirst st' hst').symm

/-! ## Metadata -/

/-- Nothing is lost, and nothing comes twice. -/
def Grows (s s' : List UUID) : Prop := s ⊆ s' ∧ (s.Nodup → s'.Nodup)

theorem Grows.trans {s s' s'' : List UUID} (h : Grows s s') (h' : Grows s' s'') : Grows s s'' :=
  ⟨List.Subset.trans h.1 h'.1, fun hs => h'.2 (h.2 hs)⟩

theorem collectParentId_grows (s : List UUID) (p : Option UUID) :
    Grows s (collectParentId s p) := by
  cases p with
  | none => exact ⟨List.Subset.refl s, fun hs => hs⟩
  | some p =>
    rw [collectParentId]
    split
    · exact ⟨List.Subset.refl s, fun hs => hs⟩
    · rename_i hnew
      refine ⟨List.subset_append_left s _, fun hs => ?_⟩
      exact List.nodup_append.2 ⟨hs, List.nodup_singleton p, fun a ha b hb hab =>
        hnew (List.mem_singleton.1 hb ▸ hab ▸ ha)⟩

theorem mem_collectParentId (s : List UUID) (p : UUID) : p ∈ collectParentId s (some p) := by
  rw [collectParentId]
  split
  · assumption
  · exact List.mem_append_right s List.mem_cons_self

section Fold

variable {ε : Type} {f : List UUID → ε → Option (List UUID)} {l : List ε} {s s' : List UUID}

theorem foldlM_grows (hf : ∀ s e s', f s e = some s' → Grows s s')
    (h : l.foldlM f s = some s') :
    Grows s s' ∧ ∀ e ∈ l, ∃ s₁ s₂, f s₁ e = some s₂ ∧ s₂ ⊆ s' := by
  induction l generalizing s with
  | nil =>
    obtain rfl := Option.some.inj h
    exact ⟨⟨List.Subset.refl s, fun hs => hs⟩, List.forall_mem_nil _⟩
  | cons e l ih =>
    rw [List.foldlM_cons] at h
    obtain ⟨s₁, h₁, h⟩ := Option.bind_eq_some_iff.1 h
    obtain ⟨hgrows, hall⟩ := ih h
    exact ⟨(hf s e s₁ h₁).trans hgrows, List.forall_mem_cons.2 ⟨⟨s, s₁, h₁, hgrows.1⟩, hall⟩⟩

theorem foldlM_isSome (hf : ∀ e ∈ l, ∀ s, ∃ s', f s e = some s') (s : List UUID) :
    ∃ s', l.foldlM f s = some s' := by
  induction l generalizing s with
  | nil => exact ⟨s, rfl⟩
  | cons e l ih =>
    obtain ⟨he, hl⟩ := List.forall_mem_cons.1 hf
    obtain ⟨s₁, h₁⟩ := he s
    obtain ⟨s', hs'⟩ := ih hl s₁
    exact ⟨s', by rw [List.foldlM_cons, h₁]; exact hs'⟩

end Fold

theorem collectFromList_grows (id : UUID) (s : List UUID) (e : QueryKey × Data β)
    (s' : List UUID) (h : collectParentFromListCache id s e = some s') : Grows s s' := by
  obtain ⟨resp, -, rfl⟩ := Option.map_eq_some_iff.1 h
  exact collectParentId_grows s _

theorem collectOfChild_grows (id : UUID) (s : List UUID) (e : QueryKey × Data β)
    (s' : List UUID) (h : collectParentsOfChild id s e = some s') : Grows s s' := by
  obtain ⟨issues, -, rfl⟩ := Option.map_eq_some_iff.1 h
  split
  · exact ⟨List.Subset.refl s, fun hs => hs⟩
  · exact (collectParentId_grows s _).trans (collectParentId_grows _ _)

/-- A list of children that holds the issue gives the parent of its key. -/
theorem mem_collectParentsOfChild {p : UUID} {issues : List (Issue (WithParent β))}
    (hheld : ∃ i ∈ issues, i.id = id) {s s' : List UUID}
    (h : collectParentsOfChild id s (issueKeys.children ws p, .rows issues) = some s') :
    p ∈ s' := by
  obtain ⟨issues', hi, rfl⟩ := Option.map_eq_some_iff.1 h
  obtain rfl : issues = issues' := Option.some.inj hi
  obtain ⟨i, hmem, heq⟩ := hheld
  split
  · rename_i hnone
    exact absurd heq (by simpa using List.find?_eq_none.1 hnone i hmem)
  · have hkey : parentIdFromChildrenKey (issueKeys.children ws p) = some p := by
      simp [parentIdFromChildrenKey, issueKeys.children]
    rw [hkey]
    exact mem_collectParentId _ p

variable {c : qc.Cache}

/-- The data of an entry of the scan. -/
theorem get_of_mem {pre : QueryKey} {e : QueryKey × Data β} (h : e ∈ qc.getQueriesData c pre) :
    pre <+: e.1 ∧ qc.getQueryData c e.1 = some e.2 :=
  (qc.mem_getQueriesData c pre e.1 e.2).1 h

/-- What a workspace caches under the issue keys, without boards grouped by assignees. -/
structure Shaped (qc : Client β) (ws : UUID) (c : qc.Cache) : Prop where
  content : ∀ key data, qc.getQueryData c key = some data → Content ws key data
  noGroups : ∀ scope filter, qc.getQueryData c (issueKeys.myAssigneeGroups ws scope filter) = none

theorem Shaped.of_list (h : Shaped qc ws c) {key : QueryKey} {data : Data β}
    (hpre : issueKeys.list ws <+: key ∨ issueKeys.myAll ws <+: key)
    (hget : qc.getQueryData c key = some data) : ∃ resp, data = .buckets resp := by
  have hcontent := h.content key data hget
  rcases hpre with hpre | hpre
  · exact hcontent.of_list hpre
  · refine hcontent.of_my hpre fun scope filter heq => ?_
    rw [heq, h.noGroups] at hget
    cases hget

theorem collect_spec (id : UUID) (h : Shaped qc ws c) : ∃ metadata,
    collectDeletedIssueCacheMetadata qc ws id c = some metadata ∧ metadata.Nodup ∧
      ∀ p issues, qc.getQueryData c (issueKeys.children ws p) = some (.rows issues) →
        (∃ i ∈ issues, i.id = id) → p ∈ metadata := by
  have hlists : ∀ pre, pre = issueKeys.list ws ∨ pre = issueKeys.myAll ws →
      ∀ e ∈ qc.getQueriesData c pre, ∀ s, ∃ s', collectParentFromListCache id s e = some s' := by
    intro pre hpre e he s
    obtain ⟨hkey, hget⟩ := get_of_mem he
    have hor : issueKeys.list ws <+: e.1 ∨ issueKeys.myAll ws <+: e.1 := by
      rcases hpre with rfl | rfl
      · exact .inl hkey
      · exact .inr hkey
    obtain ⟨resp, hdata⟩ := h.of_list hor hget
    exact ⟨_, by rw [collectParentFromListCache, hdata]; rfl⟩
  have hchildren : ∀ e ∈ qc.getQueriesData c (issueKeys.all ws ++ [.text "children"]),
      ∀ s, ∃ s', collectParentsOfChild id s e = some s' := by
    intro e he s
    obtain ⟨hkey, hget⟩ := get_of_mem he
    obtain ⟨p, issues, -, hdata⟩ := (h.content _ _ hget).of_children hkey
    exact ⟨_, by rw [collectParentsOfChild, hdata]; rfl⟩
  let s₀ := collectParentId [] (parentOfDetail (qc.getQueryData c (issueKeys.detail ws id)))
  obtain ⟨s₁, hs₁⟩ := foldlM_isSome (hlists _ (.inl rfl)) s₀
  obtain ⟨s₂, hs₂⟩ := foldlM_isSome (hlists _ (.inr rfl)) s₁
  obtain ⟨s₃, hs₃⟩ := foldlM_isSome hchildren s₂
  have hg₁ := (foldlM_grows (collectFromList_grows id) hs₁).1
  have hg₂ := (foldlM_grows (collectFromList_grows id) hs₂).1
  obtain ⟨hg₃, hall⟩ := foldlM_grows (collectOfChild_grows id) hs₃
  have hnodup : s₃.Nodup :=
    (((collectParentId_grows [] _).trans hg₁).trans (hg₂.trans hg₃)).2 List.nodup_nil
  refine ⟨s₃, ?_, hnodup, ?_⟩
  · exact Option.bind_eq_some_iff.2 ⟨s₁, hs₁, Option.bind_eq_some_iff.2 ⟨s₂, hs₂, hs₃⟩⟩
  · intro p issues hget hheld
    have hmem := (qc.mem_getQueriesData c _ _ _).2 ⟨children_under p, hget⟩
    obtain ⟨s, s', hs', hsub⟩ := hall _ hmem
    exact hsub (mem_collectParentsOfChild hheld hs')

/-- A board grouped by assignees has no buckets to be read. -/
theorem noGroups_of_collect
    (hcontent : ∀ key data, qc.getQueryData c key = some data → Content ws key data)
    {metadata : List UUID} (h : collectDeletedIssueCacheMetadata qc ws id c = some metadata)
    (scope filter : String) :
    qc.getQueryData c (issueKeys.myAssigneeGroups ws scope filter) = none := by
  obtain ⟨s₁, hs₁, h⟩ := Option.bind_eq_some_iff.1 h
  obtain ⟨s₂, hs₂, -⟩ := Option.bind_eq_some_iff.1 h
  have hall := (foldlM_grows (collectFromList_grows id) hs₂).2
  by_contra hne
  obtain ⟨data, hdata⟩ := Option.ne_none_iff_exists'.1 hne
  obtain ⟨s, s', hs', -⟩ := hall _ ((qc.mem_getQueriesData c _ _ _).2
    ⟨myGroups_under scope filter, hdata⟩)
  obtain ⟨resp, hresp, -⟩ := Option.map_eq_some_iff.1 hs'
  generalize hkey : issueKeys.myAssigneeGroups ws scope filter = key at hdata
  cases hcontent key data hdata with
  | list sort resp =>
    have hlist : issueKeys.list ws <+: issueKeys.listSorted ws sort := list_under sort
    exact absurd (scope_unique (hkey ▸ myGroups_under scope filter) hlist) (by decide)
  | my scope' filter' sort resp =>
    have hseg : some (Segment.text scope) = some (.params filter') :=
      congrArg (fun key : QueryKey => key[4]?) hkey
    cases hseg
  | myGroups scope' filter' groups => cases hresp
  | children p issues => cases hresp
  | detail other issue => cases hresp
  | other _ _ hnot => exact hnot _ (by simp [scanned]) (hkey ▸ myGroups_under scope filter)

/-! ## What is left -/

def Data.removed (id : UUID) : Data β → Data β
  | .buckets resp => .buckets (removeIssueFromBuckets resp id)
  | .groups gs => .groups gs
  | .rows issues => .rows issues
  | .issue i => .issue i

def Data.pruned (id : UUID) : Data β → Data β
  | .rows issues => .rows (without id issues)
  | .groups gs => .groups gs
  | .buckets resp => .buckets resp
  | .issue i => .issue i

/-- The key is of a bucketed list. -/
def Listed (ws : UUID) (key : QueryKey) : Prop :=
  issueKeys.list ws <+: key ∨ issueKeys.myAll ws <+: key

instance (key : QueryKey) : Decidable (Listed ws key) :=
  inferInstanceAs (Decidable (_ ∨ _))

/-- The data of an entry after the scans. -/
def after (ws id : UUID) (metadata : List UUID) (key : QueryKey) (data : Data β) : Data β :=
  if Listed ws key then data.removed id
  else if key ∈ metadata.map (issueKeys.children ws) then data.pruned id else data

theorem not_listed_children (p : UUID) : ¬Listed ws (issueKeys.children ws p) := by
  rintro (h | h)
  · exact absurd (scope_unique h (children_under p)) (by decide)
  · exact absurd (scope_unique h (children_under p)) (by decide)

theorem not_listed_detail (other : UUID) : ¬Listed ws (issueKeys.detail ws other) := by
  rintro (h | h)
  · exact absurd (scope_unique h (detail_under other)) (by decide)
  · exact absurd (scope_unique h (detail_under other)) (by decide)

theorem prune_spec (id : UUID) (h : Shaped qc ws c) {metadata : List UUID}
    (hnodup : metadata.Nodup) :
    ∃ c₁ c', pruneDeletedIssueFromListCaches qc ws id c = some c₁ ∧
      pruneDeletedIssueFromParentChildrenCaches qc ws id metadata c₁ = some c' ∧
      ∀ key, qc.getQueryData c' key = (qc.getQueryData c key).map (after ws id metadata key) := by
  have hremove : ∀ key data, Listed ws key → qc.getQueryData c key = some data →
      removeFromBuckets id data = some (data.removed id) := by
    intro key data hlisted hget
    obtain ⟨resp, rfl⟩ := h.of_list hlisted hget
    rfl
  have hlist : ∀ key d, issueKeys.list ws <+: key → qc.getQueryData c key = some d →
      removeFromBuckets id d = some (d.removed id) :=
    fun key d hpre hget => hremove key d (.inl hpre) hget
  obtain ⟨c₀, hc₀, hget₀⟩ := QueryClient.get_updatePrefix (Data.removed id) hlist
  have hmy : ∀ key d, issueKeys.myAll ws <+: key → qc.getQueryData c₀ key = some d →
      removeFromBuckets id d = some (d.removed id) := by
    intro key d hpre hget
    rw [hget₀, if_neg (not_list_of_my hpre)] at hget
    exact hremove key d (.inr hpre) hget
  obtain ⟨c₁, hc₁, hget₁⟩ := QueryClient.get_updatePrefix (Data.removed id) hmy
  have hlisted : ∀ key, qc.getQueryData c₁ key =
      if Listed ws key then (qc.getQueryData c key).map (Data.removed id)
      else qc.getQueryData c key := by
    intro key
    rw [hget₁, hget₀]
    by_cases hm : issueKeys.myAll ws <+: key
    · have hlisted : Listed ws key := .inr hm
      rw [if_pos hm, if_neg (not_list_of_my hm), if_pos hlisted]
    · rw [if_neg hm]
      by_cases hl : issueKeys.list ws <+: key
      · have hlisted : Listed ws key := .inl hl
        rw [if_pos hl, if_pos hlisted]
      · have hlisted : ¬Listed ws key := not_or.2 ⟨hl, hm⟩
        rw [if_neg hl, if_neg hlisted]
  have hinj : (metadata.map (issueKeys.children ws)).Nodup :=
    hnodup.map fun _ _ => children_inj
  have hrows : ∀ key ∈ metadata.map (issueKeys.children ws), ∀ d,
      qc.getQueryData c₁ key = some d → removeFromChildren id d = some (d.pruned id) := by
    intro key hkey d hget
    obtain ⟨p, -, rfl⟩ := List.mem_map.1 hkey
    rw [hlisted, if_neg (not_listed_children p)] at hget
    obtain ⟨p', issues, -, rfl⟩ := (h.content _ _ hget).of_children (children_under p)
    rfl
  obtain ⟨c', hc', hget'⟩ := QueryClient.get_updateQueries (Data.pruned id) hinj hrows
  refine ⟨c₁, c', Option.bind_eq_some_iff.2 ⟨c₀, hc₀, hc₁⟩, hc', fun key => ?_⟩
  rw [hget', hlisted]
  by_cases hl : Listed ws key
  · have hnot : key ∉ metadata.map (issueKeys.children ws) := by
      intro hmem
      obtain ⟨p, -, rfl⟩ := List.mem_map.1 hmem
      exact not_listed_children p hl
    have hafter : after ws id metadata key = Data.removed (β := β) id := by
      funext d
      rw [after, if_pos hl]
    rw [if_neg hnot, if_pos hl, hafter]
  · rw [if_neg hl]
    by_cases hmem : key ∈ metadata.map (issueKeys.children ws)
    · have hafter : after ws id metadata key = Data.pruned (β := β) id := by
        funext d
        rw [after, if_neg hl, if_pos hmem]
      rw [if_pos hmem, hafter]
    · have hafter : after ws id metadata key = fun d : Data β => d := by
        funext d
        rw [after, if_neg hl, if_neg hmem]
      rw [if_neg hmem, hafter]
      exact Option.map_id'.symm

/-- Detail and dependent keys are removed with all that begin like them. -/
def Removed (ws id : UUID) (key : QueryKey) : Prop :=
  issueKeys.detail ws id <+: key ∨ ∃ pre ∈ removedKeys ws id, pre <+: key

instance (key : QueryKey) : Decidable (Removed ws id key) :=
  inferInstanceAs (Decidable (_ ∨ _))

theorem cleanup_spec (id : UUID) (h : Shaped qc ws c) {metadata : List UUID}
    (hnodup : metadata.Nodup) :
    ∃ c', cleanupDeletedIssueCaches qc ws id metadata c = some c' ∧
      ∀ key, qc.getQueryData c' key = if Removed ws id key then none
        else (qc.getQueryData c key).map (after ws id metadata key) := by
  obtain ⟨c₁, c₂, hc₁, hc₂, hget⟩ := prune_spec id h hnodup
  refine ⟨_, Option.bind_eq_some_iff.2 ⟨c₁, hc₁, Option.bind_eq_some_iff.2 ⟨c₂, hc₂, rfl⟩⟩, ?_⟩
  intro key
  rw [QueryClient.get_foldl_remove]
  by_cases hrest : ∃ pre ∈ removedKeys ws id, pre <+: key
  · have hremoved : Removed ws id key := .inr hrest
    rw [if_pos hrest, if_pos hremoved]
  · rw [if_neg hrest]
    by_cases hd : issueKeys.detail ws id <+: key
    · have hremoved : Removed ws id key := .inl hd
      rw [qc.get_remove_under _ _ key hd, if_pos hremoved]
    · have hkept : ¬Removed ws id key := not_or.2 ⟨hd, hrest⟩
      rw [qc.get_remove _ _ key hd, if_neg hkept, hget]

theorem mutate_spec (h : Shaped qc ws c) {metadata : List UUID} (hnodup : metadata.Nodup)
    (hcollect : collectDeletedIssueCacheMetadata qc ws id c = some metadata) :
    ∃ ctx c', onMutate qc ws id c = some (ctx, c') ∧ ctx.id = id ∧ ctx.metadata = metadata ∧
      ctx.prevLists = qc.getQueriesData c (issueKeys.list ws) ∧
      ctx.prevMyLists = qc.getQueriesData c (issueKeys.myAll ws) ∧
      ctx.prevDetail = qc.getQueryData c (issueKeys.detail ws id) ∧
      ctx.prevChildren =
        metadata.map (fun p => (p, qc.getQueryData c (issueKeys.children ws p))) ∧
      ∀ key, qc.getQueryData c' key = if issueKeys.detail ws id <+: key then none
        else (qc.getQueryData c key).map (after ws id metadata key) := by
  obtain ⟨c₁, c₂, hc₁, hc₂, hget⟩ := prune_spec id h hnodup
  refine ⟨_, _, Option.bind_eq_some_iff.2 ⟨metadata, hcollect, Option.bind_eq_some_iff.2
    ⟨c₁, hc₁, Option.bind_eq_some_iff.2 ⟨c₂, hc₂, rfl⟩⟩⟩, rfl, rfl, rfl, rfl, rfl, rfl, ?_⟩
  intro key
  by_cases hd : issueKeys.detail ws id <+: key
  · rw [qc.get_remove_under _ _ key hd, if_pos hd]
  · rw [qc.get_remove _ _ key hd, if_neg hd, hget]

/-! ## Clean caches -/

theorem not_held_without (issues : List (Issue (WithParent β))) :
    ¬∃ i ∈ without id issues, i.id = id := by
  rintro ⟨i, hi, heq⟩
  exact (mem_without.1 hi).2 heq

theorem after_listed {metadata : List UUID} {key : QueryKey} (h : Listed ws key) (data : Data β) :
    after ws id metadata key data = data.removed id := if_pos h

/-- The scans leave what they have left. -/
theorem after_after (h : Shaped qc ws c) (hd : Deletable qc ws id c) {metadata : List UUID}
    {key : QueryKey} {data : Data β} (hget : qc.getQueryData c key = some data) :
    after ws id metadata key (after ws id metadata key data) = after ws id metadata key data := by
  by_cases hl : Listed ws key
  · obtain ⟨resp, rfl⟩ := h.of_list hl hget
    rw [after_listed hl, after_listed hl]
    have hone := removeIssueFromBuckets_of_one (hd.oneBucket key resp hl hget)
    have hnone : findIssueLocation (removeIssueFromBuckets resp id) id = none := by
      cases hloc : findIssueLocation (removeIssueFromBuckets resp id) id with
      | none => rfl
      | some found =>
        obtain ⟨hmem, heq⟩ := locate_some hloc
        have hmem : found.2 ∈ (removeIssueFromBuckets resp id found.1).issues := hmem
        rw [(hone found.1).1] at hmem
        exact absurd ⟨_, hmem, heq⟩ (not_held_without _)
    show Data.buckets (removeIssueFromBuckets (removeIssueFromBuckets resp id) id) = _
    rw [removeIssueFromBuckets, hnone]
    rfl
  · rw [after, after, if_neg hl, if_neg hl]
    split
    · cases data with
      | rows issues =>
        have htwice : without id (without id issues) = without id issues := by
          simp [without]
        exact congrArg Data.rows htwice
      | buckets resp => rfl
      | groups gs => rfl
      | issue i => rfl
    · rfl

theorem shaped_after (id : UUID) (h : Shaped qc ws c) (metadata : List UUID) {c' : qc.Cache}
    (hget : ∀ key data, qc.getQueryData c' key = some data →
      ∃ old, qc.getQueryData c key = some old ∧ data = after ws id metadata key old) :
    Shaped qc ws c' := by
  refine ⟨?_, ?_⟩
  · intro key data hdata
    obtain ⟨old, hold, rfl⟩ := hget key data hdata
    cases h.content key old hold with
    | list sort resp =>
      rw [after_listed (.inl (list_under sort))]
      exact .list sort _
    | my scope filter sort resp =>
      rw [after_listed (.inr (my_under scope filter sort))]
      exact .my scope filter sort _
    | myGroups scope filter groups =>
      rw [after_listed (.inr (myGroups_under scope filter))]
      exact .myGroups scope filter groups
    | children p issues =>
      rw [after, if_neg (not_listed_children p)]
      split
      · exact .children p _
      · exact .children p issues
    | detail other issue =>
      rw [after, if_neg (not_listed_detail other)]
      split
      · exact .detail other issue
      · exact .detail other issue
    | other _ _ hnot => exact .other _ _ hnot
  · intro scope filter
    by_contra hne
    obtain ⟨data, hdata⟩ := Option.ne_none_iff_exists'.1 hne
    obtain ⟨old, hold, -⟩ := hget _ data hdata
    rw [h.noGroups] at hold
    cases hold

/-- What the scans and any removals leave is clean, if the removals take the issue's own detail and
no list. -/
theorem cleaned_of (h : Shaped qc ws c) (hd : Deletable qc ws id c) (metadata : List UUID)
    (hmeta : ∀ p issues, qc.getQueryData c (issueKeys.children ws p) = some (.rows issues) →
      (∃ i ∈ issues, i.id = id) → p ∈ metadata)
    {gone : QueryKey → Prop} [DecidablePred gone] (hown : gone (issueKeys.detail ws id))
    (hkeep : ∀ key, Listed ws key → ¬gone key) {c' : qc.Cache}
    (hget : ∀ key, qc.getQueryData c' key = if gone key then none
      else (qc.getQueryData c key).map (after ws id metadata key)) : Cleaned qc ws id c c' := by
  have hold : ∀ key data, qc.getQueryData c' key = some data → ¬gone key ∧
      ∃ old, qc.getQueryData c key = some old ∧ data = after ws id metadata key old := by
    intro key data hdata
    rw [hget] at hdata
    obtain ⟨hkept, hdata⟩ := Option.ite_none_left_eq_some.1 hdata
    obtain ⟨old, hold, rfl⟩ := Option.map_eq_some_iff.1 hdata
    exact ⟨hkept, old, hold, rfl⟩
  have hlists : ∀ key resp, Listed ws key → qc.getQueryData c key = some (.buckets resp) →
      ∀ st, (removeIssueFromBuckets resp id st).issues = without id (resp st).issues ∧
        (HeldIn resp id st → (removeIssueFromBuckets resp id st).total = (resp st).total - 1) ∧
        (¬HeldIn resp id st → (removeIssueFromBuckets resp id st).total = (resp st).total) :=
    fun key resp hl hr => removeIssueFromBuckets_of_one (hd.oneBucket key resp hl hr)
  refine ⟨?_, ?_⟩
  · intro pre hpre key data hkey hdata
    obtain ⟨hkept, old, ho, rfl⟩ := hold key data hdata
    have hlisted : Listed ws key → ¬(after ws id metadata key old).Holds id := by
      intro hl
      obtain ⟨resp, rfl⟩ := h.of_list hl ho
      rw [after_listed hl]
      rintro ⟨st, i, hi, heq⟩
      rw [(hlists key resp hl ho st).1] at hi
      exact not_held_without _ ⟨i, hi, heq⟩
    simp only [scanned, List.mem_cons, List.not_mem_nil, or_false] at hpre
    rcases hpre with rfl | rfl | rfl | rfl
    · exact hlisted (.inl hkey)
    · exact hlisted (.inr hkey)
    · obtain ⟨p, issues, rfl, rfl⟩ := (h.content key old ho).of_children hkey
      rw [after, if_neg (not_listed_children p)]
      split
      · exact not_held_without issues
      · rename_i hnot
        exact fun hheld => hnot (List.mem_map_of_mem (hmeta p issues ho hheld))
    · obtain ⟨other, issue, rfl, rfl⟩ := (h.content key old ho).of_detail hkey
      have hsame : after ws id metadata (issueKeys.detail ws other) (.issue issue) =
          .issue issue := by
        rw [after, if_neg (not_listed_detail other)]
        split <;> rfl
      rw [hsame]
      intro hid
      obtain rfl := hd.ownDetail other issue ho hid
      exact hkept hown
  · intro key resp hl hr
    refine ⟨removeIssueFromBuckets resp id, ?_, hlists key resp hl hr⟩
    rw [hget, if_neg (hkeep key hl), hr, Option.map_some, after_listed hl]
    rfl

theorem not_removed_of_listed {key : QueryKey} (h : Listed ws key) : ¬Removed ws id key := by
  have hscope : ∃ t rest, key = issueKeys.all ws ++ .text t :: rest ∧ (t = "list" ∨ t = "my") := by
    rcases h with ⟨rest, rfl⟩ | ⟨rest, rfl⟩
    · exact ⟨"list", rest, by simp [issueKeys.list], .inl rfl⟩
    · exact ⟨"my", rest, by simp [issueKeys.myAll], .inr rfl⟩
  obtain ⟨t, rest, rfl, ht⟩ := hscope
  rintro (hd | ⟨pre, hmem, hpre⟩)
  · obtain ⟨rest', hd⟩ := hd
    have hseg : some (Segment.text "detail") = some (.text t) :=
      congrArg (fun key : QueryKey => key[2]?) hd
    rcases ht with rfl | rfl
    · exact absurd hseg (by decide)
    · exact absurd hseg (by decide)
  · simp only [removedKeys, List.mem_cons, List.not_mem_nil, or_false] at hmem
    rcases hmem with rfl | rfl | rfl | rfl | rfl | rfl | rfl | rfl <;>
      rcases ht with rfl | rfl <;>
      simp [issueKeys.timeline, issueKeys.reactions, issueKeys.subscribers, issueKeys.usage,
        issueKeys.attachments, issueKeys.tasks, issueKeys.children, labelsByIssue,
        issueKeys.all] at hpre

/-! ## The rollback -/

theorem onError_spec (h : Shaped qc ws c) {metadata : List UUID} {ctx : DeleteContext β}
    {c' : qc.Cache} (hid : ctx.id = id)
    (hlists : ctx.prevLists = qc.getQueriesData c (issueKeys.list ws))
    (hmy : ctx.prevMyLists = qc.getQueriesData c (issueKeys.myAll ws))
    (hdetail : ctx.prevDetail = qc.getQueryData c (issueKeys.detail ws id))
    (hchildren : ctx.prevChildren =
      metadata.map fun p => (p, qc.getQueryData c (issueKeys.children ws p)))
    (hget : ∀ key, qc.getQueryData c' key = if issueKeys.detail ws id <+: key then none
      else (qc.getQueryData c key).map (after ws id metadata key)) (key : QueryKey) :
    qc.getQueryData (onError qc ws ctx c') key = qc.getQueryData c key := by
  have hsnapshot : ctx.snapshot ws =
      (qc.getQueriesData c (issueKeys.list ws)).map (fun e => (e.1, some e.2)) ++
        (qc.getQueriesData c (issueKeys.myAll ws)).map (fun e => (e.1, some e.2)) ++
        [(issueKeys.detail ws id, qc.getQueryData c (issueKeys.detail ws id))] ++
        metadata.map fun p => (issueKeys.children ws p,
          qc.getQueryData c (issueKeys.children ws p)) := by
    rw [DeleteContext.snapshot, hlists, hmy, hdetail, hchildren, hid, List.map_map]
    rfl
  have hdata : ∀ x ∈ ctx.snapshot ws, x.2 = qc.getQueryData c x.1 := by
    intro x hx
    rw [hsnapshot, List.mem_append, List.mem_append, List.mem_append] at hx
    rcases hx with ((hx | hx) | hx) | hx
    · obtain ⟨e, he, rfl⟩ := List.mem_map.1 hx
      exact (get_of_mem he).2.symm
    · obtain ⟨e, he, rfl⟩ := List.mem_map.1 hx
      exact (get_of_mem he).2.symm
    · obtain rfl := List.mem_singleton.1 hx
      rfl
    · obtain ⟨p, -, rfl⟩ := List.mem_map.1 hx
      rfl
  have hadd : ∀ key, qc.getQueryData c key = none → qc.getQueryData c' key = none := by
    intro key hnone
    rw [hget, hnone, Option.map_none, ite_self]
  rw [onError, QueryClient.get_restore hdata hadd]
  split
  · rfl
  · rename_i hnot
    have hmem : ∀ x ∈ ctx.snapshot ws, x.1 ≠ key := fun x hx heq =>
      hnot (heq ▸ List.mem_map_of_mem hx)
    rw [hsnapshot] at hmem
    cases hc : qc.getQueryData c key with
    | none => exact hadd key hc
    -- an entry that is not in the snapshot has not been touched
    | some data =>
      have hnl : ¬issueKeys.list ws <+: key := by
        intro hl
        have he := (qc.mem_getQueriesData c _ key data).2 ⟨hl, hc⟩
        exact hmem (key, some data) (List.mem_append_left _ (List.mem_append_left _
          (List.mem_append_left _ (List.mem_map_of_mem he)))) rfl
      have hnm : ¬issueKeys.myAll ws <+: key := by
        intro hm
        have he := (qc.mem_getQueriesData c _ key data).2 ⟨hm, hc⟩
        exact hmem (key, some data) (List.mem_append_left _ (List.mem_append_left _
          (List.mem_append_right _ (List.mem_map_of_mem he)))) rfl
      have hnc : key ∉ metadata.map (issueKeys.children ws) := by
        intro hchild
        obtain ⟨p, hp, rfl⟩ := List.mem_map.1 hchild
        exact hmem _ (List.mem_append_right _ (List.mem_map_of_mem hp)) rfl
      have hnd : ¬issueKeys.detail ws id <+: key := by
        intro hd
        have hpre : issueKeys.all ws ++ [.text "detail"] <+: key := (detail_under id).trans hd
        obtain ⟨other, issue, rfl, rfl⟩ := (h.content key data hc).of_detail hpre
        have hother : other = id := by
          obtain ⟨rest, heq⟩ := hd
          have hseg : some (Segment.id id) = some (.id other) :=
            congrArg (fun key : QueryKey => key[3]?) heq
          exact (Segment.id.inj (Option.some.inj hseg)).symm
        subst hother
        exact hmem _ (List.mem_append_left _ (List.mem_append_right _ List.mem_cons_self)) rfl
      have hlisted : ¬Listed ws key := not_or.2 ⟨hnl, hnm⟩
      rw [hget, if_neg hnd, hc, Option.map_some, after, if_neg hlisted, if_neg hnc]

/-! ## Deletion -/

theorem deletes_of_deletable (h : Shaped qc ws c) (hd : Deletable qc ws id c) :
    Deletes qc ws id c := by
  obtain ⟨metadata, hcollect, hnodup, hmeta⟩ := collect_spec id h
  have hdetail : ∀ key, Listed ws key → ¬issueKeys.detail ws id <+: key := fun key hl hpre =>
    not_removed_of_listed hl (.inl hpre)
  refine ⟨?_, ?_⟩
  · obtain ⟨c', hc', hget⟩ := cleanup_spec id h hnodup
    refine ⟨c', Option.bind_eq_some_iff.2 ⟨metadata, hcollect, hc'⟩, ?_⟩
    have hown : Removed ws id (issueKeys.detail ws id) := .inl (List.prefix_refl _)
    exact cleaned_of h hd metadata hmeta hown (fun _ => not_removed_of_listed) hget
  · obtain ⟨ctx, c', hc', hid, hm, hlists, hmy, hprev, hchildren, hget⟩ :=
      mutate_spec h hnodup hcollect
    refine ⟨ctx, c', hc', cleaned_of h hd metadata hmeta (List.prefix_refl _) hdetail hget, ?_,
      onError_spec h hid hlists hmy hprev hchildren hget⟩
    have hshaped : Shaped qc ws c' := by
      refine shaped_after id h metadata fun key data hdata => ?_
      rw [hget] at hdata
      obtain ⟨-, hdata⟩ := Option.ite_none_left_eq_some.1 hdata
      obtain ⟨old, hold, rfl⟩ := Option.map_eq_some_iff.1 hdata
      exact ⟨old, hold, rfl⟩
    obtain ⟨c'', hc'', hget'⟩ := cleanup_spec id hshaped (hm ▸ hnodup)
    refine ⟨c'', hc'', ?_⟩
    have hown : Removed ws id (issueKeys.detail ws id) := .inl (List.prefix_refl _)
    refine cleaned_of h hd metadata hmeta hown (fun _ => not_removed_of_listed) ?_
    intro key
    rw [hget', hget, hm]
    by_cases hr : Removed ws id key
    · rw [if_pos hr, if_pos hr]
    · have hnd : ¬issueKeys.detail ws id <+: key := fun h => hr (.inl h)
      rw [if_neg hr, if_neg hr, if_neg hnd]
      cases hc : qc.getQueryData c key with
      | none => rfl
      | some data => exact congrArg some (after_after h hd hc)

theorem deletable_of_handler
    (hcontent : ∀ key data, qc.getQueryData c key = some data → Content ws key data)
    (hdel : ∃ c', onIssueDeleted qc ws id c = some c' ∧ Cleaned qc ws id c c') :
    Deletable qc ws id c := by
  obtain ⟨c', hc', hclean⟩ := hdel
  obtain ⟨metadata, hcollect, hcleanup⟩ := Option.bind_eq_some_iff.1 hc'
  have hshaped : Shaped qc ws c := ⟨hcontent, noGroups_of_collect hcontent hcollect⟩
  obtain ⟨metadata', hcollect', hnodup, -⟩ := collect_spec id hshaped
  rw [hcollect] at hcollect'
  obtain rfl := Option.some.inj hcollect'
  obtain ⟨c₁, hc₁, hget⟩ := cleanup_spec id hshaped hnodup
  rw [hcleanup] at hc₁
  obtain rfl := Option.some.inj hc₁
  refine ⟨hshaped.noGroups, ?_, ?_⟩
  · intro key resp hl hr
    have hafter : qc.getQueryData c' key = some (.buckets (removeIssueFromBuckets resp id)) := by
      rw [hget, if_neg (not_removed_of_listed hl), hr, Option.map_some, after_listed hl]
      rfl
    have hgone : ¬(Data.buckets (removeIssueFromBuckets resp id)).Holds id := by
      rcases hl with hl | hl
      · exact hclean.gone _ (by simp [scanned]) key _ hl hafter
      · exact hclean.gone _ (by simp [scanned]) key _ hl hafter
    exact one_of_removed fun st hst => hgone ⟨st, hst⟩
  · intro other issue ho hid
    by_contra hne
    have hkept : ¬Removed ws id (issueKeys.detail ws other) := by
      rintro (⟨rest, heq⟩ | ⟨pre, hmem, hpre⟩)
      · have hseg : some (Segment.id id) = some (.id other) :=
          congrArg (fun key : QueryKey => key[3]?) heq
        exact hne (Segment.id.inj (Option.some.inj hseg)).symm
      · simp only [removedKeys, List.mem_cons, List.not_mem_nil, or_false] at hmem
        rcases hmem with rfl | rfl | rfl | rfl | rfl | rfl | rfl | rfl <;>
          simp [issueKeys.timeline, issueKeys.reactions, issueKeys.subscribers, issueKeys.usage,
            issueKeys.attachments, issueKeys.tasks, issueKeys.children, labelsByIssue,
            issueKeys.detail, issueKeys.all] at hpre
    have hafter : qc.getQueryData c' (issueKeys.detail ws other) = some (.issue issue) := by
      rw [hget, if_neg hkept, ho, Option.map_some, after, if_neg (not_listed_detail other)]
      split <;> rfl
    exact hclean.gone _ (by simp [scanned]) _ _ (detail_under other) hafter hid

theorem deletes_iff (qc : Client β) (ws id : UUID) (c : qc.Cache)
    (hcontent : ∀ key data, qc.getQueryData c key = some data → Content ws key data) :
    Deletes qc ws id c ↔ Deletable qc ws id c := by
  constructor
  · intro h
    exact deletable_of_handler hcontent h.handler
  · intro hd
    exact deletes_of_deletable ⟨hcontent, hd.noGroups⟩ hd

/-- A workspace list that holds the issue in its todo column. -/
theorem deletes_listed :
    let issue : Issue (WithParent Unit) := ⟨5, .todo, 0, 0, ⟨none, ()⟩⟩
    let resp : Buckets (WithParent Unit) := fun st =>
      if st = .todo then { issues := [issue], total := 3 } else {}
    Deletes (QueryClient.ofEntries) 1 5
      (AList.singleton (issueKeys.listSorted 1 "\x7b\x7d") (.buckets resp)) := by
  intro issue resp
  refine (deletes_iff _ 1 5 _ ?_).2 ⟨?_, ?_, ?_⟩
  · intro key data hget
    obtain ⟨rfl, rfl⟩ := QueryClient.get_singleton hget
    exact .list _ resp
  · intro scope filter
    rw [Option.eq_none_iff_forall_ne_some]
    intro data hget
    have hseg := congrArg (fun key : QueryKey => key[2]?) (QueryClient.get_singleton hget).1
    exact absurd (show some (Segment.text "my") = some (.text "list") from hseg) (by decide)
  · intro key resp' _ hget st st' hst hst'
    obtain ⟨-, hresp⟩ := QueryClient.get_singleton hget
    obtain rfl : resp' = resp := Data.buckets.inj hresp
    have htodo : ∀ st, HeldIn resp 5 st → st = .todo := by
      rintro st ⟨i, hi, -⟩
      by_contra hne
      simp [resp, hne] at hi
    exact (htodo st hst).trans (htodo st' hst').symm
  · intro other i hget _
    cases (QueryClient.get_singleton hget).2

/-- A board grouped by assignees under the `my` prefix, whatever it holds: the scan raises. -/
theorem not_deletes : ¬∀ (qc : Client Unit) (ws id : UUID) (c : qc.Cache),
    (∀ key data, qc.getQueryData c key = some data → Content ws key data) →
    Deletes qc ws id c := by
  intro h
  obtain ⟨c', hc', -⟩ := (h QueryClient.ofEntries 1 5
    (AList.singleton (issueKeys.myAssigneeGroups 1 "assigned" "\x7b\x7d") (.groups [])) (by
      intro key data hget
      obtain ⟨rfl, rfl⟩ := QueryClient.get_singleton hget
      exact .myGroups _ _ [])).handler
  have hnone : (onIssueDeleted (QueryClient.ofEntries (δ := Data Unit)) 1 5
      (AList.singleton (issueKeys.myAssigneeGroups 1 "assigned" "\x7b\x7d")
        (.groups []))).isNone = true := by decide +kernel
  rw [hc'] at hnone
  cases hnone

end Orynx.Board
