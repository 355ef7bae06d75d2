import Mathlib.Data.List.Perm.Subperm
import Mathlib.Logic.Function.Iterate
import Orynx.Board.Buckets
import Orynx.Lib.Machine

/-! # Pages of a column

`useLoadMoreByStatus` of `packages/core/issues/mutations.ts` asks for the next page of a status
by the number of rows that are loaded; `ListIssues` of `server/internal/handler/issue.go` counts
the offset in the column in the order of positions. Between the calls single issues are moved, on
the server and in the cache.

* `Complete`: loading more comes to an end, and then the whole column is loaded, each row once;
* `Window`: what is loaded is the head of the column, in some order;
* `landsInside`: a move takes a loaded issue to a place inside the window, and any other to one
  outside it;
* `load_reaches`: then it is so in every run;
* `beyond_never_loaded`: a card that is dropped behind the window hides another one for good.
-/

namespace Orynx.Board

open Lib
open Autopilot (IssueStatus)

variable {α : Type}

/-! ## The server -/

abbrev Columns (α : Type) := IssueStatus → List (Issue α)

/-- `ORDER BY i.position ASC, i.created_at DESC`. -/
def InOrder (a b : Issue α) : Prop :=
  a.position < b.position ∨ a.position = b.position ∧ b.createdAt ≤ a.createdAt

instance : DecidableRel (InOrder (α := α)) := fun _ _ => inferInstanceAs (Decidable (_ ∨ _))

/-- `limit` as `ListIssues` reads it. -/
def pageLimit (limit : Nat) : Nat := if limit = 0 then 100 else min limit 100

/-- `ListIssues` of a status: a page, and the count. -/
def listIssues (column : List (Issue α)) (limit offset : Nat) : List (Issue α) × Nat :=
  ((column.drop offset).take (pageLimit limit), column.length)

/-- The column with an issue at a place of the order. -/
def insertAt (column : List (Issue α)) (slot : Nat) (issue : Issue α) : List (Issue α) :=
  column.take slot ++ issue :: column.drop slot

/-- An update of an issue on the server. The order leaves its place in the column to chance where
it ties with others; the others keep theirs. -/
def moveOnServer (columns : Columns α) (id : UUID) (patch : Patch α) (slot : Nat) :
    Option (Columns α) := do
  let (st, issue) ← locate columns id
  let merged := issue.merge patch
  let rest := Function.update columns st (without id (columns st))
  let column := insertAt (rest merged.status) slot merged
  if slot ≤ (rest merged.status).length ∧ column.Pairwise InOrder then
    some (Function.update rest merged.status column)
  else none

def removeOnServer (columns : Columns α) (id : UUID) : Columns α :=
  fun st => without id (columns st)

/-! ## The client -/

def hasMore (resp : Buckets α) (st : IssueStatus) : Bool :=
  (resp st).issues.length < (resp st).total

/-- `loadMore`, when its call succeeds. -/
def loadMore (pageSize : Nat) (columns : Columns α) (st : IssueStatus) (resp : Buckets α) :
    Buckets α :=
  if !hasMore resp st then resp
  else
    let prev := resp st
    let res := listIssues (columns st) pageSize prev.issues.length
    let appended := res.1.filter fun i => !(prev.issues.map Issue.id).contains i.id
    setBucket resp st { issues := prev.issues ++ appended, total := res.2 }

/-- `fetchFirstPages`. -/
def fetchFirstPages (pageSize : Nat) (columns : Columns α) : Buckets α :=
  fun st =>
    let res := listIssues (columns st) pageSize 0
    { issues := res.1, total := res.2 }

/-! ## The machine -/

structure State (α : Type) where
  columns : Columns α
  cache : Buckets α

inductive Act (α : Type) where
  | loadMore (st : IssueStatus)
  | move (id : UUID) (patch : Patch α) (slot : Nat)
  | remove (id : UUID)

def next (pageSize : Nat) (s : State α) : Act α → Option (State α)
  | .loadMore st => some { s with cache := loadMore pageSize s.columns st s.cache }
  | .move id patch slot =>
    (moveOnServer s.columns id patch slot).map fun columns =>
      { columns := columns, cache := patchIssueInBuckets s.cache id patch }
  | .remove id =>
    some {
      columns := removeOnServer s.columns id
      cache := removeIssueFromBuckets s.cache id }

/-- Columns hold the issues of their status, each once. -/
structure WellFormed (columns : Columns α) : Prop where
  distinct : Distinct columns
  status : ∀ st, ∀ i ∈ columns st, i.status = st

def machine (α : Type) (pageSize : Nat) : Machine (State α) (Act α) where
  Init s := WellFormed s.columns ∧ (∀ st, (s.columns st).Pairwise InOrder) ∧
    s.cache = fetchFirstPages pageSize s.columns
  next := next pageSize

/-! ## The property -/

/-- Calls of `loadMore` come to an end with the whole column. -/
def Complete (pageSize : Nat) (s : State α) (st : IssueStatus) : Prop :=
  ∃ n, let cache := (loadMore pageSize s.columns st)^[n] s.cache
    hasMore cache st = false ∧ (cache st).issues.Perm (s.columns st)

/-- What is loaded of a column besides an issue. -/
def othersLoaded (s : State α) (st : IssueStatus) (id : UUID) : Nat :=
  (without id (s.cache st).issues).length

/-- A loaded issue is put behind at most as many others as are loaded of the column. Any other is
put behind at least so many, and does not enter a column that seems to have no more. -/
def landsInside (s : State α) : Act α → Bool
  | .move id patch slot =>
    match locate s.columns id with
    | none => true
    | some (st, issue) =>
      let next := (issue.merge patch).status
      if (findIssueLocation s.cache id).isSome then slot ≤ othersLoaded s next id
      else othersLoaded s next id ≤ slot && (next == st || hasMore s.cache next)
  | _ => true

/-! ## Windows -/

/-- The loaded issues are the first of the column. -/
def Window (loaded column : List (Issue α)) : Prop := loaded.Perm (column.take loaded.length)

section Windows

variable {loaded loaded' column : List (Issue α)} {issue merged : Issue α} {slot : Nat}

theorem Window.length_le (h : Window loaded column) : loaded.length ≤ column.length := by
  have hlen := h.length_eq
  rw [List.length_take] at hlen
  omega

theorem Window.mem (h : Window loaded column) (hi : issue ∈ loaded) : issue ∈ column :=
  List.mem_of_mem_take (h.mem_iff.1 hi)

theorem Window.perm (h : Window loaded column) (hp : loaded'.Perm loaded) :
    Window loaded' column := by
  rw [Window, hp.length_eq]
  exact hp.trans h

/-- An issue leaves both. -/
theorem Window.without (h : Window loaded column) (id : UUID) :
    Window (without id loaded) (without id column) := by
  have hperm : (Board.without id loaded).Perm (Board.without id (column.take loaded.length)) :=
    List.Perm.filter _ h
  have hsplit : Board.without id column = Board.without id (column.take loaded.length) ++
      Board.without id (column.drop loaded.length) := by
    rw [Board.without, Board.without, Board.without, ← List.filter_append, List.take_append_drop]
  rw [Window, hsplit, hperm.length_eq, List.take_left]
  exact hperm

/-- An issue enters both, inside the window. -/
theorem Window.insert (h : Window loaded column) (hslot : slot ≤ loaded.length) :
    Window (merged :: loaded) (insertAt column slot merged) := by
  have hlen : (column.take slot).length = slot := by
    rw [List.length_take]
    exact Nat.min_eq_left (Nat.le_trans hslot h.length_le)
  have htake : (insertAt column slot merged).take (loaded.length + 1) =
      column.take slot ++ merged :: (column.drop slot).take (loaded.length - slot) := by
    have hsplit : loaded.length + 1 = (column.take slot).length + (loaded.length - slot + 1) := by
      omega
    rw [insertAt, hsplit, List.take_length_add_append, List.take_succ_cons]
  have hback : column.take slot ++ (column.drop slot).take (loaded.length - slot) =
      column.take loaded.length := by
    rw [← List.take_add, Nat.add_sub_of_le hslot]
  rw [Window, List.length_cons, htake]
  refine List.Perm.trans ?_ List.perm_middle.symm
  rw [hback]
  exact h.cons merged

/-- An issue enters the column behind the window. -/
theorem Window.behind (h : Window loaded column) (hslot : loaded.length ≤ slot)
    (hle : slot ≤ column.length) : Window loaded (insertAt column slot merged) := by
  have htake : (insertAt column slot merged).take loaded.length = column.take loaded.length := by
    have hlen : loaded.length ≤ (column.take slot).length := by
      rw [List.length_take]
      omega
    rw [insertAt, List.take_append_of_le_length hlen, List.take_take, Nat.min_eq_left hslot]
  rw [Window, htake]
  exact h

/-- A window that is as long as the column is the column. -/
theorem Window.whole (h : Window loaded column) (hlen : column.length ≤ loaded.length) :
    loaded.Perm column := by
  have hw : loaded.Perm (column.take loaded.length) := h
  rwa [List.take_of_length_le hlen] at hw

end Windows

/-! ## Loading more -/

/-- Counts and windows are in order. -/
structure Inv (s : State α) : Prop where
  wellFormed : WellFormed s.columns
  window : ∀ st, Window (s.cache st).issues (s.columns st)
  short : ∀ st, (s.cache st).issues.length < (s.columns st).length → hasMore s.cache st = true

section Loads

variable {pageSize : Nat} {columns : Columns α} {cache : Buckets α} {st : IssueStatus}
  {s s' : State α}

theorem pageLimit_pos (limit : Nat) : 0 < pageLimit limit := by
  unfold pageLimit
  split
  · decide
  · omega

theorem hasMore_iff : hasMore cache st = true ↔ (cache st).issues.length < (cache st).total := by
  simp [hasMore]

theorem loadMore_of_complete (h : hasMore cache st = false) :
    loadMore pageSize columns st cache = cache := by
  simp [loadMore, h]

theorem loadMore_other {st' : IssueStatus} (h : st' ≠ st) :
    loadMore pageSize columns st cache st' = cache st' := by
  unfold loadMore
  split
  · rfl
  · exact setBucket_ne h _ _

/-- The next page has nothing that is loaded, so the window grows by it. -/
theorem loadMore_window (pageSize : Nat) (hnodup : ((columns st).map Issue.id).Nodup)
    (hw : Window (cache st).issues (columns st)) (hmore : hasMore cache st = true) :
    Window (loadMore pageSize columns st cache st).issues (columns st) ∧
      (loadMore pageSize columns st cache st).total = (columns st).length ∧
      (loadMore pageSize columns st cache st).issues.length =
        min ((cache st).issues.length + pageLimit pageSize) (columns st).length := by
  have hle := hw.length_le
  generalize hL : (cache st).issues = loaded at hw hle
  generalize hC : columns st = column at hnodup hw hle
  let page := (column.drop loaded.length).take (pageLimit pageSize)
  have hnew : ∀ i ∈ page, (loaded.map Issue.id).contains i.id = false := by
    intro i hi
    rw [List.contains_eq_mem, decide_eq_false_iff_not]
    intro hin
    rcases List.mem_map.1 hin with ⟨j, hj, heq⟩
    -- an id is not in the head of the column and behind it
    have hsplit : ((column.take loaded.length).map Issue.id ++
        (column.drop loaded.length).map Issue.id).Nodup := by
      rwa [← List.map_append, List.take_append_drop]
    exact (List.nodup_append.1 hsplit).2.2 _ (List.mem_map_of_mem (hw.mem_iff.1 hj)) _
      (List.mem_map_of_mem (List.mem_of_mem_take hi)) heq
  have hload : loadMore pageSize columns st cache st =
      { issues := loaded ++ page, total := column.length } := by
    have hfilter : page.filter (fun i => !(loaded.map Issue.id).contains i.id) = page :=
      List.filter_eq_self.2 fun i hi => by rw [hnew i hi]; rfl
    simp only [loadMore, hmore, Bool.not_true, Bool.false_eq_true, if_false, setBucket_self,
      listIssues, hL, hC]
    rw [hfilter]
  have hlen : (loaded ++ page).length = min (loaded.length + pageLimit pageSize) column.length := by
    rw [List.length_append, List.length_take, List.length_drop]
    omega
  rw [hload]
  refine ⟨?_, rfl, hlen⟩
  have hhead : column.take (loaded ++ page).length = column.take loaded.length ++ page := by
    rw [hlen, ← List.take_add]
    rcases Nat.le_total (loaded.length + pageLimit pageSize) column.length with hsmall | hbig
    · rw [Nat.min_eq_left hsmall]
    · rw [Nat.min_eq_right hbig, List.take_length, List.take_of_length_le hbig]
  rw [Window, hhead]
  exact List.Perm.append_right page hw

theorem Inv.loadMore (h : Inv s) (st : IssueStatus) :
    Inv { s with cache := loadMore pageSize s.columns st s.cache } := by
  cases hmore : hasMore s.cache st with
  | false =>
    rw [loadMore_of_complete hmore]
    exact h
  | true =>
    have hspec := loadMore_window pageSize (h.wellFormed.distinct.nodup st) (h.window st) hmore
    refine ⟨h.wellFormed, fun st' => ?_, fun st' hshort => ?_⟩
    · by_cases hst : st' = st
      · subst hst
        exact hspec.1
      · show Window (Board.loadMore pageSize s.columns st s.cache st').issues _
        rw [loadMore_other hst]
        exact h.window st'
    · rw [hasMore_iff]
      by_cases hst : st' = st
      · subst hst
        rw [hspec.2.1]
        exact hshort
      · have hother : Board.loadMore pageSize s.columns st s.cache st' = s.cache st' :=
          loadMore_other hst
        have hshort' : (Board.loadMore pageSize s.columns st s.cache st').issues.length <
            (s.columns st').length := hshort
        show (Board.loadMore pageSize s.columns st s.cache st').issues.length <
          (Board.loadMore pageSize s.columns st s.cache st').total
        rw [hother] at hshort' ⊢
        exact hasMore_iff.1 (h.short st' hshort')

/-- A call gets at least one row while some are missing, and the right count after. -/
theorem Inv.complete (h : Inv s) (st : IssueStatus) : Complete pageSize s st := by
  obtain ⟨missing, hmissing⟩ :
      ∃ n, (s.columns st).length - (s.cache st).issues.length = n := ⟨_, rfl⟩
  induction missing using Nat.strong_induction_on generalizing s with
  | h missing ih =>
    cases hmore : hasMore s.cache st with
    | false =>
      refine ⟨0, hmore, (h.window st).whole (Nat.not_lt.1 fun hshort => ?_)⟩
      rw [h.short st hshort] at hmore
      simp at hmore
    | true =>
      rcases loadMore_window pageSize (h.wellFormed.distinct.nodup st) (h.window st) hmore with
        ⟨hwindow, htotal, hlen⟩
      have hpos := pageLimit_pos pageSize
      rcases Nat.lt_or_ge (s.cache st).issues.length (s.columns st).length with hshort | hfull
      · -- the rows that are missing are fewer after the call
        have hfewer : (s.columns st).length -
            (Board.loadMore pageSize s.columns st s.cache st).issues.length < missing := by
          omega
        rcases ih _ hfewer (h.loadMore st) rfl with ⟨n, hdone, hperm⟩
        exact ⟨n + 1, hdone, hperm⟩
      · have hall : (Board.loadMore pageSize s.columns st s.cache st).issues.length =
            (s.columns st).length := by
          omega
        refine ⟨1, ?_, hwindow.whole (Nat.le_of_eq hall.symm)⟩
        show hasMore (Board.loadMore pageSize s.columns st s.cache) st = false
        rw [hasMore, hall, htotal]
        simp

end Loads

/-! ## Moves -/

section Moves

variable {pageSize : Nat} {columns columns' : Columns α} {id : UUID} {patch : Patch α}
  {slot : Nat} {s s' : State α}

theorem insertAt_perm (column : List (Issue α)) (slot : Nat) (issue : Issue α) :
    (insertAt column slot issue).Perm (issue :: column) := by
  have hmid : (insertAt column slot issue).Perm
      (issue :: (column.take slot ++ column.drop slot)) := List.perm_middle
  rwa [List.take_append_drop] at hmid

/-- An inversion: the issue leaves its column and is put into the one of its new status. -/
theorem move_cases (hd : Distinct columns)
    (hmove : moveOnServer columns id patch slot = some columns') :
    ∃ st issue, issue ∈ columns st ∧ issue.id = id ∧ locate columns id = some (st, issue) ∧
      slot ≤ (without id (columns (issue.merge patch).status)).length ∧
      ∀ st', columns' st' = if st' = (issue.merge patch).status then
        insertAt (without id (columns st')) slot (issue.merge patch)
        else without id (columns st') := by
  simp only [moveOnServer, Option.bind_eq_bind, Option.bind_eq_some_iff,
    Option.ite_none_right_eq_some, Option.some.injEq] at hmove
  rcases hmove with ⟨⟨st, issue⟩, hloc, ⟨hslot, -⟩, rfl⟩
  rcases locate_some hloc with ⟨hmem, rfl⟩
  have hrest : ∀ st', Function.update columns st (without issue.id (columns st)) st' =
      without issue.id (columns st') := by
    intro st'
    by_cases hst : st' = st
    · subst hst
      rw [Function.update_self]
    · rw [Function.update_of_ne hst, hd.without_other hmem hst]
  rw [hrest] at hslot
  refine ⟨st, issue, hmem, rfl, hloc, hslot, fun st' => ?_⟩
  by_cases hnext : st' = (issue.merge patch).status
  · rw [if_pos hnext, hnext, Function.update_self, hrest]
  · rw [if_neg hnext, Function.update_of_ne hnext, hrest]

theorem WellFormed.without (h : WellFormed columns) (id : UUID) :
    WellFormed fun st => Board.without id (columns st) := by
  refine ⟨⟨fun st => ?_, fun st st' i j hi hj => ?_⟩, fun st i hi => ?_⟩
  · exact (h.distinct.nodup st).sublist (List.filter_sublist.map _)
  · exact h.distinct.apart st st' i j (mem_without.1 hi).1 (mem_without.1 hj).1
  · exact h.status st i (mem_without.1 hi).1

theorem WellFormed.move (h : WellFormed columns)
    (hmove : moveOnServer columns id patch slot = some columns') : WellFormed columns' := by
  rcases move_cases h.distinct hmove with ⟨st, issue, hmem, hid, -, -, hcols⟩
  -- a row of the new columns is the moved issue, or it was there before
  have hcases : ∀ st', ∀ i ∈ columns' st',
      i = issue.merge patch ∧ st' = (issue.merge patch).status ∨
        i ∈ Board.without id (columns st') := by
    intro st' i hi
    rw [hcols] at hi
    split at hi
    · rename_i hnext
      rcases List.mem_cons.1 ((insertAt_perm _ _ _).mem_iff.1 hi) with rfl | hi
      · exact .inl ⟨rfl, hnext⟩
      · exact .inr hi
    · exact .inr hi
  have hmoved : ∀ st', ∀ i ∈ columns' st', i.id = id → st' = (issue.merge patch).status := by
    intro st' i hi heq
    rcases hcases st' i hi with ⟨-, hst⟩ | hold
    · exact hst
    · exact absurd heq (mem_without.1 hold).2
  have hwf := h.without id
  refine ⟨⟨fun st' => ?_, fun st₁ st₂ i j hi hj heq => ?_⟩, fun st' i hi => ?_⟩
  · rw [hcols]
    split
    · refine ((insertAt_perm _ _ _).map Issue.id).nodup_iff.2 (List.nodup_cons.2 ⟨?_, ?_⟩)
      · intro hin
        rcases List.mem_map.1 hin with ⟨i, hi, heq⟩
        exact (mem_without.1 hi).2 (heq.trans hid)
      · exact hwf.distinct.nodup st'
    · exact hwf.distinct.nodup st'
  · by_cases hi' : i.id = id
    · rw [hmoved st₁ i hi hi', hmoved st₂ j hj (heq ▸ hi')]
    · have hold : ∀ {st' i}, i ∈ columns' st' → i.id ≠ id → i ∈ Board.without id (columns st') := by
        intro st' i hi hne
        rcases hcases st' i hi with ⟨rfl, -⟩ | hold
        · exact absurd hid hne
        · exact hold
      exact hwf.distinct.apart st₁ st₂ i j (hold hi hi')
        (hold hj fun hj' => hi' (heq.trans hj')) heq
  · rcases hcases st' i hi with ⟨rfl, hst⟩ | hold
    · exact hst.symm
    · exact hwf.status st' i hold

/-- What is loaded is apart, as what it is loaded from. -/
theorem Inv.loaded (h : Inv s) : Distinct s.cache.loaded := by
  refine ⟨fun st => ?_, fun st st' i j hi hj => ?_⟩
  · have hperm : (s.cache st).issues.Perm ((s.columns st).take (s.cache st).issues.length) :=
      h.window st
    have htake : (((s.columns st).take (s.cache st).issues.length).map Issue.id).Nodup :=
      (h.wellFormed.distinct.nodup st).sublist ((List.take_sublist _ _).map _)
    exact (hperm.map Issue.id).nodup_iff.2 htake
  · exact h.wellFormed.distinct.apart st st' i j ((h.window st).mem hi) ((h.window st').mem hj)

/-- What is loaded of an issue is the row of the server. -/
theorem Inv.located (h : Inv s) {st : IssueStatus} {issue : Issue α}
    (hmem : issue ∈ s.columns st) (hloc : (findIssueLocation s.cache issue.id).isSome = true) :
    issue ∈ (s.cache st).issues := by
  rcases Option.isSome_iff_exists.1 hloc with ⟨⟨st', i⟩, hfound⟩
  rcases locate_some hfound with ⟨hi, heq⟩
  have hcol := (h.window st').mem hi
  obtain rfl : st' = st := h.wellFormed.distinct.apart st' st i issue hcol hmem heq
  obtain rfl : i = issue := eq_of_id (h.wellFormed.distinct.nodup st') hcol hmem heq
  exact hi

theorem not_located {cache : Buckets α} (hloc : (findIssueLocation cache id).isSome = false)
    (st : IssueStatus) : without id (cache st).issues = (cache st).issues := by
  have hnone : findIssueLocation cache id = none := by simpa using hloc
  exact without_of_absent (locate_none hnone st)

theorem length_without_le (id : UUID) (issues : List (Issue α)) :
    (without id issues).length ≤ issues.length := List.length_filter_le _ _

theorem Inv.remove (h : Inv s) (id : UUID) : Inv
    { columns := removeOnServer s.columns id, cache := removeIssueFromBuckets s.cache id } := by
  have hwf := h.wellFormed.without id
  cases hloc : (findIssueLocation s.cache id).isSome with
  | true =>
    rcases Option.isSome_iff_exists.1 hloc with ⟨⟨st, issue⟩, hfound⟩
    rcases locate_some hfound with ⟨hmem, rfl⟩
    have hcol := (h.window st).mem hmem
    have hspec := removeIssueFromBuckets_spec h.loaded hmem
    refine ⟨hwf, fun st' => ?_, fun st' hshort => ?_⟩
    · show Window (removeIssueFromBuckets s.cache issue.id st').issues _
      rw [(hspec st').1]
      exact (h.window st').without issue.id
    · have hshort' : (removeIssueFromBuckets s.cache issue.id st').issues.length <
          (without issue.id (s.columns st')).length := hshort
      rw [hasMore_iff]
      show (removeIssueFromBuckets s.cache issue.id st').issues.length <
        (removeIssueFromBuckets s.cache issue.id st').total
      rw [(hspec st').1] at hshort' ⊢
      rw [(hspec st').2]
      by_cases hst : st' = st
      · subst hst
        -- one row and one of the count go
        have hloaded : (without issue.id (s.cache st').issues).length + 1 =
            (s.cache st').issues.length := length_without (h.loaded.nodup st') hmem
        have hcolumn : (without issue.id (s.columns st')).length + 1 =
            (s.columns st').length := length_without (h.wellFormed.distinct.nodup st') hcol
        have hmore := hasMore_iff.1 (h.short st' (by omega))
        rw [if_pos rfl]
        omega
      · have hsame : without issue.id (s.cache st').issues = (s.cache st').issues :=
          h.loaded.without_other hmem hst
        rw [if_neg hst, hsame]
        rw [hsame, h.wellFormed.distinct.without_other hcol hst] at hshort'
        exact hasMore_iff.1 (h.short st' hshort')
  | false =>
    have hcache : removeIssueFromBuckets s.cache id = s.cache := by
      have hnone : findIssueLocation s.cache id = none := by simpa using hloc
      simp only [removeIssueFromBuckets, hnone]
    rw [hcache]
    refine ⟨hwf, fun st => ?_, fun st hshort => ?_⟩
    · have hw := (h.window st).without id
      rw [not_located hloc] at hw
      exact hw
    · exact h.short st (Nat.lt_of_lt_of_le hshort (length_without_le id _))

/-- A loaded issue moves inside the windows. -/
theorem Inv.moveLoaded (h : Inv s) {st : IssueStatus} {issue : Issue α}
    (hcol : issue ∈ s.columns st) (hmem : issue ∈ (s.cache st).issues)
    (hslot : slot ≤ othersLoaded s (issue.merge patch).status issue.id)
    (hmove : moveOnServer s.columns issue.id patch slot = some columns')
    (hcols : ∀ st', columns' st' = if st' = (issue.merge patch).status then
      insertAt (without issue.id (s.columns st')) slot (issue.merge patch)
      else without issue.id (s.columns st')) :
    Inv { columns := columns', cache := patchIssueInBuckets s.cache issue.id patch } := by
  have hnext : (issue.merge patch).status = patch.status.getD st := by
    rw [Issue.merge, h.wellFormed.status st issue hcol]
  have hspec := patchIssueInBuckets_spec h.loaded hmem patch
  have hothers : ∀ {st'}, st' ≠ st →
      without issue.id (s.cache st').issues = (s.cache st').issues ∧
        without issue.id (s.columns st') = s.columns st' :=
    fun hne => ⟨h.loaded.without_other hmem hne, h.wellFormed.distinct.without_other hcol hne⟩
  have hloaded : (without issue.id (s.cache st).issues).length + 1 =
      (s.cache st).issues.length := length_without (h.loaded.nodup st) hmem
  have hcolumn : (without issue.id (s.columns st)).length + 1 = (s.columns st).length :=
    length_without (h.wellFormed.distinct.nodup st) hcol
  refine ⟨h.wellFormed.move hmove, fun st' => ?_, fun st' hshort => ?_⟩
  · show Window (patchIssueInBuckets s.cache issue.id patch st').issues (columns' st')
    have hperm := (hspec st').1
    rw [hcols st', hnext]
    have hw := (h.window st').without issue.id
    by_cases hst : st' = patch.status.getD st
    · rw [if_pos hst] at hperm ⊢
      rw [othersLoaded, hnext, ← hst] at hslot
      exact (hw.insert hslot).perm hperm
    · rw [if_neg hst] at hperm ⊢
      exact hw.perm hperm
  · rw [hasMore_iff]
    have hlen := (hspec st').1.length_eq
    have htotal := (hspec st').2
    have hcount : (columns' st').length = if st' = patch.status.getD st then
        (without issue.id (s.columns st')).length + 1
        else (without issue.id (s.columns st')).length := by
      rw [hcols st', hnext]
      split
      · rw [(insertAt_perm _ _ _).length_eq, List.length_cons]
      · rfl
    have hshort' : (patchIssueInBuckets s.cache issue.id patch st').issues.length <
        (columns' st').length := hshort
    show (patchIssueInBuckets s.cache issue.id patch st').issues.length <
      (patchIssueInBuckets s.cache issue.id patch st').total
    have hmore := fun hlt => hasMore_iff.1 (h.short st' hlt)
    rw [htotal]
    by_cases hst : st' = patch.status.getD st
    · rw [if_pos hst, List.length_cons] at hlen
      rw [if_pos hst] at hcount
      by_cases hsame : patch.status.getD st = st
      · rw [if_pos hsame]
        rw [hsame] at hst
        subst hst
        have := hmore (by omega)
        omega
      · have hne : st' ≠ st := fun heq => hsame (hst ▸ heq)
        rw [(hothers hne).1] at hlen
        rw [(hothers hne).2] at hcount
        have := hmore (by omega)
        rw [if_neg hsame, if_pos hst]
        omega
    · rw [if_neg hst] at hlen hcount
      by_cases hfrom : st' = st
      · subst hfrom
        have hsame : patch.status.getD st' ≠ st' := fun heq => hst heq.symm
        have := hmore (by omega)
        rw [if_neg hsame, if_neg hst, if_pos rfl]
        omega
      · rw [(hothers hfrom).1] at hlen
        rw [(hothers hfrom).2] at hcount
        have := hmore (by omega)
        split
        · omega
        · omega

/-- An issue that is not loaded moves outside the windows. -/
theorem Inv.moveUnloaded (h : Inv s) {st : IssueStatus} {issue : Issue α}
    (hcol : issue ∈ s.columns st)
    (hloc : (findIssueLocation s.cache issue.id).isSome = false)
    (hbehind : othersLoaded s (issue.merge patch).status issue.id ≤ slot)
    (hmore : (issue.merge patch).status = st ∨
      hasMore s.cache (issue.merge patch).status = true)
    (hslot : slot ≤ (without issue.id (s.columns (issue.merge patch).status)).length)
    (hmove : moveOnServer s.columns issue.id patch slot = some columns')
    (hcols : ∀ st', columns' st' = if st' = (issue.merge patch).status then
      insertAt (without issue.id (s.columns st')) slot (issue.merge patch)
      else without issue.id (s.columns st')) :
    Inv { columns := columns', cache := patchIssueInBuckets s.cache issue.id patch } := by
  have hcache : patchIssueInBuckets s.cache issue.id patch = s.cache := by
    have hnone : findIssueLocation s.cache issue.id = none := by simpa using hloc
    simp only [patchIssueInBuckets, hnone]
  have hcolumn : (without issue.id (s.columns st)).length + 1 = (s.columns st).length :=
    length_without (h.wellFormed.distinct.nodup st) hcol
  rw [hcache]
  refine ⟨h.wellFormed.move hmove, fun st' => ?_, fun st' hshort => ?_⟩
  · show Window (s.cache st').issues (columns' st')
    have hw := (h.window st').without issue.id
    rw [not_located hloc] at hw
    rw [hcols st']
    split
    · rename_i hst
      rw [othersLoaded, not_located hloc, ← hst] at hbehind
      rw [← hst] at hslot
      exact hw.behind hbehind hslot
    · exact hw
  · have hshort' : (s.cache st').issues.length < (columns' st').length := hshort
    rw [hcols st'] at hshort'
    split at hshort'
    · rename_i hst
      rw [← hst] at hmore
      rcases hmore with heq | hmore
      · subst heq
        rw [(insertAt_perm _ _ _).length_eq, List.length_cons, hcolumn] at hshort'
        exact h.short st' hshort'
      · exact hmore
    · exact h.short st' (Nat.lt_of_lt_of_le hshort' (length_without_le issue.id _))

theorem inv_step {a : Act α} (h : Inv s) (hland : landsInside s a = true)
    (hn : next pageSize s a = some s') : Inv s' := by
  cases a with
  | loadMore st =>
    rw [← Option.some.inj hn]
    exact h.loadMore st
  | remove id =>
    rw [← Option.some.inj hn]
    exact h.remove id
  | move id patch slot =>
    rcases Option.map_eq_some_iff.1 hn with ⟨columns', hmove, rfl⟩
    rcases move_cases h.wellFormed.distinct hmove with
      ⟨st, issue, hcol, rfl, hloc, hslot, hcols⟩
    simp only [landsInside, hloc] at hland
    cases hfound : (findIssueLocation s.cache issue.id).isSome with
    | true =>
      rw [hfound, if_pos rfl] at hland
      exact h.moveLoaded hcol (h.located hcol hfound) (of_decide_eq_true hland) hmove hcols
    | false =>
      simp only [hfound, Bool.false_eq_true, if_false, Bool.and_eq_true, Bool.or_eq_true,
        decide_eq_true_eq, beq_iff_eq] at hland
      exact h.moveUnloaded hcol hfound hland.1 hland.2 hslot hmove hcols

/-- While loaded issues move inside the windows and others outside them, loading more reaches
every card of every column. -/
theorem load_reaches : ∀ s, (machine α pageSize).ReachableUnder
    (fun s a => landsInside s a = true) s → ∀ st, Complete pageSize s st := by
  have hinv : ∀ s : State α, (machine α pageSize).ReachableUnder
      (fun s a => landsInside s a = true) s → Inv s := by
    refine Machine.invariant_under ?_ fun s a s' _ h hland hn => inv_step h hland hn
    rintro ⟨columns, cache⟩ ⟨hwf, -, hfirst⟩
    obtain rfl : cache = fetchFirstPages pageSize columns := hfirst
    have hpage : ∀ st, (fetchFirstPages pageSize columns st).issues =
        (columns st).take (pageLimit pageSize) := fun st => rfl
    refine ⟨hwf, fun st => ?_, fun st hshort => ?_⟩
    · show Window (fetchFirstPages pageSize columns st).issues (columns st)
      rw [hpage, Window, List.length_take]
      rcases Nat.le_total (pageLimit pageSize) (columns st).length with hle | hle
      · rw [Nat.min_eq_left hle]
      · rw [Nat.min_eq_right hle, List.take_length, List.take_of_length_le hle]
    · exact hasMore_iff.2 hshort
  exact fun s hs st => (hinv s hs).complete st

end Moves

/-! ## A card behind the window -/

section Behind

def card (id : UUID) (st : IssueStatus) (position : Rat) : Issue Unit := ⟨id, st, position, 0, ()⟩

/-- Three cards to do, and one in the backlog. -/
def board : Columns Unit
  | .todo => [card 1 .todo 1, card 2 .todo 2, card 3 .todo 3]
  | .backlog => [card 4 .backlog 1]
  | _ => []

theorem board_wellFormed : WellFormed board := by
  have hplace : ∀ st, ∀ i ∈ board st, st = if i.id = 4 then .backlog else .todo := by
    intro st i hi
    cases st <;> simp [board] at hi
    · rw [hi]
      rfl
    · rcases hi with rfl | rfl | rfl <;> rfl
  refine ⟨⟨fun st => ?_, fun st st' i j hi hj heq => ?_⟩, fun st i hi => ?_⟩
  · cases st <;> decide
  · rw [hplace st i hi, hplace st' j hj, heq]
  · cases st <;> simp [board] at hi
    · rw [hi]
      rfl
    · rcases hi with rfl | rfl | rfl <;> rfl

theorem board_init : (machine Unit 2).Init ⟨board, fetchFirstPages 2 board⟩ := by
  refine ⟨board_wellFormed, fun st => ?_, rfl⟩
  cases st <;> decide +kernel

/-- The card of the backlog comes between those that are loaded. -/
theorem load_reaches_inside : ∃ s : State Unit,
    ((s.cache .todo).issues.length = 3 ∧ (s.columns .todo).length = 4) ∧
      ∀ st, Complete 2 s st := by
  have hrun := Machine.reachableUnder_of_run (machine Unit 2) landsInside board_init
    [.move 4 { status := some .todo, position := some (3 / 2) } 1]
    (fun s => (s.cache .todo).issues.length = 3 ∧ (s.columns .todo).length = 4)
    (by decide +kernel)
  rcases hrun with ⟨s, hs, hp⟩
  exact ⟨s, of_decide_eq_true hp, load_reaches s hs⟩

/-- The card of the backlog goes to the end of the column, where only two of three cards are
loaded; the third is never loaded. -/
theorem beyond_never_loaded : ∃ s : State Unit, (machine Unit 2).Reachable s ∧
    ¬ Complete 2 s .todo := by
  let loaded : Bucket Unit :=
    { issues := [card 1 .todo 1, card 2 .todo 2, card 4 .todo 10], total := 4 }
  let column := [card 1 .todo 1, card 2 .todo 2, card 3 .todo 3, card 4 .todo 10]
  rcases Machine.reachable_of_run (machine Unit 2) board_init
    [.move 4 { status := some .todo, position := some 10 } 3]
    (fun s => s.cache .todo = loaded ∧ s.columns .todo = column) (by decide +kernel) with
    ⟨s, -, hs, hp⟩
  rcases of_decide_eq_true hp with ⟨hcache, hcolumn⟩
  -- the page has nothing but the card that was moved
  have hstuck : ∀ cache : Buckets Unit, cache .todo = loaded →
      loadMore 2 s.columns .todo cache .todo = loaded := by
    intro cache hc
    have hmore : hasMore cache .todo = true := by
      rw [hasMore, hc]
      decide
    have hload : loadMore 2 s.columns .todo cache = setBucket cache .todo loaded := by
      rw [loadMore, hmore, hc, hcolumn]
      rfl
    rw [hload, setBucket_self]
  have hnever : ∀ n, ((loadMore 2 s.columns .todo)^[n] s.cache) .todo = loaded := by
    intro n
    induction n with
    | zero => exact hcache
    | succ n ih =>
      rw [Function.iterate_succ_apply']
      exact hstuck _ ih
  refine ⟨s, hs, fun ⟨n, hdone, _⟩ => ?_⟩
  rw [hasMore, hnever n] at hdone
  simp [loaded] at hdone

end Behind

end Orynx.Board
