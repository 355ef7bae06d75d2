import Mathlib.Data.Rat.Defs
import Mathlib.Logic.Function.Basic
import Orynx.Autopilot.Store

/-! # Buckets of issues

The helpers of `packages/core/issues/cache-helpers.ts`: a cached list has a bucket for each
status, with the issues loaded so far and the number that the server has. The fields of an issue
that the helpers do not read are of any type.

* `mem_locate`: with ids apart, an issue is located in the bucket that holds it;
* `insertByPosition_perm`: an insertion adds the issue and nothing else;
* `patchIssueInBuckets_spec`, `removeIssueFromBuckets_spec`: what becomes of every bucket.
-/

namespace Orynx.Board

open Autopilot (IssueStatus)

variable {α : Type}

/-- Of a row the helpers know the id, the status and the position; `createdAt` only counts in the
order of the server. -/
structure Issue (α : Type) where
  id : UUID
  status : IssueStatus
  position : Rat
  createdAt : Nat := 0
  rest : α
deriving DecidableEq, Repr

/-- `Partial<Issue>`. -/
structure Patch (α : Type) where
  status : Option IssueStatus := none
  position : Option Rat := none
  rest : α → α := id

/-- `{ ...issue, ...patch }`. -/
def Issue.merge (issue : Issue α) (patch : Patch α) : Issue α :=
  { issue with
    status := patch.status.getD issue.status
    position := patch.position.getD issue.position
    rest := patch.rest issue.rest }

@[simp] theorem merge_id (issue : Issue α) (patch : Patch α) : (issue.merge patch).id = issue.id :=
  rfl

structure Bucket (α : Type) where
  issues : List (Issue α) := []
  total : Nat := 0
deriving DecidableEq, Repr

/-- `byStatus`; a bucket that is not there reads as the empty one. -/
abbrev Buckets (α : Type) := IssueStatus → Bucket α

/-- `PAGINATED_STATUSES`. -/
def paginatedStatuses : List IssueStatus :=
  [.backlog, .todo, .inProgress, .inReview, .done, .blocked, .cancelled]

theorem mem_paginatedStatuses (st : IssueStatus) : st ∈ paginatedStatuses := by
  cases st <;> decide

/-! ## Location -/

/-- The first column that has an issue of this id, and the issue. -/
def locate (columns : IssueStatus → List (Issue α)) (id : UUID) : Option (IssueStatus × Issue α) :=
  paginatedStatuses.findSome? fun st => ((columns st).find? (·.id == id)).map (st, ·)

def Buckets.loaded (resp : Buckets α) (st : IssueStatus) : List (Issue α) := (resp st).issues

/-- `findIssueLocation`. -/
def findIssueLocation (resp : Buckets α) (id : UUID) : Option (IssueStatus × Issue α) :=
  locate resp.loaded id

/-- All issues without the one of this id. -/
def without (id : UUID) (issues : List (Issue α)) : List (Issue α) := issues.filter (·.id != id)

/-- No id is in two places. -/
structure Distinct (columns : IssueStatus → List (Issue α)) : Prop where
  nodup : ∀ st, ((columns st).map Issue.id).Nodup
  apart : ∀ st st' i j, i ∈ columns st → j ∈ columns st' → i.id = j.id → st = st'

section Location

variable {columns : IssueStatus → List (Issue α)} {id : UUID} {st : IssueStatus}
  {issue : Issue α} {issues : List (Issue α)}

theorem locate_some (h : locate columns id = some (st, issue)) :
    issue ∈ columns st ∧ issue.id = id := by
  rcases List.exists_of_findSome?_eq_some h with ⟨st', -, hfind⟩
  rcases Option.map_eq_some_iff.1 hfind with ⟨i, hi, heq⟩
  obtain ⟨rfl, rfl⟩ := Prod.mk.inj heq
  exact ⟨List.mem_of_find?_eq_some hi, by simpa using List.find?_some hi⟩

theorem locate_none (h : locate columns id = none) (st : IssueStatus) :
    ∀ i ∈ columns st, i.id ≠ id := by
  intro i hi heq
  have hnone := List.findSome?_eq_none_iff.1 h st (mem_paginatedStatuses st)
  rw [Option.map_eq_none_iff, List.find?_eq_none] at hnone
  exact hnone i hi (by simpa using heq)

theorem eq_of_id (hnodup : (issues.map Issue.id).Nodup) {i j : Issue α} (hi : i ∈ issues)
    (hj : j ∈ issues) (heq : i.id = j.id) : i = j :=
  List.inj_on_of_nodup_map hnodup hi hj heq

/-- With ids apart, there is one place to find an issue. -/
theorem Distinct.locate_eq (h : Distinct columns) (hmem : issue ∈ columns st) :
    locate columns issue.id = some (st, issue) := by
  cases hloc : locate columns issue.id with
  | none => exact absurd rfl (locate_none hloc st issue hmem)
  | some found =>
    rcases found with ⟨st', i⟩
    rcases locate_some hloc with ⟨hi, heq⟩
    obtain rfl : st' = st := h.apart st' st i issue hi hmem heq
    rw [eq_of_id (h.nodup st') hi hmem heq]

theorem mem_without {i : Issue α} : i ∈ without id issues ↔ i ∈ issues ∧ i.id ≠ id := by
  simp [without]

theorem without_of_absent (h : ∀ i ∈ issues, i.id ≠ id) : without id issues = issues :=
  List.filter_eq_self.2 fun i hi => by simpa using h i hi

/-- With ids apart, an issue is one of the list. -/
theorem perm_cons_without (hnodup : (issues.map Issue.id).Nodup) (hmem : issue ∈ issues) :
    issues.Perm (issue :: without issue.id issues) := by
  induction issues with
  | nil => simp at hmem
  | cons i issues ih =>
    rcases List.nodup_cons.1 hnodup with ⟨hnew, hrest⟩
    rcases List.mem_cons.1 hmem with rfl | hmem
    · have habsent : ∀ j ∈ issues, j.id ≠ issue.id :=
        fun j hj heq => hnew (heq ▸ List.mem_map_of_mem hj)
      have hhead : without issue.id (issue :: issues) = issues := by
        rw [without, List.filter_cons_of_neg (by simp)]
        exact without_of_absent habsent
      rw [hhead]
    · have hne : i.id ≠ issue.id := fun heq => hnew (heq ▸ List.mem_map_of_mem hmem)
      have hhead : without issue.id (i :: issues) = i :: without issue.id issues := by
        rw [without, List.filter_cons_of_pos (by simpa using hne)]
        rfl
      rw [hhead]
      exact ((ih hrest hmem).cons i).trans (.swap issue i _)

theorem length_without (hnodup : (issues.map Issue.id).Nodup) (hmem : issue ∈ issues) :
    (without issue.id issues).length + 1 = issues.length :=
  (perm_cons_without hnodup hmem).length_eq.symm

end Location

/-! ## Changes -/

/-- `insertByPosition`. -/
def insertByPosition (issues : List (Issue α)) (issue : Issue α) : List (Issue α) :=
  match issues.findIdx? fun i => issue.position < i.position with
  | none => issues ++ [issue]
  | some idx => issues.take idx ++ issue :: issues.drop idx

/-- `setBucket`. -/
def setBucket (resp : Buckets α) (st : IssueStatus) (bucket : Bucket α) : Buckets α :=
  Function.update resp st bucket

/-- `removeIssueFromBuckets`. -/
def removeIssueFromBuckets (resp : Buckets α) (id : UUID) : Buckets α :=
  match findIssueLocation resp id with
  | none => resp
  | some (st, _) =>
    let bucket := resp st
    setBucket resp st { issues := without id bucket.issues, total := bucket.total - 1 }

/-- `patchIssueInBuckets`. -/
def patchIssueInBuckets (resp : Buckets α) (id : UUID) (patch : Patch α) : Buckets α :=
  match findIssueLocation resp id with
  | none => resp
  | some (st, issue) =>
    let merged := issue.merge patch
    let nextStatus := patch.status.getD st
    if nextStatus = st then
      let bucket := resp st
      let positionChanged := patch.position.isSome && patch.position != some issue.position
      if !positionChanged then
        setBucket resp st
          { bucket with issues := bucket.issues.map fun i => if i.id == id then merged else i }
      else
        setBucket resp st
          { bucket with issues := insertByPosition (without id bucket.issues) merged }
    else
      let fromBucket := resp st
      let toBucket := resp nextStatus
      let next := setBucket resp st
        { issues := without id fromBucket.issues, total := fromBucket.total - 1 }
      setBucket next nextStatus
        { issues := insertByPosition toBucket.issues merged, total := toBucket.total + 1 }

section Changes

variable {resp : Buckets α} {id : UUID} {patch : Patch α} {st : IssueStatus} {issue : Issue α}
  {issues : List (Issue α)}

theorem insertByPosition_perm (issues : List (Issue α)) (issue : Issue α) :
    (insertByPosition issues issue).Perm (issue :: issues) := by
  unfold insertByPosition
  split
  · exact List.perm_append_singleton issue issues
  · rename_i idx _
    have hmid : (issues.take idx ++ issue :: issues.drop idx).Perm
        (issue :: (issues.take idx ++ issues.drop idx)) := List.perm_middle
    rwa [List.take_append_drop] at hmid

/-- A patch in place replaces the issue. -/
theorem map_merged_perm (hnodup : (issues.map Issue.id).Nodup) (hmem : issue ∈ issues)
    (merged : Issue α) :
    (issues.map fun i => if i.id == issue.id then merged else i).Perm
      (merged :: without issue.id issues) := by
  have hperm := (perm_cons_without hnodup hmem).map
    fun i => if i.id == issue.id then merged else i
  have hrest : (without issue.id issues).map (fun i => if i.id == issue.id then merged else i) =
      without issue.id issues := by
    refine (List.map_congr_left fun i hi => ?_).trans (List.map_id _)
    rw [if_neg (by simpa using (mem_without.1 hi).2)]
    rfl
  rw [List.map_cons, hrest] at hperm
  simpa using hperm

theorem setBucket_self (resp : Buckets α) (st : IssueStatus) (bucket : Bucket α) :
    setBucket resp st bucket st = bucket := by
  rw [setBucket, Function.update_self]

theorem setBucket_ne {st st' : IssueStatus} (h : st' ≠ st) (resp : Buckets α)
    (bucket : Bucket α) : setBucket resp st bucket st' = resp st' := by
  rw [setBucket, Function.update_of_ne h]

/-- In the other buckets there is nothing to take out. -/
theorem Distinct.without_other {columns : IssueStatus → List (Issue α)} (hd : Distinct columns)
    (hmem : issue ∈ columns st) {st' : IssueStatus} (hne : st' ≠ st) :
    without issue.id (columns st') = columns st' :=
  without_of_absent fun i hi heq => hne (hd.apart st' st i issue hi hmem heq)

theorem removeIssueFromBuckets_spec (hd : Distinct resp.loaded) (hmem : issue ∈ (resp st).issues)
    (st' : IssueStatus) :
    (removeIssueFromBuckets resp issue.id st').issues = without issue.id (resp st').issues ∧
      (removeIssueFromBuckets resp issue.id st').total =
        if st' = st then (resp st').total - 1 else (resp st').total := by
  have hloc : findIssueLocation resp issue.id = some (st, issue) := hd.locate_eq hmem
  simp only [removeIssueFromBuckets, hloc]
  by_cases hst : st' = st
  · subst hst
    rw [setBucket_self, if_pos rfl]
    exact ⟨rfl, rfl⟩
  · rw [setBucket_ne hst, if_neg hst]
    exact ⟨(hd.without_other hmem hst).symm, rfl⟩

/-- A patched issue is in the bucket of its new status only; counts move with it. -/
theorem patchIssueInBuckets_spec (hd : Distinct resp.loaded) (hmem : issue ∈ (resp st).issues)
    (patch : Patch α) (st' : IssueStatus) :
    (patchIssueInBuckets resp issue.id patch st').issues.Perm
        (if st' = patch.status.getD st then
          issue.merge patch :: without issue.id (resp st').issues
        else without issue.id (resp st').issues) ∧
      (patchIssueInBuckets resp issue.id patch st').total =
        if patch.status.getD st = st then (resp st').total
        else if st' = patch.status.getD st then (resp st').total + 1
        else if st' = st then (resp st').total - 1
        else (resp st').total := by
  have hloc : findIssueLocation resp issue.id = some (st, issue) := hd.locate_eq hmem
  simp only [patchIssueInBuckets, hloc]
  by_cases hnext : patch.status.getD st = st
  · rw [if_pos hnext, if_pos hnext, hnext]
    by_cases hst : st' = st
    · subst hst
      rw [if_pos rfl]
      split
      · rw [setBucket_self]
        exact ⟨map_merged_perm (hd.nodup st') hmem _, rfl⟩
      · rw [setBucket_self]
        exact ⟨insertByPosition_perm _ _, rfl⟩
    · rw [if_neg hst]
      have hother : (resp st').issues.Perm (without issue.id (resp st').issues) :=
        (hd.without_other hmem hst).symm ▸ .rfl
      split
      · rw [setBucket_ne hst]
        exact ⟨hother, rfl⟩
      · rw [setBucket_ne hst]
        exact ⟨hother, rfl⟩
  · rw [if_neg hnext, if_neg hnext]
    by_cases hst : st' = patch.status.getD st
    · subst hst
      rw [if_pos rfl, if_pos rfl, setBucket_self]
      refine ⟨?_, rfl⟩
      rw [show without issue.id (resp _).issues = _ from hd.without_other hmem hnext]
      exact insertByPosition_perm _ _
    · rw [if_neg hst, if_neg hst, setBucket_ne hst]
      by_cases hold : st' = st
      · subst hold
        rw [setBucket_self, if_pos rfl]
        exact ⟨.rfl, rfl⟩
      · rw [setBucket_ne hold, if_neg hold]
        exact ⟨(hd.without_other hmem hold).symm ▸ .rfl, rfl⟩

end Changes

end Orynx.Board
