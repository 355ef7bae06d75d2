import Orynx.Attribution.Classify
import Orynx.Lib.Closure

/-! # Threads of comments

The rows of `comment`, the newest first, and the queries of `comment.sql` that walk a thread.

* `InThread`: a root and all its descendants;
* `thread_root`, `descendants`: the recursive parts of `ClearOtherThreadResolutions`;
* `mem_descendants_iff`: they find the thread of the target.
-/

namespace Orynx.Comment

open Lib

structure Resolution where
  resolved_at : Nat
  resolved_by_type : String
  resolved_by_id : UUID
deriving DecidableEq, Repr

/-- The three columns of a resolution are null together. -/
structure Comment where
  id : UUID
  issue_id : UUID
  workspace_id : UUID
  parent_id : Option UUID := none
  resolved : Option Resolution := none
deriving DecidableEq, Repr

abbrev Rows := List Comment

namespace Rows

def find (rows : Rows) (id : UUID) : Option Comment := List.find? (·.id == id) rows

/-- A reply is younger than what it replies to, and on the same issue. -/
def Grown : Rows → Prop
  | [] => True
  | c :: older => (∀ d ∈ older, d.id ≠ c.id) ∧
    (∀ p, c.parent_id = some p → ∃ d ∈ older, d.id = p ∧ d.issue_id = c.issue_id ∧
      d.workspace_id = c.workspace_id) ∧ Grown older

/-- The thread of a root. -/
inductive InThread (rows : Rows) (root : UUID) : UUID → Prop where
  | root {c : Comment} : rows.find root = some c → c.parent_id = none → InThread rows root root
  | reply {c : Comment} {p : UUID} : rows.find c.id = some c → c.parent_id = some p →
      InThread rows root p → InThread rows root c.id

def SameThread (rows : Rows) (a b : UUID) : Prop :=
  ∃ root, InThread rows root a ∧ InThread rows root b

/-! ## The queries -/

/-- `root_of`, walked up to its root. -/
def walk (rows : Rows) : Nat → UUID → Option UUID
  | 0, _ => none
  | n + 1, id =>
    match rows.find id with
    | none => none
    | some c =>
      match c.parent_id with
      | none => some c.id
      | some p => walk rows n p

def thread_root (rows : Rows) (target : UUID) : Option UUID := walk rows rows.length target

def replies (rows : Rows) (issue_id workspace_id id : UUID) : List UUID :=
  (rows.filter fun c => c.parent_id == some id && c.issue_id == issue_id &&
    c.workspace_id == workspace_id).map (·.id)

def descendants (rows : Rows) (issue_id workspace_id root : UUID) : List UUID :=
  Closure.closure (rows.replies issue_id workspace_id) rows.length [root]

/-- The rows that `ClearOtherThreadResolutions` is about to change. -/
def otherResolutions (rows : Rows) (target : Comment) : List UUID :=
  match rows.thread_root target.id with
  | none => []
  | some root =>
    let thread := rows.descendants target.issue_id target.workspace_id root
    (rows.filter fun c => thread.contains c.id && c.id != target.id && c.resolved.isSome).map (·.id)

/-! ## Rows -/

variable {rows : Rows} {root root' id : UUID} {c : Comment}

theorem mem_of_find (h : rows.find id = some c) : c ∈ rows ∧ c.id = id := by
  have hid := List.find?_some h
  exact ⟨List.mem_of_find?_eq_some h, by simpa using hid⟩

theorem Grown.nodup (h : Grown rows) : (rows.map (·.id)).Nodup := by
  induction rows with
  | nil => exact List.nodup_nil
  | cons c older ih =>
    rw [List.map_cons, List.nodup_cons, List.mem_map]
    exact ⟨fun ⟨d, hd, hid⟩ => h.1 d hd hid, ih h.2.2⟩

theorem Grown.find (h : Grown rows) (hc : c ∈ rows) : rows.find c.id = some c := by
  cases hfind : rows.find c.id with
  | none => simpa using List.find?_eq_none.1 hfind c hc
  | some d =>
    rcases mem_of_find hfind with ⟨hd, hid⟩
    rw [List.inj_on_of_nodup_map h.nodup hd hc hid]

/-- What has been there before a row was added is found as before. -/
theorem find_cons (hne : id ≠ c.id) : Rows.find (c :: rows) id = rows.find id :=
  List.find?_cons_of_neg (by simpa using hne.symm)

theorem Grown.parent (h : Grown rows) (hc : c ∈ rows) {p : UUID} (hp : c.parent_id = some p) :
    ∃ d ∈ rows, d.id = p ∧ d.issue_id = c.issue_id ∧ d.workspace_id = c.workspace_id := by
  induction rows with
  | nil => cases hc
  | cons b older ih =>
    have hparent : ∃ d ∈ older, d.id = p ∧ d.issue_id = c.issue_id ∧
        d.workspace_id = c.workspace_id := by
      rcases List.mem_cons.1 hc with rfl | hc
      · exact h.2.1 p hp
      · exact ih h.2.2 hc
    rcases hparent with ⟨d, hd, hid⟩
    exact ⟨d, List.mem_cons_of_mem _ hd, hid⟩

theorem InThread.unique (h : InThread rows root id) (h' : InThread rows root' id) :
    root = root' := by
  induction h with
  | root hfind hp =>
    cases h' with
    | root _ _ => rfl
    | reply hfind' hp' _ =>
      obtain rfl := Option.some.inj (hfind.symm.trans hfind')
      cases hp.symm.trans hp'
  | @reply c p hfind hp _ ih =>
    generalize hid : c.id = id' at h'
    cases h' with
    | root hfind' hp' =>
      rw [hid] at hfind
      obtain rfl := Option.some.inj (hfind.symm.trans hfind')
      cases hp'.symm.trans hp
    | reply hfind' hp' hin =>
      rw [hid] at hfind
      obtain rfl := Option.some.inj (hfind.symm.trans hfind')
      obtain rfl := Option.some.inj (hp.symm.trans hp')
      exact ih hin

/-! ## Walking up -/

theorem walk_top {n : Nat} (hfind : rows.find id = some c) (hp : c.parent_id = none) :
    rows.walk (n + 1) id = some c.id := by
  rw [walk, hfind]
  dsimp only
  rw [hp]

theorem walk_up {n : Nat} {p : UUID} (hfind : rows.find id = some c) (hp : c.parent_id = some p) :
    rows.walk (n + 1) id = rows.walk n p := by
  rw [walk, hfind]
  dsimp only
  rw [hp]

theorem walk_sound {n : Nat} (h : rows.walk n id = some root) : InThread rows root id := by
  induction n generalizing id with
  | zero => cases h
  | succ n ih =>
    cases hfind : rows.find id with
    | none =>
      rw [walk, hfind] at h
      cases h
    | some c =>
      obtain rfl := (mem_of_find hfind).2
      cases hp : c.parent_id with
      | none =>
        obtain rfl := Option.some.inj ((walk_top hfind hp).symm.trans h)
        exact .root hfind hp
      | some p => exact .reply hfind hp (ih ((walk_up hfind hp).symm.trans h))

theorem Grown.walk_older {older : Rows} (h : Grown (c :: older)) {d : Comment} (hd : d ∈ older)
    (n : Nat) : Rows.walk (c :: older) n d.id = older.walk n d.id := by
  induction n generalizing d with
  | zero => rfl
  | succ n ih =>
    have hfind := h.2.2.find hd
    have hfind' : Rows.find (c :: older) d.id = some d := (find_cons (h.1 d hd)).trans hfind
    cases hp : d.parent_id with
    | none => rw [walk_top hfind hp, walk_top hfind' hp]
    | some p =>
      rcases h.2.2.parent hd hp with ⟨e, he, rfl, -⟩
      rw [walk_up hfind hp, walk_up hfind' hp]
      exact ih he

/-- With a step for each row, the walk comes to the root. -/
theorem Grown.exists_walk (h : Grown rows) (hc : c ∈ rows) {n : Nat} (hn : rows.length ≤ n) :
    ∃ root, rows.walk n c.id = some root := by
  induction rows generalizing c n with
  | nil => cases hc
  | cons b older ih =>
    rw [List.length_cons] at hn
    rcases List.mem_cons.1 hc with rfl | hc
    · cases n with
      | zero => exact absurd hn (Nat.not_succ_le_zero _)
      | succ n =>
        cases hp : c.parent_id with
        | none => exact ⟨c.id, walk_top (h.find hc) hp⟩
        | some p =>
          rcases h.2.1 p hp with ⟨d, hd, rfl, -⟩
          rcases ih h.2.2 hd (Nat.le_of_succ_le_succ hn) with ⟨root, hroot⟩
          rw [walk_up (h.find hc) hp]
          exact ⟨root, (h.walk_older hd n).trans hroot⟩
    · rcases ih h.2.2 hc (Nat.le_of_succ_le hn) with ⟨root, hroot⟩
      exact ⟨root, (h.walk_older hc n).trans hroot⟩

theorem Grown.thread_root_iff (h : Grown rows) (hc : c ∈ rows) :
    rows.thread_root c.id = some root ↔ InThread rows root c.id := by
  refine ⟨walk_sound, fun hin => ?_⟩
  rcases h.exists_walk hc (Nat.le_refl _) with ⟨root', hroot⟩
  rw [thread_root, hroot, hin.unique (walk_sound hroot)]

theorem Grown.exists_root (h : Grown rows) (hc : c ∈ rows) : ∃ root, InThread rows root c.id := by
  rcases h.exists_walk hc (Nat.le_refl _) with ⟨root, hroot⟩
  exact ⟨root, walk_sound hroot⟩

theorem Grown.same_iff (h : Grown rows) {d : Comment} (hc : c ∈ rows) (hd : d ∈ rows) :
    rows.thread_root c.id = rows.thread_root d.id ↔ SameThread rows c.id d.id := by
  rcases h.exists_root hc with ⟨root, hroot⟩
  rw [(h.thread_root_iff hc).2 hroot, eq_comm, h.thread_root_iff hd]
  constructor
  · intro hin
    exact ⟨root, hroot, hin⟩
  · rintro ⟨root', hroot', hin⟩
    rw [hroot.unique hroot']
    exact hin

/-! ## Down again -/

/-- A thread is on one issue. -/
theorem Grown.origin (h : Grown rows) (hin : InThread rows root id) :
    ∃ r c, rows.find root = some r ∧ r.parent_id = none ∧ rows.find id = some c ∧
      c.issue_id = r.issue_id ∧ c.workspace_id = r.workspace_id := by
  induction hin with
  | @root c hfind hp => exact ⟨c, c, hfind, hp, hfind, rfl, rfl⟩
  | @reply c p hfind hp _ ih =>
    rcases ih with ⟨r, d, hr, hroot, hd, hissue, hworkspace⟩
    rcases h.parent (mem_of_find hfind).1 hp with ⟨e, he, rfl, hissue', hworkspace'⟩
    obtain rfl := Option.some.inj ((h.find he).symm.trans hd)
    exact ⟨r, c, hr, hroot, hfind, hissue'.symm.trans hissue, hworkspace'.symm.trans hworkspace⟩

theorem mem_replies {issue_id workspace_id a b : UUID} :
    b ∈ rows.replies issue_id workspace_id a ↔ ∃ c ∈ rows, c.id = b ∧ c.parent_id = some a ∧
      c.issue_id = issue_id ∧ c.workspace_id = workspace_id := by
  simp only [replies, List.mem_map, List.mem_filter, Bool.and_eq_true, beq_iff_eq, and_assoc]
  constructor
  · rintro ⟨c, hc, hp, hissue, hworkspace, hid⟩
    exact ⟨c, hc, hid, hp, hissue, hworkspace⟩
  · rintro ⟨c, hc, hid, hp, hissue, hworkspace⟩
    exact ⟨c, hc, hp, hissue, hworkspace, hid⟩

theorem mem_descendants_iff (h : Grown rows) {target : Comment} (htarget : target ∈ rows)
    (hroot : InThread rows root target.id) :
    id ∈ rows.descendants target.issue_id target.workspace_id root ↔ InThread rows root id := by
  rcases h.origin hroot with ⟨r, c, hr, hp, hc, hissue, hworkspace⟩
  obtain rfl := Option.some.inj ((h.find htarget).symm.trans hc)
  have hseed : ∀ x ∈ [root], x ∈ rows.map (·.id) := by
    intro x hx
    obtain rfl := List.mem_singleton.1 hx
    exact List.mem_map.2 ⟨r, mem_of_find hr⟩
  have hreplies : ∀ a, ∀ b ∈ rows.replies target.issue_id target.workspace_id a,
      b ∈ rows.map (·.id) := by
    intro a b hb
    rcases mem_replies.1 hb with ⟨c, hc, hid, -⟩
    exact List.mem_map.2 ⟨c, hc, hid⟩
  have hclosure : id ∈ Closure.closure (rows.replies target.issue_id target.workspace_id)
      (rows.map (·.id)).length [root] ↔ _ := Closure.mem_closure_iff hseed hreplies
  rw [List.length_map] at hclosure
  rw [descendants, hclosure]
  clear hclosure
  constructor
  · rintro ⟨x, hx, hpath⟩
    obtain rfl := List.mem_singleton.1 hx
    induction hpath with
    | refl => exact .root hr hp
    | tail _ hreply ih =>
      rcases mem_replies.1 hreply with ⟨c, hc, rfl, hp, -⟩
      exact .reply (h.find hc) hp ih
  · intro hin
    refine ⟨root, List.mem_singleton_self _, ?_⟩
    induction hin with
    | root _ _ => exact .refl
    | @reply c p hfind hp hin ih =>
      refine .tail ih (mem_replies.2 ⟨c, (mem_of_find hfind).1, rfl, hp, ?_⟩)
      rcases h.origin (.reply hfind hp hin) with ⟨r', c', hr', -, hc', hissue', hworkspace'⟩
      obtain rfl := Option.some.inj (hr.symm.trans hr')
      obtain rfl := Option.some.inj (hfind.symm.trans hc')
      exact ⟨hissue'.trans hissue.symm, hworkspace'.trans hworkspace.symm⟩

/-- The clearing statement finds the other resolutions of the thread. -/
theorem mem_otherResolutions (h : Grown rows) {target : Comment} (htarget : target ∈ rows) :
    id ∈ rows.otherResolutions target ↔ ∃ c ∈ rows, c.id = id ∧ c.resolved.isSome = true ∧
      SameThread rows c.id target.id ∧ c.id ≠ target.id := by
  rcases h.exists_root htarget with ⟨root, hroot⟩
  unfold otherResolutions
  rw [(h.thread_root_iff htarget).2 hroot]
  simp only [List.mem_map, List.mem_filter, Bool.and_eq_true, List.contains_iff_mem, bne_iff_ne,
    mem_descendants_iff h htarget hroot]
  constructor
  · rintro ⟨c, ⟨hc, ⟨hin, hne⟩, hresolved⟩, hid⟩
    exact ⟨c, hc, hid, hresolved, ⟨root, hin, hroot⟩, hne⟩
  · rintro ⟨c, hc, hid, hresolved, ⟨root', hin, hroot'⟩, hne⟩
    obtain rfl := hroot.unique hroot'
    exact ⟨c, ⟨hc, ⟨hin, hne⟩, hresolved⟩, hid⟩

/-! ## What changes a thread -/

/-- A resolution is not part of the forest. -/
theorem find_map {f : Comment → Comment} (hid : ∀ c, (f c).id = c.id) :
    Rows.find (rows.map f) id = (rows.find id).map f := by
  unfold Rows.find
  rw [List.find?_map]
  congr 2
  funext c
  exact congrArg (· == id) (hid c)

theorem Grown.map {f : Comment → Comment} (h : Grown rows)
    (hf : ∀ c, (f c).id = c.id ∧ (f c).issue_id = c.issue_id ∧
      (f c).workspace_id = c.workspace_id ∧ (f c).parent_id = c.parent_id) :
    Grown (rows.map f) := by
  induction rows with
  | nil => trivial
  | cons c older ih =>
    refine ⟨?_, ?_, ih h.2.2⟩
    · intro d' hd'
      rcases List.mem_map.1 hd' with ⟨d, hd, rfl⟩
      rw [(hf d).1, (hf c).1]
      exact h.1 d hd
    · intro p hp
      rw [(hf c).2.2.2] at hp
      rcases h.2.1 p hp with ⟨d, hd, hid, hissue, hworkspace⟩
      refine ⟨f d, List.mem_map_of_mem hd, (hf d).1.trans hid, ?_, ?_⟩
      · rw [(hf d).2.1, (hf c).2.1, hissue]
      · rw [(hf d).2.2.1, (hf c).2.2.1, hworkspace]

theorem inThread_map {f : Comment → Comment}
    (hf : ∀ c, (f c).id = c.id ∧ (f c).parent_id = c.parent_id) :
    InThread (rows.map f) root id ↔ InThread rows root id := by
  have hfind {id : UUID} : Rows.find (rows.map f) id = (rows.find id).map f :=
    find_map fun c => (hf c).1
  constructor
  · intro h
    induction h with
    | root hc hp =>
      rcases Option.map_eq_some_iff.1 (hfind.symm.trans hc) with ⟨d, hd, rfl⟩
      exact .root hd ((hf d).2.symm.trans hp)
    | reply hc hp _ ih =>
      rcases Option.map_eq_some_iff.1 (hfind.symm.trans hc) with ⟨d, hd, rfl⟩
      rw [(hf d).1] at hd ⊢
      exact .reply hd ((hf d).2.symm.trans hp) ih
  · intro h
    induction h with
    | @root c hc hp =>
      exact .root (hfind.trans (congrArg (Option.map f) hc)) ((hf c).2.trans hp)
    | @reply c p hc hp _ ih =>
      have hc' : Rows.find (rows.map f) (f c).id = some (f c) := by
        rw [(hf c).1]
        exact hfind.trans (congrArg (Option.map f) hc)
      rw [← (hf c).1]
      exact .reply hc' ((hf c).2.trans hp) ih

theorem sameThread_map {f : Comment → Comment} {a b : UUID}
    (hf : ∀ c, (f c).id = c.id ∧ (f c).parent_id = c.parent_id) :
    SameThread (rows.map f) a b ↔ SameThread rows a b := by
  unfold SameThread
  simp only [inThread_map hf]

/-- A new row leaves the threads of the others as they are. -/
theorem inThread_cons (h : Grown (c :: rows)) (hid : ∃ d ∈ rows, d.id = id) :
    InThread (c :: rows) root id ↔ InThread rows root id := by
  constructor
  · intro hin
    induction hin with
    | root hfind hp =>
      rcases hid with ⟨d, hd, rfl⟩
      rw [find_cons (h.1 d hd)] at hfind
      exact .root hfind hp
    | @reply b p hfind hp _ ih =>
      rcases hid with ⟨d, hd, hdb⟩
      rw [← hdb, find_cons (h.1 d hd), hdb] at hfind
      rcases h.2.2.parent (mem_of_find hfind).1 hp with ⟨e, he, hep, -⟩
      exact .reply hfind hp (ih ⟨e, he, hep⟩)
  · intro hin
    induction hin with
    | root hfind hp =>
      rcases hid with ⟨d, hd, rfl⟩
      exact .root ((find_cons (h.1 d hd)).trans hfind) hp
    | @reply b p hfind hp _ ih =>
      have hb := h.1 b (mem_of_find hfind).1
      rcases h.2.2.parent (mem_of_find hfind).1 hp with ⟨e, he, hep, -⟩
      exact .reply ((find_cons hb).trans hfind) hp (ih ⟨e, he, hep⟩)

theorem sameThread_cons (h : Grown (c :: rows)) {a b : UUID} (ha : ∃ d ∈ rows, d.id = a)
    (hb : ∃ d ∈ rows, d.id = b) : SameThread (c :: rows) a b ↔ SameThread rows a b := by
  unfold SameThread
  simp only [inThread_cons h ha, inThread_cons h hb]

end Rows

end Orynx.Comment
