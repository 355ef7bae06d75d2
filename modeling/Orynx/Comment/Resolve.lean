import Orynx.Comment.Thread
import Orynx.Lib.Machine

/-! # One resolution per thread

`ResolveComment` of `server/internal/handler/comment.go`: a transaction that clears the other
resolutions of the thread, and then resolves its comment. At read committed, a statement sees what
had been committed when it started, a row that it changes is locked until the end of its
transaction, and a row that somebody else has locked is waited for and looked at again.

* `State.next`: the statements of such transactions, of `UnresolveComment` and of replies;
* `single_resolution`: a thread has one resolution if the transactions on it do not overlap.
-/

namespace Orynx.Comment

open Lib Rows

/-- `pending` are the rows that the clearing statement is still to change. -/
structure Tx where
  target : Comment
  by_type : String
  by_id : UUID
  now : Nat
  pending : List UUID
  cleared : List UUID := []
  resolved : Bool := false
deriving DecidableEq, Repr

def Tx.locks (t : Tx) (id : UUID) : Bool :=
  t.cleared.contains id || t.resolved && t.target.id == id

/-- The row after the transaction. A comment that is resolved keeps its resolution. -/
def Tx.apply (t : Tx) (c : Comment) : Comment :=
  if c.id = t.target.id then
    { c with resolved := c.resolved.or (some ⟨t.now, t.by_type, t.by_id⟩) }
  else if t.cleared.contains c.id then { c with resolved := none }
  else c

/-- The committed rows and the open transactions. -/
structure State where
  rows : Rows
  txs : List Tx := []
deriving DecidableEq, Repr

inductive Step where
  | create (c : Comment)
  | start (id : UUID) (by_type : String) (by_id : UUID) (now : Nat)
  | clear (i : Nat) (id : UUID)
  | resolve (i : Nat)
  | commit (i : Nat)
  | rollback (i : Nat)
  | unresolve (id : UUID)
deriving DecidableEq, Repr

namespace State

/-- Another transaction has changed the row. -/
def waits (s : State) (i : Nat) (id : UUID) : Bool := (s.txs.eraseIdx i).any fun t => t.locks id

def mayCreate (s : State) (c : Comment) : Bool :=
  c.resolved.isNone && s.rows.all (fun d => d.id != c.id) &&
    c.parent_id.all fun p => s.rows.any fun d =>
      d.id == p && d.issue_id == c.issue_id && d.workspace_id == c.workspace_id

def next (s : State) : Step → Option State
  | .create c => if s.mayCreate c then some { s with rows := c :: s.rows } else none
  | .start id by_type by_id now => (s.rows.find id).map fun target =>
    { s with txs := s.txs ++ [⟨target, by_type, by_id, now, s.rows.otherResolutions target, [],
        false⟩] }
  | .clear i id => (s.txs[i]?).bind fun t =>
    if t.pending.contains id && !s.waits i id then
      -- the row is looked at again
      let seen := (s.rows.find id).any fun c => c.resolved.isSome
      some { s with txs := s.txs.set i { t with
        pending := t.pending.filter (· != id)
        cleared := if seen then id :: t.cleared else t.cleared } }
    else none
  | .resolve i => (s.txs[i]?).bind fun t =>
    if t.pending.isEmpty && !s.waits i t.target.id then
      some { s with txs := s.txs.set i { t with resolved := true } }
    else none
  | .commit i => (s.txs[i]?).bind fun t =>
    if t.resolved then some { rows := s.rows.map t.apply, txs := s.txs.eraseIdx i } else none
  | .rollback i => (s.txs[i]?).map fun _ => { s with txs := s.txs.eraseIdx i }
  | .unresolve id =>
    if s.txs.any fun t => t.locks id then none
    else some { s with rows := s.rows.map fun c => if c.id = id then { c with resolved := none } else c }

end State

/-- A thread has one resolved comment at most. -/
def Single (rows : Rows) : Prop :=
  ∀ c ∈ rows, ∀ d ∈ rows, c.resolved.isSome = true → d.resolved.isSome = true →
    SameThread rows c.id d.id → c.id = d.id

def machine : Machine State Step where
  Init s := Grown s.rows ∧ Single s.rows ∧ s.txs = []
  next := State.next

/-- No resolve starts while one of another comment of the thread is open. -/
def alone (s : State) : Step → Bool
  | .start id _ _ _ => s.txs.all fun t =>
    t.target.id == id || s.rows.thread_root t.target.id != s.rows.thread_root id
  | _ => true

/-! ## What holds -/

structure Inv (s : State) : Prop where
  grown : Grown s.rows
  single : Single s.rows
  target : ∀ t ∈ s.txs, ∃ c ∈ s.rows, c.id = t.target.id
  one : ∀ t ∈ s.txs, ∀ t' ∈ s.txs, SameThread s.rows t.target.id t'.target.id →
    t.target.id = t'.target.id
  seen : ∀ t ∈ s.txs, ∀ c ∈ s.rows, c.resolved.isSome = true →
    SameThread s.rows c.id t.target.id → c.id = t.target.id ∨ c.id ∈ t.pending ∨ c.id ∈ t.cleared
  done : ∀ t ∈ s.txs, t.resolved = true → t.pending = []

theorem sameThread_symm {rows : Rows} {a b : UUID} (h : SameThread rows a b) :
    SameThread rows b a := by
  rcases h with ⟨root, ha, hb⟩
  exact ⟨root, hb, ha⟩

theorem apply_same (t : Tx) (c : Comment) : (t.apply c).id = c.id ∧
    (t.apply c).issue_id = c.issue_id ∧ (t.apply c).workspace_id = c.workspace_id ∧
    (t.apply c).parent_id = c.parent_id := by
  unfold Tx.apply
  split
  · exact ⟨rfl, rfl, rfl, rfl⟩
  · split
    · exact ⟨rfl, rfl, rfl, rfl⟩
    · exact ⟨rfl, rfl, rfl, rfl⟩

/-- A comment that is resolved after a transaction is its target, or was left alone by it. -/
theorem apply_resolved {t : Tx} {c : Comment} (h : (t.apply c).resolved.isSome = true) :
    c.id = t.target.id ∨ c.resolved.isSome = true ∧ c.id ∉ t.cleared := by
  unfold Tx.apply at h
  by_cases htarget : c.id = t.target.id
  · exact .inl htarget
  · rw [if_neg htarget] at h
    by_cases hcleared : t.cleared.contains c.id = true
    · rw [if_pos hcleared] at h
      cases h
    · rw [if_neg hcleared] at h
      exact .inr ⟨h, fun hmem => hcleared (List.contains_iff_mem.2 hmem)⟩

section Steps

variable {s s' : State}

theorem inv_create {c : Comment} (h : Inv s) (hmay : s.mayCreate c = true) :
    Inv { s with rows := c :: s.rows } := by
  simp only [State.mayCreate, Bool.and_eq_true, Option.isNone_iff_eq_none, List.all_eq_true,
    bne_iff_ne] at hmay
  have hgrown : Grown (c :: s.rows) := by
    refine ⟨hmay.1.2, ?_, h.grown⟩
    intro p hp
    have hparent := hmay.2
    rw [hp, Option.all_some, List.any_eq_true] at hparent
    rcases hparent with ⟨d, hd, hsame⟩
    simp only [Bool.and_eq_true, beq_iff_eq] at hsame
    exact ⟨d, hd, hsame.1.1, hsame.1.2, hsame.2⟩
  have hresolved {d : Comment} (hd : d ∈ c :: s.rows) (hres : d.resolved.isSome = true) :
      d ∈ s.rows := by
    rcases List.mem_cons.1 hd with rfl | hd
    · rw [hmay.1.1] at hres
      cases hres
    · exact hd
  refine ⟨hgrown, ?_, ?_, ?_, ?_, h.done⟩
  · intro d hd e he hdres heres hsame
    have hd' := hresolved hd hdres
    have he' := hresolved he heres
    exact h.single d hd' e he' hdres heres
      ((sameThread_cons hgrown ⟨d, hd', rfl⟩ ⟨e, he', rfl⟩).1 hsame)
  · intro t ht
    rcases h.target t ht with ⟨d, hd, hid⟩
    exact ⟨d, List.mem_cons_of_mem _ hd, hid⟩
  · intro t ht t' ht' hsame
    exact h.one t ht t' ht' ((sameThread_cons hgrown (h.target t ht) (h.target t' ht')).1 hsame)
  · intro t ht d hd hdres hsame
    have hd' := hresolved hd hdres
    exact h.seen t ht d hd' hdres ((sameThread_cons hgrown ⟨d, hd', rfl⟩ (h.target t ht)).1 hsame)

theorem inv_start {target : Comment} {by_type : String} {by_id : UUID} {now : Nat} (h : Inv s)
    (htarget : s.rows.find target.id = some target)
    (halone : ∀ t ∈ s.txs, t.target.id = target.id ∨
      s.rows.thread_root t.target.id ≠ s.rows.thread_root target.id) :
    Inv { s with txs := s.txs ++ [⟨target, by_type, by_id, now, s.rows.otherResolutions target, [],
      false⟩] } := by
  have hmem := (mem_of_find htarget).1
  -- an open transaction on the thread is for the same comment
  have hone : ∀ t ∈ s.txs, SameThread s.rows t.target.id target.id → t.target.id = target.id := by
    intro t ht hsame
    rcases h.target t ht with ⟨c, hc, hid⟩
    rw [← hid] at hsame ⊢
    refine (halone t ht).elim (fun heq => hid.trans heq) fun hne => ?_
    rw [← hid] at hne
    exact absurd ((h.grown.same_iff hc hmem).2 hsame) hne
  refine ⟨h.grown, h.single, ?_, ?_, ?_, ?_⟩
  · intro t ht
    rcases List.mem_append.1 ht with ht | ht
    · exact h.target t ht
    · obtain rfl := List.mem_singleton.1 ht
      exact ⟨target, hmem, rfl⟩
  · intro t ht t' ht' hsame
    rcases List.mem_append.1 ht with ht | ht
    · rcases List.mem_append.1 ht' with ht' | ht'
      · exact h.one t ht t' ht' hsame
      · obtain rfl := List.mem_singleton.1 ht'
        exact hone t ht hsame
    · obtain rfl := List.mem_singleton.1 ht
      rcases List.mem_append.1 ht' with ht' | ht'
      · exact (hone t' ht' (sameThread_symm hsame)).symm
      · obtain rfl := List.mem_singleton.1 ht'
        rfl
  · intro t ht c hc hres hsame
    rcases List.mem_append.1 ht with ht | ht
    · exact h.seen t ht c hc hres hsame
    · obtain rfl := List.mem_singleton.1 ht
      by_cases hid : c.id = target.id
      · exact .inl hid
      · exact .inr (.inl ((mem_otherResolutions h.grown hmem).2 ⟨c, hc, rfl, hres, hsame, hid⟩))
  · intro t ht hres
    rcases List.mem_append.1 ht with ht | ht
    · exact h.done t ht hres
    · obtain rfl := List.mem_singleton.1 ht
      cases hres

/-- A transaction goes on: it keeps its target, and it still knows of every resolution. -/
theorem inv_set {i : Nat} {t u : Tx} (h : Inv s) (hi : s.txs[i]? = some t)
    (htarget : u.target = t.target)
    (hseen : ∀ c ∈ s.rows, c.resolved.isSome = true → c.id ∈ t.pending ∨ c.id ∈ t.cleared →
      c.id ∈ u.pending ∨ c.id ∈ u.cleared)
    (hdone : u.resolved = true → u.pending = []) : Inv { s with txs := s.txs.set i u } := by
  have ht := List.mem_of_getElem? hi
  have hmem {t' : Tx} (ht' : t' ∈ s.txs.set i u) :
      ∃ t₀ ∈ s.txs, t₀.target = t'.target ∧ (t' = t₀ ∨ t' = u ∧ t₀ = t) := by
    rcases List.mem_or_eq_of_mem_set ht' with ht' | rfl
    · exact ⟨t', ht', rfl, .inl rfl⟩
    · exact ⟨t, ht, htarget.symm, .inr ⟨rfl, rfl⟩⟩
  refine ⟨h.grown, h.single, ?_, ?_, ?_, ?_⟩
  · intro t' ht'
    rcases hmem ht' with ⟨t₀, ht₀, heq, -⟩
    rw [← heq]
    exact h.target t₀ ht₀
  · intro t₁ ht₁ t₂ ht₂ hsame
    rcases hmem ht₁ with ⟨u₁, hu₁, heq₁, -⟩
    rcases hmem ht₂ with ⟨u₂, hu₂, heq₂, -⟩
    rw [← heq₁, ← heq₂] at hsame ⊢
    exact h.one u₁ hu₁ u₂ hu₂ hsame
  · intro t' ht' c hc hres hsame
    rcases hmem ht' with ⟨t₀, ht₀, heq, hcase⟩
    rw [← heq] at hsame ⊢
    rcases h.seen t₀ ht₀ c hc hres hsame with hid | hknown
    · exact .inl hid
    · rcases hcase with rfl | ⟨rfl, rfl⟩
      · exact .inr hknown
      · exact .inr (hseen c hc hres hknown)
  · intro t' ht' hres
    rcases List.mem_or_eq_of_mem_set ht' with ht' | rfl
    · exact h.done t' ht' hres
    · exact hdone hres

theorem inv_clear {i : Nat} {id : UUID} {t : Tx} (h : Inv s) (hi : s.txs[i]? = some t) :
    Inv { s with txs := s.txs.set i { t with
      pending := t.pending.filter (· != id)
      cleared := if (s.rows.find id).any (fun c => c.resolved.isSome) then id :: t.cleared
        else t.cleared } } := by
  refine inv_set h hi rfl (fun c hc hres hknown => ?_) (fun hdone => ?_)
  · rcases hknown with hpending | hcleared
    · by_cases hid : c.id = id
      · subst hid
        refine .inr ?_
        rw [h.grown.find hc, Option.any_some, hres, if_pos rfl]
        exact List.mem_cons_self
      · exact .inl (List.mem_filter.2 ⟨hpending, bne_iff_ne.2 hid⟩)
    · refine .inr ?_
      dsimp only
      split
      · exact List.mem_cons_of_mem _ hcleared
      · exact hcleared
  · have hnil := h.done t (List.mem_of_getElem? hi) hdone
    dsimp only
    rw [hnil]
    rfl

/-- The other transactions go on when one has ended. -/
theorem inv_erase (i : Nat) (h : Inv s) : Inv { s with txs := s.txs.eraseIdx i } where
  grown := h.grown
  single := h.single
  target t ht := h.target t (List.mem_of_mem_eraseIdx ht)
  one t ht t' ht' := h.one t (List.mem_of_mem_eraseIdx ht) t' (List.mem_of_mem_eraseIdx ht')
  seen t ht := h.seen t (List.mem_of_mem_eraseIdx ht)
  done t ht := h.done t (List.mem_of_mem_eraseIdx ht)

theorem inv_commit {t : Tx} (h : Inv s) (ht : t ∈ s.txs) (hresolved : t.resolved = true) :
    Inv { s with rows := s.rows.map t.apply } := by
  have hsame {a b : UUID} : SameThread (s.rows.map t.apply) a b ↔ SameThread s.rows a b :=
    sameThread_map fun c => ⟨(apply_same t c).1, (apply_same t c).2.2.2⟩
  -- on the thread of the transaction, its target is all that is left
  have hleft {c : Comment} (hc : c ∈ s.rows) (hres : (t.apply c).resolved.isSome = true)
      (hthread : SameThread s.rows c.id t.target.id) : c.id = t.target.id := by
    rcases apply_resolved hres with hid | ⟨hres, hcleared⟩
    · exact hid
    · rcases h.seen t ht c hc hres hthread with hid | hpending | hcleared'
      · exact hid
      · rw [h.done t ht hresolved] at hpending
        cases hpending
      · exact absurd hcleared' hcleared
  refine ⟨h.grown.map (apply_same t), ?_, ?_, ?_, ?_, h.done⟩
  · intro c' hc' d' hd' hcres hdres hthread
    rcases List.mem_map.1 hc' with ⟨c, hc, rfl⟩
    rcases List.mem_map.1 hd' with ⟨d, hd, rfl⟩
    rw [hsame, (apply_same t c).1, (apply_same t d).1] at hthread
    rw [(apply_same t c).1, (apply_same t d).1]
    rcases apply_resolved hcres with hid | ⟨hcres', -⟩
    · rw [hid] at hthread ⊢
      exact (hleft hd hdres (sameThread_symm hthread)).symm
    · rcases apply_resolved hdres with hid | ⟨hdres', -⟩
      · rw [hid] at hthread ⊢
        exact hleft hc hcres hthread
      · exact h.single c hc d hd hcres' hdres' hthread
  · intro u hu
    rcases h.target u hu with ⟨c, hc, hid⟩
    exact ⟨t.apply c, List.mem_map_of_mem hc, (apply_same t c).1.trans hid⟩
  · intro u hu u' hu' hthread
    exact h.one u hu u' hu' (hsame.1 hthread)
  · intro u hu c' hc' hres hthread
    rcases List.mem_map.1 hc' with ⟨c, hc, rfl⟩
    rw [hsame, (apply_same t c).1] at hthread
    rw [(apply_same t c).1]
    rcases apply_resolved hres with hid | ⟨hres', -⟩
    · rw [hid] at hthread ⊢
      exact .inl (h.one t ht u hu hthread)
    · exact h.seen u hu c hc hres' hthread

theorem inv_unresolve (id : UUID) (h : Inv s) :
    Inv { s with rows := s.rows.map fun c =>
      if c.id = id then { c with resolved := none } else c } := by
  have hf (c : Comment) :
      (if c.id = id then { c with resolved := none } else c).id = c.id ∧
      (if c.id = id then { c with resolved := none } else c).issue_id = c.issue_id ∧
      (if c.id = id then { c with resolved := none } else c).workspace_id = c.workspace_id ∧
      (if c.id = id then { c with resolved := none } else c).parent_id = c.parent_id := by
    split
    · exact ⟨rfl, rfl, rfl, rfl⟩
    · exact ⟨rfl, rfl, rfl, rfl⟩
  have hres {c : Comment}
      (h : (if c.id = id then { c with resolved := none } else c).resolved.isSome = true) :
      c.resolved.isSome = true := by
    split at h
    · cases h
    · exact h
  have hsame {a b : UUID} : SameThread (s.rows.map _) a b ↔ SameThread s.rows a b :=
    sameThread_map fun c => ⟨(hf c).1, (hf c).2.2.2⟩
  refine ⟨h.grown.map hf, ?_, ?_, ?_, ?_, h.done⟩
  · intro c' hc' d' hd' hcres hdres hthread
    rcases List.mem_map.1 hc' with ⟨c, hc, rfl⟩
    rcases List.mem_map.1 hd' with ⟨d, hd, rfl⟩
    rw [hsame, (hf c).1, (hf d).1] at hthread
    rw [(hf c).1, (hf d).1]
    exact h.single c hc d hd (hres hcres) (hres hdres) hthread
  · intro t ht
    rcases h.target t ht with ⟨c, hc, hid⟩
    exact ⟨_, List.mem_map_of_mem hc, (hf c).1.trans hid⟩
  · intro t ht t' ht' hthread
    exact h.one t ht t' ht' (hsame.1 hthread)
  · intro t ht c' hc' hcres hthread
    rcases List.mem_map.1 hc' with ⟨c, hc, rfl⟩
    rw [hsame, (hf c).1] at hthread
    rw [(hf c).1]
    exact h.seen t ht c hc (hres hcres) hthread

end Steps

theorem inv_step {s s' : State} {a : Step} (h : Inv s) (halone : alone s a = true)
    (hn : s.next a = some s') : Inv s' := by
  cases a with
  | create c =>
    rcases Option.ite_none_right_eq_some.1 hn with ⟨hmay, hs⟩
    obtain rfl := Option.some.inj hs
    exact inv_create h hmay
  | start id by_type by_id now =>
    rcases Option.map_eq_some_iff.1 hn with ⟨target, hfind, rfl⟩
    obtain rfl := (mem_of_find hfind).2
    refine inv_start h hfind fun t ht => ?_
    simpa using List.all_eq_true.1 halone t ht
  | clear i id =>
    rcases Option.bind_eq_some_iff.1 hn with ⟨t, hi, hn⟩
    rcases Option.ite_none_right_eq_some.1 hn with ⟨-, hs⟩
    obtain rfl := Option.some.inj hs
    exact inv_clear h hi
  | resolve i =>
    rcases Option.bind_eq_some_iff.1 hn with ⟨t, hi, hn⟩
    rcases Option.ite_none_right_eq_some.1 hn with ⟨hcond, hs⟩
    obtain rfl := Option.some.inj hs
    rw [Bool.and_eq_true, List.isEmpty_iff] at hcond
    exact inv_set h hi rfl (fun _ _ _ hknown => hknown) fun _ => hcond.1
  | commit i =>
    rcases Option.bind_eq_some_iff.1 hn with ⟨t, hi, hn⟩
    rcases Option.ite_none_right_eq_some.1 hn with ⟨hresolved, hs⟩
    obtain rfl := Option.some.inj hs
    exact inv_erase i (inv_commit h (List.mem_of_getElem? hi) hresolved)
  | rollback i =>
    rcases Option.map_eq_some_iff.1 hn with ⟨t, -, rfl⟩
    exact inv_erase i h
  | unresolve id =>
    rcases Option.ite_none_left_eq_some.1 hn with ⟨-, hs⟩
    obtain rfl := Option.some.inj hs
    exact inv_unresolve id h

theorem inv_reachable : ∀ s, machine.ReachableUnder (fun s a => alone s a = true) s → Inv s := by
  refine Machine.invariant_under ?_ fun s a s' _ h halone hn => inv_step h halone hn
  rintro ⟨rows, txs⟩ ⟨hgrown, hsingle, rfl⟩
  exact ⟨hgrown, hsingle, fun _ ht => (by cases ht), fun _ ht => (by cases ht),
    fun _ ht => (by cases ht), fun _ ht => (by cases ht)⟩

/-- If resolves of different comments of a thread do not overlap, a thread has one resolution. -/
theorem single_resolution : ∀ s, machine.ReachableUnder (fun s a => alone s a = true) s →
    Single s.rows :=
  fun s hs => (inv_reachable s hs).single

/-- A root with two replies. -/
def discussion : State where
  rows := [{ id := 3, issue_id := 7, workspace_id := 8, parent_id := some 1 },
    { id := 2, issue_id := 7, workspace_id := 8, parent_id := some 1 },
    { id := 1, issue_id := 7, workspace_id := 8 }]

theorem init_discussion : machine.Init discussion := by
  refine ⟨?_, ?_, rfl⟩
  · simp [discussion, Grown]
  · intro c hc d _ hres
    simp only [discussion, List.mem_cons, List.not_mem_nil, or_false] at hc
    rcases hc with rfl | rfl | rfl <;> cases hres

/-- One reply is the resolution, then a reply to the other, then the root, which is reopened. -/
def resolvedInTurn : List Step :=
  [.start 2 "member" 5 10, .resolve 0, .commit 0,
    .create { id := 4, issue_id := 7, workspace_id := 8, parent_id := some 3 },
    .start 4 "agent" 6 20, .clear 0 2, .resolve 0, .commit 0,
    .start 1 "member" 5 30, .clear 0 4, .resolve 0, .commit 0, .unresolve 1,
    .start 3 "member" 5 40, .resolve 0, .commit 0]

theorem single_resolution_in_turn : ∃ s,
    machine.ReachableUnder (fun s a => alone s a = true) s ∧
      (s.rows.filter (·.resolved.isSome)).map (·.id) = [3] ∧ Single s.rows := by
  rcases Machine.reachableUnder_of_run machine alone init_discussion resolvedInTurn
    (fun s => (s.rows.filter (·.resolved.isSome)).map (·.id) == [3]) (by decide +kernel)
    with ⟨s, hs, hp⟩
  exact ⟨s, hs, beq_iff_eq.1 hp, single_resolution s hs⟩

/-- Each of the two sees no resolution to clear. -/
def resolvedAtOnce : List Step :=
  [.start 2 "member" 5 10, .start 3 "member" 6 11, .resolve 0, .resolve 1, .commit 0, .commit 0]

theorem resolutions_slip : ∃ s, machine.Reachable s ∧ s.txs = [] ∧ ¬ Single s.rows := by
  rcases Machine.reachable_of_run machine init_discussion resolvedAtOnce
    (fun s => decide (s.txs = []) && s.rows == [
      { id := 3, issue_id := 7, workspace_id := 8, parent_id := some 1,
        resolved := some ⟨11, "member", 6⟩ },
      { id := 2, issue_id := 7, workspace_id := 8, parent_id := some 1,
        resolved := some ⟨10, "member", 5⟩ },
      { id := 1, issue_id := 7, workspace_id := 8 }]) (by decide +kernel)
    with ⟨⟨rows, txs⟩, -, hs, hp⟩
  simp only [Bool.and_eq_true, decide_eq_true_eq, beq_iff_eq] at hp
  obtain ⟨rfl, rfl⟩ := hp
  refine ⟨_, hs, rfl, fun hsingle => ?_⟩
  have hthread := hsingle _ List.mem_cons_self _ (List.mem_cons_of_mem _ List.mem_cons_self) rfl rfl
    ⟨1, walk_sound (n := 2) rfl, walk_sound (n := 2) rfl⟩
  exact absurd hthread (by decide)

end Orynx.Comment
