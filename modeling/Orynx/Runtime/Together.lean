import Orynx.Runtime.Matches

/-! # The two stores go together

Each call, made of two stores that match, returns the same from both and leaves two that match.

* `together_get`, `together_report`, `together_create`: the calls on one request;
* `run_popPendingLoop`, `run_claimAll`: what Redis pops of those that the memory holds as pending;
* `together_popPending`, `together_popPendingBatch`: it is the oldest, if the queue tells which.
-/

namespace Orynx.RuntimeRequest

open Lib

variable {I P O : Type}

/-! ## Calls -/

/-- A call returns the same from both stores, and they match after it. -/
def Together (κ : Kind I P O) (s : Redis P) (memory : Memory P) (c : Call I O) : Prop :=
  ((redisCall κ c).run (exec κ) s).1 = (memory.call κ s.now c).1 ∧
    Matches κ ((redisCall κ c).run (exec κ) s).2 (memory.call κ s.now c).2

section Calls

variable {κ : Kind I P O} {s : Redis P} {memory : Memory P} {m r : Request P} {id : UUID}

theorem together_get (h : Matches κ s memory)
    (hyoung : ∀ m ∈ memory, s.now ≤ m.createdAt + κ.retention)
    (hlive : ∀ m r, memory.find id = some m → s.record id = some r →
      κ.keepsRunStart = true ∨ r.status ≠ .running ∨ κ.live m s.now = true) :
    Together κ s memory (.get id) := by
  have hfind : (memory.modify id fun r => κ.read r s.now).find id =
      (memory.find id).map fun k => if k.id = id then κ.read k s.now else k := by
    refine find_map fun k => ?_
    split
    · exact read_id
    · rfl
  have hkept : Matches κ s (memory.modify id fun r => κ.read r s.now) := by
    refine h.mapMemory (fun k _ => ?_) (fun k _ r hagrees => ?_)
    · split
      · exact ⟨read_id, read_runtimeId, read_createdAt⟩
      · exact ⟨rfl, rfl, rfl⟩
    · split
      · exact hagrees.read_memory
      · exact hagrees
  unfold Together
  simp only [redisCall, Prog.run_bind, Prog.run_pure, Memory.call, Memory.get, hfind]
  cases hm : memory.find id with
  | none =>
    rw [run_loadRequest_none (h.record_none hm)]
    exact ⟨rfl, hkept⟩
  | some m =>
    rcases find_eq_some hm with ⟨hmem, rfl⟩
    rcases h.record_some hyoung hmem with ⟨r, x, hraw, hr, hagrees⟩
    rw [run_loadRequest hr]
    refine ⟨?_, ?_⟩
    · have hshown := hagrees.shown (hlive m r hm hr)
      simp [hshown]
    · unfold Redis.loaded
      cases hdue : κ.overdue r s.now with
      | true => exact h.mark hyoung hmem hraw hdue
      | false => exact hkept

/-- A report gives the same whatever the error was, but for the error that it leaves. -/
structure Kind.Plain (κ : Kind I P O) : Prop where
  result : ∀ o p e e', (κ.settle o p e).1 = (κ.settle o p e').1
  payload : ∀ o p e e', (κ.settle o p e).2.1 = (κ.settle o p e').2.1
  error : ∀ o p e e', κ.fails o p = true → (κ.settle o p e).2.2 = (κ.settle o p e').2.2
  keeps : ∀ o p e, κ.fails o p = false → (κ.settle o p e).2.2 = e

theorem agrees_settled (hplain : κ.Plain) {o : O} {now : Nat} (hid : m.id = r.id)
    (hruntime : m.runtimeId = r.runtimeId) (hcreated : m.createdAt = r.createdAt)
    (hpayload : m.payload = r.payload) (herror : κ.fails o m.payload = true ∨ m.error = r.error) :
    Agrees κ now (κ.settled o m now) (κ.settled o r now) := by
  refine ⟨hid, hruntime, hcreated, ?_, .inl ⟨?_, ?_, fun hrunning => ?_⟩⟩
  · unfold Kind.settled
    rw [hpayload]
    exact hplain.payload o r.payload _ _
  · unfold Kind.settled
    rw [hpayload]
    exact congrArg Result.status (hplain.result o r.payload _ _)
  · unfold Kind.settled
    rw [hpayload] at herror ⊢
    cases hfails : κ.fails o r.payload with
    | true => exact hplain.error o r.payload _ _ hfails
    | false =>
      rcases herror with hfails' | herror
      · cases hfails.symm.trans hfails'
      · dsimp only
        rw [hplain.keeps o r.payload _ hfails, hplain.keeps o r.payload _ hfails, herror]
  · cases (congrArg Status.terminal hrunning).symm.trans settled_terminal

theorem together_report (hplain : κ.Plain) {o : O} (h : Matches κ s memory)
    (hyoung : ∀ m ∈ memory, s.now ≤ m.createdAt + κ.retention)
    (hsmooth : ∀ m r, memory.find id = some m → s.record id = some r →
      if κ.exclusive = true then κ.live r s.now = true
      else κ.fails o m.payload = true ∨
        ((κ.read r s.now).status = .timeout ↔ m.status = .timeout)) :
    Together κ s memory (.report id o) := by
  unfold Together
  simp only [redisCall, Prog.run_bind, Prog.run_pure, Memory.call, Memory.report]
  refine ⟨trivial, ?_⟩
  cases hm : memory.find id with
  | none =>
    rw [run_report_none (h.record_none hm), modify_absent hm]
    exact h
  | some m =>
    rcases find_eq_some hm with ⟨hmem, rfl⟩
    rcases h.record_some hyoung hmem with ⟨r, x, hraw, hr, hagrees⟩
    have hcond := hsmooth m r hm hr
    have hterminal {k : Request P} : (κ.settled o k s.now).status.terminal = true :=
      settled_terminal
    have hwrite {r' : Request P} {s' : Redis P} (hid : r'.id = r.id)
        (hruntime : r'.runtimeId = r.runtimeId) (hcreated : r'.createdAt = r.createdAt)
        (hpayload : r'.payload = r.payload)
        (herror : κ.fails o m.payload = true ∨ m.error = r'.error)
        (hwrote : Wrote κ s s' (κ.settled o r' s.now)) :
        Matches κ s' (memory.modify m.id fun k => κ.settled o k s.now) := by
      refine h.write (r := κ.settled o r' s.now) hyoung hmem (fun k _ hne => if_neg hne)
        (hid.trans hagrees.id.symm) (hruntime.trans hagrees.runtimeId.symm)
        (hcreated.trans hagrees.createdAt.symm) (fun hpending => ?_) ?_ (fun hopen => ?_) hwrote
      · cases (congrArg Status.terminal hpending).symm.trans hterminal
      · rw [if_pos rfl]
        exact (agrees_settled hplain (hagrees.id.trans hid.symm)
          (hagrees.runtimeId.trans hruntime.symm) (hagrees.createdAt.trans hcreated.symm)
          (hagrees.payload.trans hpayload.symm) herror).marshal
      · cases hopen.symm.trans hterminal
    cases hexclusive : κ.exclusive with
    | true =>
      rw [if_pos hexclusive] at hcond
      rw [run_report_live hexclusive hr hcond]
      have hlevel : Level κ m r := by
        rcases hagrees.stage with hlevel | hahead
        · exact hlevel
        · rcases hahead.cause with hdue | ⟨-, hlost⟩
          · cases hdue.symm.trans (live_iff.1 hcond).2
          · cases hlost.symm.trans (κ.fits hexclusive).1
      refine hwrite rfl rfl rfl rfl (.inr hlevel.error) ?_
      exact h.wrote_retire hyoung r (hagrees.id ▸ hraw) rfl hterminal
    | false =>
      rw [hexclusive, if_neg Bool.false_ne_true] at hcond
      rw [run_report hexclusive hr]
      have hwrote : Wrote κ s ((s.loaded κ r).store κ (κ.settled o (κ.read r s.now) s.now))
          (κ.settled o (κ.read r s.now) s.now) := by
        unfold Redis.loaded
        cases hdue : κ.overdue r s.now with
        | false => exact wrote_store (.inl hexclusive)
        | true => exact wrote_store_mark hexclusive read_id read_runtimeId
      refine hwrite read_id read_runtimeId read_createdAt ?_ ?_ hwrote
      · cases hdue : κ.overdue r s.now with
        | true => rw [read_overdue hdue]; rfl
        | false => rw [read_same hdue]
      · refine hcond.imp_right fun hnoticed => ?_
        rcases hagrees.stage with hlevel | hahead
        · cases hdue : κ.overdue r s.now with
          | false => rw [read_same hdue]; exact hlevel.error
          | true =>
            rw [read_overdue hdue] at hnoticed
            have hopen := not_terminal_of_overdue hdue
            rw [← hlevel.status, hnoticed.1 rfl] at hopen
            cases hopen
        · cases hdue : κ.overdue r s.now with
          | true => rw [read_overdue hdue]; exact hahead.error
          | false =>
            rw [read_same hdue] at hnoticed
            have hopen := hahead.opened
            rw [hnoticed.2 hahead.status] at hopen
            cases hopen

/-- The reservation that goes with a new request. -/
structure Reserved (κ : Kind I P O) (s s₁ : Redis P) (id runtimeId : UUID) : Prop where
  now : s₁.now = s.now
  records : s₁.records = s.records
  pending : s₁.pending = s.pending
  created : s₁.created = s.created
  active : κ.exclusive = true → ∀ k, s₁.active k =
    if k = runtimeId then some (id, s.now + κ.retention) else s.active k
  free : κ.exclusive = true → ∀ {k r x}, s.records k = some (r, x) → r.status.terminal = false →
    r.runtimeId ≠ runtimeId

theorem Matches.insert (h : Matches κ s memory)
    (hyoung : ∀ m ∈ memory, s.now ≤ m.createdAt + κ.retention) {s₁ : Redis P} {runtimeId : UUID}
    {input : I} (hnew : ∀ m ∈ memory, m.id ≠ id) (hcreated : id ∈ s.created)
    (hs : Reserved κ s s₁ id runtimeId) :
    Matches κ (s₁.enqueue κ (κ.request id runtimeId input s.now))
      (memory ++ [κ.request id runtimeId input s.now]) := by
  have hrecords (k : UUID) : (s₁.enqueue κ (κ.request id runtimeId input s.now)).records k =
      if k = id then some (κ.marshal (κ.request id runtimeId input s.now), s.now + κ.retention)
      else s.records k := by
    rw [← hs.records, ← hs.now]
    rfl
  have hpending (k : UUID) : (s₁.enqueue κ (κ.request id runtimeId input s.now)).pending k =
      if k = runtimeId then ((s.entries runtimeId).orderedInsert Entry.le ⟨float64 s.now, id⟩,
        s.now + κ.retention * 2) else s.pending k := by
    rw [← entries_of_pending hs.now hs.pending, ← hs.pending]
    exact congrArg (fun t => if k = runtimeId then (_, t + κ.retention * 2) else _) hs.now
  have hnow : (s₁.enqueue κ (κ.request id runtimeId input s.now)).now = s.now := hs.now
  have hmem {m : Request P} (hm : m ∈ memory) :
      m ∈ memory ++ [κ.request id runtimeId input s.now] := List.mem_append_left _ hm
  have hself : κ.request id runtimeId input s.now ∈
      memory ++ [κ.request id runtimeId input s.now] :=
    List.mem_append_right _ (List.mem_singleton_self _)
  have hold {k : UUID} {x : Request P × Nat} (hx : s.records k = some x) : k ≠ id := by
    rintro rfl
    rcases h.request hx with ⟨m, hm, hid⟩
    exact hnew m hm hid
  refine ⟨?_, ?_, ?_, ?_, ?_, ?_, ?_, ?_, ?_, ?_⟩
  · rw [List.map_append, List.nodup_append]
    refine ⟨h.nodup, List.nodup_singleton _, ?_⟩
    intro a ha b hb
    rcases List.mem_map.1 ha with ⟨m, hm, rfl⟩
    obtain rfl := List.mem_singleton.1 hb
    exact hnew m hm
  · intro m hm
    rw [hnow]
    have hkept : (s₁.enqueue κ (κ.request id runtimeId input s.now)).created = s.created :=
      hs.created
    rw [hkept]
    rcases List.mem_append.1 hm with hm | hm
    · exact h.created m hm
    · obtain rfl := List.mem_singleton.1 hm
      exact ⟨hcreated, Nat.le_refl _⟩
  · intro m hm
    rw [hnow, hrecords]
    rcases List.mem_append.1 hm with hm | hm
    · rw [if_neg (hnew m hm)]
      exact h.record m hm
    · obtain rfl := List.mem_singleton.1 hm
      have hid : (κ.request id runtimeId input s.now).id = id := rfl
      rw [if_pos hid]
      have hagrees : Agrees κ s.now (κ.request id runtimeId input s.now)
          (κ.request id runtimeId input s.now) :=
        ⟨rfl, rfl, rfl, rfl, .inl ⟨rfl, rfl, fun hrunning => (by cases hrunning)⟩⟩
      exact ⟨_, _, rfl, hagrees.marshal, Nat.le_refl _⟩
  · intro k x hx
    rw [hrecords] at hx
    split at hx
    · rename_i heq
      exact ⟨_, hself, heq.symm⟩
    · rcases h.request hx with ⟨m, hm, hid⟩
      exact ⟨m, hmem hm, hid⟩
  · intro k e he
    rw [hpending] at he
    split at he
    · rename_i heq
      rcases (List.mem_orderedInsert Entry.le).1 he with rfl | he
      · exact ⟨_, hself, rfl, heq.symm, rfl⟩
      · rcases h.entry (mem_of_mem_entries he) with ⟨m, hm, hid, hruntime, hscore⟩
        exact ⟨m, hmem hm, hid, hruntime.trans heq.symm, hscore⟩
    · rcases h.entry he with ⟨m, hm, hid⟩
      exact ⟨m, hmem hm, hid⟩
  · intro k
    rw [hpending]
    split
    · refine List.Pairwise.orderedInsert _ _ ?_
      unfold Redis.entries
      split
      · exact h.sorted runtimeId
      · exact List.Pairwise.nil
    · exact h.sorted k
  · intro k
    rw [hpending]
    split
    · have hperm := (List.perm_orderedInsert Entry.le ⟨float64 s.now, id⟩
        (s.entries runtimeId)).map (·.id)
      rw [hperm.nodup_iff, List.map_cons, List.nodup_cons]
      refine ⟨fun hno => ?_, ?_⟩
      · rcases List.mem_map.1 hno with ⟨e, he, hid⟩
        rcases h.entry (mem_of_mem_entries he) with ⟨m, hm, hmid, -⟩
        exact hnew m hm (hmid.trans hid)
      · unfold Redis.entries
        split
        · exact h.unique runtimeId
        · exact List.nodup_nil
    · exact h.unique k
  · intro k r x hr hstatus
    rw [hrecords] at hr
    rw [hpending]
    split at hr
    · rename_i heq
      obtain ⟨rfl, -⟩ := Prod.mk.inj (Option.some.inj hr)
      have hruntime : (κ.request id runtimeId input s.now).runtimeId = runtimeId := rfl
      rw [marshal_runtimeId, marshal_createdAt, if_pos hruntime]
      refine ⟨⟨_, (List.mem_orderedInsert Entry.le).2 (.inl rfl), heq.symm⟩, ?_⟩
      exact Nat.add_le_add_left (Nat.le_mul_of_pos_right _ (Nat.zero_lt_two)) _
    · rcases h.queued hr hstatus with ⟨⟨e, he, hid⟩, hlasts⟩
      have halive := Nat.le_trans (h.alive hyoung hr).1 hlasts
      split
      · rename_i heq
        rw [heq] at he halive
        refine ⟨⟨e, (List.mem_orderedInsert Entry.le).2 (.inr ?_), hid⟩, ?_⟩
        · unfold Redis.entries
          rw [if_pos halive]
          exact he
        · rcases h.request hr with ⟨m, hm, rfl⟩
          rcases h.record m hm with ⟨r', x', hr', hagrees, -⟩
          obtain ⟨rfl, -⟩ := Prod.mk.inj (Option.some.inj (hr.symm.trans hr'))
          rw [← hagrees.createdAt]
          have hle := (h.created m hm).2
          dsimp only
          omega
      · exact ⟨⟨e, he, hid⟩, hlasts⟩
  · intro hexclusive k r x hr hopen
    rw [hrecords] at hr
    have hactive := hs.active hexclusive
    split at hr
    · rename_i heq
      obtain ⟨rfl, -⟩ := Prod.mk.inj (Option.some.inj hr)
      rw [marshal_runtimeId, marshal_createdAt]
      refine ⟨s.now + κ.retention, ?_, Nat.le_refl _⟩
      rw [heq]
      exact (hactive runtimeId).trans (if_pos rfl)
    · rcases h.active hexclusive hr hopen with ⟨lasts, hlasts⟩
      refine ⟨lasts, ?_, hlasts.2⟩
      exact ((hactive r.runtimeId).trans (if_neg (hs.free hexclusive hr hopen))).trans hlasts.1
  · intro hexclusive k id' lasts hactive
    have hactive' : (if k = runtimeId then some (id, s.now + κ.retention) else s.active k) =
        some (id', lasts) := (hs.active hexclusive k).symm.trans hactive
    rw [hrecords]
    split at hactive'
    · rename_i heq
      obtain ⟨rfl, -⟩ := Prod.mk.inj (Option.some.inj hactive')
      refine ⟨_, _, if_pos rfl, ?_, ?_⟩
      · rw [marshal_status]
        rfl
      · rw [marshal_runtimeId]
        exact heq.symm
    · rcases h.holder hexclusive hactive' with ⟨r, x, hr, hopen⟩
      exact ⟨r, x, by rw [if_neg (hold hr)]; exact hr, hopen⟩

theorem together_create {runtimeId : UUID} {input : I} (h : Matches κ s memory)
    (hyoung : ∀ m ∈ memory, s.now ≤ m.createdAt + κ.retention) (hnew : ∀ m ∈ memory, m.id ≠ id)
    (hcreated : id ∈ s.created)
    (hsmooth : κ.exclusive = true → ∀ m r, m ∈ memory → s.record m.id = some r →
      m.runtimeId = runtimeId → m.status = .timeout → r.status.terminal = true) :
    Together κ s memory (.create id runtimeId input) := by
  have hcollected : memory.filter (fun r => decide (s.now ≤ r.createdAt + κ.retention)) = memory :=
    List.filter_eq_self.2 fun m hm => by simpa using hyoung m hm
  unfold Together
  simp only [redisCall, Prog.run_bind, Prog.run_pure, Memory.call, Memory.create, hcollected]
  cases hexclusive : κ.exclusive with
  | false =>
    rw [run_create hexclusive]
    refine ⟨rfl, ?_⟩
    exact h.insert hyoung hnew hcreated ⟨rfl, rfl, rfl, rfl,
      fun hno => (by cases hexclusive.symm.trans hno),
      fun hno => (by cases hexclusive.symm.trans hno)⟩
  | true =>
    have hkeeps := (κ.fits hexclusive).1
    -- the two stores refuse alike
    have hrefuse : (memory.any fun r => r.runtimeId == runtimeId && !r.status.terminal) =
        (s.activeId runtimeId).isSome := by
      rw [Bool.eq_iff_iff, List.any_eq_true, Option.isSome_iff_exists]
      constructor
      · rintro ⟨m, hm, hopen⟩
        simp only [Bool.and_eq_true, beq_iff_eq, Bool.not_eq_true'] at hopen
        rcases h.record_some hyoung hm with ⟨r, x, hraw, -, hagrees⟩
        have hlevel : Level κ m r := by
          rcases hagrees.stage with hlevel | hahead
          · exact hlevel
          · cases (congrArg Status.terminal hahead.status).symm.trans hopen.2
        rcases h.active hexclusive hraw (hlevel.status ▸ hopen.2) with ⟨lasts, hactive, hlasts⟩
        have halive := Nat.le_trans (h.alive hyoung hraw).1 hlasts
        rw [← hagrees.runtimeId, hopen.1] at hactive
        exact ⟨m.id, activeId_eq_some.2 ⟨lasts, hactive, halive⟩⟩
      · rintro ⟨id', hactive⟩
        rcases activeId_eq_some.1 hactive with ⟨lasts, hactive, -⟩
        rcases h.holder hexclusive hactive with ⟨r, x, hraw, hopen, hruntime⟩
        rcases h.request hraw with ⟨m, hm, rfl⟩
        rcases h.record_some hyoung hm with ⟨r', x', hraw', hr, hagrees⟩
        obtain ⟨rfl, -⟩ := Prod.mk.inj (Option.some.inj (hraw.symm.trans hraw'))
        have hmruntime := hagrees.runtimeId.trans hruntime
        refine ⟨m, hm, ?_⟩
        rcases hagrees.stage with hlevel | hahead
        · simp [hmruntime, hlevel.status, hopen]
        · have hterminal := hsmooth hexclusive m r hm hr hmruntime hahead.status
          cases hopen.symm.trans hterminal
    rw [Bool.true_and, hrefuse]
    cases hactive : (s.activeId runtimeId).isSome with
    | true =>
      rw [run_create_refused hexclusive hactive]
      exact ⟨rfl, h⟩
    | false =>
      rw [run_create_reserved hexclusive hactive]
      refine ⟨rfl, ?_⟩
      refine h.insert hyoung hnew hcreated ⟨rfl, rfl, rfl, rfl, fun _ _ => rfl, fun _ => ?_⟩
      intro k r x hraw hopen hruntime
      rcases h.active hexclusive hraw hopen with ⟨lasts, hlasts⟩
      have halive := Nat.le_trans (h.alive hyoung hraw).1 hlasts.2
      rw [hruntime] at hlasts
      rw [activeId_eq_some.2 ⟨lasts, hlasts.1, halive⟩] at hactive
      cases hactive

/-! ## Pops -/

theorem start_nil (memory : Memory P) (now : Nat) : memory.start [] now = memory :=
  (List.map_congr_left fun _ _ => if_neg Bool.false_ne_true).trans (List.map_id _)

theorem start_start {now : Nat} {ids : List UUID} :
    (memory.start [id] now).start ids now = memory.start (id :: ids) now := by
  unfold Memory.start
  rw [List.map_map]
  refine List.map_congr_left fun k _ => ?_
  by_cases hid : k.id = id
  · simp only [Function.comp_apply, List.contains_cons, hid, BEq.rfl, Bool.true_or, if_true]
    split <;> rfl
  · simp [hid]

theorem modify_read (hread : ∀ k ∈ memory, κ.overdue k s.now = false) :
    (memory.modify id fun k => κ.read k s.now) = memory := by
  refine (List.map_congr_left fun k hk => ?_).trans (List.map_id _)
  split
  · exact read_same (hread k hk)
  · rfl

theorem start_map {now : Nat} {ids : List UUID} (k : Request P) :
    (if ids.contains k.id then k.claimed now else k).id = k.id ∧
      (if ids.contains k.id then k.claimed now else k).runtimeId = k.runtimeId ∧
      (if ids.contains k.id then k.claimed now else k).createdAt = k.createdAt := by
  split
  · exact ⟨rfl, rfl, rfl⟩
  · exact ⟨rfl, rfl, rfl⟩

theorem claim_fresh (h : Matches κ s memory)
    (hyoung : ∀ m ∈ memory, s.now ≤ m.createdAt + κ.retention) (hm : m ∈ memory)
    (hfresh : κ.fresh m s.now = true) :
    ∃ r s', (κ.claim m.runtimeId m.id).run (exec κ) s = (some r, s') ∧
      r.shown = (m.claimed s.now).shown ∧ s'.now = s.now ∧
      Matches κ s' (memory.start [m.id] s.now) := by
  rcases h.record_some hyoung hm with ⟨r, x, hraw, hr, hagrees⟩
  have hfresh' : κ.fresh r s.now = true := hagrees.fresh.symm.trans hfresh
  have hpending := (fresh_iff.1 hfresh').1
  rcases h.queued hraw hpending with ⟨⟨e, he, hid⟩, hlasts⟩
  have halive := Nat.le_trans (h.alive hyoung hraw).1 hlasts
  have hqueued : (s.entries m.runtimeId).any (·.id == m.id) = true := by
    refine List.any_eq_true.2 ⟨e, ?_, beq_iff_eq.2 hid⟩
    unfold Redis.entries
    rw [hagrees.runtimeId, if_pos halive]
    exact he
  have hlevel : Level κ m r := by
    rcases hagrees.stage with hlevel | hahead
    · exact hlevel
    · cases (fresh_iff.1 hfresh).1.symm.trans hahead.status
  refine ⟨r.claimed s.now, s.handOut κ r, run_claim_fresh hr hagrees.id.symm
    hagrees.runtimeId.symm hfresh' hqueued, ?_, rfl, ?_⟩
  · simp only [Request.shown, claimed_id, claimed_runtimeId, claimed_status, hagrees.id,
      hagrees.runtimeId]
    exact congrArg₂ (Shown.mk _ _ _) hagrees.payload.symm hlevel.error.symm
  · refine h.write (r := r.claimed s.now) hyoung hm (fun k _ hne => ?_) hagrees.id.symm
      hagrees.runtimeId.symm hagrees.createdAt.symm (fun hno => (by cases hno)) ?_ (fun _ => ?_)
      ⟨rfl, rfl, fun _ => rfl, .inr rfl, fun hactive => hactive, fun hactive _ => hactive,
        fun _ hno => (by cases hno)⟩
    · simp [hne]
    · rw [if_pos (by simp)]
      exact hagrees.claimed (fresh_iff.1 hfresh).1
    · exact ⟨r, x, hraw, congrArg Status.terminal hpending, rfl⟩

theorem claim_stale (h : Matches κ s memory)
    (hyoung : ∀ m ∈ memory, s.now ≤ m.createdAt + κ.retention)
    (hread : ∀ k ∈ memory, κ.overdue k s.now = false) (hm : m ∈ memory)
    (hstale : κ.fresh m s.now = false) :
    ∃ s', (κ.claim m.runtimeId m.id).run (exec κ) s = (none, s') ∧ s'.now = s.now ∧
      Matches κ s' memory ∧
      s'.entries m.runtimeId = (s.entries m.runtimeId).filter fun e => e.id != m.id := by
  rcases h.record_some hyoung hm with ⟨r, x, hraw, hr, hagrees⟩
  cases hdue : κ.overdue r s.now with
  | true =>
    have hnow : (s.mark κ r).now = s.now := by rw [Redis.mark, retire_now, store_now]
    have hmarked : Matches κ (s.mark κ r) memory := by
      have hmark := h.mark hyoung hm hraw hdue
      rw [modify_read hread] at hmark
      exact hmark
    refine ⟨_, run_claim_overdue hr hdue, hnow, ?_, ?_⟩
    · refine hmarked.removeEntry (hnow ▸ hyoung) fun hr' => ?_
      have hrecords : (s.mark κ r).records m.id =
          some (κ.marshal (κ.timedOut r s.now), s.now + κ.retention) := by
        rw [Redis.mark, retire_records]
        exact if_pos hagrees.id
      obtain ⟨rfl, -⟩ := Prod.mk.inj (Option.some.inj (hrecords.symm.trans hr'))
      rw [marshal_status]
      exact fun hno => by cases hno
    · have hentries : (s.mark κ r).entries m.runtimeId =
          (s.entries m.runtimeId).filter fun e => e.id != m.id := by
        rw [← entries_removeEntry]
        refine entries_of_pending hnow ?_
        rw [Redis.mark, retire_pending, timedOut_runtimeId, timedOut_id, hagrees.runtimeId,
          hagrees.id]
        exact removeEntry_pending _ rfl rfl
      rw [entries_removeEntry, hentries, List.filter_filter]
      simp
  | false =>
    have hstatus : r.status ≠ .pending := fun hpending =>
      by cases (hagrees.fresh.symm.trans hstale).symm.trans (fresh_iff.2 ⟨hpending, hdue⟩)
    refine ⟨_, run_claim_stale hr hdue hstatus, rfl, ?_, entries_removeEntry⟩
    refine h.removeEntry hyoung fun hr' => ?_
    obtain ⟨rfl, -⟩ := Prod.mk.inj (Option.some.inj (hraw.symm.trans hr'))
    exact hstatus

/-- What pops return of requests that the memory is to hand out, and what they leave. -/
def Popped (κ : Kind I P O) (memory : Memory P) (now : Nat) (found : List (Request P))
    (rs : List (Request P)) (s' : Redis P) : Prop :=
  rs.map Request.shown = found.map (fun m => (m.claimed now).shown) ∧
    Matches κ s' (memory.start (found.map (·.id)) now)

theorem waiting_of_mem {now : Nat} (hnodup : (memory.map (·.id)).Nodup) {e : Entry}
    (hm : m ∈ memory) (hid : m.id = e.id) :
    waiting κ memory now e = if κ.fresh m now then some m else none := by
  unfold waiting
  rw [← hid, find_of_mem hnodup hm]
  rfl

theorem run_popPendingLoop (runtimeId : UUID) (attempts : Nat) : ∀ s : Redis P,
    Matches κ s memory → (∀ m ∈ memory, s.now ≤ m.createdAt + κ.retention) →
    (∀ k ∈ memory, κ.overdue k s.now = false) →
    let out := (κ.popPendingLoop runtimeId attempts).run (exec κ) s
    Popped κ memory s.now (((s.entries runtimeId).take attempts).filterMap
      (waiting κ memory s.now)).head?.toList out.1.toList out.2 := by
  induction attempts with
  | zero =>
    intro s h _ _
    refine ⟨rfl, ?_⟩
    rw [List.take_zero]
    exact (start_nil memory s.now).symm ▸ h
  | succ attempts ih =>
    intro s h hyoung hread
    have hhead : upTo (s.entries runtimeId) 0 = (s.entries runtimeId).take 1 := rfl
    simp only [Kind.popPendingLoop, Prog.run_bind, run_zrange, hhead]
    cases hentries : s.entries runtimeId with
    | nil =>
      refine ⟨rfl, ?_⟩
      exact (start_nil memory s.now).symm ▸ h
    | cons e es =>
      have hpending : (s.pending runtimeId).1 = e :: es := by
        have halive := hentries
        unfold Redis.entries at halive
        split at halive
        · exact halive
        · cases halive
      rcases h.entry (hpending ▸ List.mem_cons_self) with ⟨m, hm, hid, rfl, -⟩
      simp only [List.take_succ_cons, List.map_cons, Prog.run_bind, ← hid, List.filterMap_cons,
        waiting_of_mem h.nodup hm hid]
      cases hfresh : κ.fresh m s.now with
      | true =>
        rcases claim_fresh h hyoung hm hfresh with ⟨r, s', hrun, hshown, -, hmatches⟩
        simp only [hrun, if_true, Prog.run_pure]
        exact ⟨congrArg (fun x => [x]) hshown, hmatches⟩
      | false =>
        rcases claim_stale h hyoung hread hm hfresh with ⟨s', hrun, hnow, hmatches, hrest⟩
        simp only [hrun, Bool.false_eq_true, if_false]
        have hes : s'.entries m.runtimeId = es := by
          have hnodup := h.unique m.runtimeId
          rw [hpending, List.map_cons, List.nodup_cons] at hnodup
          rw [hrest, hentries, List.filter_cons_of_neg (by simp [hid])]
          refine List.filter_eq_self.2 fun e' he' => ?_
          rw [bne_iff_ne, hid]
          exact fun heq => hnodup.1 (heq ▸ List.mem_map_of_mem he')
        have hloop := ih s' hmatches (hnow ▸ hyoung) (hnow ▸ hread)
        rw [hnow, hes] at hloop
        exact hloop

theorem waiting_start {now : Nat} {e : Entry} (hne : e.id ≠ id) :
    waiting κ (memory.start [id] now) now e = waiting κ memory now e := by
  unfold waiting Memory.start
  rw [find_map fun k => (start_map k).1]
  cases hfind : memory.find e.id with
  | none => rfl
  | some k =>
    have hk : k.id ≠ id := (find_eq_some hfind).2 ▸ hne
    simp [hk]

theorem run_claimAll (runtimeId : UUID) (es : List Entry) : ∀ (s : Redis P) (memory : Memory P),
    Matches κ s memory → (∀ m ∈ memory, s.now ≤ m.createdAt + κ.retention) →
    (∀ k ∈ memory, κ.overdue k s.now = false) →
    (∀ e ∈ es, ∃ m ∈ memory, m.id = e.id ∧ m.runtimeId = runtimeId) → (es.map (·.id)).Nodup →
    let out := (κ.claimAll runtimeId (es.map (·.id))).run (exec κ) s
    Popped κ memory s.now (es.filterMap (waiting κ memory s.now)) out.1 out.2 := by
  induction es with
  | nil =>
    intro s memory h _ _ _ _
    exact ⟨rfl, (start_nil memory s.now).symm ▸ h⟩
  | cons e es ih =>
    intro s memory h hyoung hread hes hnodup
    rcases hes e List.mem_cons_self with ⟨m, hm, hid, rfl⟩
    rw [List.map_cons, List.nodup_cons] at hnodup
    have hes' := fun e' he' => hes e' (List.mem_cons_of_mem _ he')
    simp only [List.map_cons, Kind.claimAll, Prog.run_bind, Prog.run_pure, ← hid,
      List.filterMap_cons, waiting_of_mem h.nodup hm hid]
    cases hfresh : κ.fresh m s.now with
    | false =>
      rcases claim_stale h hyoung hread hm hfresh with ⟨s', hrun, hnow, hmatches, -⟩
      simp only [hrun, Bool.false_eq_true, if_false]
      have hrest := ih s' memory hmatches (hnow ▸ hyoung) (hnow ▸ hread) hes' hnodup.2
      rw [hnow] at hrest
      exact hrest
    | true =>
      rcases claim_fresh h hyoung hm hfresh with ⟨r, s', hrun, hshown, hnow, hmatches⟩
      simp only [hrun, if_true]
      have hstarted {k' : Request P} (hk' : k' ∈ memory.start [m.id] s.now) :
          ∃ k ∈ memory, k'.createdAt = k.createdAt ∧ κ.overdue k' s.now = false := by
        rcases List.mem_map.1 hk' with ⟨k, hk, rfl⟩
        refine ⟨k, hk, (start_map k).2.2, ?_⟩
        split
        · exact decide_eq_false (Nat.not_lt.2 (Nat.le_add_right _ _))
        · exact hread k hk
      have hyoung' : ∀ k ∈ memory.start [m.id] s.now, s'.now ≤ k.createdAt + κ.retention := by
        intro k' hk'
        rcases hstarted hk' with ⟨k, hk, hcreated, -⟩
        rw [hnow, hcreated]
        exact hyoung k hk
      have hread' : ∀ k ∈ memory.start [m.id] s.now, κ.overdue k s'.now = false := by
        intro k' hk'
        rcases hstarted hk' with ⟨-, -, -, hdue⟩
        rw [hnow]
        exact hdue
      have hrest := ih s' _ hmatches hyoung' hread' (fun e' he' => ?_) hnodup.2
      · have hsame : es.filterMap (waiting κ (memory.start [m.id] s.now) s'.now) =
            es.filterMap (waiting κ memory s.now) := by
          rw [hnow]
          refine List.filterMap_congr fun e' he' => waiting_start fun heq => hnodup.1 ?_
          rw [← hid, ← heq]
          exact List.mem_map_of_mem he'
        rw [hsame, hnow] at hrest
        refine ⟨?_, ?_⟩
        · rw [List.map_append, hrest.1]
          exact congrArg (fun x => x :: _) hshown
        · rw [List.map_cons, ← start_start]
          exact hrest.2
      · rcases hes' e' he' with ⟨k, hk, hkid, hkruntime⟩
        exact ⟨_, List.mem_map_of_mem hk, (start_map k).1.trans hkid,
          (start_map k).2.1.trans hkruntime⟩

/-! ## The oldest first -/

theorem waiting_eq_some {now : Nat} {e : Entry} (h : waiting κ memory now e = some m) :
    m ∈ memory ∧ m.id = e.id ∧ κ.fresh m now = true := by
  rcases Option.filter_eq_some_iff.1 h with ⟨hfind, hfresh⟩
  exact ⟨(find_eq_some hfind).1, (find_eq_some hfind).2, hfresh⟩

theorem waiting_applyTimeouts {now : Nat} {e : Entry} :
    waiting κ (memory.applyTimeouts κ now) now e = waiting κ memory now e := by
  unfold waiting Memory.applyTimeouts
  rw [find_map fun k => read_id]
  cases hfind : memory.find e.id with
  | none => rfl
  | some k =>
    cases hdue : κ.overdue k now with
    | false => rw [Option.map_some, read_same hdue]
    | true =>
      have hstale : κ.fresh k now = false := by simp [Kind.fresh, hdue]
      have hstale' : κ.fresh (κ.timedOut k now) now = false := rfl
      rw [Option.map_some, read_overdue hdue, Option.filter_some, Option.filter_some, hstale,
        hstale']
      rfl

theorem queue_ids {now : Nat} {es : List Entry} :
    ((es.filterMap (waiting κ memory now)).map (·.id)).Sublist (es.map (·.id)) := by
  induction es with
  | nil => exact List.Sublist.refl _
  | cons e es ih =>
    rw [List.filterMap_cons]
    split
    · exact ih.cons _
    · rename_i m hm
      rw [List.map_cons, List.map_cons, (waiting_eq_some hm).2.1]
      exact ih.cons_cons _

/-- The queue has the pending requests of the runtime. -/
theorem Matches.queue_perm (h : Matches κ s memory)
    (hyoung : ∀ m ∈ memory, s.now ≤ m.createdAt + κ.retention)
    (hread : ∀ k ∈ memory, κ.overdue k s.now = false) (runtimeId : UUID) :
    ((s.entries runtimeId).filterMap (waiting κ memory s.now)).Perm
      (memory.pendingOf runtimeId) := by
  have hentries : ((s.entries runtimeId).map (·.id)).Nodup := by
    unfold Redis.entries
    split
    · exact h.unique runtimeId
    · exact List.nodup_nil
  refine (List.perm_ext_iff_of_nodup (queue_ids.nodup hentries).of_map
    (List.Nodup.filter _ h.nodup.of_map)).2 fun m => ?_
  rw [List.mem_filterMap, List.mem_filter, Bool.and_eq_true, beq_iff_eq, beq_iff_eq]
  constructor
  · rintro ⟨e, he, hwaiting⟩
    rcases waiting_eq_some hwaiting with ⟨hm, hid, hfresh⟩
    rcases h.entry (mem_of_mem_entries he) with ⟨k, hk, hkid, hruntime, -⟩
    obtain rfl := eq_of_id h.nodup hm hk (hkid.trans hid.symm)
    exact ⟨hm, hruntime, (fresh_iff.1 hfresh).1⟩
  · rintro ⟨hm, hruntime, hpending⟩
    have hfresh := fresh_iff.2 ⟨hpending, hread m hm⟩
    rcases h.record_some hyoung hm with ⟨r, x, hraw, -, hagrees⟩
    have hstatus := (fresh_iff.1 (hagrees.fresh.symm.trans hfresh)).1
    rcases h.queued hraw hstatus with ⟨⟨e, he, hid⟩, hlasts⟩
    have halive := Nat.le_trans (h.alive hyoung hraw).1 hlasts
    rw [← hagrees.runtimeId, hruntime] at he halive
    refine ⟨e, ?_, ?_⟩
    · unfold Redis.entries
      rw [if_pos halive]
      exact he
    · rw [waiting_of_mem h.nodup hm hid.symm, if_pos hfresh]

theorem two_pow_le_float64 {n : Nat} (hn : n ≠ 0) : 2 ^ n.log2 ≤ float64 n := by
  have hdvd : 2 ^ (n.log2 - 52) ∣ 2 ^ n.log2 := Nat.pow_dvd_pow 2 (Nat.sub_le _ _)
  have hle : 2 ^ n.log2 ≤ n / 2 ^ (n.log2 - 52) * 2 ^ (n.log2 - 52) :=
    Nat.div_mul_cancel hdvd ▸ Nat.mul_le_mul_right _ (Nat.div_le_div_right (Nat.log2_self_le hn))
  refine Nat.le_trans hle (Nat.mul_le_mul_right _ ?_)
  split
  · exact Nat.le_succ _
  · exact Nat.le_refl _

theorem float64_le_two_pow (n : Nat) : float64 n ≤ 2 ^ (n.log2 + 1) := by
  have hdvd : 2 ^ (n.log2 - 52) ∣ 2 ^ (n.log2 + 1) :=
    Nat.pow_dvd_pow 2 (Nat.le_succ_of_le (Nat.sub_le _ _))
  have hlt : n / 2 ^ (n.log2 - 52) < 2 ^ (n.log2 + 1) / 2 ^ (n.log2 - 52) :=
    Nat.div_lt_div_of_lt_of_dvd hdvd Nat.lt_log2_self
  have hle : float64 n ≤ 2 ^ (n.log2 + 1) / 2 ^ (n.log2 - 52) * 2 ^ (n.log2 - 52) := by
    refine Nat.mul_le_mul_right _ ?_
    split
    · exact hlt
    · exact Nat.le_of_lt hlt
  rw [Nat.div_mul_cancel hdvd] at hle
  exact hle

/-- Scores are in the order of the times. -/
theorem float64_mono {n m : Nat} (h : n ≤ m) : float64 n ≤ float64 m := by
  rcases Nat.lt_or_ge n.log2 m.log2 with hlt | hge
  · have hm : m ≠ 0 := by
      rintro rfl
      exact Nat.not_lt_zero _ hlt
    calc float64 n ≤ 2 ^ (n.log2 + 1) := float64_le_two_pow n
      _ ≤ 2 ^ m.log2 := Nat.pow_le_pow_right Nat.zero_lt_two hlt
      _ ≤ float64 m := two_pow_le_float64 hm
  · have hlog : n.log2 = m.log2 := by
      refine Nat.le_antisymm ?_ hge
      by_cases hn : n = 0
      · rw [hn, Nat.log2_zero]
        exact Nat.zero_le _
      · have hm : m ≠ 0 := Nat.ne_of_gt (Nat.lt_of_lt_of_le (Nat.pos_of_ne_zero hn) h)
        exact (Nat.le_log2 hm).2 (Nat.le_trans (Nat.log2_self_le hn) h)
    unfold float64
    rw [hlog]
    generalize 2 ^ (m.log2 - 52) = unit
    refine Nat.mul_le_mul_right unit ?_
    rcases Nat.lt_or_eq_of_le (Nat.div_le_div_right (c := unit) h) with hlt | heq
    · split
      · split
        · exact Nat.succ_le_succ (Nat.le_of_lt hlt)
        · exact hlt
      · split
        · exact Nat.le_succ_of_le (Nat.le_of_lt hlt)
        · exact Nat.le_of_lt hlt
    · have hmod : n % unit ≤ m % unit := by
        have hn := Nat.div_add_mod n unit
        have hm := Nat.div_add_mod m unit
        rw [heq] at hn
        omega
      rw [heq]
      simp only [Bool.or_eq_true, Bool.and_eq_true, decide_eq_true_eq, beq_iff_eq]
      split
      · exact Nat.le_of_eq (if_pos (by omega)).symm
      · split
        · exact Nat.le_succ _
        · exact Nat.le_refl _
theorem leads_of_pairwise {l : List Nat} (n : Nat) (h : l.Pairwise (· < ·)) : leads n l = true := by
  induction l generalizing n with
  | nil => cases n <;> rfl
  | cons t ts ih =>
    rcases List.pairwise_cons.1 h with ⟨hlt, hrest⟩
    cases n with
    | zero => rfl
    | succ n =>
      rw [leads, ih n hrest, Bool.and_true, List.all_eq_true]
      exact fun u hu => decide_eq_true (hlt u hu)

/-- The queue is in the order of creation, but for requests of the same score. -/
theorem Matches.leads (h : Matches κ s memory) (runtimeId : UUID) (n : Nat)
    (hscores : (((s.entries runtimeId).filterMap (waiting κ memory s.now)).map fun m =>
      float64 m.createdAt).Nodup) :
    leads n (((s.entries runtimeId).filterMap (waiting κ memory s.now)).map (·.createdAt)) =
      true := by
  have hsorted : (s.entries runtimeId).Pairwise fun e e' => e.score ≤ e'.score := by
    have hle : (s.entries runtimeId).Pairwise Entry.le := by
      unfold Redis.entries
      split
      · exact h.sorted runtimeId
      · exact List.Pairwise.nil
    refine hle.imp fun {e e'} hle => ?_
    unfold Entry.le at hle
    omega
  have hscore {e : Entry} (he : e ∈ s.entries runtimeId) {m : Request P}
      (hm : waiting κ memory s.now e = some m) : e.score = float64 m.createdAt := by
    rcases h.entry (mem_of_mem_entries he) with ⟨k, hk, hkid, -, hscore⟩
    rcases waiting_eq_some hm with ⟨hmem, hid, -⟩
    rw [hscore, eq_of_id h.nodup hmem hk (hkid.trans hid.symm)]
  have hqueue : ((s.entries runtimeId).filterMap (waiting κ memory s.now)).Pairwise fun m m' =>
      float64 m.createdAt ≤ float64 m'.createdAt := by
    refine List.pairwise_filterMap.2 (hsorted.imp_of_mem fun {e e'} he he' hle m hm m' hm' => ?_)
    rw [← hscore he hm, ← hscore he' hm']
    exact hle
  refine leads_of_pairwise n (List.pairwise_map.2 ?_)
  refine (hqueue.and (List.pairwise_map.1 hscores)).imp fun {m m'} hm => ?_
  rw [← Nat.not_le]
  exact fun hle => hm.2 (Nat.le_antisymm hm.1 (float64_mono hle))

theorem oldest_eq {l : List (Request P)} : ∀ {best : Option (Request P)},
    m ∈ best.toList ++ l → (∀ k ∈ best.toList ++ l, k ≠ m → m.createdAt < k.createdAt) →
    Memory.oldest l best = some m := by
  induction l with
  | nil =>
    intro best hm _
    rw [List.append_nil, Option.mem_toList] at hm
    exact hm
  | cons k l ih =>
    intro best hm hlt
    cases best with
    | none => exact ih hm hlt
    | some b =>
      simp only [Option.toList_some, List.cons_append, List.nil_append, List.mem_cons] at hm hlt
      rw [Memory.oldest, Option.all_some]
      by_cases hkb : k.createdAt < b.createdAt
      · rw [decide_eq_true hkb, if_pos rfl]
        refine ih ?_ fun k' hk' => hlt k' (.inr (by simpa using hk'))
        rcases hm with rfl | hm
        · have hmk := hlt k (.inr (.inl rfl)) fun heq => Nat.lt_irrefl _ (heq ▸ hkb)
          exact absurd hmk (Nat.lt_asymm hkb)
        · simpa using hm
      · rw [decide_eq_false hkb, if_neg Bool.false_ne_true]
        refine ih ?_ fun k' hk' => hlt k' ?_
        · rcases hm with rfl | rfl | hm
          · simp
          · by_cases hbm : b = m
            · simp [hbm]
            · exact absurd (hlt b (.inl rfl) hbm) hkb
          · simp [hm]
        · rcases List.mem_cons.1 (by simpa using hk') with hk' | hk'
          · exact .inl hk'
          · exact .inr (.inr hk')

/-- What sorting brings to the front. -/
theorem take_sorted {l sorted : List (Request P)} (n : Nat) (hperm : sorted.Perm l)
    (hsorted : sorted.Pairwise fun a b => a.createdAt ≤ b.createdAt)
    (hleads : leads n (l.map (·.createdAt)) = true) : sorted.take n = l.take n := by
  induction n generalizing l sorted with
  | zero => rfl
  | succ n ih =>
    cases l with
    | nil => rw [hperm.eq_nil]
    | cons t ts =>
      simp only [List.map_cons, leads, Bool.and_eq_true, List.all_map, List.all_eq_true,
        Function.comp_apply, decide_eq_true_eq] at hleads
      cases sorted with
      | nil => exact absurd hperm.symm.eq_nil (List.cons_ne_nil _ _)
      | cons x xs =>
        have hx : x = t := by
          rcases List.mem_cons.1 (hperm.mem_iff.1 List.mem_cons_self) with hx | hx
          · exact hx
          · have hlt := hleads.1 x hx
            rcases List.mem_cons.1 (hperm.mem_iff.2 (List.mem_cons_self (a := t) (l := ts)))
              with ht | ht
            · exact ht.symm
            · exact absurd hlt (Nat.not_lt.2 ((List.pairwise_cons.1 hsorted).1 t ht))
        subst hx
        rw [List.take_succ_cons, List.take_succ_cons,
          ih hperm.cons_inv (List.pairwise_cons.1 hsorted).2 hleads.2]

theorem created_applyTimeouts (κ : Kind I P O) {bound : Nat} (now : Nat)
    (hyoung : ∀ m ∈ memory, bound ≤ m.createdAt + κ.retention) :
    ∀ m ∈ memory.applyTimeouts κ now, bound ≤ m.createdAt + κ.retention := by
  intro m' hm'
  rcases List.mem_map.1 hm' with ⟨m, hm, rfl⟩
  rw [read_createdAt]
  exact hyoung m hm

theorem overdue_applyTimeouts {now : Nat} :
    ∀ m ∈ memory.applyTimeouts κ now, κ.overdue m now = false := by
  intro m' hm'
  rcases List.mem_map.1 hm' with ⟨m, -, rfl⟩
  exact overdue_read

theorem oldest_queue {l queue : List (Request P)} (hperm : queue.Perm l)
    (hleads : leads 1 (queue.map (·.createdAt)) = true) :
    Memory.oldest l none = queue.head? := by
  cases queue with
  | nil => rw [hperm.symm.eq_nil]; rfl
  | cons m ms =>
    simp only [List.map_cons, leads, Bool.and_true, List.all_map, List.all_eq_true,
      Function.comp_apply, decide_eq_true_eq] at hleads
    refine oldest_eq (hperm.mem_iff.1 List.mem_cons_self) fun k hk hne => ?_
    rcases List.mem_cons.1 (hperm.mem_iff.2 hk) with heq | hk
    · exact absurd heq hne
    · exact hleads k hk

theorem together_popPending {runtimeId : UUID} (h : Matches κ s memory)
    (hyoung : ∀ m ∈ memory, s.now ≤ m.createdAt + κ.retention)
    (hseen : (s.entries runtimeId).filterMap (waiting κ memory s.now) = [] ∨
      ((s.entries runtimeId).take Kind.redisPopMaxRetries).filterMap (waiting κ memory s.now) ≠ [])
    (hleads : leads 1 (((s.entries runtimeId).filterMap (waiting κ memory s.now)).map
      (·.createdAt)) = true) :
    Together κ s memory (.popPending runtimeId) := by
  -- what is pending is told once the memory has applied its timeouts
  have hwaiting : waiting κ memory s.now = waiting κ (memory.applyTimeouts κ s.now) s.now :=
    funext fun _ => waiting_applyTimeouts.symm
  rw [hwaiting] at hseen hleads
  have hyoung' := created_applyTimeouts κ s.now hyoung
  have hperm := h.applyTimeouts.queue_perm hyoung' overdue_applyTimeouts runtimeId
  have hloop := run_popPendingLoop runtimeId Kind.redisPopMaxRetries s
    h.applyTimeouts hyoung' overdue_applyTimeouts
  have holdest := oldest_queue hperm hleads
  have hsplit : (s.entries runtimeId).filterMap (waiting κ (memory.applyTimeouts κ s.now) s.now) =
      ((s.entries runtimeId).take Kind.redisPopMaxRetries).filterMap
        (waiting κ (memory.applyTimeouts κ s.now) s.now) ++
      ((s.entries runtimeId).drop Kind.redisPopMaxRetries).filterMap
        (waiting κ (memory.applyTimeouts κ s.now) s.now) := by
    rw [← List.filterMap_append, List.take_append_drop]
  unfold Together
  simp only [redisCall, Prog.run_bind, Prog.run_pure, Memory.call, Memory.popPending, holdest]
  generalize (s.entries runtimeId).filterMap (waiting κ (memory.applyTimeouts κ s.now) s.now) =
    queue at hseen hsplit
  generalize ((s.entries runtimeId).take Kind.redisPopMaxRetries).filterMap
    (waiting κ (memory.applyTimeouts κ s.now) s.now) = seen at hseen hsplit hloop
  cases queue with
  | nil =>
    obtain rfl : seen = [] := (List.append_eq_nil_iff.1 hsplit.symm).1
    refine ⟨congrArg some hloop.1, ?_⟩
    have hmatches := hloop.2
    rw [List.head?_nil, Option.toList_none, List.map_nil, start_nil] at hmatches
    exact hmatches
  | cons m ms =>
    cases seen with
    | nil => exact absurd rfl (hseen.resolve_left (List.cons_ne_nil _ _))
    | cons m' ms' =>
      rw [List.cons_append, List.cons.injEq] at hsplit
      obtain rfl := hsplit.1
      exact ⟨congrArg some hloop.1, hloop.2⟩

theorem upTo_take (es : List Entry) (stop : Int) : ∃ n, upTo es stop = es.take n := by
  unfold upTo
  split
  · exact ⟨_, rfl⟩
  · exact ⟨_, rfl⟩

theorem together_popPendingBatch {runtimeId : UUID} {limit : Int} (h : Matches κ s memory)
    (hyoung : ∀ m ∈ memory, s.now ≤ m.createdAt + κ.retention) (hlimit : 0 ≤ limit)
    (hseen : ((upTo (s.entries runtimeId) (limit - 1)).filterMap
      (waiting κ memory s.now)).length = min limit.toNat
        ((s.entries runtimeId).filterMap (waiting κ memory s.now)).length)
    (hleads : leads limit.toNat (((s.entries runtimeId).filterMap (waiting κ memory s.now)).map
      (·.createdAt)) = true) :
    Together κ s memory (.popPendingBatch runtimeId limit) := by
  have hwaiting : waiting κ memory s.now = waiting κ (memory.applyTimeouts κ s.now) s.now :=
    funext fun _ => waiting_applyTimeouts.symm
  rw [hwaiting] at hseen hleads
  have hyoung' := created_applyTimeouts κ s.now hyoung
  have hperm := h.applyTimeouts.queue_perm hyoung' overdue_applyTimeouts runtimeId
  rcases upTo_take (s.entries runtimeId) (limit - 1) with ⟨n, hn⟩
  have hsub : (upTo (s.entries runtimeId) (limit - 1)).Sublist (s.entries runtimeId) :=
    hn ▸ List.take_sublist _ _
  have hall := run_claimAll runtimeId (upTo (s.entries runtimeId) (limit - 1)) s _
    h.applyTimeouts hyoung' overdue_applyTimeouts
    (fun e he => by
      rcases h.applyTimeouts.entry (mem_of_mem_entries (hsub.mem he)) with ⟨m, hm, hid, hruntime, -⟩
      exact ⟨m, hm, hid, hruntime⟩)
    ((hsub.map _).nodup (by
      unfold Redis.entries
      split
      · exact h.unique runtimeId
      · exact List.nodup_nil))
  -- as many have been seen as are to be popped
  have htake : (upTo (s.entries runtimeId) (limit - 1)).filterMap
        (waiting κ (memory.applyTimeouts κ s.now) s.now) =
      ((s.entries runtimeId).filterMap (waiting κ (memory.applyTimeouts κ s.now) s.now)).take
        limit.toNat := by
    have hprefix : (upTo (s.entries runtimeId) (limit - 1)).filterMap
        (waiting κ (memory.applyTimeouts κ s.now) s.now) <+:
        (s.entries runtimeId).filterMap (waiting κ (memory.applyTimeouts κ s.now) s.now) := by
      rw [hn]
      exact (List.take_prefix _ _).filterMap _
    rw [List.prefix_iff_eq_take.1 hprefix, hseen, ← List.take_eq_take_min]
  have htotal : Std.Total fun a b : Request P => a.createdAt ≤ b.createdAt :=
    ⟨fun a b => Nat.le_total _ _⟩
  have htrans : IsTrans (Request P) fun a b => a.createdAt ≤ b.createdAt :=
    ⟨fun a b c => Nat.le_trans⟩
  have hsorted := take_sorted limit.toNat
    ((List.perm_insertionSort (fun a b : Request P => a.createdAt ≤ b.createdAt) _).trans
      hperm.symm) (List.pairwise_insertionSort _ _) hleads
  rw [htake] at hall
  unfold Together
  simp only [redisCall, Kind.popPendingBatch, Prog.run_bind, Prog.run_pure, run_zrange,
    Memory.call, Memory.popPendingBatch, if_neg (Int.not_lt.2 hlimit), hsorted, Option.map_some,
    List.map_map]
  exact ⟨congrArg some hall.1, hall.2⟩

end Calls

end Orynx.RuntimeRequest
