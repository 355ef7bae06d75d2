import Orynx.Runtime.Alone

/-! # How the two stores compare

Of a request, the memory and the Redis store have the same record, or else the memory is ahead: it
has written a timeout down that Redis has not read yet, or will never find.

* `Agrees`: the two records of one request;
* `Matches`: the two stores, with the queue and the active keys that go with the records;
* `Matches.write`: what a write of one record, in both stores, has to respect.
-/

namespace Orynx.RuntimeRequest

open Lib

variable {I P O : Type}

/-! ## One request -/

structure Level (κ : Kind I P O) (m r : Request P) : Prop where
  status : m.status = r.status
  error : m.error = r.error
  start : r.status = .running → r.runStartedAt = if κ.keepsRunStart then m.runStartedAt else none

structure Ahead (κ : Kind I P O) (now : Nat) (m r : Request P) : Prop where
  status : m.status = .timeout
  error : m.error = (κ.timedOut r now).error
  opened : r.status.terminal = false
  cause : κ.overdue r now = true ∨ r.status = .running ∧ κ.keepsRunStart = false

structure Agrees (κ : Kind I P O) (now : Nat) (m r : Request P) : Prop where
  id : m.id = r.id
  runtimeId : m.runtimeId = r.runtimeId
  createdAt : m.createdAt = r.createdAt
  payload : m.payload = r.payload
  stage : Level κ m r ∨ Ahead κ now m r

section Request

variable {κ : Kind I P O} {now later : Nat} {m r : Request P}

theorem read_overdue (h : κ.overdue r now = true) : κ.read r now = κ.timedOut r now := by
  unfold Kind.read
  rw [applyTimeout_eq_some.2 ⟨h, rfl⟩]
  rfl

theorem read_same (h : κ.overdue r now = false) : κ.read r now = r := by
  unfold Kind.read
  rw [applyTimeout_eq_none.2 h]
  rfl

@[simp] theorem read_id : (κ.read r now).id = r.id := by
  cases h : κ.overdue r now with
  | true => rw [read_overdue h, timedOut_id]
  | false => rw [read_same h]

@[simp] theorem read_runtimeId : (κ.read r now).runtimeId = r.runtimeId := by
  cases h : κ.overdue r now with
  | true => rw [read_overdue h, timedOut_runtimeId]
  | false => rw [read_same h]

@[simp] theorem read_createdAt : (κ.read r now).createdAt = r.createdAt := by
  cases h : κ.overdue r now with
  | true => rw [read_overdue h, timedOut_createdAt]
  | false => rw [read_same h]

theorem overdue_read : κ.overdue (κ.read r now) now = false := by
  cases h : κ.overdue r now with
  | true => rw [read_overdue h]; rfl
  | false => rw [read_same h]; exact h

theorem overdue_mono (hle : now ≤ later) (h : κ.overdue r now = true) :
    κ.overdue r later = true := by
  rw [← Bool.not_eq_false]
  intro hlater
  have hlive := live_mono hle (live_iff.2 ⟨not_terminal_of_overdue h, hlater⟩)
  cases h.symm.trans (live_iff.1 hlive).2

/-- Time goes by the same for both, but for the start of the run. -/
theorem Level.overdue (h : Level κ m r) (hcreated : m.createdAt = r.createdAt)
    (hstart : κ.keepsRunStart = true ∨ r.status ≠ .running) :
    κ.overdue m now = κ.overdue r now := by
  unfold Kind.overdue
  rw [h.status]
  cases hstatus : r.status with
  | pending => simp only [hcreated]
  | running =>
    rcases hstart with hkeeps | hne
    · simp only [h.start hstatus, hkeeps, if_true]
    · exact absurd hstatus hne
  | _ => rfl

theorem Level.late (h : Level κ m r) (hcreated : m.createdAt = r.createdAt)
    (hdue : κ.overdue r now = true) : κ.overdue m now = true := by
  have hstart : κ.keepsRunStart = true ∨ r.status ≠ .running := by
    cases hkeeps : κ.keepsRunStart with
    | true => exact .inl rfl
    | false =>
      refine .inr fun hrunning => ?_
      have hnone := h.start hrunning
      simp [Kind.overdue, hrunning, hnone, hkeeps] at hdue
  rw [h.overdue hcreated hstart]
  exact hdue

theorem Level.timedOut_error (h : Level κ m r) :
    (κ.timedOut m now).error = (κ.timedOut r now).error := by
  simp only [Kind.timedOut, h.status]

/-- The memory writes a timeout down. -/
theorem Agrees.read_memory (h : Agrees κ now m r) : Agrees κ now (κ.read m now) r := by
  refine ⟨read_id.trans h.id, read_runtimeId.trans h.runtimeId, read_createdAt.trans h.createdAt,
    ?_, ?_⟩
  · rw [← h.payload]
    cases hdue : κ.overdue m now with
    | true => rw [read_overdue hdue]; rfl
    | false => rw [read_same hdue]
  · cases hdue : κ.overdue m now with
    | false => rw [read_same hdue]; exact h.stage
    | true =>
      rw [read_overdue hdue]
      rcases h.stage with hlevel | hahead
      · have hopen := hlevel.status ▸ not_terminal_of_overdue hdue
        refine .inr ⟨rfl, hlevel.timedOut_error, hopen, ?_⟩
        by_cases hstart : κ.keepsRunStart = true ∨ r.status ≠ .running
        · exact .inl (hlevel.overdue h.createdAt hstart ▸ hdue)
        · rw [not_or, not_not, Bool.not_eq_true] at hstart
          exact .inr ⟨hstart.2, hstart.1⟩
      · have hnot : κ.overdue m now = false :=
          not_overdue_of_terminal (congrArg Status.terminal hahead.status)
        cases hnot.symm.trans hdue

/-- Redis writes down the timeout that it has found. -/
theorem Agrees.read_redis (h : Agrees κ now m r) (hdue : κ.overdue r now = true) :
    Agrees κ now (κ.read m now) (κ.timedOut r now) := by
  have hmemory := h.read_memory
  refine ⟨hmemory.id, hmemory.runtimeId, hmemory.createdAt, hmemory.payload, ?_⟩
  rcases hmemory.stage with hlevel | hahead
  · have hlate := hlevel.late hmemory.createdAt hdue
    cases overdue_read.symm.trans hlate
  · exact .inl ⟨hahead.status, hahead.error, fun hrunning => (by cases hrunning)⟩

theorem Agrees.tick (h : Agrees κ now m r) (hle : now ≤ later) : Agrees κ later m r := by
  refine ⟨h.id, h.runtimeId, h.createdAt, h.payload, ?_⟩
  rcases h.stage with hlevel | hahead
  · exact .inl hlevel
  · refine .inr ⟨hahead.status, hahead.error, hahead.opened, ?_⟩
    rcases hahead.cause with hdue | hlost
    · exact .inl (overdue_mono hle hdue)
    · exact .inr hlost

/-- What is stored of a record tells as much as the record. -/
theorem Agrees.marshal (h : Agrees κ now m r) : Agrees κ now m (κ.marshal r) := by
  cases hkeeps : κ.keepsRunStart with
  | true =>
    rw [marshal_eq (.inr hkeeps)]
    exact h
  | false =>
    have hmarshal : κ.marshal r = { r with runStartedAt := none } := by
      unfold Kind.marshal
      rw [hkeeps]
      rfl
    rw [hmarshal]
    refine ⟨h.id, h.runtimeId, h.createdAt, h.payload, ?_⟩
    rcases h.stage with hlevel | hahead
    · refine .inl ⟨hlevel.status, hlevel.error, fun _ => ?_⟩
      rw [hkeeps]
      rfl
    · refine .inr ⟨hahead.status, hahead.error, hahead.opened, ?_⟩
      by_cases hrunning : r.status = .running
      · exact .inr ⟨hrunning, hkeeps⟩
      · rcases hahead.cause with hdue | ⟨hrunning', -⟩
        · refine .inl ?_
          unfold Kind.overdue at hdue ⊢
          cases hstatus : r.status with
          | running => exact absurd hstatus hrunning
          | _ => simpa only [hstatus] using hdue
        · exact absurd hrunning' hrunning

theorem fresh_iff : κ.fresh r now = true ↔ r.status = .pending ∧ κ.overdue r now = false := by
  simp [Kind.fresh]

theorem Agrees.fresh (h : Agrees κ now m r) : κ.fresh m now = κ.fresh r now := by
  rw [Bool.eq_iff_iff, fresh_iff, fresh_iff]
  rcases h.stage with hlevel | hahead
  · rw [hlevel.status]
    constructor
    · rintro ⟨hpending, hdue⟩
      have hstart : r.status ≠ .running := fun hrunning => by cases hpending.symm.trans hrunning
      exact ⟨hpending, hlevel.overdue h.createdAt (.inr hstart) ▸ hdue⟩
    · rintro ⟨hpending, hdue⟩
      have hstart : r.status ≠ .running := fun hrunning => by cases hpending.symm.trans hrunning
      exact ⟨hpending, (hlevel.overdue h.createdAt (.inr hstart)).trans hdue⟩
  · constructor
    · rintro ⟨hpending, -⟩
      cases hpending.symm.trans hahead.status
    · rintro ⟨hpending, hdue⟩
      rcases hahead.cause with hlate | ⟨hrunning, -⟩
      · cases hdue.symm.trans hlate
      · cases hpending.symm.trans hrunning

theorem Agrees.claimed (h : Agrees κ now m r) (hpending : m.status = .pending) :
    Agrees κ now (m.claimed now) (κ.marshal (r.claimed now)) := by
  have hlevel : Level κ m r := by
    rcases h.stage with hlevel | hahead
    · exact hlevel
    · cases hpending.symm.trans hahead.status
  refine ⟨?_, ?_, ?_, ?_, .inl ⟨?_, ?_, fun _ => ?_⟩⟩
  · simpa using h.id
  · simpa using h.runtimeId
  · simpa using h.createdAt
  · unfold Kind.marshal
    split <;> exact h.payload
  · simp
  · unfold Kind.marshal
    split <;> exact hlevel.error
  · unfold Kind.marshal
    split <;> rfl

theorem Agrees.shown (h : Agrees κ now m r)
    (hlive : κ.keepsRunStart = true ∨ r.status ≠ .running ∨ κ.live m now = true) :
    (κ.read m now).shown = (κ.read r now).shown := by
  have hshown {m r : Request P} (hsame : Agrees κ now m r) (hlevel : Level κ m r) :
      m.shown = r.shown := by
    simp only [Request.shown, hsame.id, hsame.runtimeId, hsame.payload, hlevel.status,
      hlevel.error]
  cases hdue : κ.overdue r now with
  | true =>
    have hread := h.read_redis hdue
    rw [read_overdue hdue]
    rcases hread.stage with hlevel | hahead
    · exact hshown hread hlevel
    · cases hahead.opened
  | false =>
    have hread := h.read_memory
    rw [read_same hdue]
    rcases hread.stage with hlevel | hahead
    · exact hshown hread hlevel
    · rcases hahead.cause with hlate | ⟨hrunning, hlost⟩
      · cases hdue.symm.trans hlate
      · rcases hlive with hkeeps | hne | hlive
        · cases hlost.symm.trans hkeeps
        · exact absurd hrunning hne
        · rcases live_iff.1 hlive with ⟨hopen, hdue'⟩
          have hstatus := hahead.status
          rw [read_same hdue'] at hstatus
          cases hopen.symm.trans (congrArg Status.terminal hstatus)

end Request

/-! ## The stores -/

structure Matches (κ : Kind I P O) (s : Redis P) (memory : Memory P) : Prop where
  nodup : (memory.map (·.id)).Nodup
  created : ∀ m ∈ memory, m.id ∈ s.created ∧ m.createdAt ≤ s.now
  record : ∀ m ∈ memory, ∃ r expiresAt, s.records m.id = some (r, expiresAt) ∧
    Agrees κ s.now m r ∧ m.createdAt + κ.retention ≤ expiresAt
  request : ∀ {id x}, s.records id = some x → ∃ m ∈ memory, m.id = id
  entry : ∀ {runtimeId e}, e ∈ (s.pending runtimeId).1 →
    ∃ m ∈ memory, m.id = e.id ∧ m.runtimeId = runtimeId ∧ e.score = float64 m.createdAt
  sorted : ∀ runtimeId, (s.pending runtimeId).1.Pairwise Entry.le
  unique : ∀ runtimeId, ((s.pending runtimeId).1.map (·.id)).Nodup
  queued : ∀ {id r x}, s.records id = some (r, x) → r.status = .pending →
    (∃ e ∈ (s.pending r.runtimeId).1, e.id = id) ∧
      r.createdAt + κ.retention ≤ (s.pending r.runtimeId).2
  active : κ.exclusive = true → ∀ {id r x}, s.records id = some (r, x) →
    r.status.terminal = false →
      ∃ lasts, s.active r.runtimeId = some (id, lasts) ∧ r.createdAt + κ.retention ≤ lasts
  holder : κ.exclusive = true → ∀ {runtimeId id lasts}, s.active runtimeId = some (id, lasts) →
    ∃ r x, s.records id = some (r, x) ∧ r.status.terminal = false ∧ r.runtimeId = runtimeId

/-- A record is written, and its entry may be taken out. A request that ends gives up its active
key. -/
structure Wrote (κ : Kind I P O) (s s' : Redis P) (r : Request P) : Prop where
  now : s'.now = s.now
  created : s'.created = s.created
  records : ∀ k, s'.records k =
    if k = r.id then some (κ.marshal r, s.now + κ.retention) else s.records k
  pending : s'.pending = s.pending ∨ s'.pending = (s.removeEntry r.runtimeId r.id).pending
  active : ∀ {runtimeId x}, s'.active runtimeId = some x → s.active runtimeId = some x
  kept : ∀ {runtimeId id lasts}, s.active runtimeId = some (id, lasts) →
    id ≠ r.id ∨ r.status.terminal = false → s'.active runtimeId = some (id, lasts)
  released : κ.exclusive = true → r.status.terminal = true → ∀ {runtimeId lasts},
    s'.active runtimeId ≠ some (r.id, lasts)

instance : Std.Total Entry.le where
  total a b := by
    rcases Nat.lt_trichotomy a.score b.score with hlt | heq | hgt
    · exact .inl (.inl hlt)
    · exact (Nat.le_total a.id b.id).imp (fun hle => .inr ⟨heq, hle⟩) fun hle =>
        .inr ⟨heq.symm, hle⟩
    · exact .inr (.inl hgt)

instance : IsTrans Entry Entry.le where
  trans a b c hab hbc := by
    rcases hab with hab | ⟨hab, hid⟩
    · rcases hbc with hbc | ⟨hbc, -⟩
      · exact .inl (Nat.lt_trans hab hbc)
      · exact .inl (hbc ▸ hab)
    · rcases hbc with hbc | ⟨hbc, hid'⟩
      · exact .inl (hab ▸ hbc)
      · exact .inr ⟨hab.trans hbc, Nat.le_trans hid hid'⟩

section Stores

variable {κ : Kind I P O} {s s' : Redis P} {memory : Memory P} {m r : Request P}

theorem eq_of_id (hnodup : (memory.map (·.id)).Nodup) {k : Request P} (hm : m ∈ memory)
    (hk : k ∈ memory) (hid : k.id = m.id) : k = m :=
  List.inj_on_of_nodup_map hnodup hk hm hid

theorem pending_removeEntry {runtimeId runtimeId' id : UUID} :
    (s.removeEntry runtimeId id).pending runtimeId' =
      if runtimeId' = runtimeId then
        ((s.entries runtimeId).filter fun e => e.id != id, (s.pending runtimeId).2)
      else s.pending runtimeId' := rfl

theorem pending_removeEntry_expiry {runtimeId runtimeId' id : UUID} :
    ((s.removeEntry runtimeId id).pending runtimeId').2 = (s.pending runtimeId').2 := by
  rw [pending_removeEntry]
  split
  · rename_i heq
    rw [heq]
  · rfl

theorem pending_removeEntry_sublist {runtimeId runtimeId' id : UUID} :
    ((s.removeEntry runtimeId id).pending runtimeId').1.Sublist (s.pending runtimeId').1 := by
  rw [pending_removeEntry]
  split
  · rename_i heq
    rw [heq]
    unfold Redis.entries
    split
    · exact List.filter_sublist
    · exact List.nil_sublist _
  · exact List.Sublist.refl _

theorem mem_removeEntry {runtimeId runtimeId' id : UUID} {e : Entry}
    (he : e ∈ (s.pending runtimeId').1) (halive : s.now ≤ (s.pending runtimeId').2)
    (hne : e.id ≠ id) : e ∈ ((s.removeEntry runtimeId id).pending runtimeId').1 := by
  rw [pending_removeEntry]
  split
  · rename_i heq
    rw [heq] at he halive
    refine List.mem_filter.2 ⟨?_, by simpa using hne⟩
    unfold Redis.entries
    rw [if_pos halive]
    exact he
  · exact he

theorem Matches.alive (h : Matches κ s memory)
    (hyoung : ∀ m ∈ memory, s.now ≤ m.createdAt + κ.retention) {id : UUID} {x : Nat}
    (hr : s.records id = some (r, x)) : s.now ≤ r.createdAt + κ.retention ∧ s.now ≤ x := by
  rcases h.request hr with ⟨m, hm, rfl⟩
  rcases h.record m hm with ⟨r', x', hr', hagrees, hlasts⟩
  obtain ⟨rfl, rfl⟩ := Prod.mk.inj (Option.some.inj (hr.symm.trans hr'))
  have hnow := hyoung m hm
  rw [← hagrees.createdAt]
  exact ⟨hnow, Nat.le_trans hnow hlasts⟩

/-- What a write of one record, in both stores, has to respect. -/
theorem Matches.write (h : Matches κ s memory)
    (hyoung : ∀ m ∈ memory, s.now ≤ m.createdAt + κ.retention) {f : Request P → Request P}
    (hm : m ∈ memory) (hother : ∀ k ∈ memory, k.id ≠ m.id → f k = k) (hid : r.id = m.id)
    (hruntime : r.runtimeId = m.runtimeId) (hcreated : r.createdAt = m.createdAt)
    (hstatus : r.status ≠ .pending) (hagrees : Agrees κ s.now (f m) (κ.marshal r))
    (hopen : r.status.terminal = false →
      ∃ r₀ x, s.records m.id = some (r₀, x) ∧ r₀.status.terminal = false ∧
        r₀.runtimeId = r.runtimeId)
    (hw : Wrote κ s s' r) : Matches κ s' (memory.map f) := by
  have hsame : ∀ k ∈ memory, (f k).id = k.id ∧ (f k).runtimeId = k.runtimeId ∧
      (f k).createdAt = k.createdAt := by
    intro k hk
    by_cases hkm : k.id = m.id
    · obtain rfl := eq_of_id h.nodup hm hk hkm
      refine ⟨?_, ?_, ?_⟩
      · rw [hagrees.id, marshal_id, hid]
      · rw [hagrees.runtimeId, marshal_runtimeId, hruntime]
      · rw [hagrees.createdAt, marshal_createdAt, hcreated]
    · rw [hother k hk hkm]
      exact ⟨rfl, rfl, rfl⟩
  have hids : (memory.map f).map (·.id) = memory.map (·.id) := by
    rw [List.map_map]
    exact List.map_congr_left fun k hk => (hsame k hk).1
  have hold {k : UUID} (hk : k ≠ m.id) : s'.records k = s.records k := by
    rw [hw.records, hid, if_neg hk]
  have hsublist (runtimeId : UUID) :
      (s'.pending runtimeId).1.Sublist (s.pending runtimeId).1 := by
    rcases hw.pending with hp | hp
    · rw [hp]
    · rw [hp]
      exact pending_removeEntry_sublist
  refine ⟨hids ▸ h.nodup, ?_, ?_, ?_, ?_, fun k => (h.sorted k).sublist (hsublist k),
    fun k => ((hsublist k).map _).nodup (h.unique k), ?_, ?_, ?_⟩
  · intro k' hk'
    rcases List.mem_map.1 hk' with ⟨k, hk, rfl⟩
    rw [(hsame k hk).1, (hsame k hk).2.2, hw.created, hw.now]
    exact h.created k hk
  · intro k' hk'
    rcases List.mem_map.1 hk' with ⟨k, hk, rfl⟩
    rw [(hsame k hk).1, (hsame k hk).2.2, hw.now]
    by_cases hkm : k.id = m.id
    · obtain rfl := eq_of_id h.nodup hm hk hkm
      refine ⟨κ.marshal r, _, by rw [hw.records, hid, if_pos rfl], hagrees, ?_⟩
      exact Nat.add_le_add_right (h.created k hk).2 _
    · rw [hother k hk hkm, hold hkm]
      exact h.record k hk
  · intro id x hx
    by_cases hkm : id = m.id
    · exact ⟨f m, List.mem_map_of_mem hm, (hsame m hm).1.trans hkm.symm⟩
    · rw [hold hkm] at hx
      rcases h.request hx with ⟨k, hk, hkid⟩
      exact ⟨f k, List.mem_map_of_mem hk, (hsame k hk).1.trans hkid⟩
  · intro runtimeId e he
    rcases h.entry ((hsublist runtimeId).mem he) with ⟨k, hk, hkid, hkruntime, hscore⟩
    exact ⟨f k, List.mem_map_of_mem hk, (hsame k hk).1.trans hkid,
      (hsame k hk).2.1.trans hkruntime, by rw [hscore, (hsame k hk).2.2]⟩
  · intro id r' x hr' hpending
    by_cases hkm : id = m.id
    · rw [hw.records, hid, if_pos hkm] at hr'
      obtain ⟨rfl, -⟩ := Prod.mk.inj (Option.some.inj hr')
      rw [marshal_status] at hpending
      exact absurd hpending hstatus
    · rw [hold hkm] at hr'
      rcases h.queued hr' hpending with ⟨⟨e, he, heid⟩, hlasts⟩
      have halive := Nat.le_trans (h.alive hyoung hr').1 hlasts
      rcases hw.pending with hp | hp
      · rw [hp]
        exact ⟨⟨e, he, heid⟩, hlasts⟩
      · rw [hp, pending_removeEntry_expiry]
        have hne : e.id ≠ r.id := fun heq => hkm (heid.symm.trans (heq.trans hid))
        exact ⟨⟨e, mem_removeEntry he halive hne, heid⟩, hlasts⟩
  · intro hexclusive id r' x hr' hopen'
    by_cases hkm : id = m.id
    · rw [hw.records, hid, if_pos hkm] at hr'
      obtain ⟨rfl, -⟩ := Prod.mk.inj (Option.some.inj hr')
      rw [marshal_status] at hopen'
      rcases hopen hopen' with ⟨r₀, x₀, hr₀, hopen₀, hruntime₀⟩
      rcases h.active hexclusive hr₀ hopen₀ with ⟨lasts, hactive, hlasts⟩
      rcases h.record m hm with ⟨r₁, x₁, hr₁, hagrees₁, -⟩
      obtain ⟨rfl, -⟩ := Prod.mk.inj (Option.some.inj (hr₀.symm.trans hr₁))
      rw [marshal_runtimeId, marshal_createdAt, hcreated, hagrees₁.createdAt, ← hruntime₀, hkm]
      exact ⟨lasts, hw.kept hactive (.inr hopen'), hlasts⟩
    · rw [hold hkm] at hr'
      rcases h.active hexclusive hr' hopen' with ⟨lasts, hactive, hlasts⟩
      exact ⟨lasts, hw.kept hactive (.inl fun heq => hkm (heq.trans hid)), hlasts⟩
  · intro hexclusive runtimeId id lasts hactive
    by_cases hkm : id = m.id
    · have hopen' : r.status.terminal = false := by
        rw [← Bool.not_eq_true]
        intro hterminal
        rw [hkm, ← hid] at hactive
        exact hw.released hexclusive hterminal hactive
      rcases hopen hopen' with ⟨r₀, x₀, hr₀, -, hruntime₀⟩
      rcases h.holder hexclusive (hw.active hactive) with ⟨r₁, x₁, hr₁, -, hruntime₁⟩
      rw [hkm] at hr₁
      obtain ⟨rfl, -⟩ := Prod.mk.inj (Option.some.inj (hr₀.symm.trans hr₁))
      refine ⟨κ.marshal r, s.now + κ.retention, ?_, ?_, ?_⟩
      · rw [hw.records, hid, if_pos hkm]
      · rw [marshal_status, hopen']
      · rw [marshal_runtimeId, ← hruntime₀, hruntime₁]
    · rw [hold hkm]
      exact h.holder hexclusive (hw.active hactive)

theorem Matches.mapMemory (h : Matches κ s memory) {f : Request P → Request P}
    (hsame : ∀ k ∈ memory, (f k).id = k.id ∧ (f k).runtimeId = k.runtimeId ∧
      (f k).createdAt = k.createdAt)
    (hagrees : ∀ k ∈ memory, ∀ r, Agrees κ s.now k r → Agrees κ s.now (f k) r) :
    Matches κ s (memory.map f) := by
  have hids : (memory.map f).map (·.id) = memory.map (·.id) := by
    rw [List.map_map]
    exact List.map_congr_left fun k hk => (hsame k hk).1
  refine ⟨hids ▸ h.nodup, ?_, ?_, ?_, ?_, h.sorted, h.unique, h.queued, h.active, h.holder⟩
  · intro k' hk'
    rcases List.mem_map.1 hk' with ⟨k, hk, rfl⟩
    rw [(hsame k hk).1, (hsame k hk).2.2]
    exact h.created k hk
  · intro k' hk'
    rcases List.mem_map.1 hk' with ⟨k, hk, rfl⟩
    rcases h.record k hk with ⟨r, x, hr, hagree, hlasts⟩
    rw [(hsame k hk).1, (hsame k hk).2.2]
    exact ⟨r, x, hr, hagrees k hk r hagree, hlasts⟩
  · intro id x hx
    rcases h.request hx with ⟨k, hk, hkid⟩
    exact ⟨f k, List.mem_map_of_mem hk, (hsame k hk).1.trans hkid⟩
  · intro runtimeId e he
    rcases h.entry he with ⟨k, hk, hkid, hkruntime, hscore⟩
    exact ⟨f k, List.mem_map_of_mem hk, (hsame k hk).1.trans hkid,
      (hsame k hk).2.1.trans hkruntime, by rw [hscore, (hsame k hk).2.2]⟩

theorem Matches.applyTimeouts (h : Matches κ s memory) :
    Matches κ s (memory.applyTimeouts κ s.now) :=
  h.mapMemory (fun _ _ => ⟨read_id, read_runtimeId, read_createdAt⟩)
    fun _ _ _ hagrees => hagrees.read_memory

theorem Matches.perm {memory' : Memory P} (h : Matches κ s memory) (hperm : memory'.Perm memory) :
    Matches κ s memory' where
  nodup := (hperm.map _).nodup_iff.2 h.nodup
  created m hm := h.created m (hperm.mem_iff.1 hm)
  record m hm := h.record m (hperm.mem_iff.1 hm)
  request hx := by
    rcases h.request hx with ⟨m, hm, hid⟩
    exact ⟨m, hperm.mem_iff.2 hm, hid⟩
  entry he := by
    rcases h.entry he with ⟨m, hm, hid⟩
    exact ⟨m, hperm.mem_iff.2 hm, hid⟩
  sorted := h.sorted
  unique := h.unique
  queued := h.queued
  active := h.active
  holder := h.holder

theorem Matches.tick (h : Matches κ s memory) (d : Nat) :
    Matches κ { s with now := s.now + d } memory := by
  have hle : s.now ≤ s.now + d := Nat.le_add_right _ _
  refine ⟨h.nodup, ?_, ?_, h.request, h.entry, h.sorted, h.unique, h.queued, h.active, h.holder⟩
  · intro m hm
    exact ⟨(h.created m hm).1, Nat.le_trans (h.created m hm).2 hle⟩
  · intro m hm
    rcases h.record m hm with ⟨r, x, hr, hagrees, hlasts⟩
    exact ⟨r, x, hr, hagrees.tick hle, hlasts⟩

/-- An entry whose request is not pending may go. -/
theorem Matches.removeEntry (h : Matches κ s memory)
    (hyoung : ∀ m ∈ memory, s.now ≤ m.createdAt + κ.retention) {runtimeId id : UUID}
    (hstale : ∀ {r x}, s.records id = some (r, x) → r.status ≠ .pending) :
    Matches κ (s.removeEntry runtimeId id) memory := by
  refine ⟨h.nodup, h.created, h.record, h.request, ?_, ?_, ?_, ?_, h.active, h.holder⟩
  · intro runtimeId' e he
    exact h.entry (mem_pending_removeEntry he).1
  · intro runtimeId'
    exact (h.sorted runtimeId').sublist pending_removeEntry_sublist
  · intro runtimeId'
    exact (pending_removeEntry_sublist.map _).nodup (h.unique runtimeId')
  · intro id' r x hr hpending
    rcases h.queued hr hpending with ⟨⟨e, he, hid⟩, hlasts⟩
    have halive := Nat.le_trans (h.alive hyoung hr).1 hlasts
    rw [pending_removeEntry_expiry]
    refine ⟨⟨e, mem_removeEntry he halive ?_, hid⟩, hlasts⟩
    rintro rfl
    rw [← hid] at hr
    exact hstale hr hpending

/-! ## Writes -/

theorem release_active (κ : Kind I P O) (s : Redis P) (r : Request P) {runtimeId : UUID}
    {x : UUID × Nat}
    (h : (s.release κ r).active runtimeId = some x) : s.active runtimeId = some x := by
  unfold Redis.release at h
  split at h
  · rw [active_setActive] at h
    split at h
    · cases h
    · exact h
  · exact h

theorem active_release {runtimeId id : UUID} {lasts : Nat}
    (h : s.active runtimeId = some (id, lasts)) (hne : id ≠ r.id) :
    (s.release κ r).active runtimeId = some (id, lasts) := by
  unfold Redis.release
  split
  · rename_i hactive
    rw [active_setActive]
    split
    · rename_i heq
      rcases activeId_eq_some.1 hactive.2 with ⟨lasts', hactive', -⟩
      rw [heq, hactive'] at h
      exact absurd (Prod.mk.inj (Option.some.inj h)).1.symm hne
    · exact h
  · exact h

theorem wrote_store (h : κ.exclusive = false ∨ r.status.terminal = false) :
    Wrote κ s (s.store κ r) r where
  now := rfl
  created := rfl
  records _ := rfl
  pending := .inl rfl
  active h := h
  kept h _ := h
  released hexclusive hterminal := by
    rcases h with hshared | hopen
    · cases hshared.symm.trans hexclusive
    · cases hopen.symm.trans hterminal

/-- The write after a read that has found a timeout. -/
theorem wrote_store_mark {r' : Request P} (hexclusive : κ.exclusive = false) (hid : r'.id = r.id)
    (hruntime : r'.runtimeId = r.runtimeId) : Wrote κ s ((s.mark κ r).store κ r') r' where
  now := by
    rw [store_now, Redis.mark, retire_now, store_now]
  created := by
    rw [store_created, Redis.mark, retire_created, store_created]
  records k := by
    change (if k = r'.id then some (κ.marshal r', (s.mark κ r).now + κ.retention)
      else (s.mark κ r).records k) = _
    rw [Redis.mark, retire_now, retire_records, store_now]
    by_cases hk : k = r'.id
    · rw [if_pos hk, if_pos hk]
    · rw [if_neg hk, if_neg hk]
      exact if_neg fun heq => hk (heq.trans hid.symm)
  pending := by
    rw [store_pending, Redis.mark, retire_pending, hid, hruntime]
    exact .inr (removeEntry_pending _ rfl rfl)
  active hactive := release_active κ (s.store κ (κ.timedOut r s.now)) _ hactive
  kept hactive _ := by
    change ((s.store κ _).release κ _).active _ = _
    unfold Redis.release
    rw [hexclusive, if_neg fun hno => Bool.false_ne_true hno.1]
    exact hactive
  released hexclusive' := by cases hexclusive.symm.trans hexclusive'

/-- The end of a request. -/
theorem Matches.wrote_retire (h : Matches κ s memory)
    (hyoung : ∀ m ∈ memory, s.now ≤ m.createdAt + κ.retention) (r₀ : Request P) {x : Nat}
    (hr₀ : s.records r.id = some (r₀, x)) (hruntime : r.runtimeId = r₀.runtimeId)
    (hterminal : r.status.terminal = true) : Wrote κ s ((s.store κ r).retire κ r) r where
  now := by rw [retire_now, store_now]
  created := by rw [retire_created, store_created]
  records k := by
    rw [retire_records]
    rfl
  pending := by
    rw [retire_pending]
    exact .inr (removeEntry_pending _ rfl rfl)
  active hactive := release_active κ (s.store κ r) r hactive
  kept hactive hne := by
    rcases hne with hne | hopen
    · exact active_release (s := s.store κ r) hactive hne
    · cases hopen.symm.trans hterminal
  released hexclusive _ := by
    intro runtimeId lasts hactive
    have hbefore : s.active runtimeId = some (r.id, lasts) :=
      release_active κ (s.store κ r) r hactive
    rcases h.holder hexclusive hbefore with ⟨r₁, x₁, hr₁, hopen, rfl⟩
    obtain ⟨rfl, -⟩ := Prod.mk.inj (Option.some.inj (hr₀.symm.trans hr₁))
    rcases h.active hexclusive hr₀ hopen with ⟨lasts', hactive', hlasts⟩
    have halive := Nat.le_trans (h.alive hyoung hr₀).1 hlasts
    have hid : (s.store κ r).activeId r.runtimeId = some r.id :=
      activeId_eq_some.2 ⟨lasts', hruntime ▸ hactive', halive⟩
    have hnone : ((s.store κ r).retire κ r).active r.runtimeId = none := by
      unfold Redis.retire Redis.release
      rw [if_pos ⟨hexclusive, hid⟩, removeEntry_active, active_setActive, if_pos rfl]
    rw [← hruntime, hnone] at hactive
    cases hactive

theorem Matches.mark (h : Matches κ s memory)
    (hyoung : ∀ m ∈ memory, s.now ≤ m.createdAt + κ.retention) (hm : m ∈ memory) {x : Nat}
    (hr : s.records m.id = some (r, x)) (hdue : κ.overdue r s.now = true) :
    Matches κ (s.mark κ r) (memory.modify m.id fun k => κ.read k s.now) := by
  rcases h.record m hm with ⟨r', x', hr', hagrees, -⟩
  obtain ⟨rfl, -⟩ := Prod.mk.inj (Option.some.inj (hr.symm.trans hr'))
  refine h.write (r := κ.timedOut r s.now) hyoung hm (fun k _ hne => if_neg hne) hagrees.id.symm
    hagrees.runtimeId.symm hagrees.createdAt.symm (fun hpending => (by cases hpending)) ?_
    (fun hopen => (by cases hopen))
    (h.wrote_retire hyoung r (hagrees.id ▸ hr) rfl rfl)
  rw [if_pos rfl]
  exact (hagrees.read_redis hdue).marshal

/-! ## Lookups -/

theorem find_eq_some {id : UUID} (h : memory.find id = some m) : m ∈ memory ∧ m.id = id := by
  have hid := List.find?_some h
  exact ⟨List.mem_of_find?_eq_some h, by simpa using hid⟩

theorem find_of_mem (hnodup : (memory.map (·.id)).Nodup) (hm : m ∈ memory) :
    memory.find m.id = some m := by
  cases hfind : memory.find m.id with
  | none => simpa using List.find?_eq_none.1 hfind m hm
  | some k =>
    rcases find_eq_some hfind with ⟨hk, hid⟩
    rw [eq_of_id hnodup hm hk hid]

theorem find_eq_none {id : UUID} (h : memory.find id = none) : ∀ m ∈ memory, m.id ≠ id := by
  intro m hm
  simpa using List.find?_eq_none.1 h m hm

theorem find_map {id : UUID} {f : Request P → Request P} (hf : ∀ k, (f k).id = k.id) :
    Memory.find (memory.map f) id = (memory.find id).map f := by
  unfold Memory.find
  rw [List.find?_map]
  congr 2
  funext k
  exact congrArg (· == id) (hf k)

theorem modify_absent {id : UUID} {f : Request P → Request P} (h : memory.find id = none) :
    memory.modify id f = memory := by
  unfold Memory.modify
  exact (List.map_congr_left fun k hk => if_neg (find_eq_none h k hk)).trans (List.map_id _)

theorem Matches.record_some (h : Matches κ s memory)
    (hyoung : ∀ m ∈ memory, s.now ≤ m.createdAt + κ.retention) (hm : m ∈ memory) :
    ∃ r x, s.records m.id = some (r, x) ∧ s.record m.id = some r ∧ Agrees κ s.now m r := by
  rcases h.record m hm with ⟨r, x, hr, hagrees, hlasts⟩
  exact ⟨r, x, hr, record_eq_some.2 ⟨x, hr, Nat.le_trans (hyoung m hm) hlasts⟩, hagrees⟩

theorem Matches.record_none (h : Matches κ s memory) {id : UUID} (hfind : memory.find id = none) :
    s.record id = none := by
  cases hr : s.record id with
  | none => rfl
  | some r =>
    rcases record_eq_some.1 hr with ⟨x, hx, -⟩
    rcases h.request hx with ⟨m, hm, hid⟩
    exact absurd hid (find_eq_none hfind m hm)

end Stores

end Orynx.RuntimeRequest
