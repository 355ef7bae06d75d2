import Orynx.Runtime.Calls

/-! # Requests are handed out and settled once

The Redis request stores under calls of any number of API nodes.

* `returned_nodup`: no two pops return the same request;
* `settles`: a settled record stays as it is until it expires, a timeout meets the stage that its
  reader has read, and a runtime has one update pending or running, in runs in which no record is
  written between the read and the write of another call;
* `stores_slip`: elsewhere they do not.
-/

namespace Orynx.RuntimeRequest

open Lib

variable {I P O : Type}

/-! ## Handed out once -/

/-- Records stand under their ids, a waiting id waits at one runtime and is not claimed. -/
structure Filed (κ : Kind I P O) (s : Redis P) : Prop where
  record : ∀ {id r expiresAt}, s.records id = some (r, expiresAt) →
    r.id = id ∧ κ.marshal r = r ∧ id ∈ s.created
  entry : ∀ {runtimeId e}, e ∈ (s.pending runtimeId).1 → e.id ∈ s.created ∧ e.id ∉ s.claimed
  place : ∀ {runtimeId runtimeId' e e'}, e ∈ (s.pending runtimeId).1 →
    e' ∈ (s.pending runtimeId').1 → e.id = e'.id → runtimeId = runtimeId'
  claimed : ∀ id ∈ s.claimed, id ∈ s.created

/-- What a thread knows is so: nothing has been written of its own id, what it has read is still the
same request, and its claims stand. -/
structure Knows (s : Redis P) (g : Known P) : Prop where
  own : ∀ {id}, g.own = some id → id ∈ s.created ∧ s.records id = none ∧ id ∉ s.claimed ∧
    ∀ runtimeId, ∀ e ∈ (s.pending runtimeId).1, e.id ≠ id
  read : ∀ {r}, g.read = some r → ∃ r' expiresAt, s.records r.id = some (r', expiresAt) ∧
    r'.runtimeId = r.runtimeId ∧ r'.createdAt = r.createdAt
  claimed : ∀ id ∈ g.claimed, id ∈ s.claimed
  nodup : g.claimed.Nodup

/-- Two threads create and claim different requests. -/
structure Distinct (g g' : Known P) : Prop where
  own : ∀ id, g.own = some id → g'.own ≠ some id
  claimed : ∀ id ∈ g.claimed, id ∉ g'.claimed

theorem Distinct.symm {g g' : Known P} (h : Distinct g g') : Distinct g' g :=
  ⟨fun id hid hid' => h.own id hid' hid, fun id hid hid' => h.claimed id hid' hid⟩

section Once

variable {κ : Kind I P O} {s : Redis P} {g g' : Known P}

theorem Knows.frame {s' : Redis P} (h : Knows s g) (hrecords : s'.records = s.records)
    (hpending : ∀ runtimeId, ∀ e ∈ (s'.pending runtimeId).1, e ∈ (s.pending runtimeId).1)
    (hcreated : ∀ id ∈ s.created, id ∈ s'.created) (hclaimed : s'.claimed = s.claimed) :
    Knows s' g := by
  refine ⟨fun hown => ?_, fun hread => ?_, fun id hid => ?_, h.nodup⟩
  · rcases h.own hown with ⟨hid, hnone, hfree, hentries⟩
    exact ⟨hcreated _ hid, by rw [hrecords]; exact hnone, by rw [hclaimed]; exact hfree,
      fun runtimeId e he => hentries runtimeId e (hpending runtimeId e he)⟩
  · rw [hrecords]
    exact h.read hread
  · rw [hclaimed]
    exact h.claimed id hid

theorem Filed.frame {s' : Redis P} (h : Filed κ s) (hrecords : s'.records = s.records)
    (hpending : ∀ runtimeId, ∀ e ∈ (s'.pending runtimeId).1, e ∈ (s.pending runtimeId).1)
    (hcreated : ∀ id ∈ s.created, id ∈ s'.created) (hclaimed : s'.claimed = s.claimed) :
    Filed κ s' := by
  refine ⟨fun hr => ?_, fun he => ?_, fun he he' heq =>
    h.place (hpending _ _ he) (hpending _ _ he') heq, fun id hid => ?_⟩
  · rcases h.record (by rw [← hrecords]; exact hr) with ⟨hid, hmarshal, hmem⟩
    exact ⟨hid, hmarshal, hcreated _ hmem⟩
  · rcases h.entry (hpending _ _ he) with ⟨hid, hfree⟩
    exact ⟨hcreated _ hid, by rw [hclaimed]; exact hfree⟩
  · rw [hclaimed] at hid
    exact hcreated id (h.claimed id hid)

theorem mem_of_mem_entries {runtimeId : UUID} {e : Entry} (h : e ∈ s.entries runtimeId) :
    e ∈ (s.pending runtimeId).1 := by
  unfold Redis.entries at h
  split at h
  · exact h
  · cases h

theorem mem_pending_setEntries {runtimeId runtimeId' : UUID} {entries : List Entry}
    {expiresAt : Nat} {e : Entry}
    (h : e ∈ ((s.setEntries runtimeId entries expiresAt).pending runtimeId').1) :
    runtimeId' = runtimeId ∧ e ∈ entries ∨ e ∈ (s.pending runtimeId').1 := by
  unfold Redis.setEntries at h
  dsimp only at h
  split at h
  · exact .inl ⟨‹_›, h⟩
  · exact .inr h

theorem mem_pending_removeEntry {runtimeId runtimeId' id : UUID} {e : Entry}
    (h : e ∈ ((s.removeEntry runtimeId id).pending runtimeId').1) :
    e ∈ (s.pending runtimeId').1 ∧ (runtimeId' = runtimeId → e.id ≠ id) := by
  unfold Redis.removeEntry Redis.setEntries at h
  dsimp only at h
  split at h
  · rename_i heq
    rcases List.mem_filter.1 h with ⟨he, hne⟩
    subst heq
    exact ⟨mem_of_mem_entries he, fun _ => by simpa using hne⟩
  · rename_i hne
    exact ⟨h, fun heq => absurd heq hne⟩

theorem records_setRecord {retention : Nat} {id k : UUID} {r : Request P} :
    (s.setRecord retention id r).records k =
      if k = id then some (r, s.now + retention) else s.records k := rfl

/-- What the thread has read stands under an id that is nobody's own. -/
theorem Knows.not_own {id : UUID} {r : Request P} (h : Knows s g') (hg : Knows s g)
    (hread : g.read = some r) (hown : g'.own = some id) : id ≠ r.id := by
  rintro rfl
  rcases hg.read hread with ⟨r', expiresAt, hr', -⟩
  cases (h.own hown).2.1.symm.trans hr'

theorem Knows.read_created {r : Request P} (hg : Knows s g) (h : Filed κ s)
    (hread : g.read = some r) : r.id ∈ s.created := by
  rcases hg.read hread with ⟨r', expiresAt, hr', -⟩
  exact (h.record hr').2.2

/-- A request is written over another stage of itself. -/
theorem knows_setRecord (retention : Nat) {r r' : Request P} (h : Knows s g') (hg : Knows s g)
    (hread : g.read = some r) (hruntime : r'.runtimeId = r.runtimeId)
    (hcreated : r'.createdAt = r.createdAt) : Knows (s.setRecord retention r.id r') g' := by
  refine ⟨fun hown => ?_, fun {x} hx => ?_, h.claimed, h.nodup⟩
  · rcases h.own hown with ⟨hmem, hnone, hrest⟩
    exact ⟨hmem, by rw [records_setRecord, if_neg (h.not_own hg hread hown)]; exact hnone, hrest⟩
  · rw [records_setRecord]
    by_cases hxid : x.id = r.id
    · rw [if_pos hxid]
      rcases h.read hx with ⟨y, expiresAt, hy, hyruntime, hycreated⟩
      rcases hg.read hread with ⟨z, expiresAt', hz, hzruntime, hzcreated⟩
      rw [hxid] at hy
      obtain rfl := (Prod.mk.inj (Option.some.inj (hy.symm.trans hz))).1
      exact ⟨_, _, rfl, by rw [hruntime, ← hzruntime, hyruntime],
        by rw [hcreated, ← hzcreated, hycreated]⟩
    · rw [if_neg hxid]
      exact h.read hx

theorem filed_setRecord (retention : Nat) {r : Request P} (h : Filed κ s)
    (hmarshal : κ.marshal r = r) (hcreated : r.id ∈ s.created) :
    Filed κ (s.setRecord retention r.id r) := by
  refine ⟨fun {id x expiresAt} hx => ?_, h.entry, h.place, h.claimed⟩
  rw [records_setRecord] at hx
  split at hx
  · rename_i hid
    obtain ⟨rfl, -⟩ := Prod.mk.inj (Option.some.inj hx)
    exact ⟨hid.symm, hmarshal, by rw [hid]; exact hcreated⟩
  · exact h.record hx

/-- What a command leaves of all this. -/
structure Keeps (κ : Kind I P O) (s : Redis P) (g : Known P) (s' : Redis P) (g₁ : Known P) :
    Prop where
  filed : Filed κ s'
  knows : Knows s' g₁
  others : ∀ g', Knows s g' → Distinct g g' → Knows s' g' ∧ Distinct g₁ g'

theorem keeps_exec_set {r : Request P} (h : Filed κ s) (hg : Knows s g)
    (hallowed : (discipline κ).allows g (.set r)) :
    Keeps κ s g (s.setRecord κ.retention r.id r) { g with read := some r } := by
  rcases hallowed with ⟨hmarshal, -, x, hread, hid, hruntime, hcreated⟩
  have hknows (g' : Known P) (hg' : Knows s g') : Knows (s.setRecord κ.retention r.id r) g' := by
    rw [← hid]
    exact knows_setRecord _ hg' hg hread hruntime.symm hcreated.symm
  have hmem : r.id ∈ s.created := by
    rw [← hid]
    exact hg.read_created h hread
  refine ⟨filed_setRecord _ h hmarshal hmem, ?_, fun g' hg' hd =>
    ⟨hknows g' hg', hd.own, hd.claimed⟩⟩
  have hself := hknows g hg
  refine ⟨hself.own, fun {y} hy => ?_, hself.claimed, hself.nodup⟩
  obtain rfl := Option.some.inj hy
  exact ⟨r, _, if_pos rfl, rfl, rfl⟩

theorem keeps_exec_claim {runtimeId id : UUID} {r : Request P} (h : Filed κ s) (hg : Knows s g)
    (hallowed : (discipline κ).allows g (.claimPending runtimeId id r)) {e : Entry}
    (he : e ∈ s.entries runtimeId) (hid : e.id = id) :
    Keeps κ s g { (s.removeEntry runtimeId id).setRecord κ.retention id r with
        claimed := s.claimed ++ [id] }
      { g with read := some r, claimed := g.claimed ++ [id] } := by
  rcases hallowed with ⟨x, hread, hxid, -, rfl⟩
  have hpending := mem_of_mem_entries he
  have hfree := h.entry hpending
  rw [hid] at hfree
  have hrid : (κ.marshal (x.claimed g.clock)).id = id := marshal_id.trans hxid
  -- the id leaves its set, which is the only one that it is in
  have hgone {runtimeId' : UUID} {e' : Entry}
      (he' : e' ∈ ((s.removeEntry runtimeId id).pending runtimeId').1) :
      e' ∈ (s.pending runtimeId').1 ∧ e'.id ≠ id := by
    rcases mem_pending_removeEntry he' with ⟨hmem, hne⟩
    refine ⟨hmem, fun heq => ?_⟩
    exact hne (h.place hmem hpending (heq.trans hid.symm)) heq
  have hremoved : Filed κ (s.removeEntry runtimeId id) :=
    h.frame rfl (fun _ _ he' => (hgone he').1) (fun _ hk => hk) rfl
  have hbase := filed_setRecord κ.retention hremoved (marshal_idem (r := x.claimed g.clock))
    (by rw [hrid]; exact hfree.1)
  rw [hrid] at hbase
  have hknows (g' : Known P) (hg' : Knows s g') :
      Knows ((s.removeEntry runtimeId id).setRecord κ.retention id
        (κ.marshal (x.claimed g.clock))) g' := by
    have hframe (g' : Known P) (hg' : Knows s g') : Knows (s.removeEntry runtimeId id) g' :=
      hg'.frame rfl (fun _ _ he' => (hgone he').1) (fun _ hk => hk) rfl
    rw [← hxid]
    exact knows_setRecord κ.retention (hxid ▸ hframe g' hg') (hxid ▸ hframe g hg) hread
      marshal_runtimeId marshal_createdAt
  have hclaimed (g' : Known P) (hg' : Knows s g') (hown : g'.own ≠ some id) :
      Knows { (s.removeEntry runtimeId id).setRecord κ.retention id
        (κ.marshal (x.claimed g.clock)) with claimed := s.claimed ++ [id] } g' := by
    have hk := hknows g' hg'
    refine ⟨fun {k} hk' => ?_, hk.read, fun k hk' => List.mem_append_left _ (hg'.claimed k hk'),
      hk.nodup⟩
    rcases hk.own hk' with ⟨hmem, hnone, hnot, hentries⟩
    refine ⟨hmem, hnone, fun hmem' => ?_, hentries⟩
    rcases List.mem_append.1 hmem' with hmem' | hmem'
    · exact hnot hmem'
    · exact hown (by rw [← List.mem_singleton.1 hmem']; exact hk')
  have hnotOwn (g' : Known P) (hg' : Knows s g') : g'.own ≠ some id := fun hown =>
    (hg'.own hown).2.2.2 runtimeId e hpending hid
  refine ⟨⟨hbase.record, fun he' => ?_, hbase.place, fun k hk => ?_⟩, ?_, fun g' hg' hd => ?_⟩
  · rcases hgone he' with ⟨hmem, hne⟩
    rcases h.entry hmem with ⟨hcreated, hnot⟩
    exact ⟨hcreated, fun hmem' => (List.mem_append.1 hmem').elim hnot fun hlast =>
      hne (List.mem_singleton.1 hlast)⟩
  · rcases List.mem_append.1 hk with hk | hk
    · exact h.claimed k hk
    · rw [List.mem_singleton.1 hk]
      exact hfree.1
  · have hself := hclaimed g hg (hnotOwn g hg)
    refine ⟨hself.own, fun {y} hy => ?_, fun k hk => ?_, ?_⟩
    · obtain rfl := Option.some.inj hy
      exact ⟨_, _, if_pos hrid, rfl, rfl⟩
    · rcases List.mem_append.1 hk with hk | hk
      · exact hself.claimed k hk
      · exact List.mem_append_right _ hk
    · exact List.nodup_append.2 ⟨hg.nodup, List.nodup_singleton _, fun a ha b hb heq =>
        hfree.2 (hg.claimed _ (by rw [← List.mem_singleton.1 hb, ← heq]; exact ha))⟩
  · refine ⟨hclaimed g' hg' (hnotOwn g' hg'), hd.own, fun k hk hk' => ?_⟩
    rcases List.mem_append.1 hk with hk | hk
    · exact hd.claimed k hk hk'
    · exact hfree.2 (hg'.claimed _ (by rw [← List.mem_singleton.1 hk]; exact hk'))

theorem keeps_exec_enqueue {r : Request P} {entries : List Entry} {expiresAt : Nat}
    (h : Filed κ s) (hg : Knows s g) (hallowed : (discipline κ).allows g (.enqueue r))
    (hentries : ∀ e ∈ entries, e.id = r.id ∨ e ∈ s.entries r.runtimeId) :
    Keeps κ s g ((s.setRecord κ.retention r.id r).setEntries r.runtimeId entries expiresAt)
      { g with own := none } := by
  rcases hallowed with ⟨hown, -, hmarshal, -⟩
  rcases hg.own hown with ⟨hcreated, hnone, hnot, hfree⟩
  -- an entry is new or was there
  have hold {runtimeId : UUID} {e : Entry} (he : e ∈ (((s.setRecord κ.retention r.id r).setEntries
      r.runtimeId entries expiresAt).pending runtimeId).1) :
      e.id = r.id ∧ runtimeId = r.runtimeId ∨ e.id ≠ r.id ∧ e ∈ (s.pending runtimeId).1 := by
    rcases mem_pending_setEntries he with ⟨rfl, hmem⟩ | hmem
    · rcases hentries e hmem with hid | hmem
      · exact .inl ⟨hid, rfl⟩
      · exact .inr ⟨hfree _ e (mem_of_mem_entries hmem), mem_of_mem_entries hmem⟩
    · exact .inr ⟨hfree _ e hmem, hmem⟩
  have hbase := filed_setRecord κ.retention h hmarshal hcreated
  have hknows (g' : Known P) (hg' : Knows s g') (hnotOwn : g'.own ≠ some r.id) :
      Knows ((s.setRecord κ.retention r.id r).setEntries r.runtimeId entries expiresAt) g' := by
    refine ⟨fun {k} hk => ?_, fun {x} hx => ?_, hg'.claimed, hg'.nodup⟩
    · rcases hg'.own hk with ⟨hmem, hempty, hunclaimed, hwait⟩
      have hne : k ≠ r.id := fun heq => hnotOwn (by rw [← heq]; exact hk)
      refine ⟨hmem, (if_neg hne).trans hempty, hunclaimed, fun runtimeId e he heq => ?_⟩
      rcases hold he with ⟨hid, -⟩ | ⟨-, he⟩
      · exact hne (heq.symm.trans hid)
      · exact hwait runtimeId e he heq
    · rcases hg'.read hx with ⟨y, until', hy, hrest⟩
      have hne : x.id ≠ r.id := by
        intro heq
        rw [heq, hnone] at hy
        cases hy
      exact ⟨y, until', (if_neg hne).trans hy, hrest⟩
  refine ⟨⟨hbase.record, fun he => ?_, fun he he' heq => ?_, h.claimed⟩, ?_, fun g' hg' hd => ?_⟩
  · rcases hold he with ⟨hid, -⟩ | ⟨-, he⟩
    · rw [hid]
      exact ⟨hcreated, hnot⟩
    · exact h.entry he
  · rcases hold he with ⟨hid, hruntime⟩ | ⟨hne, he⟩
    · rcases hold he' with ⟨-, hruntime'⟩ | ⟨hne', -⟩
      · exact hruntime.trans hruntime'.symm
      · exact absurd (heq.symm.trans hid) hne'
    · rcases hold he' with ⟨hid', -⟩ | ⟨-, he'⟩
      · exact absurd (heq.trans hid') hne
      · exact h.place he he' heq
  · have hself : Knows s { g with own := none } :=
      ⟨fun hno => (by cases hno), hg.read, hg.claimed, hg.nodup⟩
    exact hknows _ hself fun hno => by cases hno
  · exact ⟨hknows g' hg' (hd.own _ hown), fun _ hno => (by cases hno), hd.claimed⟩

theorem keeps_exec_same {g₁ : Known P} (h : Filed κ s) (hg : Knows s g₁)
    (hown : g₁.own = g.own) (hclaimed : g₁.claimed = g.claimed) : Keeps κ s g s g₁ :=
  ⟨h, hg, fun _ hg' hd => ⟨hg', fun id hid => hd.own id (by rw [← hown]; exact hid),
    fun id hid => hd.claimed id (by rw [← hclaimed]; exact hid)⟩⟩

/-- A command on the active keys or an entry that goes. -/
theorem keeps_exec_frame {s' : Redis P} {g₁ : Known P} (h : Filed κ s) (hg : Knows s g₁)
    (hown : g₁.own = g.own) (hclaimed : g₁.claimed = g.claimed)
    (hrecords : s'.records = s.records)
    (hpending : ∀ runtimeId, ∀ e ∈ (s'.pending runtimeId).1, e ∈ (s.pending runtimeId).1)
    (hcreated : s'.created = s.created) (hclaims : s'.claimed = s.claimed) :
    Keeps κ s g s' g₁ := by
  have hmore : ∀ id ∈ s.created, id ∈ s'.created := fun id hid => by rw [hcreated]; exact hid
  exact ⟨h.frame hrecords hpending hmore hclaims, hg.frame hrecords hpending hmore hclaims,
    fun _ hg' hd => ⟨hg'.frame hrecords hpending hmore hclaims,
      fun id hid => hd.own id (by rw [← hown]; exact hid),
      fun id hid => hd.claimed id (by rw [← hclaimed]; exact hid)⟩⟩

theorem mem_orderedInsert {x : Entry} {entries : List Entry} :
    ∀ e ∈ entries.orderedInsert Entry.le x, e.id = x.id ∨ e ∈ entries := by
  intro e he
  rcases (List.mem_orderedInsert Entry.le).1 he with rfl | he
  · exact .inl rfl
  · exact .inr he

theorem keeps_exec (h : Filed κ s) (hg : Knows s g) {c : Command P}
    (hallowed : (discipline κ).allows g c) :
    (discipline κ).expects c (exec κ c s).1 ∧
      Keeps κ s g (exec κ c s).2 ((discipline κ).learn g c (exec κ c s).1) := by
  cases c with
  | now =>
    have hknows : Knows s { g with clock := s.now } := ⟨hg.own, hg.read, hg.claimed, hg.nodup⟩
    exact ⟨trivial, keeps_exec_same h hknows rfl rfl⟩
  | get id =>
    have hrecord {r : Request P} (hr : s.record id = some r) :
        ∃ expiresAt, s.records id = some (r, expiresAt) := by
      rcases Option.map_eq_some_iff.1 hr with ⟨⟨x, expiresAt⟩, hx, rfl⟩
      exact ⟨expiresAt, (Option.filter_eq_some_iff.1 hx).1⟩
    have hknows : Knows s { g with read := s.record id } := by
      refine ⟨hg.own, fun {r} hr => ?_, hg.claimed, hg.nodup⟩
      rcases hrecord hr with ⟨expiresAt, hr⟩
      exact ⟨r, expiresAt, by rw [(h.record hr).1]; exact hr, rfl, rfl⟩
    refine ⟨fun r hr => ?_, keeps_exec_same h hknows rfl rfl⟩
    rcases hrecord hr with ⟨expiresAt, hr⟩
    exact ⟨(h.record hr).1, (h.record hr).2.1⟩
  | set r => exact ⟨trivial, keeps_exec_set h hg hallowed⟩
  | zrange runtimeId stop => exact ⟨trivial, keeps_exec_same h hg rfl rfl⟩
  | zrem runtimeId id =>
    exact ⟨trivial, keeps_exec_frame h hg rfl rfl rfl
      (fun _ _ he => (mem_pending_removeEntry he).1) rfl rfl⟩
  | claimPending runtimeId id r =>
    cases hany : (s.entries runtimeId).any (·.id == id) with
    | false =>
      rw [exec_claimPending_lost hany]
      exact ⟨trivial, keeps_exec_same h hg rfl rfl⟩
    | true =>
      rw [exec_claimPending_won hany]
      rcases List.any_eq_true.1 hany with ⟨e, he, hid⟩
      exact ⟨trivial, keeps_exec_claim h hg hallowed he (beq_iff_eq.1 hid)⟩
  | enqueue r => exact ⟨trivial, keeps_exec_enqueue h hg hallowed mem_orderedInsert⟩
  | reserveActive runtimeId id =>
    cases hactive : (s.activeId runtimeId).isSome with
    | true =>
      rw [exec_reserveActive_lost hactive]
      exact ⟨trivial, keeps_exec_same h hg rfl rfl⟩
    | false =>
      rw [exec_reserveActive_won hactive]
      have hknows : Knows s
          { g with reserved := some (runtimeId, id, g.clock + κ.retention) } :=
        ⟨hg.own, hg.read, hg.claimed, hg.nodup⟩
      exact ⟨trivial, keeps_exec_frame h hknows rfl rfl rfl (fun _ _ he => he) rfl rfl⟩
  | deleteActiveIf runtimeId id =>
    by_cases hactive : s.activeId runtimeId = some id
    · rw [exec_deleteActiveIf_hit hactive]
      exact ⟨trivial, keeps_exec_frame h hg rfl rfl rfl (fun _ _ he => he) rfl rfl⟩
    · rw [exec_deleteActiveIf_miss hactive]
      exact ⟨trivial, keeps_exec_same h hg rfl rfl⟩

/-- A call comes in with nothing known but its own id. -/
theorem knows_start {c : Call I O} {s' : Redis P} (h : Filed κ s) (henter : enter c s = some s') :
    Filed κ s' ∧ Knows s' ((system κ).start c) ∧
      ∀ g, Knows s g → Knows s' g ∧ Distinct g ((system κ).start c) := by
  cases c with
  | create id runtimeId input =>
    rw [enter, Option.ite_none_left_eq_some] at henter
    obtain ⟨hnew, rfl⟩ : ¬ id ∈ s.created ∧ { s with created := s.created ++ [id] } = s' := by
      simpa using henter
    have hmore : ∀ k ∈ s.created, k ∈ s.created ++ [id] := fun k hk => List.mem_append_left _ hk
    refine ⟨h.frame rfl (fun _ _ he => he) hmore rfl, ⟨fun {k} hk => ?_, fun hno => (by cases hno),
      fun k hk => (by cases hk), List.nodup_nil⟩, fun g hg => ⟨hg.frame rfl (fun _ _ he => he) hmore
      rfl, fun k hk hk' => ?_, fun k _ hk => (by cases hk)⟩⟩
    · obtain rfl := Option.some.inj hk
      refine ⟨List.mem_append_right _ (List.mem_singleton.2 rfl), ?_, fun hclaimed =>
        hnew (h.claimed _ hclaimed), fun runtimeId' e he heq => ?_⟩
      · rw [Option.eq_none_iff_forall_ne_some]
        exact fun r hr => hnew (h.record hr).2.2
      · exact hnew (by rw [← heq]; exact (h.entry he).1)
    · obtain rfl := Option.some.inj hk'
      exact hnew (hg.own hk).1
  | _ =>
    obtain rfl := Option.some.inj henter
    exact ⟨h, ⟨fun hno => (by cases hno), fun hno => (by cases hno), fun k hk => (by cases hk),
      List.nodup_nil⟩, fun g hg => ⟨hg, fun k _ hno => (by cases hno), fun k _ hk => (by cases hk)⟩⟩

theorem filed_empty (now : Nat) : Filed κ (Redis.empty now) :=
  ⟨fun hr => (by cases hr), fun he => (by cases he), fun he => (by cases he), fun _ hid => (by cases hid)⟩

theorem preserves_filed :
    (system κ).Preserves (discipline κ) (fun g ids => ids = g.claimed) (fun _ _ _ => true)
      (Filed κ) Knows Distinct where
  init := by
    rintro _ ⟨now, rfl⟩
    exact filed_empty now
  symm _ _ h := h.symm
  code := keeps_code
  call _ _ _ h henter := knows_start h henter
  exec _ _ _ h hg hallowed _ := by
    rcases keeps_exec h hg hallowed with ⟨hexpected, hkeeps⟩
    exact ⟨hexpected, hkeeps.filed, hkeeps.knows, hkeeps.others⟩
  env d s s' h hs := by
    obtain rfl := Option.some.inj hs
    exact ⟨⟨h.record, h.entry, h.place, h.claimed⟩,
      fun g hg => ⟨hg.own, hg.read, hg.claimed, hg.nodup⟩⟩

end Once

theorem filed_reachable (κ : Kind I P O) : ∀ pool,
    ((system κ).machine (discipline κ)).Reachable pool →
      System.Sound (discipline κ) (fun g ids => ids = g.claimed) (Filed κ) Knows Distinct pool :=
  fun pool hpool => System.invariant preserves_filed pool (hpool.mono fun _ _ _ => Pool.meets_true)

/-- The ids that a call has returned. -/
def returned (t : Thread (Command P) Answer (Known P) (List UUID)) : List UUID :=
  match t.rest with
  | .ret ids => ids
  | .cmd _ _ => []

/-- No id is returned twice, by one pop or by two. -/
theorem returned_nodup (κ : Kind I P O) : ∀ pool,
    ((system κ).machine (discipline κ)).Reachable pool →
      (pool.threads.flatMap returned).Nodup := by
  intro pool hpool
  have hsound := filed_reachable κ pool hpool
  have hreturned : ∀ t ∈ pool.threads, ∀ id ∈ returned t, id ∈ t.known.claimed := by
    intro t ht id hid
    have hkeeps := hsound.keeps t ht
    unfold returned at hid
    split at hid
    · rename_i ids hrest
      rw [hrest] at hkeeps
      have heq : ids = t.known.claimed := hkeeps
      rw [← heq]
      exact hid
    · cases hid
  rw [List.nodup_flatMap]
  refine ⟨fun t ht => ?_, hsound.apart.pairwise.imp_of_mem fun {t t'} ht ht' hd => ?_⟩
  · have hkeeps := hsound.keeps t ht
    unfold returned
    split
    · rename_i ids hrest
      rw [hrest] at hkeeps
      have heq : ids = t.known.claimed := hkeeps
      rw [heq]
      exact (hsound.knows t ht).nodup
    · exact List.nodup_nil
  · intro id hid hid'
    exact hd.claimed id (hreturned t ht id hid) (hreturned t' ht' id hid')

/-! ## Settled once -/

/-- What the calls of other nodes leave alone between a read and the command that rests on it: a
write of an end meets the stage that was read, a claim meets a pending record, and the active key of
an update is still held when its request is stored and when it is claimed, in time for it to run. -/
def undisturbed (κ : Kind I P O) (s : Redis P) (g : Known P) : Command P → Bool
  | .set r' => (s.record r'.id).all fun r =>
      r.status == r'.status ||
        !r.status.terminal && g.read.any fun r₀ => r₀.status == r.status
  | .claimPending runtimeId id r' =>
    !(s.entries runtimeId).any (·.id == id) ||
      match s.record id with
      | none => !κ.exclusive
      | some r => r.status == .pending &&
        (!κ.exclusive || s.activeId r.runtimeId == some id &&
          r'.runStartedAt.any fun t => t + κ.runningTimeout ≤ r.createdAt + κ.retention)
  | .enqueue r => !κ.exclusive || s.activeId r.runtimeId == some r.id
  | _ => true

/-- A step leaves settled records as they are while they last. -/
def Stays (s s' : Redis P) : Prop :=
  ∀ id r r', s.record id = some r → r.status.terminal = true → s'.record id = some r' →
    r'.status = r.status

/-- The active key of a runtime is held by whichever update is pending or running, and for long
enough. -/
structure Held (κ : Kind I P O) (s : Redis P) : Prop where
  active : ∀ {id r}, s.record id = some r → κ.live r s.now = true →
    ∃ lasts, s.active r.runtimeId = some (id, lasts)
  lasts : ∀ {id r expiresAt lasts}, s.records id = some (r, expiresAt) →
    s.active r.runtimeId = some (id, lasts) → r.createdAt + κ.retention ≤ lasts
  running : ∀ {id r expiresAt}, s.records id = some (r, expiresAt) → r.status = .running →
    ∃ t, r.runStartedAt = some t ∧ t + κ.runningTimeout ≤ r.createdAt + κ.retention

/-- A thread is behind the clock, what it has seen settled stays settled, and the active key that it
has reserved lasts as long as it reckons. -/
structure Trusts (κ : Kind I P O) (s : Redis P) (g : Known P) : Prop where
  clock : g.clock ≤ s.now
  settled : ∀ {r}, g.read = some r → r.status.terminal = true →
    ∀ r', s.record r.id = some r' → r'.status.terminal = true
  reserved : ∀ {runtimeId id lasts}, g.reserved = some (runtimeId, id, lasts) →
    lasts ≤ s.now + κ.retention ∧
      ∀ lasts', s.active runtimeId = some (id, lasts') → lasts ≤ lasts'

section Settled

variable {κ : Kind I P O} {s : Redis P} {g g' : Known P}

theorem record_eq_some {id : UUID} {r : Request P} :
    s.record id = some r ↔ ∃ expiresAt, s.records id = some (r, expiresAt) ∧ s.now ≤ expiresAt := by
  constructor
  · intro h
    rcases Option.map_eq_some_iff.1 h with ⟨⟨x, expiresAt⟩, hx, rfl⟩
    rcases Option.filter_eq_some_iff.1 hx with ⟨hx, halive⟩
    exact ⟨expiresAt, hx, by simpa using halive⟩
  · rintro ⟨expiresAt, hr, halive⟩
    exact Option.map_eq_some_iff.2 ⟨(r, expiresAt),
      Option.filter_eq_some_iff.2 ⟨hr, by simpa using halive⟩, rfl⟩

theorem activeId_eq_some {runtimeId id : UUID} :
    s.activeId runtimeId = some id ↔
      ∃ lasts, s.active runtimeId = some (id, lasts) ∧ s.now ≤ lasts := by
  constructor
  · intro h
    rcases Option.map_eq_some_iff.1 h with ⟨⟨x, lasts⟩, hx, rfl⟩
    rcases Option.filter_eq_some_iff.1 hx with ⟨hx, halive⟩
    exact ⟨lasts, hx, by simpa using halive⟩
  · rintro ⟨lasts, hr, halive⟩
    exact Option.map_eq_some_iff.2 ⟨(id, lasts),
      Option.filter_eq_some_iff.2 ⟨hr, by simpa using halive⟩, rfl⟩

theorem records_setEntries {runtimeId : UUID} {entries : List Entry} {expiresAt : Nat} :
    (s.setEntries runtimeId entries expiresAt).records = s.records := rfl

theorem record_setEntries {runtimeId : UUID} {entries : List Entry} {expiresAt : Nat} :
    (s.setEntries runtimeId entries expiresAt).record = s.record := rfl

theorem record_setRecord {retention : Nat} {id k : UUID} {r : Request P} :
    (s.setRecord retention id r).record k = if k = id then some r else s.record k := by
  by_cases hk : k = id
  · rw [if_pos hk]
    exact record_eq_some.2 ⟨_, if_pos hk, Nat.le_add_right _ _⟩
  · rw [if_neg hk]
    unfold Redis.record
    rw [records_setRecord, if_neg hk]
    rfl

/-- While an update is pending or running, its active key has not expired. -/
theorem Held.activeId (h : Held κ s) (hfits : κ.pendingTimeout ≤ κ.retention) {id : UUID}
    {r : Request P} (hr : s.record id = some r) (hlive : κ.live r s.now = true) :
    s.activeId r.runtimeId = some id := by
  rcases h.active hr hlive with ⟨lasts, hactive⟩
  rcases record_eq_some.1 hr with ⟨expiresAt, hraw, -⟩
  have hlasts := h.lasts hraw hactive
  refine activeId_eq_some.2 ⟨lasts, hactive, ?_⟩
  rcases live_iff.1 hlive with ⟨hopen, hoverdue⟩
  unfold Kind.overdue at hoverdue
  cases hstatus : r.status with
  | pending =>
    simp only [hstatus, decide_eq_false_iff_not] at hoverdue
    omega
  | running =>
    rcases h.running hraw hstatus with ⟨t, ht, hbound⟩
    simp only [hstatus, ht, Option.any_some, decide_eq_false_iff_not] at hoverdue
    omega
  | _ => simp [hstatus, Status.terminal] at hopen

theorem Held.unique (h : Held κ s) {id id' : UUID} {r r' : Request P} (hr : s.record id = some r)
    (hr' : s.record id' = some r') (hlive : κ.live r s.now = true)
    (hlive' : κ.live r' s.now = true) (hruntime : r.runtimeId = r'.runtimeId) : id = id' := by
  rcases h.active hr hlive with ⟨lasts, hactive⟩
  rcases h.active hr' hlive' with ⟨lasts', hactive'⟩
  rw [hruntime, hactive'] at hactive
  exact (Prod.mk.inj (Option.some.inj hactive)).1.symm

theorem stays_exec {c : Command P} (hallowed : (discipline κ).allows g c) (hg : Knows s g)
    (hok : undisturbed κ s g c = true) : Stays s (exec κ c s).2 := by
  intro id r r' hr hterminal hr'
  have hsame (hrecord : (exec κ c s).2.record id = s.record id) : r'.status = r.status := by
    rw [hrecord, hr] at hr'
    rw [Option.some.inj hr']
  cases c with
  | set x =>
    rw [show (exec κ (.set x) s).2.record id = _ from record_setRecord] at hr'
    split at hr'
    · rename_i hid
      subst hid
      obtain rfl := Option.some.inj hr'
      simp only [undisturbed, hr, Option.all_some, hterminal, Bool.not_true, Bool.false_and,
        Bool.or_false, beq_iff_eq] at hok
      exact hok.symm
    · exact hsame (by
        rw [show (exec κ (.set x) s).2.record id = _ from record_setRecord, if_neg ‹_›])
  | claimPending runtimeId k x =>
    cases hany : (s.entries runtimeId).any (·.id == k) with
    | false =>
      exact hsame (by rw [exec_claimPending_lost hany])
    | true =>
      by_cases hid : id = k
      · subst hid
        simp only [undisturbed, hany, hr, Bool.not_true, Bool.false_or, Bool.and_eq_true,
          beq_iff_eq] at hok
        rw [hok.1] at hterminal
        cases hterminal
      · refine hsame ?_
        rw [exec_claimPending_won hany]
        exact record_setRecord.trans (if_neg hid)
  | enqueue x =>
    rcases hallowed with ⟨hown, -⟩
    have hne : id ≠ x.id := by
      rintro rfl
      rcases record_eq_some.1 hr with ⟨expiresAt, hraw, -⟩
      cases (hg.own hown).2.1.symm.trans hraw
    exact hsame (record_setRecord.trans (if_neg hne))
  | reserveActive runtimeId k =>
    cases hactive : (s.activeId runtimeId).isSome with
    | true => exact hsame (by rw [exec_reserveActive_lost hactive])
    | false =>
      refine hsame ?_
      rw [exec_reserveActive_won hactive]
      rfl
  | deleteActiveIf runtimeId k =>
    refine hsame ?_
    by_cases hactive : s.activeId runtimeId = some k
    · rw [exec_deleteActiveIf_hit hactive]
      rfl
    · rw [exec_deleteActiveIf_miss hactive]
  | _ => exact hsame rfl

/-- What a command leaves of the active keys and of what is known about them. -/
structure Rests (κ : Kind I P O) (s s' : Redis P) (g₁ : Known P) : Prop where
  held : Held κ s'
  trusts : Trusts κ s' g₁
  others : ∀ g', Trusts κ s g' → Knows s g' → Trusts κ s' g'

theorem rests_same {s' : Redis P} {g₁ : Known P} (h : Held κ s) (hg : Trusts κ s g₁)
    (hnow : s'.now = s.now) (hrecords : s'.records = s.records) (hactive : s'.active = s.active) :
    Rests κ s s' g₁ := by
  have hrecord : s'.record = s.record := by
    funext id
    unfold Redis.record Redis.alive
    rw [hrecords, hnow]
  have htrusts (g' : Known P) (hg' : Trusts κ s g') : Trusts κ s' g' := by
    refine ⟨by rw [hnow]; exact hg'.clock, ?_, ?_⟩
    · rw [hrecord]
      exact hg'.settled
    · rw [hactive, hnow]
      exact hg'.reserved
  refine ⟨⟨?_, ?_, ?_⟩, htrusts g₁ hg, fun g' hg' _ => htrusts g' hg'⟩
  · rw [hrecord, hactive, hnow]
    exact h.active
  · rw [hrecords, hactive]
    exact h.lasts
  · rw [hrecords]
    exact h.running

/-- A stage of the request that is stored replaces it. -/
theorem rests_setRecord {id : UUID} {r r₀ : Request P} {expiresAt : Nat} (h : Held κ s)
    (hold : s.records id = some (r₀, expiresAt)) (hruntime : r.runtimeId = r₀.runtimeId)
    (hcreated : r.createdAt = r₀.createdAt)
    (hlive : κ.live r s.now = true → ∃ lasts, s.active r.runtimeId = some (id, lasts))
    (hrunning : r.status = .running →
      ∃ t, r.runStartedAt = some t ∧ t + κ.runningTimeout ≤ r.createdAt + κ.retention)
    (hsettled : r.status.terminal = true ∨
      ∃ x, s.record id = some x ∧ x.status.terminal = false) :
    Held κ (s.setRecord κ.retention id r) ∧
      ∀ g', Trusts κ s g' → Trusts κ (s.setRecord κ.retention id r) g' := by
  refine ⟨⟨fun {k x} hx hxlive => ?_, fun {k x _ _} hx hxactive => ?_, fun {k x _} hx hxrun => ?_⟩,
    fun g' hg' => ⟨hg'.clock, fun {y} hy hyterminal x hx => ?_, hg'.reserved⟩⟩
  · rw [record_setRecord] at hx
    split at hx
    · subst_vars
      obtain rfl := Option.some.inj hx
      exact hlive hxlive
    · exact h.active hx hxlive
  · rw [records_setRecord] at hx
    split at hx
    · subst_vars
      obtain ⟨rfl, -⟩ := Prod.mk.inj (Option.some.inj hx)
      rw [hcreated]
      exact h.lasts hold (by rw [← hruntime]; exact hxactive)
    · exact h.lasts hx hxactive
  · rw [records_setRecord] at hx
    split at hx
    · obtain ⟨rfl, -⟩ := Prod.mk.inj (Option.some.inj hx)
      exact hrunning hxrun
    · exact h.running hx hxrun
  · rw [record_setRecord] at hx
    split at hx
    · rename_i hid
      obtain rfl := Option.some.inj hx
      rcases hsettled with hterminal | ⟨z, hz, hopen⟩
      · exact hterminal
      · exact absurd (hg'.settled hy hyterminal z (by rw [hid]; exact hz)) (by rw [hopen]; simp)
    · exact hg'.settled hy hyterminal x hx

theorem rests_exec_set {r : Request P} (h : Held κ s) (hg : Trusts κ s g) (hk : Knows s g)
    (hallowed : (discipline κ).allows g (.set r)) :
    Rests κ s (s.setRecord κ.retention r.id r) { g with read := some r } := by
  rcases hallowed with ⟨-, hterminal, x, hread, hid, hruntime, hcreated⟩
  rcases hk.read hread with ⟨y, expiresAt, hy, hyruntime, hycreated⟩
  rw [hid] at hy
  rcases rests_setRecord h hy (hruntime.symm.trans hyruntime.symm)
    (hcreated.symm.trans hycreated.symm)
    (fun hlive => absurd hterminal (by rw [(live_iff.1 hlive).1]; simp))
    (fun hrunning => absurd hterminal (by rw [hrunning]; simp [Status.terminal]))
    (.inl hterminal) with ⟨hheld, hothers⟩
  have hself := hothers g hg
  refine ⟨hheld, ⟨hself.clock, fun {z} hz _ r' hr' => ?_, hself.reserved⟩, fun g' hg' _ =>
    hothers g' hg'⟩
  obtain rfl := Option.some.inj hz
  rw [record_setRecord, if_pos rfl] at hr'
  rw [← Option.some.inj hr']
  exact hterminal

theorem rests_exec_claim (hexclusive : κ.exclusive = true) {runtimeId id : UUID} {r : Request P}
    (h : Held κ s) (hg : Trusts κ s g) (hk : Knows s g)
    (hallowed : (discipline κ).allows g (.claimPending runtimeId id r))
    (hany : (s.entries runtimeId).any (·.id == id) = true)
    (hok : undisturbed κ s g (.claimPending runtimeId id r) = true) :
    Rests κ s { (s.removeEntry runtimeId id).setRecord κ.retention id r with
        claimed := s.claimed ++ [id] }
      { g with read := some r, claimed := g.claimed ++ [id] } := by
  rcases hallowed with ⟨x, hread, hxid, -, rfl⟩
  rcases hk.read hread with ⟨y, expiresAt, hy, hyruntime, hycreated⟩
  rw [hxid] at hy
  cases hrecord : s.record id with
  | none => simp [undisturbed, hany, hrecord, hexclusive] at hok
  | some z =>
    simp only [undisturbed, hany, hrecord, hexclusive, Bool.not_true, Bool.false_or,
      Bool.and_eq_true, beq_iff_eq, Option.any_eq_true, decide_eq_true_eq] at hok
    rcases hok with ⟨hpending, hactive, t, ht, hbound⟩
    -- the stored record is the one that the raw row holds
    obtain rfl : y = z := by
      rcases record_eq_some.1 hrecord with ⟨_, hz, -⟩
      exact (Prod.mk.inj (Option.some.inj (hy.symm.trans hz))).1
    rcases activeId_eq_some.1 hactive with ⟨lasts, hactive, -⟩
    have hruntime : (κ.marshal (x.claimed g.clock)).runtimeId = y.runtimeId :=
      marshal_runtimeId.trans hyruntime.symm
    have hcreated : (κ.marshal (x.claimed g.clock)).createdAt = y.createdAt :=
      marshal_createdAt.trans hycreated.symm
    rcases rests_setRecord h hy hruntime hcreated
      (fun _ => ⟨lasts, by rw [hruntime]; exact hactive⟩)
      (fun _ => ⟨t, ht, by rw [hcreated]; exact hbound⟩)
      (.inr ⟨y, hrecord, by rw [hpending]; rfl⟩) with ⟨hheld, hothers⟩
    have hself := hothers g hg
    have hnot : (κ.marshal (x.claimed g.clock)).status.terminal = false := by
      rw [marshal_status]
      rfl
    refine ⟨⟨hheld.active, hheld.lasts, hheld.running⟩, ⟨hself.clock, fun {w} hw hterminal => ?_,
      hself.reserved⟩, fun g' hg' _ => ?_⟩
    · obtain rfl := Option.some.inj hw
      cases hnot.symm.trans hterminal
    · have hother := hothers g' hg'
      exact ⟨hother.clock, hother.settled, hother.reserved⟩

theorem rests_exec_enqueue (hexclusive : κ.exclusive = true) {r : Request P}
    {entries : List Entry} {expiresAt : Nat} (h : Held κ s) (hg : Trusts κ s g) (hk : Knows s g)
    (hallowed : (discipline κ).allows g (.enqueue r))
    (hok : undisturbed κ s g (.enqueue r) = true) :
    Rests κ s ((s.setRecord κ.retention r.id r).setEntries r.runtimeId entries expiresAt)
      { g with own := none } := by
  rcases hallowed with ⟨hown, hpending, -, hreserved⟩
  rcases hreserved hexclusive with ⟨lasts, hreserved, hbound⟩
  have hnone := (hk.own hown).2.1
  have hactive : s.activeId r.runtimeId = some r.id := by
    simpa [undisturbed, hexclusive] using hok
  rcases activeId_eq_some.1 hactive with ⟨lasts', hactive, -⟩
  have htrusts (g' : Known P) (hg' : Trusts κ s g') (hk' : Knows s g') :
      Trusts κ ((s.setRecord κ.retention r.id r).setEntries r.runtimeId entries expiresAt) g' := by
    refine ⟨hg'.clock, fun {y} hy hterminal x hx => ?_, hg'.reserved⟩
    have hne : y.id ≠ r.id := by
      intro heq
      rcases hk'.read hy with ⟨_, _, hraw, -⟩
      rw [heq, hnone] at hraw
      cases hraw
    rw [record_setEntries, record_setRecord, if_neg hne] at hx
    exact hg'.settled hy hterminal x hx
  refine ⟨⟨fun {k x} hx hlive => ?_, fun {k x _ l} hx hl => ?_, fun {k x _} hx hrun => ?_⟩, ?_,
    fun g' hg' hk' => htrusts g' hg' hk'⟩
  · rw [record_setEntries, record_setRecord] at hx
    split at hx
    · subst_vars
      obtain rfl := Option.some.inj hx
      exact ⟨lasts', hactive⟩
    · exact h.active hx hlive
  · rw [records_setEntries, records_setRecord] at hx
    split at hx
    · subst_vars
      obtain ⟨rfl, -⟩ := Prod.mk.inj (Option.some.inj hx)
      exact Nat.le_trans hbound ((hg.reserved hreserved).2 _ hl)
    · exact h.lasts hx hl
  · rw [records_setEntries, records_setRecord] at hx
    split at hx
    · obtain ⟨rfl, -⟩ := Prod.mk.inj (Option.some.inj hx)
      rw [hpending] at hrun
      cases hrun
    · exact h.running hx hrun
  · have hself := htrusts g hg hk
    exact ⟨hself.clock, hself.settled, hself.reserved⟩

theorem active_setActive {runtimeId k : UUID} {x : Option (UUID × Nat)} :
    (s.setActive runtimeId x).active k = if k = runtimeId then x else s.active k := rfl

theorem rests_exec_reserve {runtimeId id : UUID} (h : Held κ s) (hg : Trusts κ s g)
    (hk : Knows s g) (hfits : κ.pendingTimeout ≤ κ.retention)
    (hallowed : (discipline κ).allows g (.reserveActive runtimeId id))
    (hfree : (s.activeId runtimeId).isSome = false) :
    Rests κ s (s.setActive runtimeId (some (id, s.now + κ.retention)))
      { g with reserved := some (runtimeId, id, g.clock + κ.retention) } := by
  have hnone : s.records id = none := (hk.own hallowed).2.1
  have htrusts (g' : Known P) (hg' : Trusts κ s g') :
      Trusts κ (s.setActive runtimeId (some (id, s.now + κ.retention))) g' := by
    refine ⟨hg'.clock, hg'.settled, fun {k x lasts} hres => ?_⟩
    rcases hg'.reserved hres with ⟨hle, hlasts⟩
    refine ⟨hle, fun lasts' hactive => ?_⟩
    rw [active_setActive] at hactive
    split at hactive
    · obtain ⟨-, rfl⟩ := Prod.mk.inj (Option.some.inj hactive)
      exact hle
    · exact hlasts _ hactive
  refine ⟨⟨fun {k x} hx hlive => ?_, fun {k x _ l} hx hl => ?_, h.running⟩, ?_,
    fun g' hg' _ => htrusts g' hg'⟩
  · -- nobody of this runtime is pending or running, or the key would be held
    rw [active_setActive]
    split
    · rename_i hruntime
      have hactive := h.activeId hfits hx hlive
      rw [hruntime] at hactive
      rw [hactive] at hfree
      cases hfree
    · exact h.active hx hlive
  · rw [active_setActive] at hl
    split at hl
    · obtain ⟨rfl, -⟩ := Prod.mk.inj (Option.some.inj hl)
      cases hnone.symm.trans hx
    · exact h.lasts hx hl
  · have hself := htrusts g hg
    refine ⟨hself.clock, hself.settled, fun {k x lasts} hres => ?_⟩
    obtain ⟨rfl, hrest⟩ := Prod.mk.inj (Option.some.inj hres)
    obtain ⟨rfl, rfl⟩ := Prod.mk.inj hrest
    have hclock := hg.clock
    refine ⟨Nat.add_le_add_right hclock _, fun lasts' hactive => ?_⟩
    rw [active_setActive, if_pos rfl] at hactive
    obtain ⟨-, rfl⟩ := Prod.mk.inj (Option.some.inj hactive)
    exact Nat.add_le_add_right hclock _

theorem rests_exec_delete {runtimeId id : UUID} (h : Held κ s) (hg : Trusts κ s g)
    (hallowed : (discipline κ).allows g (.deleteActiveIf runtimeId id))
    (hhit : s.activeId runtimeId = some id) : Rests κ s (s.setActive runtimeId none) g := by
  rcases hallowed with ⟨r, hread, rfl, rfl, hterminal⟩
  rcases activeId_eq_some.1 hhit with ⟨lasts, hactive, -⟩
  have htrusts (g' : Known P) (hg' : Trusts κ s g') : Trusts κ (s.setActive r.runtimeId none) g' := by
    refine ⟨hg'.clock, hg'.settled, fun {k x l} hres => ⟨(hg'.reserved hres).1, fun l' hl => ?_⟩⟩
    rw [active_setActive] at hl
    split at hl
    · cases hl
    · exact (hg'.reserved hres).2 _ hl
  refine ⟨⟨fun {k x} hx hlive => ?_, fun {k x _ l} hx hl => ?_, h.running⟩, htrusts g hg,
    fun g' hg' _ => htrusts g' hg'⟩
  · rw [active_setActive]
    split
    · -- the key names a settled request, so whoever is pending or running does not hold it
      rename_i hruntime
      rcases h.active hx hlive with ⟨l, hl⟩
      rw [hruntime, hactive] at hl
      obtain ⟨rfl, -⟩ := Prod.mk.inj (Option.some.inj hl)
      have hsettled := hg.settled hread hterminal x hx
      cases hsettled.symm.trans (live_iff.1 hlive).1
    · exact h.active hx hlive
  · rw [active_setActive] at hl
    split at hl
    · cases hl
    · exact h.lasts hx hl

theorem rests_exec (hexclusive : κ.exclusive = true) (hfiled : Filed κ s) (h : Held κ s)
    (hg : Trusts κ s g) (hk : Knows s g) {c : Command P} (hallowed : (discipline κ).allows g c)
    (hok : undisturbed κ s g c = true) :
    Rests κ s (exec κ c s).2 ((discipline κ).learn g c (exec κ c s).1) := by
  cases c with
  | now =>
    have htrusts : Trusts κ s { g with clock := s.now } := ⟨Nat.le_refl _, hg.settled, hg.reserved⟩
    exact rests_same h htrusts rfl rfl rfl
  | get id =>
    have htrusts : Trusts κ s { g with read := s.record id } := by
      refine ⟨hg.clock, fun {r} hr hterminal r' hr' => ?_, hg.reserved⟩
      rcases record_eq_some.1 hr with ⟨_, hraw, -⟩
      rw [(hfiled.record hraw).1] at hr'
      rw [← Option.some.inj ((show s.record id = some r from hr).symm.trans hr')]
      exact hterminal
    exact rests_same h htrusts rfl rfl rfl
  | set r => exact rests_exec_set h hg hk hallowed
  | zrange runtimeId stop => exact rests_same h hg rfl rfl rfl
  | zrem runtimeId id => exact rests_same h hg rfl rfl rfl
  | claimPending runtimeId id r =>
    cases hany : (s.entries runtimeId).any (·.id == id) with
    | false =>
      rw [exec_claimPending_lost hany]
      exact rests_same h hg rfl rfl rfl
    | true =>
      rw [exec_claimPending_won hany]
      exact rests_exec_claim hexclusive h hg hk hallowed hany hok
  | enqueue r => exact rests_exec_enqueue hexclusive h hg hk hallowed hok
  | reserveActive runtimeId id =>
    cases hactive : (s.activeId runtimeId).isSome with
    | true =>
      rw [exec_reserveActive_lost hactive]
      exact rests_same h hg rfl rfl rfl
    | false =>
      rw [exec_reserveActive_won hactive]
      exact rests_exec_reserve h hg hk (κ.fits hexclusive).2 hallowed hactive
  | deleteActiveIf runtimeId id =>
    by_cases hactive : s.activeId runtimeId = some id
    · rw [exec_deleteActiveIf_hit hactive]
      exact rests_exec_delete h hg hallowed hactive
    · rw [exec_deleteActiveIf_miss hactive]
      exact rests_same h hg rfl rfl rfl

theorem enter_same {c : Call I O} {s' : Redis P} (h : enter c s = some s') :
    s'.now = s.now ∧ s'.records = s.records ∧ s'.active = s.active := by
  cases c with
  | create id runtimeId input =>
    rw [enter, Option.ite_none_left_eq_some] at h
    obtain rfl := Option.some.inj h.2
    exact ⟨rfl, rfl, rfl⟩
  | _ =>
    obtain rfl := Option.some.inj h
    exact ⟨rfl, rfl, rfl⟩

theorem held_empty (now : Nat) : Held κ (Redis.empty now) :=
  ⟨fun hr => (by cases hr), fun hr => (by cases hr), fun hr => (by cases hr)⟩

theorem preserves_held (hexclusive : κ.exclusive = true) :
    (system κ).Preserves (discipline κ) (fun g ids => ids = g.claimed) (undisturbed κ)
      (fun s => Filed κ s ∧ Held κ s) (fun s g => Knows s g ∧ Trusts κ s g) Distinct where
  init := by
    rintro _ ⟨now, rfl⟩
    exact ⟨filed_empty now, held_empty now⟩
  symm _ _ h := h.symm
  code := keeps_code
  call := by
    rintro c s s' ⟨hfiled, hheld⟩ henter
    rcases knows_start hfiled henter with ⟨hfiled', hknows, hothers⟩
    have hsame := enter_same henter
    have hstart : Trusts κ s ((system κ).start c) := by
      cases c <;> exact ⟨Nat.zero_le _, fun hno => (by cases hno), fun hno => (by cases hno)⟩
    have hrests := rests_same hheld hstart hsame.1 hsame.2.1 hsame.2.2
    refine ⟨⟨hfiled', hrests.held⟩, ⟨hknows, hrests.trusts⟩, fun g hg => ?_⟩
    exact ⟨⟨(hothers g hg.1).1, hrests.others g hg.2 hg.1⟩, (hothers g hg.1).2⟩
  exec := by
    rintro s g c ⟨hfiled, hheld⟩ ⟨hknows, htrusts⟩ hallowed hok
    rcases keeps_exec hfiled hknows hallowed with ⟨hexpected, hkeeps⟩
    have hrests := rests_exec hexclusive hfiled hheld htrusts hknows hallowed hok
    refine ⟨hexpected, ⟨hkeeps.filed, hrests.held⟩, ⟨hkeeps.knows, hrests.trusts⟩,
      fun g' hg' hd => ?_⟩
    rcases hkeeps.others g' hg'.1 hd with ⟨hother, hdistinct⟩
    exact ⟨⟨hother, hrests.others g' hg'.2 hg'.1⟩, hdistinct⟩
  env := by
    rintro d s s' ⟨hfiled, hheld⟩ hs
    obtain rfl := Option.some.inj hs
    -- records only expire
    have hrecord {id : UUID} {r : Request P}
        (hr : Redis.record { s with now := s.now + d } id = some r) : s.record id = some r := by
      rcases record_eq_some.1 hr with ⟨expiresAt, hraw, halive⟩
      exact record_eq_some.2 ⟨expiresAt, hraw, Nat.le_trans (Nat.le_add_right _ _) halive⟩
    refine ⟨⟨⟨hfiled.record, hfiled.entry, hfiled.place, hfiled.claimed⟩, ⟨fun hr hlive =>
      hheld.active (hrecord hr) (live_mono (Nat.le_add_right _ _) hlive), hheld.lasts,
      hheld.running⟩⟩, fun g hg => ⟨⟨hg.1.own, hg.1.read, hg.1.claimed, hg.1.nodup⟩,
      ⟨Nat.le_trans hg.2.clock (Nat.le_add_right _ _), fun hread hterminal r' hr' =>
        hg.2.settled hread hterminal r' (hrecord hr'), fun hres => ?_⟩⟩⟩
    rcases hg.2.reserved hres with ⟨hle, hlasts⟩
    refine ⟨Nat.le_trans hle ?_, hlasts⟩
    exact Nat.add_le_add_right (Nat.le_add_right _ _) _

end Settled

/-! ## Runs -/

def machine (κ : Kind I P O) :
    Machine (Pool (Redis P) (Command P) Answer (Known P) (List UUID)) (PoolAct (Call I O) Nat) :=
  (system κ).machine (discipline κ)

/-- In runs that meet `undisturbed`, a step leaves settled records as they are while they last, a
timeout is written over the stage of the record that was read, and two updates of a runtime are not
pending or running at once. -/
structure Settles (κ : Kind I P O) : Prop where
  stays : ∀ pool, (machine κ).ReachableUnder (fun pool a => pool.meets (undisturbed κ) a = true)
    pool → ∀ a pool', pool.meets (undisturbed κ) a = true → (machine κ).next pool a = some pool' →
    Stays pool.shared pool'.shared
  timeout : ∀ pool, (machine κ).ReachableUnder (fun pool a => pool.meets (undisturbed κ) a = true)
    pool → ∀ i g r k, pool.threads[i]? = some ⟨g, .cmd (.set r) k⟩ →
    pool.meets (undisturbed κ) (.step i : PoolAct (Call I O) Nat) = true → r.status = .timeout →
    ∀ r', pool.shared.record r.id = some r' → r'.status = .timeout ∨
      ∃ r₀, g.read = some r₀ ∧ r₀.id = r.id ∧ r₀.status = r'.status
  unique : κ.exclusive = true → ∀ pool,
    (machine κ).ReachableUnder (fun pool a => pool.meets (undisturbed κ) a = true) pool →
    ∀ id id' r r', pool.shared.record id = some r → pool.shared.record id' = some r' →
      κ.live r pool.shared.now = true → κ.live r' pool.shared.now = true →
      r.runtimeId = r'.runtimeId → id = id'

theorem settles (κ : Kind I P O) : Settles κ where
  stays := by
    intro pool hpool a pool' hmeets hn
    have hsound := filed_reachable κ pool hpool.reachable
    cases a with
    | call c =>
      rcases Option.map_eq_some_iff.1 hn with ⟨s', henter, rfl⟩
      intro id r r' hr _ hr'
      have hsame : s'.record id = pool.shared.record id := by
        rcases enter_same henter with ⟨hnow, hrecords, -⟩
        unfold Redis.record Redis.alive
        rw [hrecords, hnow]
      rw [hsame, hr] at hr'
      rw [Option.some.inj hr']
    | step i =>
      rcases System.next_step hn with ⟨g, c, k, hthread, rfl⟩
      have hmem := List.mem_of_getElem? hthread
      have hcond : undisturbed κ pool.shared g c = true := by
        simpa only [Pool.meets, hthread] using hmeets
      exact stays_exec (hsound.keeps _ hmem).1 (hsound.knows _ hmem) hcond
    | env d =>
      obtain rfl := Option.some.inj hn
      intro id r r' hr _ hr'
      rcases record_eq_some.1 hr with ⟨_, hraw, -⟩
      rcases record_eq_some.1 hr' with ⟨_, hraw', -⟩
      rw [(Prod.mk.inj (Option.some.inj (hraw'.symm.trans hraw))).1]
  timeout := by
    intro pool hpool i g r k hthread hmeets htimeout r' hr'
    have hsound := filed_reachable κ pool hpool.reachable
    rcases (hsound.keeps _ (List.mem_of_getElem? hthread)).1 with ⟨-, -, r₀, hread, hid, -⟩
    have hcond : undisturbed κ pool.shared g (.set r) = true := by
      simpa only [Pool.meets, hthread] using hmeets
    simp only [undisturbed, hr', Option.all_some, Bool.or_eq_true, beq_iff_eq, Bool.and_eq_true,
      Option.any_eq_true] at hcond
    rcases hcond with heq | ⟨-, r₁, hread', heq⟩
    · exact .inl (heq.trans htimeout)
    · obtain rfl := Option.some.inj (hread.symm.trans hread')
      exact .inr ⟨r₀, hread, hid, heq⟩
  unique := by
    intro hexclusive pool hpool id id' r r' hr hr' hlive hlive' hruntime
    have hsound := System.invariant (preserves_held hexclusive) pool hpool
    exact hsound.shared.2.unique hr hr' hlive hlive' hruntime

/-- Whatever the calls do, a request is handed out once, and it is settled once as far as they do
not disturb each other. -/
def SettlesOnce (κ : Kind I P O) : Prop :=
  (∀ pool, (machine κ).Reachable pool → (pool.threads.flatMap returned).Nodup) ∧ Settles κ

def steps (i n : Nat) : List (PoolAct (Call I O) Nat) := List.replicate n (.step i)

def idle : Pool (Redis P) (Command P) Answer (Known P) (List UUID) := ⟨Redis.empty 0, []⟩

theorem init_idle {κ : Kind I P O} : (machine κ).Init idle := ⟨⟨0, rfl⟩, rfl⟩

/-- An update is created, popped and reported. -/
def updated : List (PoolAct (Call String UpdateReport) Nat) :=
  .call (.create 1 9 "v2") :: steps 0 3 ++ .call (.popPending 9) :: steps 1 5 ++
    .call (.report 1 (.complete "ok")) :: steps 2 6

/-- A step changes the status of a settled record. -/
def overwrites (κ : Kind I P O) (id : UUID) (a : PoolAct (Call I O) Nat)
    (pool : Pool (Redis P) (Command P) Answer (Known P) (List UUID)) : Bool :=
  ((machine κ).next pool a).any fun pool' =>
    (pool.shared.record id).any fun r => r.status.terminal &&
      (pool'.shared.record id).any fun r' => r'.status != r.status

theorem not_stays_of_overwrites {κ : Kind I P O} {id : UUID} {a : PoolAct (Call I O) Nat}
    {pool : Pool (Redis P) (Command P) Answer (Known P) (List UUID)}
    (h : overwrites κ id a pool = true) :
    ∃ pool', (machine κ).next pool a = some pool' ∧ ¬ Stays pool.shared pool'.shared := by
  rcases (Option.any_eq_true _ _).1 h with ⟨pool', hn, h⟩
  rcases (Option.any_eq_true _ _).1 h with ⟨r, hr, h⟩
  rw [Bool.and_eq_true] at h
  rcases (Option.any_eq_true _ _).1 h.2 with ⟨r', hr', hne⟩
  exact ⟨pool', hn, fun hstays => bne_iff_ne.1 hne (hstays id r r' hr h.1 hr')⟩

/-- A failure is reported after a completion, and nobody else is there. -/
def reportedTwice : List (PoolAct (Call Unit LocalSkillListReport) Nat) :=
  .call (.create 1 9 ()) :: steps 0 2 ++ .call (.report 1 (.complete [] true [] false)) ::
    steps 1 4 ++ .call (.report 1 (.fail "late")) :: steps 2 3

/-- A pop has read the request and is late with its claim: a reader has stored the timeout. -/
def claimedLate : List (PoolAct (Call Unit ModelListReport) Nat) :=
  .call (.create 1 9 ()) :: steps 0 2 ++ .call (.popPending 9) :: steps 1 4 ++
    .env (31 * second) :: .call (.get 1) :: steps 2 3

/-- So has a reader of an update, and has given its active key up. Another update is created, and
the claim is made after all. -/
def claimedTwo : List (PoolAct (Call String UpdateReport) Nat) :=
  .call (.create 1 9 "v2") :: steps 0 3 ++ .call (.popPending 9) :: steps 1 4 ++
    .env (121 * second) :: .call (.get 1) :: steps 2 4 ++ .call (.create 2 9 "v3") :: steps 3 3 ++
    steps 1 1

end Orynx.RuntimeRequest
