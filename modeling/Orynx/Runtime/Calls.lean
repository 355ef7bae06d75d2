import Orynx.Runtime.RedisStore

/-! # What the calls of a Redis store keep to

Calls of any number of API nodes, their commands interleaved at will, with time passing between
them. Clocks are taken to agree.

* `discipline`: a record is written by who has read it, over which stage, and with what in hand;
* `keeps_code`: every call keeps to it, and returns the ids that it has claimed.
-/

namespace Orynx.RuntimeRequest

open Lib

variable {I P O : Type}

/-! ## The pool -/

inductive Call (I O : Type) where
  | create (id runtimeId : UUID) (input : I)
  | get (id : UUID)
  | popPending (runtimeId : UUID)
  | popPendingBatch (runtimeId : UUID) (limit : Int)
  | report (id : UUID) (o : O)

/-- What a thread has found out: the record that it last read or wrote, the time when it last
looked, the active key that it holds with a time to which it surely lasts, and what it has
claimed. `own` is the id that it is to create. -/
structure Known (P : Type) where
  own : Option UUID := none
  read : Option (Request P) := none
  clock : Nat := 0
  reserved : Option (UUID × UUID × Nat) := none
  claimed : List UUID := []

/-- A call returns the ids that it has popped. -/
def code (κ : Kind I P O) : Call I O → RedisProg P (List UUID)
  | .create id runtimeId input => do
    let _ ← κ.create id runtimeId input
    pure []
  | .get id => do
    let _ ← κ.loadRequest id
    pure []
  | .popPending runtimeId => do
    let req ← κ.popPending runtimeId
    pure (req.toList.map (·.id))
  | .popPendingBatch runtimeId limit => do
    let reqs ← κ.popPendingBatch runtimeId limit
    pure (reqs.map (·.id))
  | .report id o => do
    κ.report id o
    pure []

/-- New ids are random. -/
def enter (c : Call I O) (s : Redis P) : Option (Redis P) :=
  match c with
  | .create id _ _ =>
    if s.created.contains id then none else some { s with created := s.created ++ [id] }
  | _ => some s

def system (κ : Kind I P O) :
    System (Redis P) (Command P) Answer (Known P) (List UUID) (Call I O) Nat where
  Init s := ∃ now, s = Redis.empty now
  exec := exec κ
  enter := enter
  code := code κ
  start
    | .create id _ _ => { own := some id }
    | _ => {}
  env d s := some { s with now := s.now + d }

def discipline (κ : Kind I P O) : Discipline (Command P) Answer (Known P) where
  allows g
    | .set r' => κ.marshal r' = r' ∧ r'.status.terminal = true ∧
        ∃ r, g.read = some r ∧ r.id = r'.id ∧ r.runtimeId = r'.runtimeId ∧
          r.createdAt = r'.createdAt
    | .claimPending _ id r' => ∃ r, g.read = some r ∧ r.id = id ∧ r.status = .pending ∧
        r' = κ.marshal (r.claimed g.clock)
    | .enqueue r => g.own = some r.id ∧ r.status = .pending ∧ κ.marshal r = r ∧
        (κ.exclusive = true → ∃ lasts, g.reserved = some (r.runtimeId, r.id, lasts) ∧
          r.createdAt + κ.retention ≤ lasts)
    | .deleteActiveIf runtimeId id => ∃ r, g.read = some r ∧ r.id = id ∧
        r.runtimeId = runtimeId ∧ r.status.terminal = true
    | .reserveActive _ id => g.own = some id
    | _ => True
  expects
    | .get id, found => ∀ r, found = some r → r.id = id ∧ κ.marshal r = r
    | _, _ => True
  learn g
    | .now, t => { g with clock := t }
    | .get _, found => { g with read := found }
    | .set r, _ => { g with read := some r }
    | .claimPending _ id r, true => { g with read := some r, claimed := g.claimed ++ [id] }
    | .enqueue _, _ => { g with own := none }
    | .reserveActive runtimeId id, true =>
      { g with reserved := some (runtimeId, id, g.clock + κ.retention) }
    | _, _ => g

/-! ## What the calls keep to -/

section Keeps

variable {κ : Kind I P O} {g : Known P} {r : Request P} {now : Nat}

theorem marshal_idem : κ.marshal (κ.marshal r) = κ.marshal r := by
  unfold Kind.marshal
  split <;> rfl

theorem marshal_eq (hstart : r.runStartedAt = none ∨ κ.keepsRunStart = true) :
    κ.marshal r = r := by
  unfold Kind.marshal
  split
  · rfl
  · rename_i hkeeps
    rcases hstart with hnone | hkept
    · rw [← hnone]
    · exact absurd hkept hkeeps

theorem runStartedAt_of_marshal (h : κ.marshal r = r) :
    r.runStartedAt = none ∨ κ.keepsRunStart = true := by
  unfold Kind.marshal at h
  split at h
  · exact .inr ‹_›
  · rw [← h]
    exact .inl rfl

theorem marshal_timedOut (h : κ.marshal r = r) :
    κ.marshal (κ.timedOut r now) = κ.timedOut r now := by
  have hstart := runStartedAt_of_marshal h
  exact marshal_eq hstart

theorem marshal_settled {o : O} (h : κ.marshal r = r) :
    κ.marshal (κ.settled o r now) = κ.settled o r now := by
  have hstart := runStartedAt_of_marshal h
  exact marshal_eq hstart

@[simp] theorem marshal_id : (κ.marshal r).id = r.id := by unfold Kind.marshal; split <;> rfl
@[simp] theorem marshal_status : (κ.marshal r).status = r.status := by
  unfold Kind.marshal
  split <;> rfl
@[simp] theorem marshal_runtimeId : (κ.marshal r).runtimeId = r.runtimeId := by
  unfold Kind.marshal
  split <;> rfl
@[simp] theorem marshal_createdAt : (κ.marshal r).createdAt = r.createdAt := by
  unfold Kind.marshal
  split <;> rfl

/-- A call that has neither created nor claimed anything since. -/
structure Same (g g' : Known P) : Prop where
  own : g'.own = g.own
  claimed : g'.claimed = g.claimed

section Commands

variable {α : Type} {runtimeId id : UUID}

theorem keeps_now {Q : Known P → Nat → Prop} (h : ∀ t, Q { g with clock := t } t) :
    (discipline κ).Keeps Send.now g Q :=
  Discipline.keeps_issue trivial fun t _ => h t

theorem keeps_get {Q : Known P → Option (Request P) → Prop}
    (h : ∀ found : Option (Request P), (∀ r, found = some r → r.id = id ∧ κ.marshal r = r) →
      Q { g with read := found } found) :
    (discipline κ).Keeps (Send.get id) g Q :=
  Discipline.keeps_issue trivial h

theorem keeps_set {r' : Request P} {Q : Known P → Unit → Prop} (hread : g.read = some r)
    (hmarshal : κ.marshal r' = r') (hterminal : r'.status.terminal = true) (hid : r.id = r'.id)
    (hruntime : r.runtimeId = r'.runtimeId) (hcreated : r.createdAt = r'.createdAt)
    (h : Q { g with read := some r' } ()) : (discipline κ).Keeps (Send.set r') g Q :=
  Discipline.keeps_issue ⟨hmarshal, hterminal, r, hread, hid, hruntime, hcreated⟩ fun _ _ => h

theorem keeps_zrange {stop : Int} {Q : Known P → List UUID → Prop} (h : ∀ ids, Q g ids) :
    (discipline κ).Keeps (Send.zrange runtimeId stop) g Q :=
  Discipline.keeps_issue trivial fun ids _ => h ids

theorem keeps_zrem {Q : Known P → Unit → Prop} (h : Q g ()) :
    (discipline κ).Keeps (Send.zrem runtimeId id) g Q :=
  Discipline.keeps_issue trivial fun _ _ => h

theorem keeps_claimPending {Q : Known P → Bool → Prop} (hread : g.read = some r) (hid : r.id = id)
    (hpending : r.status = .pending)
    (hwon : Q { g with
      read := some (κ.marshal (r.claimed g.clock)), claimed := g.claimed ++ [id] } true)
    (hlost : Q g false) :
    (discipline κ).Keeps (Send.claimPending runtimeId id (κ.marshal (r.claimed g.clock))) g Q := by
  refine Discipline.keeps_issue ⟨r, hread, hid, hpending, rfl⟩ fun won _ => ?_
  cases won with
  | true => exact hwon
  | false => exact hlost

theorem keeps_enqueue {Q : Known P → Unit → Prop} (hown : g.own = some r.id)
    (hpending : r.status = .pending) (hmarshal : κ.marshal r = r)
    (hreserved : κ.exclusive = true → ∃ lasts, g.reserved = some (r.runtimeId, r.id, lasts) ∧
      r.createdAt + κ.retention ≤ lasts)
    (h : Q { g with own := none } ()) : (discipline κ).Keeps (Send.enqueue r) g Q :=
  Discipline.keeps_issue ⟨hown, hpending, hmarshal, hreserved⟩ fun _ _ => h

theorem keeps_reserveActive {Q : Known P → Bool → Prop} (hown : g.own = some id)
    (hwon : Q { g with reserved := some (runtimeId, id, g.clock + κ.retention) } true)
    (hlost : Q g false) : (discipline κ).Keeps (Send.reserveActive runtimeId id) g Q := by
  refine Discipline.keeps_issue hown fun won _ => ?_
  cases won with
  | true => exact hwon
  | false => exact hlost

theorem keeps_deleteActiveIf {Q : Known P → Unit → Prop} (hread : g.read = some r)
    (hterminal : r.status.terminal = true) (h : Q g ()) :
    (discipline κ).Keeps (Send.deleteActiveIf r.runtimeId r.id) g Q :=
  Discipline.keeps_issue ⟨r, hread, rfl, rfl, hterminal⟩ fun _ _ => h

end Commands

theorem keeps_retire {Q : Known P → Unit → Prop} (hread : g.read = some r)
    (hterminal : r.status.terminal = true) (hQ : Q g ()) :
    (discipline κ).Keeps (κ.retire r) g Q := by
  unfold Kind.retire
  refine Discipline.keeps_bind ?_
  have hzrem : (discipline κ).Keeps (Send.zrem r.runtimeId r.id) g Q :=
    keeps_zrem hQ
  split
  · exact keeps_deleteActiveIf hread hterminal hzrem
  · exact hzrem

/-- The record that is loaded is the one that was read, or the timeout that was written. -/
theorem keeps_loadRequest {id : UUID} {Q : Known P → Option (Request P) → Prop}
    (hQ : ∀ g' found, Same g g' → g'.read = found →
      (∀ r, found = some r → r.id = id ∧ κ.marshal r = r) → Q g' found) :
    (discipline κ).Keeps (κ.loadRequest id) g Q := by
  unfold Kind.loadRequest
  refine Discipline.keeps_bind (keeps_get fun found hfound => ?_)
  cases found with
  | none => exact hQ _ _ ⟨rfl, rfl⟩ rfl fun r hr => by cases hr
  | some r =>
    have hr : r.id = id ∧ κ.marshal r = r := hfound r rfl
    refine Discipline.keeps_bind (keeps_now fun now => ?_)
    cases htimeout : κ.applyTimeout r now with
    | none =>
      refine hQ _ _ ⟨rfl, rfl⟩ rfl fun r' hr' => ?_
      obtain rfl := Option.some.inj hr'
      exact hr
    | some r' =>
      obtain ⟨-, rfl⟩ := applyTimeout_eq_some.1 htimeout
      have hmarshal : κ.marshal (κ.timedOut r now) = κ.timedOut r now := marshal_timedOut hr.2
      dsimp only
      rw [Kind.persist, hmarshal]
      refine Discipline.keeps_bind (keeps_set rfl hmarshal rfl rfl rfl rfl ?_)
      refine Discipline.keeps_bind (keeps_retire rfl rfl ?_)
      refine hQ _ _ ⟨rfl, rfl⟩ rfl fun r' hr' => ?_
      obtain rfl := Option.some.inj hr'
      exact ⟨hr.1, hmarshal⟩

theorem keeps_create {id runtimeId : UUID} {input : I} {Q : Known P → Option (Request P) → Prop}
    (hown : g.own = some id)
    (hQ : ∀ g' found, g'.claimed = g.claimed → Q g' found) :
    (discipline κ).Keeps (κ.create id runtimeId input) g Q := by
  unfold Kind.create
  refine Discipline.keeps_bind (keeps_now fun now => ?_)
  have hmarshal : κ.marshal (κ.request id runtimeId input now) =
      κ.request id runtimeId input now := marshal_eq (.inl rfl)
  have henqueue (g' : Known P) (hown' : g'.own = some id) (hclaimed : g'.claimed = g.claimed)
      (hreserved : κ.exclusive = true → ∃ lasts, g'.reserved = some (runtimeId, id, lasts) ∧
        now + κ.retention ≤ lasts) :
      (discipline κ).Keeps (do
        Send.enqueue (κ.marshal (κ.request id runtimeId input now))
        pure (some (κ.request id runtimeId input now))) g' Q := by
    rw [hmarshal]
    exact Discipline.keeps_bind (keeps_enqueue hown' rfl hmarshal hreserved (hQ _ _ hclaimed))
  split
  · exact Discipline.keeps_bind (keeps_reserveActive hown
      (henqueue _ hown rfl fun _ => ⟨_, rfl, Nat.le_refl _⟩) (hQ _ _ rfl))
  · rename_i hshared
    exact henqueue _ hown rfl fun hexclusive => absurd hexclusive hshared

/-- A pop returns what it has claimed. -/
theorem keeps_claim {runtimeId id : UUID} {Q : Known P → Option (Request P) → Prop}
    (hQ : ∀ g' found, g'.claimed = g.claimed ++ (found.toList.map (·.id)) → Q g' found) :
    (discipline κ).Keeps (κ.claim runtimeId id) g Q := by
  unfold Kind.claim
  refine Discipline.keeps_bind (keeps_loadRequest fun g' found hsame hread hfound => ?_)
  have hnone : Q g' none := hQ _ _ (by rw [hsame.claimed]; exact (List.append_nil _).symm)
  cases found with
  | none => exact Discipline.keeps_bind (keeps_zrem hnone)
  | some r =>
    have hr := hfound r rfl
    dsimp only
    split
    · exact Discipline.keeps_bind (keeps_zrem hnone)
    · rename_i hpending
      refine Discipline.keeps_bind (keeps_now fun now => ?_)
      refine Discipline.keeps_bind (keeps_claimPending hread hr.1 (not_not.1 hpending)
        (hQ _ _ ?_) (hQ _ _ ?_))
      · show g'.claimed ++ [id] = _
        rw [hsame.claimed, ← hr.1]
        rfl
      · show g'.claimed = _
        rw [hsame.claimed]
        exact (List.append_nil _).symm

theorem keeps_popPendingLoop {runtimeId : UUID} {Q : Known P → Option (Request P) → Prop}
    (hQ : ∀ g' found, g'.claimed = g.claimed ++ (found.toList.map (·.id)) → Q g' found)
    (attempts : Nat) : (discipline κ).Keeps (κ.popPendingLoop runtimeId attempts) g Q := by
  have hnone : Q g none := hQ _ _ (List.append_nil _).symm
  induction attempts generalizing g with
  | zero => exact hnone
  | succ attempts ih =>
    unfold Kind.popPendingLoop
    refine Discipline.keeps_bind (keeps_zrange fun ids => ?_)
    cases ids with
    | nil => exact hnone
    | cons id ids =>
      refine Discipline.keeps_bind (keeps_claim fun g' found hclaimed => ?_)
      cases found with
      | some r => exact hQ _ _ hclaimed
      | none =>
        have hsame : g'.claimed = g.claimed := hclaimed.trans (List.append_nil _)
        refine ih (fun g'' found h => hQ _ _ ?_) (hQ _ _ ?_)
        · rw [h, hsame]
        · rw [hsame]
          exact (List.append_nil _).symm

theorem keeps_claimAll {runtimeId : UUID} {ids : List UUID}
    {Q : Known P → List (Request P) → Prop}
    (hQ : ∀ g' reqs, g'.claimed = g.claimed ++ reqs.map (·.id) → Q g' reqs) :
    (discipline κ).Keeps (κ.claimAll runtimeId ids) g Q := by
  induction ids generalizing g Q with
  | nil => exact hQ _ _ (List.append_nil _).symm
  | cons id ids ih =>
    unfold Kind.claimAll
    refine Discipline.keeps_bind (keeps_claim fun g' found hfound => ?_)
    refine Discipline.keeps_bind (ih fun g'' reqs hreqs => hQ _ _ ?_)
    rw [hreqs, hfound, List.map_append, List.append_assoc]

theorem keeps_report {id : UUID} {o : O} {Q : Known P → Unit → Prop}
    (hQ : ∀ g', g'.claimed = g.claimed → Q g' ()) :
    (discipline κ).Keeps (κ.report id o) g Q := by
  unfold Kind.report
  refine Discipline.keeps_bind (keeps_loadRequest fun g' found hsame hread hfound => ?_)
  cases found with
  | none => exact hQ _ hsame.claimed
  | some r =>
    dsimp only
    split
    · exact hQ _ hsame.claimed
    · refine Discipline.keeps_bind (keeps_now fun now => ?_)
      have hmarshal : κ.marshal (κ.settled o r now) = κ.settled o r now :=
        marshal_settled (hfound r rfl).2
      rw [Kind.persist, hmarshal]
      refine Discipline.keeps_bind (keeps_set hread hmarshal settled_terminal rfl rfl rfl ?_)
      split
      · exact keeps_retire rfl settled_terminal (hQ _ hsame.claimed)
      · exact hQ _ hsame.claimed

/-- Every call keeps to the discipline and returns what it has claimed. -/
theorem keeps_code (c : Call I O) :
    (discipline κ).Keeps (code κ c) ((system κ).start c) fun g ids => ids = g.claimed := by
  cases c with
  | create id runtimeId input =>
    exact Discipline.keeps_bind (keeps_create rfl fun g' _ h => h.symm)
  | get id =>
    exact Discipline.keeps_bind (keeps_loadRequest fun g' _ h _ _ => h.claimed.symm)
  | popPending runtimeId =>
    exact Discipline.keeps_bind (keeps_popPendingLoop (fun g' found h => h.symm) _)
  | popPendingBatch runtimeId limit =>
    exact Discipline.keeps_bind (Discipline.keeps_bind (keeps_zrange fun ids =>
      keeps_claimAll fun g' reqs h => h.symm))
  | report id o =>
    exact Discipline.keeps_bind (keeps_report fun g' h => h.symm)

end Keeps

end Orynx.RuntimeRequest
