import Orynx.Runtime.MemoryStore
import Orynx.Runtime.SettleOnce

/-! # What a call does alone

The Redis calls when no other call comes in between: each is one step on the store.

* `run_loadRequest`: a read, which stores the timeout that it finds;
* `run_claim`: a pending request is claimed, and any other leaves the set;
* `run_create`, `run_report`: the other calls.
-/

namespace Orynx.RuntimeRequest

open Lib

variable {I P O : Type}

namespace Redis

def store (κ : Kind I P O) (s : Redis P) (r : Request P) : Redis P :=
  s.setRecord κ.retention r.id (κ.marshal r)

def release (κ : Kind I P O) (s : Redis P) (r : Request P) : Redis P :=
  if κ.exclusive = true ∧ s.activeId r.runtimeId = some r.id then s.setActive r.runtimeId none
  else s

def retire (κ : Kind I P O) (s : Redis P) (r : Request P) : Redis P :=
  (s.release κ r).removeEntry r.runtimeId r.id

end Redis

section Fields

variable {κ : Kind I P O} {s : Redis P} {r : Request P} {runtimeId id : UUID}

@[simp] theorem store_now : (s.store κ r).now = s.now := rfl
@[simp] theorem store_pending : (s.store κ r).pending = s.pending := rfl
@[simp] theorem store_active : (s.store κ r).active = s.active := rfl
@[simp] theorem store_created : (s.store κ r).created = s.created := rfl
@[simp] theorem store_entries : (s.store κ r).entries runtimeId = s.entries runtimeId := rfl
@[simp] theorem store_activeId : (s.store κ r).activeId runtimeId = s.activeId runtimeId := rfl
@[simp] theorem removeEntry_now : (s.removeEntry runtimeId id).now = s.now := rfl
@[simp] theorem removeEntry_records : (s.removeEntry runtimeId id).records = s.records := rfl
@[simp] theorem removeEntry_active : (s.removeEntry runtimeId id).active = s.active := rfl
@[simp] theorem removeEntry_created : (s.removeEntry runtimeId id).created = s.created := rfl

@[simp] theorem release_now : (s.release κ r).now = s.now := by
  unfold Redis.release
  split <;> rfl

@[simp] theorem release_records : (s.release κ r).records = s.records := by
  unfold Redis.release
  split <;> rfl

@[simp] theorem release_pending : (s.release κ r).pending = s.pending := by
  unfold Redis.release
  split <;> rfl

@[simp] theorem release_created : (s.release κ r).created = s.created := by
  unfold Redis.release
  split <;> rfl

theorem removeEntry_pending (s' : Redis P) (hnow : s'.now = s.now) (h : s'.pending = s.pending) :
    (s'.removeEntry runtimeId id).pending = (s.removeEntry runtimeId id).pending := by
  unfold Redis.removeEntry Redis.setEntries Redis.entries
  simp only [hnow, h]

@[simp] theorem retire_now : (s.retire κ r).now = s.now := release_now
@[simp] theorem retire_records : (s.retire κ r).records = s.records := release_records
@[simp] theorem retire_created : (s.retire κ r).created = s.created := release_created

theorem retire_pending :
    (s.retire κ r).pending = (s.removeEntry r.runtimeId r.id).pending :=
  removeEntry_pending _ release_now release_pending

theorem entries_removeEntry :
    (s.removeEntry runtimeId id).entries runtimeId =
      (s.entries runtimeId).filter fun e => e.id != id := by
  have hpending : (s.removeEntry runtimeId id).pending runtimeId =
      ((s.entries runtimeId).filter fun e => e.id != id, (s.pending runtimeId).2) := if_pos rfl
  unfold Redis.entries at hpending ⊢
  rw [hpending, removeEntry_now]
  split <;> rfl

theorem entries_of_pending {s' : Redis P} (hnow : s'.now = s.now) (h : s'.pending = s.pending) :
    s'.entries runtimeId = s.entries runtimeId := by
  unfold Redis.entries
  rw [hnow, h]

end Fields

/-! ## Calls -/

section Run

variable {κ : Kind I P O} {s : Redis P} {r : Request P} {runtimeId id : UUID}

@[simp] theorem run_now : (Send.now : RedisProg P Nat).run (exec κ) s = (s.now, s) := rfl
@[simp] theorem run_get : (Send.get id).run (exec κ) s = (s.record id, s) := rfl
@[simp] theorem run_zrange {stop : Int} : (Send.zrange runtimeId stop).run (exec κ) s =
    ((upTo (s.entries runtimeId) stop).map (·.id), s) := rfl
@[simp] theorem run_zrem :
    (Send.zrem runtimeId id).run (exec κ) s = ((), s.removeEntry runtimeId id) := rfl

theorem run_persist : (κ.persist r).run (exec κ) s = ((), s.store κ r) := by
  have hid : s.setRecord κ.retention (κ.marshal r).id (κ.marshal r) = s.store κ r := by
    rw [marshal_id]
    rfl
  exact congrArg (Prod.mk ()) hid

theorem run_retire : (κ.retire r).run (exec κ) s = ((), s.retire κ r) := by
  unfold Kind.retire Redis.retire Redis.release
  cases hexclusive : κ.exclusive with
  | false => rfl
  | true =>
    by_cases hactive : s.activeId r.runtimeId = some r.id
    · have hrun : (Send.deleteActiveIf r.runtimeId r.id).run (exec κ) s =
          ((), s.setActive r.runtimeId none) :=
        congrArg (Prod.mk ()) (if_pos hactive)
      simp [hrun, hactive]
    · have hrun : (Send.deleteActiveIf r.runtimeId r.id).run (exec κ) s = ((), s) :=
        congrArg (Prod.mk ()) (if_neg hactive)
      simp [hrun, hactive]

theorem run_loadRequest_none (h : s.record id = none) :
    (κ.loadRequest id).run (exec κ) s = (none, s) := by
  simp [Kind.loadRequest, h]

theorem run_loadRequest_same (h : s.record id = some r) (hdue : κ.overdue r s.now = false) :
    (κ.loadRequest id).run (exec κ) s = (some r, s) := by
  simp [Kind.loadRequest, h, applyTimeout_eq_none.2 hdue]

/-- The store after a read that has found a timeout. -/
def Redis.mark (κ : Kind I P O) (s : Redis P) (r : Request P) : Redis P :=
  (s.store κ (κ.timedOut r s.now)).retire κ (κ.timedOut r s.now)

theorem run_loadRequest_overdue (h : s.record id = some r) (hdue : κ.overdue r s.now = true) :
    (κ.loadRequest id).run (exec κ) s = (some (κ.timedOut r s.now), s.mark κ r) := by
  have happly := applyTimeout_eq_some.2 ⟨hdue, rfl⟩
  simp [Kind.loadRequest, h, happly, run_persist, run_retire, Redis.mark]

/-- The store after a claim. -/
def Redis.handOut (κ : Kind I P O) (s : Redis P) (r : Request P) : Redis P :=
  { (s.removeEntry r.runtimeId r.id).store κ (r.claimed s.now) with
    claimed := s.claimed ++ [r.id] }

theorem run_claim_fresh (h : s.record id = some r) (hid : r.id = id)
    (hruntime : r.runtimeId = runtimeId) (hfresh : κ.fresh r s.now = true)
    (hqueued : (s.entries runtimeId).any (·.id == id) = true) :
    (κ.claim runtimeId id).run (exec κ) s = (some (r.claimed s.now), s.handOut κ r) := by
  subst hid hruntime
  simp only [Kind.fresh, Bool.and_eq_true, beq_iff_eq, Bool.not_eq_true'] at hfresh
  have hrun : (Send.claimPending r.runtimeId r.id (κ.marshal (r.claimed s.now))).run (exec κ) s =
      (true, s.handOut κ r) := exec_claimPending_won hqueued
  simp [Kind.claim, run_loadRequest_same h hfresh.2, hfresh.1, hrun]

theorem run_claim_overdue (h : s.record id = some r) (hdue : κ.overdue r s.now = true) :
    (κ.claim runtimeId id).run (exec κ) s = (none, (s.mark κ r).removeEntry runtimeId id) := by
  simp [Kind.claim, run_loadRequest_overdue h hdue]

theorem run_claim_stale (h : s.record id = some r) (hdue : κ.overdue r s.now = false)
    (hstatus : r.status ≠ .pending) :
    (κ.claim runtimeId id).run (exec κ) s = (none, s.removeEntry runtimeId id) := by
  simp [Kind.claim, run_loadRequest_same h hdue, hstatus]

/-- The store after a read. -/
def Redis.loaded (κ : Kind I P O) (s : Redis P) (r : Request P) : Redis P :=
  if κ.overdue r s.now = true then s.mark κ r else s

theorem run_loadRequest (h : s.record id = some r) :
    (κ.loadRequest id).run (exec κ) s = (some (κ.read r s.now), s.loaded κ r) := by
  unfold Kind.read Redis.loaded
  cases hdue : κ.overdue r s.now with
  | true =>
    rw [run_loadRequest_overdue h hdue, applyTimeout_eq_some.2 ⟨hdue, rfl⟩]
    rfl
  | false =>
    rw [run_loadRequest_same h hdue, applyTimeout_eq_none.2 hdue]
    rfl

theorem loaded_now : (s.loaded κ r).now = s.now := by
  unfold Redis.loaded Redis.mark
  split
  · rw [retire_now, store_now]
  · rfl

theorem run_report_none {o : O} (h : s.record id = none) :
    (κ.report id o).run (exec κ) s = ((), s) := by
  simp [Kind.report, run_loadRequest_none h]

theorem run_report {o : O} (hexclusive : κ.exclusive = false) (h : s.record id = some r) :
    (κ.report id o).run (exec κ) s =
      ((), (s.loaded κ r).store κ (κ.settled o (κ.read r s.now) s.now)) := by
  simp [Kind.report, run_loadRequest h, hexclusive, run_persist, loaded_now]

theorem run_report_live {o : O} (hexclusive : κ.exclusive = true) (h : s.record id = some r)
    (hlive : κ.live r s.now = true) :
    (κ.report id o).run (exec κ) s =
      ((), (s.store κ (κ.settled o r s.now)).retire κ (κ.settled o r s.now)) := by
  rcases live_iff.1 hlive with ⟨hopen, hdue⟩
  simp [Kind.report, run_loadRequest_same h hdue, hexclusive, hopen, run_persist, run_retire]

def Redis.enqueue (κ : Kind I P O) (s : Redis P) (r : Request P) : Redis P :=
  (s.store κ r).setEntries r.runtimeId
    ((s.entries r.runtimeId).orderedInsert Entry.le ⟨float64 r.createdAt, r.id⟩)
    (s.now + κ.retention * 2)

theorem run_enqueue :
    (Send.enqueue (κ.marshal r)).run (exec κ) s = ((), s.enqueue κ r) := by
  change ((), (s.setRecord κ.retention (κ.marshal r).id (κ.marshal r)).setEntries
    (κ.marshal r).runtimeId ((s.entries (κ.marshal r).runtimeId).orderedInsert Entry.le
      ⟨float64 (κ.marshal r).createdAt, (κ.marshal r).id⟩) (s.now + κ.retention * 2)) = _
  rw [marshal_id, marshal_runtimeId, marshal_createdAt]
  rfl

theorem run_create {input : I} (hexclusive : κ.exclusive = false) :
    (κ.create id runtimeId input).run (exec κ) s =
      (some (κ.request id runtimeId input s.now),
        s.enqueue κ (κ.request id runtimeId input s.now)) := by
  simp [Kind.create, hexclusive, run_enqueue]

theorem run_create_refused {input : I} (hexclusive : κ.exclusive = true)
    (hactive : (s.activeId runtimeId).isSome = true) :
    (κ.create id runtimeId input).run (exec κ) s = (none, s) := by
  have hrun : (Send.reserveActive runtimeId id).run (exec κ) s = (false, s) :=
    exec_reserveActive_lost hactive
  simp [Kind.create, hexclusive, hrun]

theorem run_create_reserved {input : I} (hexclusive : κ.exclusive = true)
    (hactive : (s.activeId runtimeId).isSome = false) :
    (κ.create id runtimeId input).run (exec κ) s =
      (some (κ.request id runtimeId input s.now),
        (s.setActive runtimeId (some (id, s.now + κ.retention))).enqueue κ
          (κ.request id runtimeId input s.now)) := by
  have hrun : (Send.reserveActive runtimeId id).run (exec κ) s =
      (true, s.setActive runtimeId (some (id, s.now + κ.retention))) :=
    exec_reserveActive_won hactive
  simp [Kind.create, hexclusive, hrun, run_enqueue]

end Run

end Orynx.RuntimeRequest
