import Orynx.Task.Dispatch

/-! # Does promotion wedge a runtime?

Promoting due deferred rows is one bulk `UPDATE`, so a single collision in the
pending index undoes all of it, and the claim calls, which promote first, return its
error for as long as the collision lasts.

* `promote_isSome_iff` is the exact condition on the state;
* `promotion_succeeds` adds the runs in which deferred rows keep to themselves, and
  follows a claim call past the promotion;
* `promotion_wedges` is a run that ends in a collision.
-/

namespace Orynx.Task

open Lib

/-! ## One promotion -/

section Promotion

variable {q : TaskTable} {now : Timestamp} {rs : List UUID}

/-- The row is due and its runtime is asked for. -/
def dueFor (now : Timestamp) (runtimeIDs : List UUID) (t : AgentTask) : Bool :=
  (promoteDueDeferredTasksForRuntimes now runtimeIDs).sel t

/-- A due row shares its (issue, agent) with a pending row or with another due one. -/
def PromotionClash (q : TaskTable) (now : Timestamp) (runtimeIDs : List UUID) : Prop :=
  ∃ r ∈ q.rows, dueFor now runtimeIDs r = true ∧ r.issueID ≠ none ∧
    ∃ r' ∈ q.rows, r' ≠ r ∧ r'.issueID = r.issueID ∧ r'.agentID = r.agentID ∧
      (r'.status.pending = true ∨ dueFor now runtimeIDs r' = true)

theorem dueFor_deferred {t : AgentTask} (h : dueFor now rs t = true) : t.status = .deferred := by
  simp only [dueFor, promoteDueDeferredTasksForRuntimes, Bool.and_eq_true, beq_iff_eq] at h
  exact h.1.2

theorem promote_id (t : AgentTask) :
    ((promoteDueDeferredTasksForRuntimes now rs).apply t).id = t.id := by
  unfold Update.apply
  split <;> rfl

/-- After a promotion a row is in the index if it was pending or due. -/
theorem promote_pendingKey {t : AgentTask} {issue agent : UUID} :
    ((promoteDueDeferredTasksForRuntimes now rs).apply t).pendingKey = some (issue, agent) ↔
      t.issueID = some issue ∧ t.agentID = agent ∧
        (t.status.pending = true ∨ dueFor now rs t = true) := by
  rw [AgentTask.pendingKey_eq_some]
  cases h : dueFor now rs t with
  | true =>
    rw [Update.apply_of_sel h]
    simp [promoteDueDeferredTasksForRuntimes, TaskStatus.pending]
  | false =>
    rw [Update.apply_of_not_sel h]
    simp only [Bool.false_eq_true, or_false]
    exact ⟨fun h => ⟨h.2.1, h.2.2, h.1⟩, fun h => ⟨h.2.2, h.1, h.2.1⟩⟩

/-- A promotion goes through exactly when no due row clashes. -/
theorem promote_isSome_iff :
    (q.update? (promoteDueDeferredTasksForRuntimes now rs)).isSome ↔
      ¬PromotionClash q now rs := by
  rw [Table.update?_isSome fun r _ => promote_id r]
  constructor
  · rintro h ⟨r, hr, hdue, hissue, r', hr', hne, hi, ha, hcase⟩
    rcases Option.ne_none_iff_exists'.1 hissue with ⟨issue, hri⟩
    refine hne (h r hr r' hr' (issue, r.agentID) ?_ ?_).symm
    · exact promote_pendingKey.2 ⟨hri, rfl, .inr hdue⟩
    · exact promote_pendingKey.2 ⟨hi.trans hri, ha, hcase⟩
  · rintro hno r hr r' hr' ⟨issue, agent⟩ hk hk'
    rcases promote_pendingKey.1 hk with ⟨hi, ha, hcase⟩
    rcases promote_pendingKey.1 hk' with ⟨hi', ha', hcase'⟩
    by_contra hne
    have hpair : r.issueID = r'.issueID ∧ r.agentID = r'.agentID :=
      ⟨hi.trans hi'.symm, ha.trans ha'.symm⟩
    rcases hcase with hp | hdue
    · rcases hcase' with hp' | hdue'
      · exact hne (pending_unique hr hr' hp hp' (by simp [hi]) hpair)
      · exact hno ⟨r', hr', hdue', by simp [hi'], r, hr, hne, hpair.1, hpair.2, .inl hp⟩
    · exact hno ⟨r, hr, hdue, by simp [hi], r', hr', fun h => hne h.symm, hpair.1.symm,
        hpair.2.symm, hcase'⟩

end Promotion

/-! ## Runs in which deferred rows keep to themselves -/

/-- The rows a step inserts, retry clones included. -/
def insertedBy (cfg : Config) (s : State) : Step → List AgentTask
  | .insert stmt => (stmt.row s.now s.queue).toList
  | .failTask c =>
    if wantRetry (getAgentTask s.queue c.taskID) (c.reason cfg.classify) then
      (getAgentTask s.queue c.taskID).toList.map fun t =>
        createRetryTask s.now c.childID ((c.update cfg.classify s.now).set t)
    else []
  | _ => []

/-- The step inserts no row for an (issue, agent) that has a deferred row, and no
deferred row for one that has a pending row. -/
def DeferralsApart (cfg : Config) (s : State) (a : Step) : Prop :=
  ∀ t ∈ insertedBy cfg s a, t.issueID ≠ none → ∀ r ∈ s.queue.rows, r.issueID = t.issueID →
    r.agentID = t.agentID →
      r.status ≠ .deferred ∧ (t.status = .deferred → r.status.pending = false)

/-- Beside a deferred row, its (issue, agent) has no pending and no deferred row. -/
def DeferredAlone (q : TaskTable) : Prop :=
  ∀ r ∈ q.rows, r.status = .deferred → r.issueID ≠ none → ∀ r' ∈ q.rows, r' ≠ r →
    r'.issueID = r.issueID → r'.agentID = r.agentID →
      r'.status ≠ .deferred ∧ r'.status.pending = false

theorem Move.deferred {b : Bool} {s s' : TaskStatus} (h : Move b s s') (hs : s' = .deferred) :
    s = .deferred := by
  cases h <;> simp_all

theorem DeferredAlone.insert {q q' : TaskTable} {row : AgentTask} (h : DeferredAlone q)
    (hins : q.insert? row = some q')
    (hrow : row.issueID ≠ none → ∀ r ∈ q.rows, r.issueID = row.issueID →
      r.agentID = row.agentID →
        r.status ≠ .deferred ∧ (row.status = .deferred → r.status.pending = false)) :
    DeferredAlone q' := by
  intro r hr hdef hissue r' hr' hne hi ha
  rcases (Table.mem_insert? hins).1 hr with hr | rfl
  · rcases (Table.mem_insert? hins).1 hr' with hr' | rfl
    · exact h r hr hdef hissue r' hr' hne hi ha
    · exact absurd hdef (hrow (hi ▸ hissue) r hr hi.symm ha.symm).1
  · rcases (Table.mem_insert? hins).1 hr' with hr' | rfl
    · rcases hrow hissue r' hr' hi ha with ⟨hnd, hnp⟩
      exact ⟨hnd, hnp hdef⟩
    · exact absurd rfl hne

theorem DeferredAlone.update {q q' : TaskTable} {u : Update AgentTask} {b : Bool}
    (h : DeferredAlone q) (hupd : q.update? u = some q')
    (hstep : ∀ r ∈ q.rows, RowStep b r (u.apply r)) : DeferredAlone q' := by
  intro x hx hdef hissue x' hx' hne hi ha
  rcases (Table.mem_update? hupd).1 hx with ⟨r, hr, rfl⟩
  rcases (Table.mem_update? hupd).1 hx' with ⟨r', hr', rfl⟩
  have hs := hstep r hr
  have hs' := hstep r' hr'
  have hrr : r' ≠ r := fun h => hne (by rw [h])
  have hri : (u.apply r).issueID = r.issueID := hs.issueID_eq (by simp [hdef])
  have halone : (u.apply r').status ≠ .completed →
      r'.status ≠ .deferred ∧ r'.status.pending = false := by
    intro hc
    refine h r hr (hs.move.deferred hdef) (hri ▸ hissue) r' hr' hrr ?_ ?_
    · rw [← hs'.issueID_eq hc, ← hri, hi]
    · rw [← hs'.agentID, ← hs.agentID, ha]
  constructor
  · intro hd
    exact (halone (by simp [hd])).1 (hs'.move.deferred hd)
  · cases hp : (u.apply r').status.pending with
    | false => rfl
    | true =>
      rcases halone (AgentTask.not_completed_of_pending hp) with ⟨hnd, hnp⟩
      rcases hs'.move.pending hp with hp' | ⟨-, hd⟩
      · simp [hnp] at hp'
      · exact absurd hd hnd

theorem deferredAlone_of_deferralsApart {cfg : Config} : ∀ s,
    (machine cfg).ReachableUnder (DeferralsApart cfg) s → DeferredAlone s.queue := by
  refine Machine.invariant_under ?_ ?_
  · intro s hs r hr
    rw [hs.1] at hr
    simp at hr
  · intro s a s' hreach h hC hn
    cases next_effect hn with
    | tick _ => exact h
    | insert hrow hins =>
      exact h.insert hins fun hissue r hr hi ha =>
        hC _ (by simp [insertedBy, hrow]) hissue r hr hi ha
    | update hadm hupd => exact h.update hupd fun r hr => UpdateStmt.rowStep hadm hr
    | lock _ => exact h
    | count _ => exact h
    | @claim a locked pick running q _ _ hpick hupd =>
      -- A claim takes a queued row, which is pending before and after
      rcases claim_pick hpick with ⟨t, ht, hid, -, hqueued⟩
      intro x hx hdef hissue x' hx' hne hi ha
      rcases (Table.mem_update? hupd).1 hx with ⟨r, hr, rfl⟩
      rcases (Table.mem_update? hupd).1 hx' with ⟨r', hr', rfl⟩
      have hother : r.id ≠ pick := by
        intro hrp
        rw [Update.apply_of_sel (by simpa [claimAgentTask] using hrp)] at hdef
        simp [claimAgentTask] at hdef
      rw [claimAgentTask_other hother] at hdef hissue hne hi ha
      by_cases hrp' : r'.id = pick
      · have hrt : r' = t := s.queue.eq_of_key hr' ht (hrp'.trans hid.symm)
        subst hrt
        rw [Update.apply_of_sel (by simpa [claimAgentTask] using hrp')] at hi ha
        have hrr : r' ≠ r := by
          rintro rfl
          exact hother hrp'
        have hnp := (h r hr hdef hissue r' hr' hrr hi ha).2
        simp [hqueued, TaskStatus.pending] at hnp
      · rw [claimAgentTask_other hrp'] at hne hi ha ⊢
        exact h r hr hdef hissue r' hr' hne hi ha
    | release _ => exact h
    | @fail c _ _ _ _ _ hupd =>
      exact h.update hupd fun r _ => c.update_rowStep (b := false) cfg.classify s.now r
    | @failRetry c r failed q hr hsel hwant hupd hins =>
      have hstep : ∀ x ∈ s.queue.rows,
          RowStep false x ((c.update cfg.classify s.now).apply x) :=
        fun x _ => c.update_rowStep cfg.classify s.now x
      refine (h.update hupd hstep).insert hins fun hissue x hx hi ha => ?_
      rcases (Table.mem_update? hupd).1 hx with ⟨y, hy, rfl⟩
      refine ⟨fun hd => ?_, by simp [createRetryTask]⟩
      have hget : getAgentTask s.queue c.taskID = some r :=
        getAgentTask_eq_some.2 ⟨hr, (FailTaskCall.sel_iff.1 hsel).1⟩
      have hys := hstep y hy
      refine (hC _ (by rw [hget] at hwant; simp [insertedBy, hwant, hget]) hissue y hy ?_ ?_).1
        (hys.move.deferred hd)
      · rw [← hys.issueID_eq (by simp [hd]), hi]
      · rw [← hys.agentID, ha]

theorem no_promotionClash {q : TaskTable} (h : DeferredAlone q) (now : Timestamp)
    (rs : List UUID) : ¬PromotionClash q now rs := by
  rintro ⟨r, hr, hdue, hissue, r', hr', hne, hi, ha, hcase⟩
  rcases h r hr (dueFor_deferred hdue) hissue r' hr' hne hi ha with ⟨hnd, hnp⟩
  rcases hcase with hp | hdue'
  · simp [hnp] at hp
  · exact hnd (dueFor_deferred hdue')

/-! ## Past the promotion -/

theorem claimBefore_total (t u : AgentTask) :
    claimBefore t u = false ∨ claimBefore u t = false := by
  simp only [claimBefore, Bool.or_eq_false_iff, Bool.and_eq_false_iff, decide_eq_false_iff_not,
    beq_eq_false_iff_ne]
  lia

theorem claimBefore_trans (t u v : AgentTask) (h : claimBefore u t = false)
    (h' : claimBefore v u = false) : claimBefore v t = false := by
  simp only [claimBefore, Bool.or_eq_false_iff, Bool.and_eq_false_iff, decide_eq_false_iff_not,
    beq_eq_false_iff_ne] at h h' ⊢
  lia

theorem reclaimBefore_total (t u : AgentTask) :
    reclaimBefore t u = false ∨ reclaimBefore u t = false := by
  simp only [reclaimBefore, Bool.or_eq_false_iff, Bool.and_eq_false_iff, decide_eq_false_iff_not,
    beq_eq_false_iff_ne]
  lia

theorem reclaimBefore_trans (t u v : AgentTask) (h : reclaimBefore u t = false)
    (h' : reclaimBefore v u = false) : reclaimBefore v t = false := by
  simp only [reclaimBefore, Bool.or_eq_false_iff, Bool.and_eq_false_iff, decide_eq_false_iff_not,
    beq_eq_false_iff_ne] at h h' ⊢
  lia

/-- The candidate query has an answer in every state. -/
theorem exists_candidates (q : TaskTable) (rs : List UUID) (spineOn : Bool)
    (isBlocked : UUID → Bool) :
    ∃ candidates, listQueuedClaimCandidates q rs spineOn isBlocked candidates = true ∧
      ∀ t, t ∈ candidates ↔ t ∈ q.rows ∧ isClaimCandidate rs spineOn isBlocked t = true := by
  let rows := q.rows.filter (isClaimCandidate rs spineOn isBlocked)
  have hperm : (rows.mergeSort fun t u => !claimBefore u t).Perm rows := List.mergeSort_perm _ _
  refine ⟨rows.mergeSort fun t u => !claimBefore u t, ?_, fun t => ?_⟩
  · simp only [listQueuedClaimCandidates, Bool.and_eq_true, decide_eq_true_eq]
    refine ⟨hperm, ?_⟩
    refine (List.pairwise_mergeSort (fun t u v h h' => ?_) (fun t u => ?_) rows).imp ?_
    · simp only [Bool.not_eq_true'] at h h' ⊢
      exact claimBefore_trans t u v h h'
    · rcases claimBefore_total t u with h | h <;> simp [h]
    · intro t u h
      simpa using h
  · rw [hperm.mem_iff]
    exact List.mem_filter

/-- Refreshing a dispatch violates nothing. -/
theorem reclaim_isSome (q : TaskTable) (now : Timestamp) (picks : List UUID) :
    (q.update? (reclaimStaleDispatchedTasks now prepareLeaseDuration picks)).isSome := by
  refine Table.update?_isSome_of_shrink (fun r _ => ?_) fun r _ => .inr ?_ <;>
    unfold Update.apply <;> split <;> rfl

/-- A row the reclaim does not select stays as it is. -/
theorem reclaim_keeps_queued {q q' : TaskTable} {now : Timestamp} {rs picks locked : List UUID}
    {n : Nat} (hpicks : admissiblePicks AgentTask.id q.rows
      (reclaimEligible now claimResponseRecoveryWindow rs) reclaimBefore n locked picks = true)
    (h : q.update? (reclaimStaleDispatchedTasks now prepareLeaseDuration picks) = some q')
    {t : AgentTask} (ht : t ∈ q.rows) (hq : t.status = .queued) : t ∈ q'.rows := by
  refine (Table.mem_update? h).2 ⟨t, ht, Update.apply_of_not_sel ?_⟩
  by_contra hsel
  have hmem : t.id ∈ picks := by simpa [reclaimStaleDispatchedTasks] using hsel
  rcases admissiblePicks_mem hpicks hmem with ⟨u, hu, hid, helig, -⟩
  have htu : u = t := q.eq_of_key hu ht hid
  subst htu
  simp [reclaimEligible, hq] at helig

/-- Once its promotion is through, a call with a candidate gets to `ClaimTask`, or
fills its batch with reclaimed rows. -/
theorem call_reaches_claim {cfg : Config} {st : CallState} {rs : List UUID} {n : Nat}
    {spineOn : Bool} (hcall : st.call = claimTasksForRuntimes rs n spineOn) {q : TaskTable}
    (hok : updateStmt st.sys.queue (promoteDueDeferredTasksForRuntimes st.sys.now rs) = .ok q)
    {t : AgentTask} (ht : t ∈ st.sys.queue.rows)
    (hcand : isClaimCandidate rs spineOn st.isBlocked t = true) :
    ∃ steps st', (callMachine cfg).run st steps = some st' ∧
      ((∃ a rest, st'.call.phase = .locking a rest) ∨
        (st'.call.phase = .returned ∧ st'.call.claimed.length = n)) := by
  rcases st with ⟨sys, isBlocked, call⟩
  simp only at hcall hok ht hcand
  subst hcall
  have hqueued : t.status = .queued := by
    simp only [isClaimCandidate, Bool.and_eq_true, beq_iff_eq] at hcand
    exact hcand.1.2
  have htq : t ∈ q.rows := by
    refine (Table.mem_update? (updateStmt_ok.1 hok)).2 ⟨t, ht, Update.apply_of_not_sel ?_⟩
    simp [promoteDueDeferredTasksForRuntimes, hqueued]
  obtain ⟨picks, hpicks⟩ : ∃ picks, admissiblePicks AgentTask.id q.rows
      (reclaimEligible sys.now claimResponseRecoveryWindow rs) reclaimBefore n [] picks = true :=
    exists_admissiblePicks q.key_nodup _ reclaimBefore_total reclaimBefore_trans n []
  rcases Option.isSome_iff_exists.1 (reclaim_isSome q sys.now picks) with ⟨q₂, hq₂⟩
  have htq₂ : t ∈ q₂.rows := reclaim_keeps_queued hpicks hq₂ htq hqueued
  obtain ⟨claimed, hclaimed⟩ : ∃ claimed, claimed =
      returning q (reclaimStaleDispatchedTasks sys.now prepareLeaseDuration picks) := ⟨_, rfl⟩
  let c₁ : Call := { claimTasksForRuntimes rs n spineOn with phase := .reclaim }
  let c₂ : Call := { c₁ with
    claimed := claimed.take n
    phase := if n ≤ claimed.length then .returned else .list }
  have hpromote : callNext cfg ⟨sys, isBlocked, claimTasksForRuntimes rs n spineOn⟩ .promote =
      some ⟨{ sys with queue := q }, isBlocked, c₁⟩ := by
    simp [callNext, claimTasksForRuntimes, hok, c₁]
  have hreclaim : callNext cfg ⟨{ sys with queue := q }, isBlocked, c₁⟩ (.reclaim [] picks) =
      some ⟨{ sys with queue := q₂ }, isBlocked, c₂⟩ := by
    simp [callNext, claimTasksForRuntimes, CallState.after, next, UpdateStmt.admits, hpicks,
      UpdateStmt.update, updateStmt, hq₂, State.commit, hclaimed, c₁, c₂]
    rfl
  by_cases hfull : n ≤ claimed.length
  · refine ⟨[.promote, .reclaim [] picks], ⟨{ sys with queue := q₂ }, isBlocked, c₂⟩, ?_,
      .inr ⟨by simp [c₂, hfull], by simp [c₂, hfull]⟩⟩
    rw [Machine.run_cons hpromote, Machine.run_cons hreclaim]
    rfl
  · rcases exists_candidates q₂ rs spineOn isBlocked with ⟨candidates, hlist, hmem⟩
    have htc : t ∈ candidates := (hmem t).2 ⟨htq₂, hcand⟩
    rcases List.exists_cons_of_ne_nil (List.ne_nil_of_mem htc) with ⟨c, rest, rfl⟩
    let c₃ : Call := { c₂ with
      admitted := c :: rest, blockedThen := isBlocked, phase := .loop (c :: rest) }
    let c₄ : Call := { c₃ with tried := [c.agentID], phase := .locking c.agentID rest }
    have hasked : rs.filter rs.contains = rs := List.filter_eq_self.2 fun r hr => by simpa using hr
    have hlisted : callNext cfg ⟨{ sys with queue := q₂ }, isBlocked, c₂⟩ (.list rs (c :: rest)) =
        some ⟨{ sys with queue := q₂ }, isBlocked, c₃⟩ := by
      simp [callNext, claimTasksForRuntimes, hasked, hlist, hfull, c₁, c₂, c₃]
    have hnext : callNext cfg ⟨{ sys with queue := q₂ }, isBlocked, c₃⟩ .nextCandidate =
        some ⟨{ sys with queue := q₂ }, isBlocked, c₄⟩ := by
      have hlen : ¬(n ≤ 0) ∧ ¬(n ≤ min n claimed.length) := by omega
      simp [callNext, claimTasksForRuntimes, Call.full, hlen, c₁, c₂, c₃, c₄]
    refine ⟨[.promote, .reclaim [] picks, .list rs (c :: rest), .nextCandidate],
      ⟨{ sys with queue := q₂ }, isBlocked, c₄⟩, ?_, .inl ⟨c.agentID, rest, rfl⟩⟩
    rw [Machine.run_cons hpromote, Machine.run_cons hreclaim, Machine.run_cons hlisted,
      Machine.run_cons hnext]
    rfl

/-! ## The main result -/

/-- A promotion succeeds exactly when no due row clashes. In every run whose deferred
rows keep to themselves it always succeeds, and a claim call that starts with a
claimable row gets past it to `ClaimTask` (or fills its batch with reclaimed rows). -/
theorem promotion_succeeds (cfg : Config) (s : State) :
    (∀ rs, (∃ q, updateStmt s.queue (promoteDueDeferredTasksForRuntimes s.now rs) = .ok q) ↔
        ¬PromotionClash s.queue s.now rs) ∧
      ((machine cfg).ReachableUnder (DeferralsApart cfg) s →
        (∀ rs, ∃ q,
          updateStmt s.queue (promoteDueDeferredTasksForRuntimes s.now rs) = .ok q) ∧
        ∀ (st : CallState) (rs : List UUID) (n : Nat) (spineOn : Bool), st.sys = s →
          st.call = claimTasksForRuntimes rs n spineOn →
          (∃ t ∈ s.queue.rows, isClaimCandidate rs spineOn st.isBlocked t = true) →
          ∃ steps st', (callMachine cfg).run st steps = some st' ∧
            ((∃ a rest, st'.call.phase = .locking a rest) ∨
              (st'.call.phase = .returned ∧ st'.call.claimed.length = n))) := by
  have hiff : ∀ rs,
      (∃ q, updateStmt s.queue (promoteDueDeferredTasksForRuntimes s.now rs) = .ok q) ↔
        ¬PromotionClash s.queue s.now rs := by
    intro rs
    rw [← promote_isSome_iff, Option.isSome_iff_exists]
    simp only [updateStmt_ok]
  refine ⟨hiff, fun h => ?_⟩
  have hok : ∀ rs, ∃ q,
      updateStmt s.queue (promoteDueDeferredTasksForRuntimes s.now rs) = .ok q := fun rs =>
    (hiff rs).2 (no_promotionClash (deferredAlone_of_deferralsApart s h) s.now rs)
  refine ⟨hok, ?_⟩
  rintro st rs n spineOn rfl hcall ⟨t, ht, hcand⟩
  rcases hok rs with ⟨q, hq⟩
  exact call_reaches_claim hcall hq ht hcand

/-- A fallback for agent 7 on issue 10, due at time 5. -/
def fallback : CreateDeferredAgentTaskParams :=
  { agentID := 7, runtimeID := 3, issueID := 10, escalationForTaskID := some 1, fireAt := 5 }

theorem promotion_succeeds_fallback :
    ∃ s, (machine ⟨fun _ => 1, id⟩).run State.empty
        [.insert (.createDeferredAgentTask 2 fallback), .tick 5] = some s ∧
      ∃ q, updateStmt s.queue (promoteDueDeferredTasksForRuntimes s.now [3]) = .ok q := by
  obtain ⟨s, hs, -, hp⟩ :=
    Machine.reachable_of_run (machine ⟨fun _ => 1, id⟩) (init_empty _)
      [.insert (.createDeferredAgentTask 2 fallback), .tick 5]
      (fun s => s.queue.rows.length == 1) (by decide)
  rcases List.length_eq_one_iff.1 (by simpa using hp) with ⟨r, hrows⟩
  refine ⟨s, hs, ((promotion_succeeds ⟨fun _ => 1, id⟩ s).1 [3]).2 ?_⟩
  rintro ⟨x, hx, -, -, y, hy, hne, -⟩
  rw [hrows, List.mem_singleton] at hx hy
  exact hne (hy.trans hx.symm)

/-- While the fallback waits, a comment queues a row for the same issue and agent;
once the fallback is due, no promotion for its runtime goes through. -/
theorem promotion_wedges :
    ¬∀ (cfg : Config) (s : State), (machine cfg).Reachable s → ∀ rs, ∃ q,
      updateStmt s.queue (promoteDueDeferredTasksForRuntimes s.now rs) = .ok q := by
  intro hclaim
  obtain ⟨s, -, hreach, hp⟩ :=
    Machine.reachable_of_run (machine ⟨fun _ => 1, id⟩) (init_empty _)
      [.insert (.createDeferredAgentTask 2 fallback),
        .insert (.createAgentTask 4 { agentID := 7, runtimeID := 3, issueID := some 10 }),
        .tick 5]
      (fun s =>
        (updateStmt s.queue (promoteDueDeferredTasksForRuntimes s.now [3])).toOption.isNone)
      (by decide)
  rcases hclaim _ s hreach [3] with ⟨q, hq⟩
  simp [hq, Except.toOption] at hp

end Orynx.Task
