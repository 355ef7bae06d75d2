import Orynx.Task.ClaimCall

/-! # What a claim call dispatches

The candidate query and `ClaimAgentTask` disagree by design: the first filters by
runtime, the second re-selects by agent. `dispatched_of_candidate_agents` says what a
call does dispatch, and what becomes of a row of another daemon's runtime;
`dispatches_stray` is a call that dispatches such a row and drops it.
-/

namespace Orynx.Task

open Lib

/-! ## Rows that have not started -/

/-- Until it runs, a row has no start time. -/
def Unstarted (q : TaskTable) : Prop :=
  ∀ r ∈ q.rows, r.status ≠ .running → r.status.terminal = false → r.startedAt = none

theorem Move.unstarted {b : Bool} {s s' : TaskStatus} (h : Move b s s') (hs : s' ≠ .running)
    (ht : s'.terminal = false) : s ≠ .running ∧ s.terminal = false := by
  cases h <;> simp_all [TaskStatus.terminal]

theorem Unstarted.insert {q q' : TaskTable} {row : AgentTask} (h : Unstarted q)
    (hins : q.insert? row = some q') (hrow : row.startedAt = none) : Unstarted q' := by
  intro r hr hs ht
  rcases (Table.mem_insert? hins).1 hr with hr | rfl
  · exact h r hr hs ht
  · exact hrow

theorem Unstarted.update {q q' : TaskTable} {u : Update AgentTask} (h : Unstarted q)
    (hupd : q.update? u = some q') {b : Bool} (hstep : ∀ r ∈ q.rows, RowStep b r (u.apply r)) :
    Unstarted q' := by
  intro x hx hs ht
  rcases (Table.mem_update? hupd).1 hx with ⟨r, hr, rfl⟩
  have hstepr := hstep r hr
  rcases hstepr.move.unstarted hs ht with ⟨hs', ht'⟩
  exact (hstepr.startedAt.resolve_right hs).trans (h r hr hs' ht')

theorem InsertStmt.row_unstarted {now : Timestamp} {q : TaskTable} {stmt : InsertStmt}
    {row : AgentTask} (h : stmt.row now q = some row) : row.startedAt = none := by
  cases stmt with
  | createRetryTask id parentID =>
    simp only [InsertStmt.row, Option.map_eq_some_iff] at h
    rcases h with ⟨p, -, rfl⟩
    rfl
  | _ =>
    simp only [InsertStmt.row, Option.some.injEq] at h
    subst h
    rfl

theorem unstarted_of_reachable {cfg : Config} : ∀ s, (machine cfg).Reachable s →
    Unstarted s.queue := by
  refine Machine.invariant ?_ ?_
  · intro s hs r hr
    rw [hs.1] at hr
    simp at hr
  · intro s a s' _ h hn
    cases next_effect hn with
    | tick _ => exact h
    | insert hrow hins => exact h.insert hins (InsertStmt.row_unstarted hrow)
    | update hadm hupd => exact h.update hupd fun r hr => UpdateStmt.rowStep hadm hr
    | lock _ => exact h
    | count _ => exact h
    | @claim a locked pick running q _ _ hpick hupd =>
      rcases claim_pick hpick with ⟨t, ht, hid, -, hqueued⟩
      intro x hx hs hterm
      rcases (Table.mem_update? hupd).1 hx with ⟨r, hr, rfl⟩
      by_cases hrp : r.id = pick
      · have hrt : r = t := s.queue.eq_of_key hr ht (hrp.trans hid.symm)
        subst hrt
        rw [Update.apply_of_sel (by simpa [claimAgentTask] using hrp)]
        exact h r hr (by simp [hqueued]) (by simp [hqueued, TaskStatus.terminal])
      · rw [claimAgentTask_other hrp] at hs hterm ⊢
        exact h r hr hs hterm
    | release _ => exact h
    | @fail c _ _ _ _ _ hupd =>
      exact h.update hupd fun r _ => c.update_rowStep (b := false) cfg.classify s.now r
    | @failRetry c _ _ _ _ _ _ hupd hins =>
      exact (h.update hupd fun r _ => c.update_rowStep (b := false) cfg.classify s.now r).insert
        hins rfl

/-! ## The rows a call dispatches -/

/-- A row as `ClaimAgentTask` left it: dispatched, not started, on a prepare lease. -/
def FreshlyDispatched (t : AgentTask) : Prop :=
  t.status = .dispatched ∧ t.startedAt = none ∧
    ∃ d, t.dispatchedAt = some d ∧ t.prepareLeaseExpiresAt = some (d + prepareLeaseDuration)

/-- Left alone, such a row is reclaimed by its own runtime once the recovery window
is over. -/
theorem FreshlyDispatched.reclaimEligible {t : AgentTask} (h : FreshlyDispatched t)
    {d : Timestamp} (hd : t.dispatchedAt = some d) {now : Timestamp}
    (hnow : d + claimResponseRecoveryWindow < now) :
    reclaimEligible now claimResponseRecoveryWindow [t.runtimeID] t = true := by
  rcases h with ⟨hstatus, hstart, d', hd', hlease⟩
  obtain rfl : d' = d := Option.some.inj (hd'.symm.trans hd)
  have hover : d' + prepareLeaseDuration < now :=
    Nat.lt_of_le_of_lt (Nat.add_le_add_left (by decide) d') hnow
  simp [Task.reclaimEligible, hstatus, hstart, hd', hnow, AgentTask.leaseExpired, hlease, hover]

/-- What `ClaimAgentTask` returns is the one picked row, freshly dispatched. -/
theorem returning_claimAgentTask {q : TaskTable} {t : AgentTask} (ht : t ∈ q.rows)
    (now : Timestamp) :
    returning q (claimAgentTask now prepareLeaseDuration t.id) =
      [(claimAgentTask now prepareLeaseDuration t.id).set t] := by
  have hsel : q.rows.filter (claimAgentTask now prepareLeaseDuration t.id).sel = [t] :=
    q.filter_key_eq ht
  simp [returning, hsel]

def CallPhase.rest : CallPhase → List AgentTask
  | .loop r | .locking _ r | .counting _ r | .claiming _ r => r
  | _ => []

/-- The agent `ClaimTask` is running for. -/
def CallPhase.agent : CallPhase → Option UUID
  | .locking a _ | .counting a _ | .claiming a _ => some a
  | _ => none

/-- The call has not listed its candidates yet. -/
def CallPhase.early : CallPhase → Bool
  | .promote | .reclaim | .list => true
  | _ => false

/-- What holds of a call at every moment. -/
structure CallSound (c : Call) : Prop where
  admitted : ∀ t ∈ c.admitted,
    isClaimCandidate c.runtimeIDs c.spineOn c.blockedThen t = true
  rest : ∀ t ∈ c.phase.rest, t ∈ c.admitted
  current : ∀ a, c.phase.agent = some a →
    (∃ t ∈ c.admitted, t.agentID = a) ∧ a ∈ c.tried ∧ a ∉ c.dispatched.map AgentTask.agentID
  early : c.phase.early = true → c.dispatched = []
  tried : ∀ t ∈ c.dispatched,
    t.agentID ∈ c.tried ∧ ∃ u ∈ c.admitted, u.agentID = t.agentID
  one_per_agent : (c.dispatched.map AgentTask.agentID).Nodup
  returned : ∀ t ∈ c.dispatched, t.runtimeID ∈ c.runtimeIDs → t ∈ c.claimed
  kept : ∀ t ∈ c.claimed, t.runtimeID ∈ c.runtimeIDs
  fresh : ∀ t ∈ c.dispatched, FreshlyDispatched t

/-- A call that only moves to a phase without candidates at hand. -/
theorem CallSound.idle {c : Call} (h : CallSound c) {p : CallPhase} (hrest : p.rest = [])
    (hagent : p.agent = none) (hearly : p.early = true → c.dispatched = []) :
    CallSound { c with phase := p } :=
  { h with
    rest := by simp [hrest]
    current := by simp [hagent]
    early := hearly }

/-- While candidates are being tried, the phase is no longer early. -/
theorem CallSound.move {c : Call} (h : CallSound c) {p : CallPhase}
    (hrest : ∀ t ∈ p.rest, t ∈ c.phase.rest) (hagent : p.agent = none ∨ p.agent = c.phase.agent)
    (hearly : p.early = false) : CallSound { c with phase := p } :=
  { h with
    rest := fun t ht => h.rest t (hrest t ht)
    current := fun a ha => by
      rcases hagent with hn | hs
      · simp [hn] at ha
      · exact h.current a (hs ▸ ha)
    early := by simp [hearly] }

theorem CallSound.list {c : Call} (h : CallSound c) (hphase : c.phase = .list)
    {candidates : List AgentTask} {blocked : UUID → Bool} {asked : List UUID}
    (hasked : ∀ r ∈ asked, r ∈ c.runtimeIDs) {q : TaskTable}
    (hlist : listQueuedClaimCandidates q asked c.spineOn blocked candidates = true)
    {p : CallPhase} (hrest : p.rest = candidates) (hagent : p.agent = none)
    (hearly : p.early = false) :
    CallSound { c with admitted := candidates, blockedThen := blocked, phase := p } := by
  have hnone : c.dispatched = [] := h.early (by rw [hphase]; rfl)
  refine ⟨?_, by simp [hrest], by simp [hagent], by simp [hearly], by simp [hnone],
    by simp [hnone], by simp [hnone], h.kept, by simp [hnone]⟩
  intro t ht
  simp only [listQueuedClaimCandidates, Bool.and_eq_true, decide_eq_true_eq] at hlist
  have hmem := (hlist.1.mem_iff).1 ht
  have hcand := (List.mem_filter.1 hmem).2
  simp only [isClaimCandidate, Bool.and_eq_true, List.contains_eq_mem, decide_eq_true_eq]
    at hcand ⊢
  exact ⟨⟨hasked _ hcand.1.1, hcand.1.2⟩, hcand.2⟩

/-- The call takes up the next candidate's agent. -/
theorem CallSound.take {c : Call} (h : CallSound c) {t : AgentTask} {rest : List AgentTask}
    (hphase : c.phase = .loop (t :: rest)) (huntried : t.agentID ∉ c.tried) :
    CallSound { c with tried := t.agentID :: c.tried, phase := .locking t.agentID rest } := by
  have hmem : ∀ u ∈ t :: rest, u ∈ c.admitted := fun u hu =>
    h.rest u (by rw [hphase]; exact hu)
  refine { h with
    rest := fun u hu => hmem u (List.mem_cons_of_mem _ hu)
    current := ?_
    early := by simp [CallPhase.early]
    tried := fun u hu => ⟨List.mem_cons_of_mem _ (h.tried u hu).1, (h.tried u hu).2⟩ }
  intro a ha
  obtain rfl : t.agentID = a := Option.some.inj ha
  refine ⟨⟨t, hmem t List.mem_cons_self, rfl⟩, List.mem_cons_self, fun hd => huntried ?_⟩
  rcases List.mem_map.1 hd with ⟨u, hu, hua⟩
  exact hua ▸ (h.tried u hu).1

/-- The call dispatches a row of the agent it is trying. -/
theorem CallSound.claim {c : Call} (h : CallSound c) {a : UUID} {rest : List AgentTask}
    (hphase : c.phase = .claiming a rest) {t : AgentTask} (hagent : t.agentID = a)
    (hfresh : FreshlyDispatched t) :
    CallSound { c with
      dispatched := c.dispatched ++ [t]
      claimed := c.claimed ++ [t].filter fun u => c.runtimeIDs.contains u.runtimeID
      phase := .loop rest } := by
  rcases h.current a (by rw [hphase]; rfl) with ⟨hadm, htried, hnew⟩
  refine ⟨h.admitted, fun u hu => h.rest u (by rw [hphase]; exact hu), by simp [CallPhase.agent],
    by simp [CallPhase.early], ?_, ?_, ?_, ?_, ?_⟩
  · intro u hu
    rcases List.mem_append.1 hu with hu | hu
    · exact h.tried u hu
    · rcases List.mem_singleton.1 hu with rfl
      exact hagent ▸ ⟨htried, hadm⟩
  · rw [List.map_append, List.nodup_append]
    refine ⟨h.one_per_agent, by simp, fun b hb b' hb' hbb => hnew ?_⟩
    rw [List.map_singleton, List.mem_singleton] at hb'
    rw [← hagent, ← hb', ← hbb]
    exact hb
  · intro u hu hur
    rcases List.mem_append.1 hu with hu | hu
    · exact List.mem_append_left _ (h.returned u hu hur)
    · refine List.mem_append_right _ (List.mem_filter.2 ⟨hu, by simpa using hur⟩)
  · intro u hu
    rcases List.mem_append.1 hu with hu | hu
    · exact h.kept u hu
    · simpa using (List.mem_filter.1 hu).2
  · intro u hu
    rcases List.mem_append.1 hu with hu | hu
    · exact h.fresh u hu
    · rcases List.mem_singleton.1 hu with rfl
      exact hfresh

theorem CallState.after_eq_some {st st' : CallState} {sys : Option State} {call : Call} :
    st.after sys call = some st' ↔ ∃ s, sys = some s ∧ st' = { st with sys := s, call := call } := by
  simp only [CallState.after, Option.map_eq_some_iff]
  exact exists_congr fun s => and_congr_right fun _ => eq_comm

/-- Every step of the call machine is a step of the queue or leaves the queue alone. -/
theorem callNext_sys {cfg : Config} {st st' : CallState} {a : CallStep}
    (h : callNext cfg st a = some st') (hs : (machine cfg).Reachable st.sys) :
    (machine cfg).Reachable st'.sys := by
  have hafter : ∀ {a : Step} {call : Call}, st.after (next cfg st.sys a) call = some st' →
      (machine cfg).Reachable st'.sys := by
    intro a call hafter
    rcases CallState.after_eq_some.1 hafter with ⟨s, hn, rfl⟩
    exact hs.step a hn
  cases a with
  | other a =>
    simp only [callNext, Option.ite_none_left_eq_some] at h
    exact hafter h.2
  | setBlocked i b =>
    rcases Option.some.inj h with rfl
    exact hs
  | promote =>
    simp only [callNext, Option.ite_none_right_eq_some] at h
    rcases h with ⟨-, h⟩
    split at h
    · rename_i q hq
      rcases Option.some.inj h with rfl
      refine hs.step (.update (.promoteDueDeferredTasksForRuntimes st.call.runtimeIDs)) ?_
      simp [machine, next, UpdateStmt.admits, UpdateStmt.update, hq, State.commit]
    · rcases Option.some.inj h with rfl
      exact hs
  | reclaim locked picks =>
    simp only [callNext, Option.ite_none_right_eq_some] at h
    exact hafter h.2
  | list notEmpty candidates =>
    simp only [callNext, Option.ite_none_right_eq_some, Option.some.injEq] at h
    rcases h with ⟨-, rfl⟩
    exact hs
  | nextCandidate =>
    simp only [callNext] at h
    repeat' split at h
    all_goals simp only [Option.some.injEq, reduceCtorEq] at h
    all_goals subst h; exact hs
  | lockAgent =>
    simp only [callNext] at h
    split at h
    · exact hafter h
    · simp at h
  | countRunningTasks =>
    simp only [callNext] at h
    split at h
    · exact hafter h
    · simp at h
  | claimAgentTask locked pick =>
    simp only [callNext] at h
    split at h
    · exact hafter h
    · simp at h
  | noTask locked =>
    simp only [callNext] at h
    split at h
    · split at h
      · rw [Option.ite_none_right_eq_some] at h
        exact hafter h.2
      · simp at h
    · simp at h
  | claimError =>
    simp only [callNext] at h
    split at h
    · rcases Option.some.inj h with rfl
      exact hs
    · exact hafter h
    · exact hafter h
    · simp at h

/-- Every step of the call machine keeps the call sound. -/
theorem callNext_sound {cfg : Config} {st st' : CallState} {a : CallStep}
    (h : callNext cfg st a = some st') (hs : (machine cfg).Reachable st.sys)
    (hc : CallSound st.call) : CallSound st'.call := by
  cases a with
  | other a =>
    simp only [callNext, Option.ite_none_left_eq_some, CallState.after_eq_some] at h
    rcases h with ⟨-, s, -, rfl⟩
    exact hc
  | setBlocked i b =>
    rcases Option.some.inj h with rfl
    exact hc
  | promote =>
    simp only [callNext, Option.ite_none_right_eq_some] at h
    rcases h with ⟨hphase, h⟩
    have hnone : st.call.dispatched = [] := hc.early (by rw [hphase]; rfl)
    split at h
    · rcases Option.some.inj h with rfl
      exact hc.idle rfl rfl fun _ => hnone
    · rcases Option.some.inj h with rfl
      exact hc.idle rfl rfl fun _ => hnone
  | reclaim locked picks =>
    simp only [callNext, Option.ite_none_right_eq_some, CallState.after_eq_some] at h
    rcases h with ⟨hphase, s, hn, rfl⟩
    have hnone : st.call.dispatched = [] := hc.early (by rw [hphase]; rfl)
    have hidle : ∀ p : CallPhase, p.rest = [] → p.agent = none →
        CallSound { st.call with phase := p } := fun p hr ha => hc.idle hr ha fun _ => hnone
    refine { hidle (if _ then .returned else .list) (by split <;> rfl) (by split <;> rfl) with
      returned := by simp [hnone]
      kept := fun t ht => ?_ }
    -- Reclaimed rows are of the requested runtimes
    rcases List.mem_map.1 (List.mem_of_mem_take ht) with ⟨r, hr, rfl⟩
    rcases List.mem_filter.1 hr with ⟨hmem, hsel⟩
    cases next_effect hn with
    | update hadm _ =>
      obtain ⟨u, hu, huid, helig, -⟩ :=
        admissiblePicks_mem hadm (by simpa [UpdateStmt.update, reclaimStaleDispatchedTasks] using hsel)
      have hru : r = u := st.sys.queue.eq_of_key hmem hu huid.symm
      subst hru
      simp only [reclaimEligible, Bool.and_eq_true, List.contains_eq_mem,
        decide_eq_true_eq] at helig
      exact helig.1.1.1.1
  | list notEmpty candidates =>
    simp only [callNext, Option.ite_none_right_eq_some, Option.some.injEq] at h
    rcases h with ⟨⟨hphase, hlist⟩, rfl⟩
    refine hc.list hphase (fun r hr => (List.mem_filter.1 hr).1) hlist ?_ ?_ ?_
    · split
      · rename_i hnil; simp [hnil, CallPhase.rest]
      · rfl
    · split <;> rfl
    · split <;> rfl
  | nextCandidate =>
    simp only [callNext] at h
    split at h
    · rename_i rest hphase
      split at h
      · rcases Option.some.inj h with rfl
        exact hc.idle rfl rfl (by simp [CallPhase.early])
      · split at h
        · rcases Option.some.inj h with rfl
          exact hc.idle rfl rfl (by simp [CallPhase.early])
        · rename_i t rest
          split at h
          · rcases Option.some.inj h with rfl
            exact hc.move (by rw [hphase]; exact fun u hu => List.mem_cons_of_mem _ hu) (.inl rfl) rfl
          · rename_i htried
            rcases Option.some.inj h with rfl
            exact hc.take hphase (by simpa using htried)
    · simp at h
  | lockAgent =>
    simp only [callNext] at h
    split at h
    · rename_i a rest hphase
      rcases CallState.after_eq_some.1 h with ⟨s, -, rfl⟩
      exact hc.move (by rw [hphase]; exact fun u hu => hu) (.inr (by rw [hphase]; rfl)) rfl
    · simp at h
  | countRunningTasks =>
    simp only [callNext] at h
    split at h
    · rename_i a rest hphase
      rcases CallState.after_eq_some.1 h with ⟨s, -, rfl⟩
      exact hc.move (by rw [hphase]; exact fun u hu => hu) (.inr (by rw [hphase]; rfl)) rfl
    · simp at h
  | claimAgentTask locked pick =>
    simp only [callNext] at h
    split at h
    · rename_i a rest hphase
      rcases CallState.after_eq_some.1 h with ⟨s, hn, rfl⟩
      cases next_effect hn with
      | claim _ _ hpick _ =>
        rcases claim_pick hpick with ⟨t, ht, rfl, hagent, hqueued⟩
        have hstart : t.startedAt = none :=
          unstarted_of_reachable _ hs t ht (by simp [hqueued]) (by simp [hqueued, TaskStatus.terminal])
        rw [returning_claimAgentTask ht]
        exact hc.claim hphase hagent ⟨rfl, hstart, st.sys.now, rfl, rfl⟩
    · simp at h
  | noTask locked =>
    simp only [callNext] at h
    split at h
    · rename_i a rest hphase
      split at h
      · rw [Option.ite_none_right_eq_some] at h
        rcases CallState.after_eq_some.1 h.2 with ⟨s, -, rfl⟩
        exact hc.move (by rw [hphase]; exact fun u hu => hu) (.inl rfl) rfl
      · simp at h
    · simp at h
  | claimError =>
    have hended : CallSound { st.call with
        phase := if st.call.claimed = [] then .failed .claim else .returned } :=
      hc.idle (by split <;> rfl) (by split <;> rfl) (by split <;> simp [CallPhase.early])
    simp only [callNext] at h
    split at h
    · rcases Option.some.inj h with rfl
      exact hended
    · rcases CallState.after_eq_some.1 h with ⟨s, -, rfl⟩
      exact hended
    · rcases CallState.after_eq_some.1 h with ⟨s, -, rfl⟩
      exact hended
    · simp at h

theorem call_sound {cfg : Config} : ∀ st, (callMachine cfg).Reachable st →
    (machine cfg).Reachable st.sys ∧ CallSound st.call := by
  refine Machine.invariant ?_ fun st a st' _ h hn =>
    ⟨callNext_sys hn h.1, callNext_sound hn h.1 h.2⟩
  rintro st ⟨hs, rs, n, spine, -, hcall⟩
  refine ⟨hs, ?_⟩
  rw [hcall]
  constructor <;> simp [claimTasksForRuntimes, CallPhase.rest, CallPhase.agent]

/-! ## The main result -/

/-- Whatever a call moves from queued to dispatched belongs to an agent of a row that
the candidate query admitted, and there is one such row per agent. It is returned
exactly when its runtime was asked for. A row that was not stays dispatched and
unstarted on its lease, and once the recovery window is over the reclaim query of its
own runtime selects it. -/
theorem dispatched_of_candidate_agents (cfg : Config) (st : CallState)
    (h : (callMachine cfg).Reachable st) :
    (st.call.dispatched.map AgentTask.agentID).Nodup ∧
      ∀ t ∈ st.call.dispatched,
        (∃ u ∈ st.call.admitted, u.agentID = t.agentID ∧
          isClaimCandidate st.call.runtimeIDs st.call.spineOn st.call.blockedThen u = true) ∧
        (t ∈ st.call.claimed ↔ t.runtimeID ∈ st.call.runtimeIDs) ∧
        FreshlyDispatched t ∧
        ∀ d now, t.dispatchedAt = some d → d + claimResponseRecoveryWindow < now →
          reclaimEligible now claimResponseRecoveryWindow [t.runtimeID] t = true := by
  rcases call_sound st h with ⟨-, hc⟩
  refine ⟨hc.one_per_agent, fun t ht => ?_⟩
  rcases hc.tried t ht with ⟨-, u, hu, hagent⟩
  have hfresh := hc.fresh t ht
  refine ⟨⟨u, hu, hagent, hc.admitted u hu⟩, ⟨hc.kept t, hc.returned t ht⟩, hfresh, ?_⟩
  intro d now hd hnow
  exact hfresh.reclaimEligible hd hnow

/-- The row of agent 7 on runtime 3. -/
def ownRow : AgentTask :=
  createAgentTask 0 1 { agentID := 7, runtimeID := 3, issueID := some 10 }

/-- A more urgent row of agent 7 waits on runtime 4 when the daemon of runtime 3 asks
for work and lists its own row. -/
def strayCall : List CallStep :=
  [.other (.insert (.createAgentTask 1 { agentID := 7, runtimeID := 3, issueID := some 10 })),
    .other (.insert
      (.createAgentTask 2 { agentID := 7, runtimeID := 4, issueID := some 11, priority := 5 })),
    .promote, .reclaim [] [], .list [3] [ownRow], .nextCandidate, .lockAgent,
    .countRunningTasks, .claimAgentTask [] 2, .nextCandidate]

/-- An idle queue and a call for runtime 3. -/
def askRuntime3 : CallState := ⟨State.empty, fun _ => false, claimTaskForRuntime 3 false⟩

theorem init_askRuntime3 (cfg : Config) : (callMachine cfg).Init askRuntime3 :=
  ⟨.init (init_empty cfg), [3], 1, false, by decide, rfl⟩

theorem dispatched_of_candidate_agents_strayCall :
    ∃ st, (callMachine ⟨fun _ => 1, id⟩).run askRuntime3 strayCall = some st ∧
      ∃ t ∈ st.call.dispatched, t.id = 2 ∧ (t ∈ st.call.claimed ↔ t.runtimeID ∈ [3]) := by
  obtain ⟨st, hst, hreach, hp⟩ :=
    Machine.reachable_of_run (callMachine ⟨fun _ => 1, id⟩) (init_askRuntime3 _) strayCall
      (fun st => st.call.dispatched.any (fun t => t.id == 2) && st.call.runtimeIDs == [3])
      (by decide)
  simp only [Bool.and_eq_true, List.any_eq_true, beq_iff_eq] at hp
  rcases hp with ⟨⟨t, ht, hid⟩, hrs⟩
  refine ⟨st, hst, t, ht, hid, ?_⟩
  rw [← hrs]
  exact ((dispatched_of_candidate_agents _ st hreach).2 t ht).2.1

/-- `ClaimAgentTask` takes the more urgent row, which the candidate query had not
admitted: it is dispatched on the other daemon's runtime and not returned. -/
theorem dispatches_stray :
    ¬∀ (cfg : Config) (st : CallState), (callMachine cfg).Reachable st →
      ∀ t ∈ st.call.dispatched,
        t.runtimeID ∈ st.call.runtimeIDs ∧
          (st.call.spineOn = true → ∀ i, t.issueID = some i → st.call.blockedThen i = false) ∧
          t ∈ st.call.claimed := by
  intro hclaim
  obtain ⟨st, -, hreach, hp⟩ :=
    Machine.reachable_of_run (callMachine ⟨fun _ => 1, id⟩) (init_askRuntime3 _) strayCall
      (fun st => st.call.dispatched.any fun t => !st.call.runtimeIDs.contains t.runtimeID)
      (by decide)
  rcases List.any_eq_true.1 hp with ⟨t, ht, hne⟩
  have hmem := (hclaim _ st hreach t ht).1
  simp [hmem] at hne

end Orynx.Task
