import Orynx.Lib.Gate
import Orynx.Task.System

/-! # What an agent may run at once

Only `ClaimAgentTask` makes a row active, and it runs under the agent's row lock. So
the queue simulates an admission gate keyed by agent (`gateSimulation`), which bounds
the active rows by `max_concurrent_tasks`, and no two active rows of one agent clash
(`separate_of_reachable`).
-/

namespace Orynx.Task

open Lib

/-! ## The count of active rows -/

theorem countRunningTasks_insert {q q' : TaskTable} {row : AgentTask}
    (h : q.insert? row = some q') (hrow : row.status.active = false) (a : UUID) :
    countRunningTasks q' a = countRunningTasks q a := by
  simp [countRunningTasks, Table.insert?_rows h, List.countP_append, hrow]

theorem countRunningTasks_update {q q' : TaskTable} {u : Update AgentTask}
    (h : q.update? u = some q') {b : Bool}
    (hstep : ∀ r ∈ q.rows, RowStep b r (u.apply r)) (a : UUID) :
    countRunningTasks q' a ≤ countRunningTasks q a := by
  simp only [countRunningTasks, Table.update?_rows h, List.countP_map]
  refine List.countP_mono_left fun r hr hact => ?_
  have hs := hstep r hr
  simp only [Function.comp_apply, Bool.and_eq_true, beq_iff_eq] at hact ⊢
  exact ⟨hs.agentID ▸ hact.1, hs.move.active hact.2⟩

/-- A row that is inserted is not active. -/
theorem InsertStmt.row_inactive {now : Timestamp} {q : TaskTable} {stmt : InsertStmt}
    {row : AgentTask} (h : stmt.row now q = some row) : row.status.active = false := by
  cases stmt with
  | createRetryTask id parentID =>
    simp only [InsertStmt.row, Option.map_eq_some_iff] at h
    rcases h with ⟨p, -, rfl⟩
    rfl
  | _ =>
    simp only [InsertStmt.row, Option.some.injEq] at h
    subst h
    rfl

theorem claimAgentTask_agentID (now : Timestamp) (secs : Nat) (pick : UUID) (r : AgentTask) :
    ((claimAgentTask now secs pick).apply r).agentID = r.agentID := by
  unfold Update.apply
  split <;> rfl

theorem claimAgentTask_clashes (now : Timestamp) (secs : Nat) (pick : UUID) (r u : AgentTask) :
    ((claimAgentTask now secs pick).apply r).clashes u = r.clashes u := by
  unfold Update.apply
  split <;> rfl

/-! ## The gate the queue simulates -/

def AgentLock.phase : AgentLock → GatePhase
  | .free => .free
  | .held => .held
  | .counted n => .counted n

/-- The slots of an agent are its active rows. -/
def State.gate (s : State) : Gate UUID where
  used := countRunningTasks s.queue
  phase a := (s.agentLock a).phase

@[simp] theorem State.gate_used (s : State) : s.gate.used = countRunningTasks s.queue := rfl

@[simp] theorem State.gate_phase (s : State) (a : UUID) :
    s.gate.phase a = (s.agentLock a).phase := rfl

theorem State.gate_setLock (s : State) (a : UUID) (l : AgentLock) :
    (s.setLock a l).gate = s.gate.setPhase a l.phase := by
  simp only [State.gate, Gate.setPhase, State.setLock, Gate.mk.injEq, true_and]
  funext b
  by_cases h : b = a
  · subst h; simp
  · simp [h]

/-- A change of the queue that adds no active row settles the gate. -/
theorem gate_settle {cfg : Config} {s : State} {q : TaskTable}
    (h : ∀ a, countRunningTasks q a ≤ countRunningTasks s.queue a) :
    ∃ b, Gate.next cfg.maxConcurrentTasks s.gate b = some ({ s with queue := q } : State).gate :=
  ⟨.settle (countRunningTasks q), by simp [Gate.next, State.gate, h]⟩

/-- Every step of the queue is a move around the gate. -/
theorem gate_step {cfg : Config} {s s' : State} {a : Step} (h : next cfg s a = some s') :
    s'.gate = s.gate ∨ ∃ b, Gate.next cfg.maxConcurrentTasks s.gate b = some s'.gate := by
  cases next_effect h with
  | tick _ => exact .inl rfl
  | insert hrow hins =>
    exact .inr (gate_settle fun a =>
      (countRunningTasks_insert hins (InsertStmt.row_inactive hrow) a).le)
  | update hadm hupd =>
    exact .inr (gate_settle fun a =>
      countRunningTasks_update hupd (fun r hr => UpdateStmt.rowStep hadm hr) a)
  | @lock a hfree =>
    refine .inr ⟨.lock a, ?_⟩
    simp [Gate.next, State.gate_setLock, hfree, AgentLock.phase]
  | @count a hheld =>
    refine .inr ⟨.count a, ?_⟩
    simp [Gate.next, State.gate_setLock, hheld, AgentLock.phase]
  | @claim a locked pick running q hcounted hcap hpick hupd =>
    refine .inr ⟨.enter a (countRunningTasks q), ?_⟩
    rcases admissiblePicks_mem hpick (List.mem_singleton.2 rfl) with ⟨t, ht, hid, helig, -⟩
    have hagent : t.agentID = a := by
      simp only [claimEligible, Bool.and_eq_true, beq_iff_eq] at helig
      exact helig.1.1
    have hone : countRunningTasks q a ≤ countRunningTasks s.queue a + 1 := by
      simp only [countRunningTasks, Table.update?_rows hupd]
      exact s.queue.countP_update_le_succ _ pick (fun r _ hr => by simpa [claimAgentTask] using hr) _
    have hothers : ∀ b, b ≠ a → countRunningTasks q b ≤ countRunningTasks s.queue b := by
      intro b hba
      simp only [countRunningTasks, Table.update?_rows hupd, List.countP_map]
      refine List.countP_mono_left fun r hr hact => ?_
      simp only [Function.comp_apply, Bool.and_eq_true, beq_iff_eq] at hact ⊢
      have hrb : r.agentID = b := (claimAgentTask_agentID ..).symm.trans hact.1
      have hrp : r.id ≠ pick := by
        -- The claimed row is the picked one, which belongs to another agent
        intro hrp
        have hrt : r = t := s.queue.eq_of_key hr ht (hrp.trans hid.symm)
        exact hba (hrb.symm.trans (by rw [hrt, hagent]))
      rw [claimAgentTask_other hrp] at hact
      exact hact
    simp only [Gate.next]
    have hphase : s.gate.phase a = .counted running := by
      simp [hcounted, AgentLock.phase]
    simp only [hphase]
    rw [if_pos ⟨hcap, hone, hothers⟩]
    congr 1
    have hset := State.gate_setLock s a .free
    simp only [AgentLock.phase] at hset
    rw [← hset]
    rfl
  | @release a _ =>
    refine .inr ⟨.unlock a, ?_⟩
    simp [Gate.next, State.gate_setLock, AgentLock.phase]
  | @fail c r failed _ _ _ hupd =>
    exact .inr (gate_settle fun a =>
      countRunningTasks_update hupd (fun r _ => c.update_rowStep (b := false) cfg.classify s.now r) a)
  | @failRetry c r failed q _ _ _ hupd hins =>
    refine .inr (gate_settle fun a => ?_)
    rw [countRunningTasks_insert hins rfl a]
    exact countRunningTasks_update hupd (fun r _ => c.update_rowStep (b := false) cfg.classify s.now r) a

/-- The queue under its row locks refines an admission gate. -/
noncomputable def gateSimulation (cfg : Config) :
    (machine cfg).Simulation (Gate.machine cfg.maxConcurrentTasks) where
  map := State.gate
  init s h := by
    refine ⟨fun a => ?_, fun a => ?_⟩
    · simp [State.gate, countRunningTasks, h.1]
    · simp [State.gate, h.2 a, AgentLock.phase]
  step s a s' _ hn := gate_step hn

/-- No agent has more active rows than its capacity. -/
theorem countRunningTasks_le {cfg : Config} {s : State} (h : (machine cfg).Reachable s)
    (a : UUID) : (countRunningTasks s.queue a : ℤ) ≤ max 0 (cfg.maxConcurrentTasks a) :=
  (Gate.sound_of_reachable _ ((gateSimulation cfg).reachable s h)).within a

/-! ## Active rows do not clash -/

/-- Two active rows of one agent share neither issue nor chat session, and at most
one of them is quick-create-shaped. -/
def Separate (q : TaskTable) : Prop :=
  ∀ r ∈ q.rows, ∀ r' ∈ q.rows, r ≠ r' → r.agentID = r'.agentID → r.status.active = true →
    r'.status.active = true → r.clashes r' = false

/-- A row step into an active status leaves what `clashes` looks at alone. -/
theorem RowStep.clash_columns {b : Bool} {r r' : AgentTask} (h : RowStep b r r')
    (ha : r'.status.active = true) (u : AgentTask) : r'.clashes u = r.clashes u := by
  have hissue : r'.issueID = r.issueID :=
    h.issueID_eq fun hc => by simp [hc, TaskStatus.active] at ha
  simp only [AgentTask.clashes, AgentTask.quickCreateShaped, hissue, h.chatSessionID,
    h.autopilotRunID]

theorem Separate.insert {q q' : TaskTable} {row : AgentTask} (h : Separate q)
    (hins : q.insert? row = some q') (hrow : row.status.active = false) : Separate q' := by
  intro r hr r' hr' hne hagent ha ha'
  rcases (Table.mem_insert? hins).1 hr with hr | rfl
  · rcases (Table.mem_insert? hins).1 hr' with hr' | rfl
    · exact h r hr r' hr' hne hagent ha ha'
    · simp [hrow] at ha'
  · simp [hrow] at ha

theorem Separate.update {q q' : TaskTable} {u : Update AgentTask} (h : Separate q)
    (hupd : q.update? u = some q') {b : Bool}
    (hstep : ∀ r ∈ q.rows, RowStep b r (u.apply r)) :
    Separate q' := by
  intro x hx x' hx' hne hagent ha ha'
  rcases (Table.mem_update? hupd).1 hx with ⟨r, hr, rfl⟩
  rcases (Table.mem_update? hupd).1 hx' with ⟨r', hr', rfl⟩
  have hs := hstep r hr
  have hs' := hstep r' hr'
  rw [hs.clash_columns ha, AgentTask.clashes_comm, hs'.clash_columns ha', AgentTask.clashes_comm]
  refine h r hr r' hr' (fun h => hne (by rw [h])) ?_ (hs.move.active ha) (hs'.move.active ha')
  rw [← hs.agentID, ← hs'.agentID]
  exact hagent

theorem Separate.claim {q q' : TaskTable} {now : Timestamp} {a pick : UUID}
    {locked : List UUID} (h : Separate q)
    (hpick : admissiblePicks AgentTask.id q.rows (claimEligible q a) claimBefore 1 locked [pick] =
      true)
    (hupd : q.update? (claimAgentTask now prepareLeaseDuration pick) = some q') :
    Separate q' := by
  rcases admissiblePicks_mem hpick (List.mem_singleton.2 rfl) with ⟨t, ht, hid, helig, -⟩
  -- Only the picked row changes, and it was eligible against every other active row
  have hpicked : ∀ r ∈ q.rows, ∀ r' ∈ q.rows, r.id = pick → r' ≠ r → r.agentID = r'.agentID →
      r'.status.active = true → r.clashes r' = false := by
    intro r hr r' hr' hrid _ hagent ha'
    have hrt : r = t := q.eq_of_key hr ht (by simpa [hid] using hrid)
    subst hrt
    simp only [claimEligible, Bool.and_eq_true, Bool.not_eq_true', List.any_eq_false,
      Bool.and_eq_true, beq_iff_eq] at helig
    have := helig.2 r' hr'
    simpa [hagent, ha'] using this
  intro x hx x' hx' hne hagent ha ha'
  rcases (Table.mem_update? hupd).1 hx with ⟨r, hr, rfl⟩
  rcases (Table.mem_update? hupd).1 hx' with ⟨r', hr', rfl⟩
  have hrr : r ≠ r' := fun h => hne (by rw [h])
  rw [claimAgentTask_agentID, claimAgentTask_agentID] at hagent
  rw [claimAgentTask_clashes, AgentTask.clashes_comm, claimAgentTask_clashes,
    AgentTask.clashes_comm]
  by_cases hrp : r.id = pick
  · have hrp' : r'.id ≠ pick := fun h' =>
      hrr (q.eq_of_key hr hr' (by simp [hrp, h']))
    rw [claimAgentTask_other hrp'] at ha'
    exact hpicked r hr r' hr' hrp hrr.symm hagent ha'
  · rw [claimAgentTask_other hrp] at ha
    by_cases hrp' : r'.id = pick
    · rw [AgentTask.clashes_comm]
      exact hpicked r' hr' r hr hrp' hrr hagent.symm ha
    · rw [claimAgentTask_other hrp'] at ha'
      exact h r hr r' hr' hrr hagent ha ha'

theorem separate_of_reachable {cfg : Config} : ∀ s, (machine cfg).Reachable s →
    Separate s.queue := by
  refine Machine.invariant ?_ ?_
  · intro s hs r hr
    rw [hs.1] at hr
    simp at hr
  · intro s a s' _ h hn
    cases next_effect hn with
    | tick _ => exact h
    | insert hrow hins => exact h.insert hins (InsertStmt.row_inactive hrow)
    | update hadm hupd => exact h.update hupd fun r hr => UpdateStmt.rowStep hadm hr
    | lock _ => exact h
    | count _ => exact h
    | claim _ _ hpick hupd => exact h.claim hpick hupd
    | release _ => exact h
    | @fail c _ _ _ _ _ hupd =>
      exact h.update hupd fun r _ => c.update_rowStep (b := false) cfg.classify s.now r
    | @failRetry c _ _ _ _ _ _ hupd hins =>
      exact (h.update hupd fun r _ => c.update_rowStep (b := false) cfg.classify s.now r).insert hins rfl

/-! ## The main result -/

/-- What `clashes` excludes, column by column. -/
theorem AgentTask.not_clashes {r r' : AgentTask} (h : r.clashes r' = false) :
    (∀ issue, ¬(r.issueID = some issue ∧ r'.issueID = some issue)) ∧
      (∀ chat, ¬(r.chatSessionID = some chat ∧ r'.chatSessionID = some chat)) ∧
      ¬(r.quickCreateShaped = true ∧ r'.quickCreateShaped = true) := by
  simp only [AgentTask.clashes, Bool.or_eq_false_iff] at h
  rcases h with ⟨⟨hissue, hchat⟩, hshape⟩
  refine ⟨?_, ?_, ?_⟩
  · rintro issue ⟨hr, hr'⟩
    simp [hr, hr'] at hissue
  · rintro chat ⟨hr, hr'⟩
    simp [hr, hr'] at hchat
  · rintro ⟨hr, hr'⟩
    simp [hr, hr'] at hshape

/-- In every run of the queue and for every agent: its active rows never exceed
`max_concurrent_tasks` (a setting below zero admits none), and no two of them share
an issue, share a chat session, or are both quick-create-shaped. -/
theorem active_rows_bounded_and_separate (cfg : Config) (s : State)
    (h : (machine cfg).Reachable s) (agent : UUID) :
    (countRunningTasks s.queue agent : ℤ) ≤ max 0 (cfg.maxConcurrentTasks agent) ∧
      ∀ r ∈ s.queue.rows, ∀ r' ∈ s.queue.rows, r ≠ r' → r.agentID = agent →
        r'.agentID = agent → r.status.active = true → r'.status.active = true →
        (∀ issue, ¬(r.issueID = some issue ∧ r'.issueID = some issue)) ∧
          (∀ chat, ¬(r.chatSessionID = some chat ∧ r'.chatSessionID = some chat)) ∧
          ¬(r.quickCreateShaped = true ∧ r'.quickCreateShaped = true) := by
  refine ⟨countRunningTasks_le h agent, ?_⟩
  intro r hr r' hr' hne ha ha' hact hact'
  exact AgentTask.not_clashes
    (separate_of_reachable s h r hr r' hr' hne (ha.trans ha'.symm) hact hact')

/-- Two claims by different servers for one agent with capacity two: the first run
has started when the second is claimed. -/
def twoClaims : List Step :=
  [.insert (.createAgentTask 1 { agentID := 7, runtimeID := 3, issueID := some 10 }),
    .insert (.createAgentTask 2 { agentID := 7, runtimeID := 4, issueID := some 11 }),
    .lockAgent 7, .countRunningTasks 7, .claimAgentTask 7 [] 1, .update (.startAgentTask 1),
    .lockAgent 7, .countRunningTasks 7, .claimAgentTask 7 [] 2]

theorem active_rows_bounded_and_separate_twoClaims :
    ∃ s, (machine ⟨fun _ => 2, id⟩).run State.empty twoClaims = some s ∧
      countRunningTasks s.queue 7 = 2 ∧
      (countRunningTasks s.queue 7 : ℤ) ≤ max 0 2 := by
  obtain ⟨s, hs, hreach, hcount⟩ :=
    Machine.reachable_of_run (machine ⟨fun _ => 2, id⟩) (init_empty _) twoClaims
      (fun s => countRunningTasks s.queue 7 == 2) (by decide)
  exact ⟨s, hs, by simpa using hcount, (active_rows_bounded_and_separate _ s hreach 7).1⟩

end Orynx.Task
