import Orynx.Lib.Verdict
import Orynx.Task.ClaimCall

/-! # The empty-claim cache

A daemon polls for work. `EmptyClaimCache` lets a poll skip the database when the
runtime was found without queued tasks and nothing has been enqueued for it since.
Here the queue runs together with Redis, with any number of producers that notify
after their statement committed and any number of polls, each a sequence of
separate Redis commands and one `SELECT`.

* `enqueued_of_queued`: a row is queued because it was, or because the step
  enqueued it;
* `simulation`: the whole system is an instance of `Lib.Verdict`;
* `not_isEmpty_of_queued`: a queued and announced row is not hidden.

Redis commands do not fail and the version keys do not expire.
-/

namespace Orynx.Task

open Lib

/-! ## The cache -/

/-- The two keys per runtime in Redis: `empty` holds a verdict, `version` the
counter that enqueues increment. -/
structure EmptyClaimCache where
  empty : UUID → Option Nat
  version : UUID → Option Nat

namespace EmptyClaimCache

/-- `CurrentVersion`: a missing key is version 0. -/
def currentVersion (c : EmptyClaimCache) (runtimeID : UUID) : Nat :=
  (c.version runtimeID).getD 0

/-- `IsEmpty`: one `MGET` of both keys. A missing verdict is not a hit, and a missing
version key compares as 0. -/
def isEmpty (c : EmptyClaimCache) (runtimeID : UUID) : Bool :=
  match c.empty runtimeID with
  | none => false
  | some emptyVer => emptyVer == (c.version runtimeID).getD 0

/-- `MarkEmpty`. -/
def markEmpty (c : EmptyClaimCache) (runtimeID : UUID) (observedVersion : Nat) :
    EmptyClaimCache :=
  { c with empty := Function.update c.empty runtimeID (some observedVersion) }

/-- `Bump`: `INCR` of the version key. -/
def bump (c : EmptyClaimCache) (runtimeID : UUID) : EmptyClaimCache :=
  { c with
    version := Function.update c.version runtimeID (some ((c.version runtimeID).getD 0 + 1)) }

/-- The verdict outlives its TTL. -/
def expire (c : EmptyClaimCache) (runtimeID : UUID) : EmptyClaimCache :=
  { c with empty := Function.update c.empty runtimeID none }

end EmptyClaimCache

/-! ## What a step enqueues -/

/-- The updates that leave rows queued for a runtime they were not queued for. -/
def UpdateStmt.enqueues : UpdateStmt → Bool
  | .promoteDueDeferredTasksForRuntimes _ => true
  | .requeueAgentTaskAfterClaimFailure _ _ _ => true
  | .reassignTasksToRuntime _ _ => true
  | _ => false

/-- The queued rows a step hands back: of an insert, a promotion, a requeue, the
retry clone of a failure, or a move to another runtime. -/
def Step.enqueued (cfg : Config) (s : State) : Step → List AgentTask
  | .insert stmt => ((stmt.row s.now s.queue).toList).filter fun t => t.status == .queued
  | .update stmt =>
    if stmt.enqueues then
      (returning s.queue (stmt.update s.now s.queue)).filter fun t => t.status == .queued
    else []
  | .failTask c =>
    match Task.failTask cfg.classify s.now s.queue c with
    | .ok (_, _, child) => child.toList
    | .error _ => []
  | _ => []

/-- Whether the code that ran the step calls `notifyTaskAvailable` on the rows it
enqueued. Only a runtime's registration, which moves tasks over, does not. -/
def Step.notifies : Step → Bool
  | .update (.reassignTasksToRuntime _ _) => false
  | _ => true

/-- An update that does not enqueue leaves every queued row where it was. -/
theorem UpdateStmt.queued_of_apply {now : Timestamp} {q : TaskTable} {stmt : UpdateStmt}
    (hstmt : stmt.enqueues = false) {r : AgentTask}
    (h : ((stmt.update now q).apply r).status = .queued) :
    r.status = .queued ∧ ((stmt.update now q).apply r).runtimeID = r.runtimeID := by
  cases hsel : (stmt.update now q).sel r with
  | false => simpa [Update.apply_of_not_sel hsel] using h
  | true =>
    rw [Update.apply_of_sel hsel] at h ⊢
    cases stmt with
    | promoteDueDeferredTasksForRuntimes rs => simp [enqueues] at hstmt
    | requeueAgentTaskAfterClaimFailure t rt d => simp [enqueues] at hstmt
    | reassignTasksToRuntime new old => simp [enqueues] at hstmt
    | mergeCommentIntoPendingTask i a c attribution =>
      cases htarget : mergeTarget q i a with
      | none => simp [update, htarget] at hsel
      | some t =>
        simp only [update, htarget] at h ⊢
        exact ⟨h, rfl⟩
    | _ =>
      first
        | exact ⟨h, rfl⟩
        | exact absurd h (by simp [update, Task.startAgentTask,
            Task.markAgentTaskWaitingLocalDirectory, Task.completeAgentTask,
            Task.recoverOrphanedTasksForRuntime, Task.failStaleTasks,
            Task.failTasksForOfflineRuntimes, Task.expireStaleQueuedTasks, cancelWhere,
            AgentTask.cancel, Task.cancelAgentTasksByIssue, Task.cancelAgentTasksByIssueAndAgent,
            Task.cancelAgentTasksByAgent, Task.cancelAgentTasksByTriggerComment,
            Task.cancelAgentTasksByChatSession, Task.cancelAgentTask,
            Task.cancelAgentTasksByRuntimeOrAgent, Task.cancelDeferredEscalationsForTask,
            Task.cancelDeferredEscalationsForIssueAgent])

/-- After a step a row is queued for its runtime because it was before, or because
the step enqueued it. -/
theorem enqueued_of_queued {cfg : Config} {s s' : State} {a : Step} (hn : next cfg s a = some s')
    {r' : AgentTask} (hr' : r' ∈ s'.queue.rows) (hq : r'.status = .queued) :
    r' ∈ a.enqueued cfg s ∨
      ∃ r ∈ s.queue.rows, r.id = r'.id ∧ r.runtimeID = r'.runtimeID ∧ r.status = .queued := by
  have hfail : ∀ {c : FailTaskCall} {failed : TaskTable},
      s.queue.update? (c.update cfg.classify s.now) = some failed → r' ∈ failed.rows →
        r' ∈ s.queue.rows := by
    intro c failed hupd hmem
    rcases (Table.mem_update? hupd).1 hmem with ⟨r, hr, hrr⟩
    cases hsel : (c.update cfg.classify s.now).sel r with
    | false =>
      rw [Update.apply_of_not_sel hsel] at hrr
      exact hrr ▸ hr
    | true =>
      rw [Update.apply_of_sel hsel] at hrr
      rw [← hrr] at hq
      simp [FailTaskCall.update, failAgentTask] at hq
  have same : r' ∈ s.queue.rows → r' ∈ a.enqueued cfg s ∨
      ∃ r ∈ s.queue.rows, r.id = r'.id ∧ r.runtimeID = r'.runtimeID ∧ r.status = .queued :=
    fun h => .inr ⟨r', h, rfl, rfl, hq⟩
  cases next_effect hn with
  | tick _ | lock _ | count _ | release _ => exact same hr'
  | insert row_eq inserted =>
    rcases (Table.mem_insert? inserted).1 hr' with h | rfl
    · exact same h
    · left
      simp [Step.enqueued, row_eq, hq]
  | @update stmt q admits updated =>
    rcases (Table.mem_update? updated).1 hr' with ⟨r, hr, rfl⟩
    cases hstmt : stmt.enqueues with
    | false =>
      rcases UpdateStmt.queued_of_apply hstmt hq with ⟨hstatus, hruntime⟩
      exact .inr ⟨r, hr, (UpdateStmt.rowStep admits hr).id.symm, hruntime.symm, hstatus⟩
    | true =>
      cases hsel : (stmt.update s.now s.queue).sel r with
      | false =>
        rw [Update.apply_of_not_sel hsel] at hq ⊢
        exact .inr ⟨r, hr, rfl, rfl, hq⟩
      | true =>
        rw [Update.apply_of_sel hsel] at hq ⊢
        left
        simp only [Step.enqueued, hstmt, if_true, returning, List.mem_filter, List.mem_map]
        exact ⟨⟨r, ⟨hr, hsel⟩, rfl⟩, by simpa using hq⟩
  | claim counted capacity picked updated =>
    rcases (Table.mem_update? updated).1 hr' with ⟨r, hr, hrr⟩
    cases hsel : (Task.claimAgentTask s.now prepareLeaseDuration _).sel r with
    | false =>
      rw [Update.apply_of_not_sel hsel] at hrr
      exact same (hrr ▸ hr)
    | true =>
      rw [Update.apply_of_sel hsel] at hrr
      rw [← hrr] at hq
      simp [Task.claimAgentTask] at hq
  | fail _ _ _ updated => exact same (hfail updated hr')
  | @failRetry c r failed q mem sel wanted updated inserted =>
    rcases (Table.mem_insert? inserted).1 hr' with h | rfl
    · exact same (hfail updated h)
    · left
      cases hf : Task.failTask cfg.classify s.now s.queue c with
      | error e => simp [next, hf, Except.map, State.commit] at hn
      | ok p =>
        rcases p with ⟨q₁, t, child⟩
        rcases failTask_ok hf with ⟨r₁, hr₁, failed₁, hsel₁, rfl, hupd₁, hcase⟩
        rcases hcase with ⟨hwant, -, -⟩ | ⟨-, rfl, -⟩
        · rw [hwant] at wanted
          contradiction
        · -- the call selects by primary key, so both inversions name one row
          have hrr : r₁ = r := s.queue.eq_of_key hr₁ mem
            ((FailTaskCall.sel_iff.1 hsel₁).1.trans (FailTaskCall.sel_iff.1 sel).1.symm)
          simp [Step.enqueued, hf, hrr]

/-! ## Producers and polls -/

/-- The call of `notifyTaskAvailable` that a producer owes a row: it runs `Bump`, then
the wakeup. `step` numbers the step that enqueued the row. -/
structure Notice where
  step : Nat
  taskID : UUID
  runtimeID : UUID
deriving DecidableEq, Repr

/-- A poll in flight: `ClaimTasksForRuntimes` over its runtimes, `ClaimTaskForRuntime`
being the case of one. -/
inductive Poll where
  /-- About to ask `IsEmpty` for the next runtime. -/
  | checking (todo : List UUID) (versions : List (UUID × Nat))
  /-- About to ask `CurrentVersion` for `runtimeID`, which was not a cache hit. -/
  | sampling (runtimeID : UUID) (todo : List UUID) (versions : List (UUID × Nat))
  /-- About to `MarkEmpty` the runtimes the `SELECT` had no candidate for. -/
  | marking (empties : List (UUID × Nat))
deriving DecidableEq, Repr

/-- The versions a poll holds before its `SELECT`. -/
def Poll.sampled : Poll → List (UUID × Nat)
  | .checking _ versions => versions
  | .sampling _ _ versions => versions
  | .marking _ => []

/-- The versions a poll holds for runtimes it found empty. -/
def Poll.empties : Poll → List (UUID × Nat)
  | .marking empties => empties
  | _ => []

/-- The queue, Redis, and everyone who moves. -/
structure PollState where
  sys : State
  cache : EmptyClaimCache
  /-- How many steps the queue has taken. -/
  steps : Nat
  /-- The step that last enqueued a task. -/
  queuedAt : UUID → Nat
  /-- The notices whose `Bump` is still to come. -/
  notifying : List Notice
  /-- The notices whose `Bump` has completed. -/
  bumped : List Notice
  poll : UUID → Poll

inductive PollStep where
  | queue (a : Step)
  | bump (n : Notice)
  | notifyTaskFinished (runtimeID : UUID)
  | expire (runtimeID : UUID)
  | claimTasksForRuntimes (call : UUID) (runtimeIDs : List UUID)
  | isEmpty (call : UUID)
  | currentVersion (call : UUID)
  | listQueuedClaimCandidates (call : UUID) (candidates : List AgentTask)
  | markEmpty (call : UUID)
deriving DecidableEq, Repr

def PollState.setPoll (s : PollState) (call : UUID) (p : Poll) : PollState :=
  { s with poll := Function.update s.poll call p }

/-- The molecule spine is off. -/
def spineOn : Bool := false

/-- One step. A call that begins may replace one cut off half-way. -/
def PollState.next (cfg : Config) (s : PollState) : PollStep → Option PollState
  | .queue a =>
    (Task.next cfg s.sys a).map fun sys =>
      let enqueued := a.enqueued cfg s.sys
      let notices := enqueued.map fun t => Notice.mk s.steps t.id t.runtimeID
      { s with
        sys := sys, steps := s.steps + 1,
        queuedAt := fun i => if enqueued.any (·.id == i) then s.steps else s.queuedAt i,
        notifying := if a.notifies then s.notifying ++ notices else s.notifying }
  | .bump n =>
    if n ∈ s.notifying then
      some { s with
        cache := s.cache.bump n.runtimeID, notifying := s.notifying.erase n,
        bumped := n :: s.bumped }
    else none
  | .notifyTaskFinished k => some { s with cache := s.cache.bump k }
  | .expire k => some { s with cache := s.cache.expire k }
  | .claimTasksForRuntimes c ks => some (s.setPoll c (.checking ks.dedup []))
  | .isEmpty c =>
    match s.poll c with
    | .checking (k :: todo) versions =>
      if s.cache.isEmpty k then some (s.setPoll c (.checking todo versions))
      else some (s.setPoll c (.sampling k todo versions))
    | _ => none
  | .currentVersion c =>
    match s.poll c with
    | .sampling k todo versions =>
      some (s.setPoll c (.checking todo (versions ++ [(k, s.cache.currentVersion k)])))
    | _ => none
  | .listQueuedClaimCandidates c candidates =>
    match s.poll c with
    | .checking [] versions =>
      if Task.listQueuedClaimCandidates s.sys.queue (versions.map Prod.fst) spineOn
          (fun _ => false) candidates then
        -- a runtime with a candidate is never marked
        some (s.setPoll c (.marking (versions.filter fun p =>
          candidates.all fun t => t.runtimeID != p.1)))
      else none
    | _ => none
  | .markEmpty c =>
    match s.poll c with
    | .marking ((k, v) :: rest) =>
      some { s.setPoll c (.marking rest) with cache := s.cache.markEmpty k v }
    | _ => none

/-- The system from its first row and an empty Redis on. -/
def pollMachine (cfg : Config) : Machine PollState PollStep where
  Init s :=
    (machine cfg).Init s.sys ∧ (∀ k, s.cache.empty k = none) ∧ s.notifying = [] ∧
      s.bumped = [] ∧ ∀ c, s.poll c = .marking []
  next := PollState.next cfg

/-- The `Bump` of the step that made the row queued has completed. -/
def PollState.announced (s : PollState) (t : AgentTask) : Prop :=
  Notice.mk (s.queuedAt t.id) t.id t.runtimeID ∈ s.bumped

/-! ## An instance of guarded verdicts -/

/-- Queued tasks wait under their runtime, owed a `Bump`. -/
def PollState.verdicts (s : PollState) : Verdict.State UUID UUID where
  waiting := {p | ∃ t ∈ s.sys.queue.rows, t.id = p.1 ∧ t.runtimeID = p.2 ∧ t.status = .queued}
  owed := {p | Notice.mk (s.queuedAt p.1) p.1 p.2 ∉ s.bumped}
  version := s.cache.currentVersion
  verdict := s.cache.empty
  sampled := {p | ∃ c, p ∈ (s.poll c).sampled}
  empties := {p | ∃ c, p ∈ (s.poll c).empties}

theorem isEmpty_iff {s : PollState} {k : UUID} :
    s.cache.isEmpty k = true ↔ s.verdicts.trusted k := by
  unfold EmptyClaimCache.isEmpty Verdict.State.trusted PollState.verdicts
  simp only [EmptyClaimCache.currentVersion]
  split <;> simp_all

/-- Notices are numbered by steps already taken. -/
theorem notice_lt {cfg : Config} {s : PollState} (hs : (pollMachine cfg).Reachable s) :
    ∀ n, n ∈ s.notifying ∨ n ∈ s.bumped → n.step < s.steps := by
  refine Machine.invariant
    (I := fun s : PollState => ∀ n, n ∈ s.notifying ∨ n ∈ s.bumped → n.step < s.steps) ?_ ?_ s hs
  · rintro s ⟨-, -, hnotifying, hbumped, -⟩ n hn
    simp [hnotifying, hbumped] at hn
  · intro s a s' _ ih hn n hmem
    cases a with
    | queue a =>
      simp only [pollMachine, PollState.next, Option.map_eq_some_iff] at hn
      rcases hn with ⟨sys, -, rfl⟩
      have hold : n ∈ s.notifying ∨ n ∈ s.bumped → n.step < s.steps + 1 := by
        intro h
        have := ih n h
        omega
      rcases hmem with hmem | hmem
      · simp only at hmem
        split at hmem
        · rcases List.mem_append.1 hmem with h | h
          · exact hold (.inl h)
          · rcases List.mem_map.1 h with ⟨t, -, rfl⟩
            exact Nat.lt_succ_self _
        · exact hold (.inl hmem)
      · exact hold (.inr hmem)
    | bump m =>
      simp only [pollMachine, PollState.next, Option.ite_none_right_eq_some,
        Option.some.injEq] at hn
      rcases hn with ⟨hm, rfl⟩
      rcases hmem with hmem | hmem
      · exact ih n (.inl (List.mem_of_mem_erase hmem))
      · rcases List.mem_cons.1 hmem with rfl | h
        · exact ih n (.inl hm)
        · exact ih n (.inr h)
    | notifyTaskFinished k =>
      rcases Option.some.inj hn with rfl
      exact ih n hmem
    | expire k =>
      rcases Option.some.inj hn with rfl
      exact ih n hmem
    | claimTasksForRuntimes c ks =>
      rcases Option.some.inj hn with rfl
      exact ih n hmem
    | isEmpty c =>
      simp only [pollMachine, PollState.next] at hn
      split at hn
      · split at hn <;> obtain rfl := Option.some.inj hn <;> exact ih n hmem
      · simp at hn
    | currentVersion c =>
      simp only [pollMachine, PollState.next] at hn
      split at hn
      · rcases Option.some.inj hn with rfl
        exact ih n hmem
      · simp at hn
    | listQueuedClaimCandidates c candidates =>
      simp only [pollMachine, PollState.next] at hn
      split at hn
      · simp only [Option.ite_none_right_eq_some, Option.some.injEq] at hn
        rcases hn with ⟨-, rfl⟩
        exact ih n hmem
      · simp at hn
    | markEmpty c =>
      simp only [pollMachine, PollState.next] at hn
      split at hn
      · rcases Option.some.inj hn with rfl
        exact ih n hmem
      · simp at hn

theorem currentVersion_bump (c : EmptyClaimCache) (k : UUID) :
    (c.bump k).currentVersion =
      Function.update c.currentVersion k (c.currentVersion k + 1) := by
  funext k'
  by_cases hk : k' = k
  · subst hk
    simp [EmptyClaimCache.bump, EmptyClaimCache.currentVersion]
  · simp [EmptyClaimCache.bump, EmptyClaimCache.currentVersion, hk]

@[simp] theorem bump_empty (c : EmptyClaimCache) (k : UUID) : (c.bump k).empty = c.empty := rfl

theorem mem_setPoll_sampled {s : PollState} {c : UUID} {x : Poll} {p : UUID × Nat}
    (h : p ∈ (s.setPoll c x).verdicts.sampled) : p ∈ x.sampled ∨ p ∈ s.verdicts.sampled := by
  rcases h with ⟨c', hc'⟩
  by_cases hc : c' = c
  · subst hc
    exact .inl (by simpa [PollState.setPoll] using hc')
  · exact .inr ⟨c', by simpa [PollState.setPoll, hc] using hc'⟩

theorem mem_setPoll_empties {s : PollState} {c : UUID} {x : Poll} {p : UUID × Nat}
    (h : p ∈ (s.setPoll c x).verdicts.empties) : p ∈ x.empties ∨ p ∈ s.verdicts.empties := by
  rcases h with ⟨c', hc'⟩
  by_cases hc : c' = c
  · subst hc
    exact .inl (by simpa [PollState.setPoll] using hc')
  · exact .inr ⟨c', by simpa [PollState.setPoll, hc] using hc'⟩

/-- A poll that samples nothing new and finds nothing new only looks away. -/
theorem move_setPoll {s : PollState} {c : UUID} {x : Poll}
    (hsampled : ∀ p ∈ x.sampled, p ∈ (s.poll c).sampled) (hempties : x.empties = []) :
    Verdict.Move s.verdicts (s.setPoll c x).verdicts := by
  refine .look (fun p hp => ?_) (fun p hp => ?_)
  · rcases mem_setPoll_sampled hp with h | h
    · exact ⟨c, hsampled p h⟩
    · exact h
  · rcases mem_setPoll_empties hp with h | h
    · rw [hempties] at h
      exact absurd h List.not_mem_nil
    · exact .inl h

/-- A step of the queue changes who waits, and what it enqueues is owed a `Bump`. -/
theorem move_queue {cfg : Config} {s s' : PollState} {a : Step}
    (hs : (pollMachine cfg).Reachable s) (hn : s.next cfg (.queue a) = some s') :
    Verdict.Move s.verdicts s'.verdicts := by
  simp only [PollState.next, Option.map_eq_some_iff] at hn
  rcases hn with ⟨sys, hsys, rfl⟩
  refine .change ?_
  rintro ⟨i, k⟩ ⟨⟨t, ht, hid, hruntime, hstatus⟩, hbumped⟩
  simp only at hid hruntime
  subst hid hruntime
  -- the number of this step is on no notice whose bump has completed
  have hnew : ¬ (a.enqueued cfg s.sys).any (·.id == t.id) = true := by
    intro hany
    refine hbumped fun hmem => ?_
    simp only [hany, if_true] at hmem
    exact Nat.lt_irrefl _ (notice_lt hs _ (.inr hmem))
  refine ⟨?_, fun howed => hbumped ?_⟩
  · rcases enqueued_of_queued hsys ht hstatus with h | ⟨r, hr, hid, hruntime, hq⟩
    · exact absurd (List.any_eq_true.2 ⟨t, h, by simp⟩) hnew
    · exact ⟨r, hr, hid, hruntime, hq⟩
  · simpa only [Set.mem_ofPred_eq, PollState.verdicts, if_neg hnew] using howed

/-- Where a candidate row waits, the runtime is not marked. -/
theorem mem_candidates {q : TaskTable} {runtimeIDs : List UUID} {candidates : List AgentTask}
    (h : listQueuedClaimCandidates q runtimeIDs spineOn (fun _ => false) candidates = true)
    {t : AgentTask} (ht : t ∈ q.rows) (hruntime : t.runtimeID ∈ runtimeIDs)
    (hq : t.status = .queued) : t ∈ candidates := by
  simp only [listQueuedClaimCandidates, Bool.and_eq_true, decide_eq_true_eq] at h
  refine h.1.mem_iff.2 (List.mem_filter.2 ⟨ht, ?_⟩)
  simp [isClaimCandidate, spineOn, hruntime, hq]

/-- Every step of the system is a move of guarded verdicts. -/
theorem move_of_next {cfg : Config} {s s' : PollState} {a : PollStep}
    (hs : (pollMachine cfg).Reachable s) (hn : s.next cfg a = some s') :
    Verdict.Move s.verdicts s'.verdicts := by
  cases a with
  | queue a => exact move_queue hs hn
  | bump n =>
    simp only [PollState.next, Option.ite_none_right_eq_some, Option.some.injEq] at hn
    rcases hn with ⟨hn, rfl⟩
    have hmove : Verdict.Move s.verdicts
        { s.verdicts with
          version := Function.update s.verdicts.version n.runtimeID
            (s.verdicts.version n.runtimeID + 1)
          owed := {p | Notice.mk (s.queuedAt p.1) p.1 p.2 ∉ n :: s.bumped} } := by
      refine .advance n.runtimeID fun p hp howed hmem => ?_
      rcases List.mem_cons.1 hmem with heq | h
      · exact hp (by rw [← heq])
      · exact howed h
    simpa only [PollState.verdicts, currentVersion_bump, bump_empty] using hmove
  | notifyTaskFinished k =>
    rcases Option.some.inj hn with rfl
    have hmove : Verdict.Move s.verdicts
        { s.verdicts with
          version := Function.update s.verdicts.version k (s.verdicts.version k + 1)
          owed := s.verdicts.owed } := .advance k fun _ _ h => h
    simpa only [PollState.verdicts, currentVersion_bump, bump_empty] using hmove
  | expire k =>
    rcases Option.some.inj hn with rfl
    exact .expire k
  | claimTasksForRuntimes c ks =>
    rcases Option.some.inj hn with rfl
    exact move_setPoll (by simp [Poll.sampled]) rfl
  | isEmpty c =>
    simp only [PollState.next] at hn
    split at hn
    · rename_i k todo versions hpoll
      split at hn <;> obtain rfl := Option.some.inj hn <;>
        exact move_setPoll (by simp [hpoll, Poll.sampled]) rfl
    · simp at hn
  | currentVersion c =>
    simp only [PollState.next] at hn
    split at hn
    · rename_i k todo versions hpoll
      rcases Option.some.inj hn with rfl
      refine .sample k (fun p hp => ?_) (fun p hp => ?_)
      · rcases mem_setPoll_sampled hp with h | h
        · rcases List.mem_append.1 h with h | h
          · exact .inr ⟨c, by simpa [hpoll, Poll.sampled] using h⟩
          · exact .inl (List.mem_singleton.1 h)
        · exact .inr h
      · rcases mem_setPoll_empties hp with h | h
        · simp [Poll.empties] at h
        · exact h
    · simp at hn
  | listQueuedClaimCandidates c candidates =>
    simp only [PollState.next] at hn
    split at hn
    · rename_i versions hpoll
      simp only [Option.ite_none_right_eq_some, Option.some.injEq] at hn
      rcases hn with ⟨hlist, rfl⟩
      refine .look (fun p hp => ?_) (fun p hp => ?_)
      · rcases mem_setPoll_sampled hp with h | h
        · simp [Poll.sampled] at h
        · exact h
      · rcases mem_setPoll_empties hp with h | h
        · rcases List.mem_filter.1 h with ⟨hp, hnone⟩
          refine .inr ⟨⟨c, by simpa [hpoll, Poll.sampled] using hp⟩, ?_⟩
          rintro i ⟨t, ht, -, hruntime, hq⟩
          have hmem : t ∈ candidates := by
            refine mem_candidates hlist ht ?_ hq
            rw [hruntime]
            exact List.mem_map.2 ⟨p, hp, rfl⟩
          simpa [hruntime] using List.all_eq_true.1 hnone t hmem
        · exact .inl h
    · simp at hn
  | markEmpty c =>
    simp only [PollState.next] at hn
    split at hn
    · rename_i k v rest hpoll
      rcases Option.some.inj hn with rfl
      have hmove : Verdict.Move s.verdicts
          { s.verdicts with
            verdict := Function.update s.verdicts.verdict k (some v)
            sampled := (s.setPoll c (.marking rest)).verdicts.sampled
            empties := (s.setPoll c (.marking rest)).verdicts.empties } := by
        refine .mark ⟨c, by simp [hpoll, Poll.empties]⟩ (fun p hp => ?_) (fun p hp => ?_)
        · rcases mem_setPoll_sampled hp with h | h
          · simp [Poll.sampled] at h
          · exact h
        · rcases mem_setPoll_empties hp with h | h
          · exact ⟨c, by simpa [hpoll, Poll.empties] using .inr h⟩
          · exact h
      exact hmove
    · simp at hn

/-- The queue with its cache, its producers and its polls is an instance of verdicts
guarded by a version. -/
noncomputable def simulation (cfg : Config) :
    (pollMachine cfg).Simulation (Verdict.machine UUID UUID) where
  map := PollState.verdicts
  init := by
    rintro s ⟨hsys, hempty, -, -, hpoll⟩
    refine ⟨?_, hempty, ?_, ?_⟩
    · simp [PollState.verdicts, hsys.1]
    · simp [PollState.verdicts, hpoll, Poll.sampled]
    · simp [PollState.verdicts, hpoll, Poll.empties]
  step := fun _ _ _ hs hn =>
    .inr ⟨_, Machine.ofRel_next.2 ⟨move_of_next hs hn, rfl⟩⟩

/-- The cache hides no queued task: once the `Bump` of the step that made a row queued
has completed, `IsEmpty` answers false for its runtime, whatever the polls hold. -/
theorem not_isEmpty_of_queued {cfg : Config} {s : PollState}
    (hs : (pollMachine cfg).Reachable s) {t : AgentTask} (ht : t ∈ s.sys.queue.rows)
    (hqueued : t.status = .queued) (hannounced : s.announced t) :
    s.cache.isEmpty t.runtimeID = false := by
  have htrust : ¬ s.verdicts.trusted t.runtimeID :=
    Verdict.not_trusted ((simulation cfg).reachable s hs) (i := t.id)
      ⟨t, ht, rfl, rfl, hqueued⟩ (fun howed => howed hannounced)
  rw [← isEmpty_iff] at htrust
  simpa using htrust

/-- Nothing queued, nothing cached, nobody polling. -/
def PollState.empty : PollState :=
  ⟨State.empty, ⟨fun _ => none, fun _ => none⟩, 0, fun _ => 0, [], [], fun _ => .marking []⟩

theorem init_pollEmpty (cfg : Config) : (pollMachine cfg).Init PollState.empty :=
  ⟨init_empty cfg, fun _ => rfl, rfl, rfl, fun _ => rfl⟩

/-- A poll of runtime 3 finds nothing; before it writes its verdict, a row is enqueued
for the runtime and announced. -/
def slowPoll : List PollStep :=
  [.claimTasksForRuntimes 0 [3], .isEmpty 0, .currentVersion 0, .listQueuedClaimCandidates 0 [],
    .queue (.insert (.createAgentTask 1 { agentID := 7, runtimeID := 3, issueID := some 10 })),
    .bump ⟨0, 1, 3⟩, .markEmpty 0]

theorem not_isEmpty_of_queued_slowPoll :
    ∃ s, (pollMachine ⟨fun _ => 1, id⟩).run PollState.empty slowPoll = some s ∧
      s.cache.empty 3 = some 0 ∧ s.cache.isEmpty 3 = false := by
  obtain ⟨s, hs, hreach, hp⟩ :=
    Machine.reachable_of_run (pollMachine ⟨fun _ => 1, id⟩) (init_pollEmpty _) slowPoll
      (fun s => s.cache.empty 3 == some 0 &&
        s.sys.queue.rows.any fun t => t.status == .queued && t.runtimeID == 3 &&
          decide (Notice.mk (s.queuedAt t.id) t.id t.runtimeID ∈ s.bumped)) (by decide)
  simp only [Bool.and_eq_true, List.any_eq_true, beq_iff_eq, decide_eq_true_eq] at hp
  rcases hp with ⟨hverdict, t, ht, ⟨hqueued, hruntime⟩, hannounced⟩
  exact ⟨s, hs, hverdict, hruntime ▸ not_isEmpty_of_queued hreach ht hqueued hannounced⟩

/-- Without the row the verdict is a hit. -/
example :
    (((pollMachine ⟨fun _ => 1, id⟩).run PollState.empty
      [.claimTasksForRuntimes 0 [3], .isEmpty 0, .currentVersion 0,
        .listQueuedClaimCandidates 0 [], .markEmpty 0]).any fun s => s.cache.isEmpty 3) = true := by
  decide

end Orynx.Task
