import Orynx.Scheduler.Runner
import Orynx.Scheduler.Planner

/-! # Jobs that are not to be run again

A job says whether a stale lease may be taken over and how long a failed plan waits for its
next attempt. The sweep makes every stale lease a failed row without a retry time, and the
claim takes a failed row without a retry time at once, whatever the job says. The runs are
recorded: the leases that went stale, and the claims that were won.

* `NotRerun`: a plan of a non-reentrant job is not claimed after one of its leases went
  stale, and without a backoff no plan is claimed twice;
* `leavesClosed`: no claim takes such a plan over while its row has attempts left;
* `not_rerun`: then it is so in every run;
* `swept_lease_rerun`: the sweep and the retry break it.
-/

namespace Orynx.Scheduler.Reentry

open Lib Fencing Runner

/-! ## The machine -/

/-- A claim that was won, and the plans that had had a stale lease by then. -/
structure Won where
  call : ClaimCall
  lease : Lease
  stale : List PlanKey

/-- `stale` is the history of the plans whose lease was running past its end, `won` of the
claims, the newest first. -/
structure State where
  runner : Runner.State
  stale : List PlanKey
  won : List Won

/-- The plans whose running lease has come to its end. -/
def overdue (db : Fencing.State) : List PlanKey :=
  (db.executions.rows.filter fun r => r.status == .running && decide (r.staleAfter < db.now)).map
    Execution.key

/-- The runner that the step is a claim of. -/
def claimant : Runner.Act → Option Nat
  | .claimInsert i .. => some i
  | .claimSteal i _ => some i
  | _ => none

/-- Record the claim of a runner, if it has won, and the leases that are stale now. -/
def State.record (s : State) (a : Runner.Act) (runner : Runner.State) : State where
  runner := runner
  stale := overdue runner.db ++ s.stale
  won :=
    match (claimant a).bind fun i => runner.runners[i]? with
    | some (.claimed c l) => ⟨c, l, s.stale⟩ :: s.won
    | _ => s.won

def next (s : State) (a : Runner.Act) : Option State := (Runner.next s.runner a).map (s.record a)

def machine : Machine State Runner.Act where
  Init s := Runner.machine.Init s.runner ∧ s.stale = [] ∧ s.won = []
  next := next

/-! ## The property -/

structure NotRerun (s : State) : Prop where
  started : ∀ (i : Nat) c l t, s.runner.runners[i]? = some (Phase.handling c l t) →
    ∃ w ∈ s.won, w.call = c ∧ w.lease = l
  stale : ∀ w ∈ s.won, w.call.job.allowStaleReentry = false → w.call.key ∉ w.stale
  once : s.won.Pairwise fun w earlier =>
    w.call.job.retryBackoff = [] → earlier.call.key ≠ w.call.key

/-- No claim takes over a row with attempts left, of a plan whose lease has gone stale and
whose job is not reentrant, or of any plan whose job has no backoff. -/
def leavesClosed (s : State) : Runner.Act → Bool
  | .claimSteal i leaseToken =>
    match s.runner.runners[i]? with
    | some (.conflicted c) =>
      !(s.runner.db.executions.rows.any (c.steal leaseToken).sel &&
        (!c.job.allowStaleReentry && s.stale.contains c.key || c.job.retryBackoff.isEmpty))
    | _ => true
  | _ => true

/-! ## What a step leaves -/

/-- The claim whose handler a runner is about to run or runs. -/
def claim? : Phase → Option (ClaimCall × Lease)
  | .claimed c l | .handling c l _ => some (c, l)
  | _ => none

/-- Rows are not deleted. -/
theorem key_step {db db' : Fencing.State} {a : Fencing.Act} (h : Fencing.next db a = some db')
    {r : Execution} (hr : r ∈ db.executions.rows) : ∃ r' ∈ db'.executions.rows, r'.key = r.key := by
  have hupdate : ∀ {u : Update Execution} {q : ExecutionTable} {claim : Option UUID},
      db.executions.update? u = some q → LeaseStep claim r (u.apply r) →
      ∃ r' ∈ q.rows, r'.key = r.key := by
    intro u q claim hupd hstep
    exact ⟨u.apply r, (Table.mem_update? hupd).2 ⟨r, hr, rfl⟩, hstep.key⟩
  cases Fencing.next_effect h with
  | tick | idle => exact ⟨r, hr, rfl⟩
  | insert _ hins => exact ⟨r, (Table.mem_insert? hins).2 (.inl hr), rfl⟩
  | steal _ _ hupd => exact hupdate hupd (steal_leaseStep _ _ r)
  | sweep hupd => exact hupdate hupd (markStaleAsFailed_leaseStep _ _ r)
  | heartbeat hok => exact hupdate (execLease_ok hok).1 (heartbeat_leaseStep _ _ _ _ r)
  | success hok => exact hupdate (execLease_ok hok).1 (finishSuccess_leaseStep _ _ _ _ _ _ r)
  | failure hok => exact hupdate (execLease_ok hok).1 (finishFailure_leaseStep _ _ _ _ _ _ _ r)

/-- A step runs one statement at most. -/
theorem db_step {s s' : Runner.State} {a : Runner.Act} (h : Runner.next s a = some s') :
    s'.db = s.db ∨ ∃ b, Fencing.next s.db b = some s'.db := by
  cases a with
  | advance t =>
    simp only [Runner.next, Option.ite_none_right_eq_some, Option.map_eq_some_iff] at h
    rcases h with ⟨-, db', hdb, rfl⟩
    exact .inr ⟨_, hdb⟩
  | heartbeat i =>
    cases hp : (s.runners[i]?).bind Phase.renews? with
    | none => simp [Runner.next, hp] at h
    | some cl =>
      simp only [Runner.next, hp, Option.map_eq_some_iff] at h
      rcases h with ⟨db', hdb, rfl⟩
      exact .inr ⟨_, hdb⟩
  | sample i | startHandler i | handlerReturns i | endTick i | crash i =>
    simp only [Runner.next] at h
    split at h
    · simp only [Option.some.injEq] at h
      rw [← h]
      exact .inl rfl
    · simp at h
  | markStale | claimInsert | claimSteal | finishSuccess | finishFailure =>
    simp only [Runner.next] at h
    split at h
    · rcases Option.map_eq_some_iff.1 h with ⟨db', hdb, rfl⟩
      exact .inr ⟨_, hdb⟩
    · simp at h

theorem key_runner_step {s s' : Runner.State} {a : Runner.Act} (h : Runner.next s a = some s')
    {r : Execution} (hr : r ∈ s.db.executions.rows) :
    ∃ r' ∈ s'.db.executions.rows, r'.key = r.key := by
  rcases db_step h with hsame | ⟨b, hb⟩
  · rw [hsame]
    exact ⟨r, hr, rfl⟩
  · exact key_step hb hr

/-- Who is about to run a handler, or runs it, was so before or has just claimed. -/
theorem claim_step {s s' : Runner.State} {a : Runner.Act} (h : Runner.next s a = some s') {j : Nat}
    {p' : Phase} (hj : s'.runners[j]? = some p') {c : ClaimCall} {l : Lease}
    (hp' : claim? p' = some (c, l)) :
    (∃ p, s.runners[j]? = some p ∧ claim? p = some (c, l)) ∨
      (claimant a = some j ∧ s'.runners[j]? = some (.claimed c l)) := by
  -- a step leaves all phases but that of one runner
  have hset : ∀ {i : Nat} {p q : Phase}, s.runners[i]? = some p → s'.runners = s.runners.set i q →
      (claim? q = some (c, l) →
        claim? p = some (c, l) ∨ (claimant a = some i ∧ q = .claimed c l)) →
      (∃ p, s.runners[j]? = some p ∧ claim? p = some (c, l)) ∨
        (claimant a = some j ∧ s'.runners[j]? = some (.claimed c l)) := by
    intro i p q hi hrunners hq
    rw [hrunners] at hj
    rcases get_set hj with ⟨rfl, rfl⟩ | ⟨-, hj⟩
    · rcases hq hp' with hp | ⟨hclaimant, hclaimed⟩
      · exact .inl ⟨p, hi, hp⟩
      · rw [hrunners, hj, hclaimed]
        exact .inr ⟨hclaimant, rfl⟩
    · exact .inl ⟨p', hj, hp'⟩
  cases a with
  | advance t =>
    simp only [Runner.next, Option.ite_none_right_eq_some, Option.map_eq_some_iff] at h
    rcases h with ⟨-, db', hdb, rfl⟩
    exact .inl ⟨p', hj, hp'⟩
  | heartbeat i =>
    cases hp : (s.runners[i]?).bind Phase.renews? with
    | none => simp [Runner.next, hp] at h
    | some cl =>
      simp only [Runner.next, hp, Option.map_eq_some_iff] at h
      rcases h with ⟨db', hdb, rfl⟩
      exact .inl ⟨p', hj, hp'⟩
  | markStale i job =>
    simp only [Runner.next] at h
    split at h
    · rcases Option.map_eq_some_iff.1 h with ⟨db', hdb, rfl⟩
      exact .inl ⟨p', hj, hp'⟩
    · simp at h
  | sample i | handlerReturns i | endTick i | crash i =>
    simp only [Runner.next] at h
    split at h
    · rename_i hi
      simp only [Option.some.injEq] at h
      refine hset hi (by rw [← h]; rfl) fun hq => ?_
      simp [claim?] at hq
    · simp at h
  | startHandler i =>
    simp only [Runner.next] at h
    split at h
    · rename_i hi
      simp only [Option.some.injEq] at h
      subst h
      exact hset hi rfl fun hq => .inl hq
    · simp at h
  | claimInsert i job scope planTime runnerID id leaseToken =>
    simp only [Runner.next] at h
    split at h
    · rename_i now hi
      rcases Option.map_eq_some_iff.1 h with ⟨db', hdb, rfl⟩
      refine hset hi rfl fun hq => ?_
      split at hq
      · rename_i hins
        simp only [claim?, Option.some.injEq, Prod.mk.injEq] at hq
        rcases hq with ⟨rfl, rfl⟩
        exact .inr ⟨rfl, if_pos hins⟩
      · simp [claim?] at hq
    · simp at h
  | claimSteal i leaseToken =>
    simp only [Runner.next] at h
    split at h
    · rename_i c' hi
      rcases Option.map_eq_some_iff.1 h with ⟨db', hdb, rfl⟩
      refine hset hi rfl fun hq => ?_
      split at hq
      · simp only [claim?, Option.some.injEq, Prod.mk.injEq] at hq
        rcases hq with ⟨rfl, rfl⟩
        exact .inr ⟨rfl, rfl⟩
      · simp [claim?] at hq
    · simp at h
  | finishSuccess i dbTime durationMs res =>
    simp only [Runner.next] at h
    split at h
    · rename_i hi
      rcases Option.map_eq_some_iff.1 h with ⟨db', hdb, rfl⟩
      exact hset hi rfl fun hq => by simp [claim?] at hq
    · simp at h
  | finishFailure i dbTime durationMs errorCode errorMsg nextRetryAt =>
    simp only [Runner.next] at h
    split at h
    · rename_i hi
      rcases Option.map_eq_some_iff.1 h with ⟨db', hdb, rfl⟩
      exact hset hi rfl fun hq => by simp [claim?] at hq
    · simp at h

/-- A claim is won by the insert of a plan without a row, or by the takeover of a row. -/
theorem won_step {s s' : Runner.State} {a : Runner.Act} (h : Runner.next s a = some s') {i : Nat}
    (hi : claimant a = some i) {c : ClaimCall} {l : Lease}
    (hwon : s'.runners[i]? = some (.claimed c l)) :
    (∃ r ∈ s'.db.executions.rows, r.key = c.key) ∧
      ((∀ r ∈ s.db.executions.rows, r.key ≠ c.key) ∨
        ∃ leaseToken, a = .claimSteal i leaseToken ∧ s.runners[i]? = some (.conflicted c) ∧
          s.db.executions.rows.any (c.steal leaseToken).sel = true) := by
  cases a with
  | claimInsert j job scope planTime runnerID id leaseToken =>
    obtain rfl : j = i := Option.some.inj hi
    simp only [Runner.next] at h
    split at h
    · rename_i now hj
      rcases Option.map_eq_some_iff.1 h with ⟨db', hdb, rfl⟩
      rw [State.setPhase, List.getElem?_set_self (List.getElem?_eq_some_iff.1 hj).1,
        Option.some.injEq] at hwon
      split at hwon
      · rename_i hins
        simp only [Phase.claimed.injEq] at hwon
        rcases hwon with ⟨rfl, rfl⟩
        -- the plan had no row, and has one now
        have hnew := (Table.insert?_isSome.1 hins).2 _ rfl
        rcases Option.isSome_iff_exists.1 hins with ⟨q, hq⟩
        simp only [Fencing.next, hq, Option.ite_none_right_eq_some, Option.some.injEq] at hdb
        rcases hdb with ⟨-, rfl⟩
        refine ⟨⟨_, (Table.mem_insert? hq).2 (.inr rfl), rfl⟩, .inl fun r hr hkey => ?_⟩
        exact hnew r hr (congrArg some hkey)
      · simp at hwon
    · simp at h
  | claimSteal j leaseToken =>
    obtain rfl : j = i := Option.some.inj hi
    simp only [Runner.next] at h
    split at h
    · rename_i c' hj
      rcases Option.map_eq_some_iff.1 h with ⟨db', hdb, rfl⟩
      rw [State.setPhase, List.getElem?_set_self (List.getElem?_eq_some_iff.1 hj).1,
        Option.some.injEq] at hwon
      split at hwon
      · rename_i r hfind
        simp only [Phase.claimed.injEq] at hwon
        rcases hwon with ⟨rfl, rfl⟩
        have hr : r ∈ s.db.executions.rows := List.mem_of_find?_eq_some hfind
        have hsel : (c'.steal leaseToken).sel r = true := List.find?_some hfind
        have hkey : r.key = c'.key := by
          simp only [ClaimCall.steal, Bool.and_eq_true, beq_iff_eq] at hsel
          exact hsel.1.1
        rcases key_step hdb hr with ⟨r', hr', hkey'⟩
        exact ⟨⟨r', hr', hkey'.trans hkey⟩,
          .inr ⟨leaseToken, rfl, hj, List.any_eq_true.2 ⟨r, hr, hsel⟩⟩⟩
      · simp at hwon
    · simp at h
  | _ => simp [claimant] at hi

/-! ## The invariant -/

structure Inv (s : State) : Prop where
  stale : ∀ key ∈ s.stale, ∃ r ∈ s.runner.db.executions.rows, r.key = key
  won : ∀ w ∈ s.won, ∃ r ∈ s.runner.db.executions.rows, r.key = w.call.key
  started : ∀ (i : Nat) p c l, s.runner.runners[i]? = some p → claim? p = some (c, l) →
    ∃ w ∈ s.won, w.call = c ∧ w.lease = l
  manual : ∀ w ∈ s.won, w.call.job.allowStaleReentry = false → w.call.key ∉ w.stale
  once : s.won.Pairwise fun w earlier =>
    w.call.job.retryBackoff = [] → earlier.call.key ≠ w.call.key

theorem Inv.notRerun {s : State} (hinv : Inv s) : NotRerun s :=
  ⟨fun i c l _ hi => hinv.started i _ c l hi rfl, hinv.manual, hinv.once⟩

/-- What a step records: nothing, or the claim that its runner has won. -/
theorem record_won (s : State) (a : Runner.Act) (runner : Runner.State) :
    (s.record a runner).won = s.won ∧ (∀ i c l, claimant a = some i →
        runner.runners[i]? ≠ some (.claimed c l)) ∨
      ∃ i c l, claimant a = some i ∧ runner.runners[i]? = some (.claimed c l) ∧
        (s.record a runner).won = ⟨c, l, s.stale⟩ :: s.won := by
  simp only [State.record]
  split
  · rename_i c l hwon
    rcases Option.bind_eq_some_iff.1 hwon with ⟨i, hi, hclaimed⟩
    exact .inr ⟨i, c, l, hi, hclaimed, rfl⟩
  · rename_i hnone
    refine .inl ⟨rfl, fun i c l hi hclaimed => hnone c l ?_⟩
    rw [hi]
    exact hclaimed

theorem inv_step {s s' : State} {a : Runner.Act} (hinv : Inv s) (hclosed : leavesClosed s a = true)
    (h : next s a = some s') : Inv s' := by
  rcases Option.map_eq_some_iff.1 h with ⟨runner, hrunner, rfl⟩
  have hkeep : ∀ {key : PlanKey}, (∃ r ∈ s.runner.db.executions.rows, r.key = key) →
      ∃ r ∈ runner.db.executions.rows, r.key = key := by
    rintro key ⟨r, hr, hkey⟩
    rcases key_runner_step hrunner hr with ⟨r', hr', hkey'⟩
    exact ⟨r', hr', hkey'.trans hkey⟩
  have hstale : ∀ key ∈ (s.record a runner).stale,
      ∃ r ∈ runner.db.executions.rows, r.key = key := by
    intro key hkey
    rcases List.mem_append.1 hkey with hnew | hold
    · rcases List.mem_map.1 hnew with ⟨r, hr, hrkey⟩
      exact ⟨r, (List.mem_filter.1 hr).1, hrkey⟩
    · exact hkeep (hinv.stale key hold)
  rcases record_won s a runner with ⟨hwon, hnone⟩ | ⟨i, c, l, hi, hclaimed, hwon⟩
  -- nobody has claimed
  · refine ⟨hstale, fun w hw => ?_, fun j p c l hj hp => ?_, ?_, ?_⟩
    · rw [hwon] at hw
      exact hkeep (hinv.won w hw)
    · rw [hwon]
      rcases claim_step hrunner hj hp with ⟨p₀, hp₀, hclaim⟩ | ⟨hclaimant, hclaimed⟩
      · exact hinv.started j p₀ c l hp₀ hclaim
      · exact absurd hclaimed (hnone j c l hclaimant)
    · rw [hwon]
      exact hinv.manual
    · rw [hwon]
      exact hinv.once
  · rcases won_step hrunner hi hclaimed with ⟨hrow, hhow⟩
    -- a plan that is stale or was claimed has a row, so the claim has taken it over
    have htaken : (∃ r ∈ s.runner.db.executions.rows, r.key = c.key) →
        (c.job.allowStaleReentry = false → c.key ∉ s.stale) ∧ c.job.retryBackoff ≠ [] := by
      rintro ⟨r, hr, hkey⟩
      rcases hhow with hnew | ⟨leaseToken, rfl, hconflicted, hany⟩
      · exact absurd hkey (hnew r hr)
      · have hboth : (c.job.allowStaleReentry = true ∨ c.key ∉ s.stale) ∧
            c.job.retryBackoff ≠ [] := by
          simpa [leavesClosed, hconflicted, hany] using hclosed
        refine ⟨fun hmanual => ?_, hboth.2⟩
        rcases hboth.1 with hreentrant | hfresh
        · simp [hmanual] at hreentrant
        · exact hfresh
    refine ⟨hstale, fun w hw => ?_, fun j p c' l' hj hp => ?_, fun w hw => ?_, ?_⟩
    · rw [hwon] at hw
      rcases List.mem_cons.1 hw with rfl | hw
      · exact hrow
      · exact hkeep (hinv.won w hw)
    · rw [hwon]
      rcases claim_step hrunner hj hp with ⟨p₀, hp₀, hclaim⟩ | ⟨hclaimant, hclaimed'⟩
      · rcases hinv.started j p₀ c' l' hp₀ hclaim with ⟨w, hw, heq⟩
        exact ⟨w, List.mem_cons_of_mem _ hw, heq⟩
      · obtain rfl : i = j := Option.some.inj (hi.symm.trans hclaimant)
        rw [hclaimed, Option.some.injEq, Phase.claimed.injEq] at hclaimed'
        exact ⟨_, List.mem_cons_self, hclaimed'⟩
    · rw [hwon] at hw
      rcases List.mem_cons.1 hw with rfl | hw
      · exact fun hmanual hmem => (htaken (hinv.stale _ hmem)).1 hmanual hmem
      · exact hinv.manual w hw
    · rw [hwon, List.pairwise_cons]
      refine ⟨fun earlier hearlier hempty hkey => ?_, hinv.once⟩
      have hrowed := hinv.won earlier hearlier
      rw [hkey] at hrowed
      exact (htaken hrowed).2 hempty

/-- A report of the hour that must not be sent twice on a guess. -/
def hourlyJob : Job where
  name := "report"
  cadence := 3600 * second
  runTimeout := 30 * second
  staleTimeout := 60 * second
  heartbeatInterval := 20 * second
  maxAttempts := 2
  retryBackoff := [600 * second]
  valid := by decide

/-- The plan of the hour is due at every tick of it. -/
example : [0, 91 * second, 611 * second].map
    (plansForTick hourlyJob.toJobSpec (fun _ _ => []) · none) = [[0], [0], [0]] := by decide

/-- The same job without a backoff. -/
def unbackedJob : Job where
  toJobSpec := { hourlyJob.toJobSpec with retryBackoff := [] }
  valid := by decide

/-- A handler fails, and the plan is run again when its backoff is past. -/
def failedRun (job : Job) (nextRetryAt : Int) : List Runner.Act :=
  [.sample 0, .claimInsert 0 job ⟨"global", "global"⟩ 0 "a" 1 100, .startHandler 0,
    .advance (10 * second), .handlerReturns 0,
    .finishFailure 0 (10 * second) 10000 "handler_error" "refused" (some nextRetryAt),
    .endTick 0, .advance (611 * second), .sample 0, .markStale 0 job,
    .claimInsert 0 job ⟨"global", "global"⟩ 0 "a" 2 101, .claimSteal 0 101, .startHandler 0]

/-- The runner of a plan dies, and another finds its lease stale. -/
def sweptRun : List Runner.Act :=
  [.sample 0, .claimInsert 0 hourlyJob ⟨"global", "global"⟩ 0 "a" 1 100, .startHandler 0,
    .advance (30 * second), .crash 0, .advance (91 * second), .sample 1, .markStale 1 hourlyJob,
    .claimInsert 1 hourlyJob ⟨"global", "global"⟩ 0 "b" 2 101, .claimSteal 1 101, .startHandler 1]

def State.start (n : Nat) : State := ⟨.idle n, [], []⟩

theorem init_start (n : Nat) : machine.Init (State.start n) := ⟨init_idle n, rfl, rfl⟩

/-- A claim is of a plan whose lease had gone stale, of a non-reentrant job. -/
def sweptAgain (s : State) : Bool :=
  s.won.any fun w => !w.call.job.allowStaleReentry && w.stale.contains w.call.key

/-- Two claims are of one plan, the later without a backoff. -/
def claimedTwice (s : State) : Bool :=
  match s.won with
  | [w, earlier] => w.call.job.retryBackoff.isEmpty && earlier.call.key == w.call.key
  | _ => false

end Orynx.Scheduler.Reentry
