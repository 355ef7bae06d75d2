import Orynx.Scheduler.Fencing
import Orynx.Scheduler.Planner

/-! # Failed plans and the planner

Any number of ticks of one job work on the rows of `sys_cron_executions`. A tick has read
the clock, asks the planner about a scope and then tries the answered plans one after
another, while other ticks retry, sweep and end rows.

* `NoneStranded`: no answer and no claim goes past a failed row in the window with attempts
  left, and once its retry is due such a row is answered;
* `staysBehind`: the planner is not asked where `passesRetry`, and a row with attempts left
  fails only while it is the newest, with no later plan under way;
* `none_stranded`: then it is so in every run;
* `backoff_strands`: a backoff that outlasts the distance to the next occurrence breaks it.
-/

namespace Orynx.Scheduler.Stranded

open Lib

/-! ## The machine -/

/-- What is left to do for a scope in a tick that read the clock at `now`. -/
structure Tick where
  now : Int
  scope : Scope
  plans : List Int
deriving DecidableEq, Repr

/-- A call of the planner: its time, the rows of the scope then, and the answer. -/
structure Answer where
  at_ : Int
  rows : List Execution
  plans : List Int
deriving DecidableEq, Repr

structure State where
  db : Fencing.State
  ticks : List Tick
  answers : List Answer

/-- `plan` asks about a scope with an earlier reading of the clock and what the trigger
cache holds then; `process` tries the next plan of a tick. -/
inductive Act where
  | db (a : Fencing.Act)
  | plan (now : Int) (scope : Scope) (cfg : Option TriggerConfig)
  | process (i : Nat) (runnerID : String) (id leaseToken : UUID)
  | crash (i : Nat)

section

variable (job : Job) (parse : CronParser)

/-- The rows of the job in a scope. -/
def State.scopeRows (s : State) (scope : Scope) : List Execution :=
  Scheduler.scopeRows s.db.executions job.name scope

/-- The answer of `plansForTick` in the state. -/
def State.plansForTick (s : State) (now : Int) (scope : Scope) (cfg : Option TriggerConfig) :
    List Int :=
  Scheduler.plansForTick job.toJobSpec (autopilotPlansForScope parse cfg) now
    (latestPlan (s.scopeRows job scope))

def next (s : State) : Act → Option State
  | .db (.claimInsert ..) => none -- only a tick claims
  | .db a => (Fencing.next s.db a).map fun db => { s with db := db }
  | .plan now scope cfg =>
    if now ≤ s.db.now then
      let plans := s.plansForTick job parse now scope cfg
      some { s with
        ticks := s.ticks ++ [⟨now, scope, plans⟩]
        answers := ⟨s.db.now, s.scopeRows job scope, plans⟩ :: s.answers }
    else none
  | .process i runnerID id leaseToken =>
    match s.ticks[i]? with
    | some ⟨now, scope, planTime :: plans⟩ =>
      (Fencing.next s.db (.claimInsert ⟨job, scope, planTime, now, runnerID⟩ id leaseToken)).map
        fun db => { s with db := db, ticks := s.ticks.set i ⟨now, scope, plans⟩ }
    | _ => none
  | .crash i => some { s with ticks := s.ticks.eraseIdx i }

def machine : Machine State Act where
  Init s := Fencing.machine.Init s.db ∧ s.ticks = [] ∧ s.answers = []
  next := next job parse

/-! ## The property -/

structure NoneStranded (s : State) : Prop where
  answers : ∀ a ∈ s.answers, ∀ r ∈ a.rows, job.waiting a.at_ r = true →
    ∀ p ∈ a.plans, p ≤ r.key.planTime
  claims : ∀ scope, ∀ r ∈ s.scopeRows job scope, job.waiting s.db.now r = true →
    ∀ r' ∈ s.scopeRows job scope, r'.key.planTime ≤ r.key.planTime
  offered : ∀ scope, ∀ r ∈ s.scopeRows job scope, job.waiting s.db.now r = true →
    r.info.retryEligible s.db.now = true → ∀ cfg : Option TriggerConfig, cfg.isSome →
      r.key.planTime ∈ s.plansForTick job parse s.db.now scope cfg

/-! ## The condition -/

/-- A later plan of the scope is claimed, or a tick is about to claim one. -/
def State.ahead (s : State) (r : Execution) : Bool :=
  (s.scopeRows job r.key.scope).any (fun r' => decide (r.key.planTime < r'.key.planTime)) ||
    s.ticks.any fun t =>
      t.scope == r.key.scope && t.plans.any fun p => decide (r.key.planTime < p)

/-- No selected row that may still be retried has a later plan ahead. -/
def State.failsLast (s : State) (u : Update Execution) : Bool :=
  s.db.executions.rows.all fun r =>
    !(r.key.jobName == job.name && u.sel r && job.waiting s.db.now (u.set r) && s.ahead job r)

/-- The statement that makes rows fail. -/
def failing : Fencing.Act → Option (Update Execution)
  | .markStaleAsFailed jobName dbTime => some (Scheduler.markStaleAsFailed jobName dbTime)
  | .finishFailure id leaseToken dbTime durationMs errorCode errorMsg nextRetryAt =>
    some (finishFailureStmt id leaseToken dbTime durationMs errorCode errorMsg nextRetryAt)
  | _ => none

def staysBehind (s : State) : Act → Bool
  | .plan now scope cfg =>
    (newest (s.scopeRows job scope)).all fun r =>
      !(job.waiting s.db.now r && job.passesRetry parse cfg now r)
  | .db a => (failing a).all (s.failsLast job)
  | _ => true

end

/-! ## The invariant -/

variable {job : Job} {parse : CronParser}

theorem mem_scopeRows {s : State} {scope : Scope} {r : Execution} :
    r ∈ s.scopeRows job scope ↔
      r ∈ s.db.executions.rows ∧ r.key.jobName = job.name ∧ r.key.scope = scope := by
  simp [State.scopeRows, Scheduler.scopeRows]

theorem ahead_eq_false {s : State} {r : Execution} : s.ahead job r = false ↔
    (∀ r' ∈ s.scopeRows job r.key.scope, r'.key.planTime ≤ r.key.planTime) ∧
      ∀ t ∈ s.ticks, t.scope = r.key.scope → ∀ p ∈ t.plans, p ≤ r.key.planTime := by
  simp [State.ahead, List.any_eq_false, Bool.or_eq_false_iff]

variable (job) in
structure Inv (s : State) : Prop where
  answers : ∀ a ∈ s.answers, ∀ r ∈ a.rows, job.waiting a.at_ r = true →
    ∀ p ∈ a.plans, p ≤ r.key.planTime
  behind : ∀ r ∈ s.db.executions.rows, r.key.jobName = job.name →
    job.waiting s.db.now r = true → s.ahead job r = false
  rowsDue : job.plansForScope = false → ∀ r ∈ s.db.executions.rows, r.key.jobName = job.name →
    r.key.planTime ≤ job.latestDue s.db.now
  plansDue : job.plansForScope = false → ∀ t ∈ s.ticks, ∀ p ∈ t.plans,
    p ≤ job.latestDue s.db.now

/-- A waiting row is what the planner sees. -/
theorem Inv.newest_eq {s : State} (hinv : Inv job s) {scope : Scope} {r : Execution}
    (hr : r ∈ s.scopeRows job scope) (hwaiting : job.waiting s.db.now r = true) :
    newest (s.scopeRows job scope) = some r := by
  rcases mem_scopeRows.1 hr with ⟨hrow, hname, hscope⟩
  cases hnewest : newest (s.scopeRows job scope) with
  | none =>
    rw [newest_eq_none.1 hnewest] at hr
    simp at hr
  | some b =>
    rcases newest_eq_some hnewest with ⟨hb, hmax⟩
    have hlast := (ahead_eq_false.1 (hinv.behind r hrow hname hwaiting)).1 b (by rw [hscope]; exact hb)
    have hle := hmax r hr
    rcases mem_scopeRows.1 hb with ⟨hbrow, hbname, hbscope⟩
    -- nothing is ahead of the waiting row, so the newest has its plan time too
    have hkey : b.key = r.key := by
      cases hbk : b.key
      cases hrk : r.key
      simp only [hbk, hrk] at hlast hle hname hscope hbname hbscope
      simp only [PlanKey.mk.injEq]
      exact ⟨hbname.trans hname.symm, hbscope.trans hscope.symm, Int.le_antisymm hlast hle⟩
    rw [eq_of_planKey hbrow hrow hkey]

theorem Inv.noneStranded (hmode : job.plansForScope = true ∨ job.catchUpMode = .everyPlan)
    {s : State} (hinv : Inv job s) : NoneStranded job parse s := by
  refine ⟨hinv.answers, fun scope r hr hwaiting r' hr' => ?_,
    fun scope r hr hwaiting heligible cfg hcfg => ?_⟩
  · rcases mem_scopeRows.1 hr with ⟨hrow, hname, hscope⟩
    refine (ahead_eq_false.1 (hinv.behind r hrow hname hwaiting)).1 r' ?_
    rw [hscope]
    exact hr'
  · rcases mem_scopeRows.1 hr with ⟨hrow, hname, -⟩
    have hnewest := hinv.newest_eq hr hwaiting
    rw [State.plansForTick, latestPlan, hnewest]
    exact mem_plansForTick hmode hwaiting (fun hhook => hinv.rowsDue hhook r hrow hname) hcfg
      heligible

/-! ## The steps -/

/-- A statement that claims no new plan keeps the plans, and only a failing one makes rows
fail. -/
theorem db_rows {db db' : Fencing.State} {a : Fencing.Act} (h : Fencing.next db a = some db')
    (hclaim : ∀ c id leaseToken, a ≠ .claimInsert c id leaseToken) :
    db.now ≤ db'.now ∧ ∀ r' ∈ db'.executions.rows, ∃ r ∈ db.executions.rows, r'.key = r.key ∧
      (r' = r ∨ r'.status ≠ .failed ∨
        ∃ u, failing a = some u ∧ u.sel r = true ∧ r' = u.set r) := by
  have hupdate : ∀ {u : Update Execution} {q : ExecutionTable} {claim : Option UUID},
      db.executions.update? u = some q → (∀ r, LeaseStep claim r (u.apply r)) →
      (failing a = some u ∨ ∀ r, u.sel r = true → (u.set r).status ≠ .failed) → ∀ r' ∈ q.rows,
        ∃ r ∈ db.executions.rows, r'.key = r.key ∧ (r' = r ∨ r'.status ≠ .failed ∨
          ∃ u, failing a = some u ∧ u.sel r = true ∧ r' = u.set r) := by
    intro u q claim hupd hstep hfails r' hr'
    rcases (Table.mem_update? hupd).1 hr' with ⟨r, hr, rfl⟩
    refine ⟨r, hr, (hstep r).key, ?_⟩
    cases hsel : u.sel r with
    | false => exact .inl (Update.apply_of_not_sel hsel)
    | true =>
      rw [Update.apply_of_sel hsel]
      rcases hfails with hfails | hfails
      · exact .inr (.inr ⟨u, hfails, hsel, rfl⟩)
      · exact .inr (.inl (hfails r hsel))
  cases Fencing.next_effect h with
  | tick hlater => exact ⟨hlater, fun r hr => ⟨r, hr, rfl, .inl rfl⟩⟩
  | idle => exact ⟨Int.le_refl _, fun r hr => ⟨r, hr, rfl, .inl rfl⟩⟩
  | insert => exact absurd rfl (hclaim _ _ _)
  | steal _ _ hupd =>
    exact ⟨Int.le_refl _, hupdate hupd (steal_leaseStep _ _)
      (.inr fun _ _ => by simp [ClaimCall.steal])⟩
  | sweep hupd =>
    exact ⟨Int.le_refl _, hupdate hupd (markStaleAsFailed_leaseStep _ _) (.inl rfl)⟩
  | heartbeat hok =>
    refine ⟨Int.le_refl _, hupdate (Fencing.execLease_ok hok).1
      (Fencing.heartbeat_leaseStep _ _ _ _) (.inr fun r hsel => ?_)⟩
    -- the row is open and stays so
    simp only [heartbeatStmt, leaseGuard, Bool.and_eq_true, beq_iff_eq] at hsel ⊢
    simp [hsel.2]
  | success hok =>
    exact ⟨Int.le_refl _, hupdate (Fencing.execLease_ok hok).1
      (Fencing.finishSuccess_leaseStep _ _ _ _ _ _) (.inr fun _ _ => by simp [finishSuccessStmt])⟩
  | failure hok =>
    exact ⟨Int.le_refl _, hupdate (Fencing.execLease_ok hok).1
      (Fencing.finishFailure_leaseStep _ _ _ _ _ _ _) (.inl rfl)⟩

/-- Nothing comes ahead of a row when claimed plans were claimed or planned before, and
planned ones were planned before. -/
theorem ahead_mono {s s' : State} {r r' : Execution}
    (hrows : ∀ x' ∈ s'.db.executions.rows, (∃ x ∈ s.db.executions.rows, x'.key = x.key) ∨
      ∃ t ∈ s.ticks, t.scope = x'.key.scope ∧ x'.key.planTime ∈ t.plans)
    (hticks : ∀ t' ∈ s'.ticks, ∀ p ∈ t'.plans, ∃ t ∈ s.ticks, t.scope = t'.scope ∧ p ∈ t.plans)
    (hkey : r'.key = r.key) (h : s.ahead job r = false) : s'.ahead job r' = false := by
  rw [ahead_eq_false] at h ⊢
  rw [hkey]
  rcases h with ⟨hlast, hplans⟩
  -- a claimed plan was claimed or planned before, a planned one was planned before
  constructor
  · intro x' hx'
    rcases mem_scopeRows.1 hx' with ⟨hrow', hname, hscope⟩
    rcases hrows x' hrow' with ⟨x, hx, hxkey⟩ | ⟨t, ht, htscope, hp⟩
    · rw [hxkey] at hname hscope ⊢
      exact hlast x (mem_scopeRows.2 ⟨hx, hname, hscope⟩)
    · exact hplans t ht (htscope.trans hscope) _ hp
  · intro t' ht' hscope p hp
    rcases hticks t' ht' p hp with ⟨t, ht, htscope, hpt⟩
    exact hplans t ht (htscope.trans hscope) p hpt

theorem inv_db {s : State} (hinv : Inv job s) {db' : Fencing.State} {a : Fencing.Act}
    (h : Fencing.next s.db a = some db')
    (hclaim : ∀ c id leaseToken, a ≠ .claimInsert c id leaseToken)
    (hstays : (failing a).all (s.failsLast job) = true) : Inv job { s with db := db' } := by
  rcases db_rows h hclaim with ⟨hnow, hrows⟩
  have hkeys : ∀ x' ∈ db'.executions.rows, ∃ x ∈ s.db.executions.rows, x'.key = x.key := by
    intro x' hx'
    rcases hrows x' hx' with ⟨x, hx, hkey, -⟩
    exact ⟨x, hx, hkey⟩
  constructor
  · exact hinv.answers
  · intro r' hr' hname hwaiting
    rcases hrows r' hr' with ⟨r, hr, hkey, hfrom⟩
    have hwas : job.waiting s.db.now r' = true := job.waiting_mono hnow hwaiting
    refine ahead_mono (s := s) (fun x' hx' => .inl (hkeys x' hx'))
      (fun t ht p hp => ⟨t, ht, rfl, hp⟩) hkey ?_
    rcases hfrom with rfl | hstatus | ⟨u, hu, hsel, rfl⟩
    · exact hinv.behind r' hr hname hwas
    · simp [JobSpec.waiting, hstatus] at hwaiting
    · -- the row fails in this step
      rw [hu, Option.all_some] at hstays
      have hlast := List.all_eq_true.1 hstays r hr
      rw [hkey] at hname
      simpa [hname, hsel, hwas] using hlast
  · intro hhook r' hr' hname
    rcases hkeys r' hr' with ⟨r, hr, hkey⟩
    rw [hkey] at hname ⊢
    exact Int.le_trans (hinv.rowsDue hhook r hr hname) (job.latestDue_mono hnow)
  · intro hhook t ht p hp
    exact Int.le_trans (hinv.plansDue hhook t ht p hp) (job.latestDue_mono hnow)

/-- Every plan of the cadence planner is due. -/
theorem le_latestDue (hhook : job.plansForScope = false) (hmode : job.catchUpMode = .everyPlan)
    {hook : Int → Option LatestPlanInfo → List Int} {now : Int} {info : Option LatestPlanInfo} :
    ∀ p ∈ Scheduler.plansForTick job.toJobSpec hook now info, p ≤ job.latestDue now := by
  intro p hp
  simp only [Scheduler.plansForTick, hhook, hmode, Bool.false_eq_true, if_false] at hp
  split at hp
  · simp at hp
  · exact (mem_plansFrom (Job.everyPlan hhook hmode).1 hp).1

theorem inv_plan (hmode : job.plansForScope = true ∨ job.catchUpMode = .everyPlan) {s : State}
    (hinv : Inv job s) {now : Int} {scope : Scope} {cfg : Option TriggerConfig}
    (hnow : now ≤ s.db.now)
    (hstays : (newest (s.scopeRows job scope)).all (fun r =>
      !(job.waiting s.db.now r && job.passesRetry parse cfg now r)) = true) :
    Inv job { s with
      ticks := s.ticks ++ [⟨now, scope, s.plansForTick job parse now scope cfg⟩]
      answers := ⟨s.db.now, s.scopeRows job scope, s.plansForTick job parse now scope cfg⟩ ::
        s.answers } := by
  -- the planner sees the waiting row itself, and the condition says it does not pass it
  have hanswer : ∀ r ∈ s.scopeRows job scope, job.waiting s.db.now r = true →
      ∀ p ∈ s.plansForTick job parse now scope cfg, p ≤ r.key.planTime := by
    intro r hr hwaiting
    have hnewest := hinv.newest_eq hr hwaiting
    rw [hnewest, Option.all_some, hwaiting, Bool.true_and, Bool.not_eq_true'] at hstays
    rw [State.plansForTick, latestPlan, hnewest]
    exact plansForTick_le hmode (job.waiting_mono hnow hwaiting) hstays
  constructor
  · intro a ha
    rcases List.mem_cons.1 ha with rfl | ha
    · exact hanswer
    · exact hinv.answers a ha
  · intro r hr hname hwaiting
    have hbehind := ahead_eq_false.1 (hinv.behind r hr hname hwaiting)
    refine ahead_eq_false.2 ⟨hbehind.1, fun t ht hscope => ?_⟩
    rcases List.mem_append.1 ht with ht | ht
    · exact hbehind.2 t ht hscope
    · rw [List.mem_singleton] at ht
      subst ht
      exact hanswer r (mem_scopeRows.2 ⟨hr, hname, hscope.symm⟩) hwaiting
  · exact hinv.rowsDue
  · intro hhook t ht p hp
    rcases List.mem_append.1 ht with ht | ht
    · exact hinv.plansDue hhook t ht p hp
    · rw [List.mem_singleton] at ht
      subst ht
      have hevery : job.catchUpMode = .everyPlan := hmode.resolve_left (by simp [hhook])
      exact Int.le_trans (le_latestDue hhook hevery p hp) (job.latestDue_mono hnow)

/-- The tick goes on with the plans after the first. -/
theorem inv_process {s : State} (hinv : Inv job s) {i : Nat} {now planTime : Int} {scope : Scope}
    {plans : List Int} (hi : s.ticks[i]? = some ⟨now, scope, planTime :: plans⟩)
    {runnerID : String} {id leaseToken : UUID} {db' : Fencing.State}
    (h : Fencing.next s.db
      (.claimInsert ⟨job, scope, planTime, now, runnerID⟩ id leaseToken) = some db') :
    Inv job { s with db := db', ticks := s.ticks.set i ⟨now, scope, plans⟩ } := by
  have htick : ⟨now, scope, planTime :: plans⟩ ∈ s.ticks := List.mem_of_getElem? hi
  have hticks : ∀ t' ∈ s.ticks.set i ⟨now, scope, plans⟩, ∀ p ∈ t'.plans,
      ∃ t ∈ s.ticks, t.scope = t'.scope ∧ p ∈ t.plans := by
    intro t' ht' p hp
    rcases List.mem_or_eq_of_mem_set ht' with ht' | rfl
    · exact ⟨t', ht', rfl, hp⟩
    · exact ⟨_, htick, rfl, List.mem_cons_of_mem _ hp⟩
  -- the row that is inserted, if one is, is that of the plan
  have hrows : db'.now = s.db.now ∧ ∀ x ∈ db'.executions.rows, x ∈ s.db.executions.rows ∨
      x.key = ⟨job.name, scope, planTime⟩ ∧ x.status = .running := by
    cases Fencing.next_effect h with
    | idle => exact ⟨rfl, fun x hx => .inl hx⟩
    | insert _ hins =>
      refine ⟨rfl, fun x hx => ?_⟩
      rcases (Table.mem_insert? hins).1 hx with hx | rfl
      · exact .inl hx
      · exact .inr ⟨rfl, rfl⟩
  rcases hrows with ⟨hnow, hrows⟩
  constructor
  · exact hinv.answers
  · intro r hr hname hwaiting
    rcases hrows r hr with hold | ⟨-, hrunning⟩
    · -- what is claimed was planned, and no plan of a tick is ahead of the row
      have hwas : job.waiting s.db.now r = true := job.waiting_mono (Int.le_of_eq hnow.symm) hwaiting
      refine ahead_mono (s := s) (fun x hx => ?_) hticks rfl (hinv.behind r hold hname hwas)
      rcases hrows x hx with hx | ⟨hkey, -⟩
      · exact .inl ⟨x, hx, rfl⟩
      · refine .inr ⟨_, htick, ?_⟩
        rw [hkey]
        exact ⟨rfl, List.mem_cons_self⟩
    · simp [JobSpec.waiting, hrunning] at hwaiting
  · intro hhook r hr hname
    show r.key.planTime ≤ job.latestDue db'.now
    rw [hnow]
    rcases hrows r hr with hold | ⟨hkey, -⟩
    · exact hinv.rowsDue hhook r hold hname
    · rw [hkey]
      exact hinv.plansDue hhook _ htick planTime List.mem_cons_self
  · intro hhook t' ht' p hp
    rcases hticks t' ht' p hp with ⟨t, ht, -, hpt⟩
    show p ≤ job.latestDue db'.now
    rw [hnow]
    exact hinv.plansDue hhook t ht p hpt

theorem inv_crash {s : State} (hinv : Inv job s) (i : Nat) :
    Inv job { s with ticks := s.ticks.eraseIdx i } := by
  have hticks : ∀ t' ∈ s.ticks.eraseIdx i, t' ∈ s.ticks := fun t' => List.mem_of_mem_eraseIdx
  refine ⟨hinv.answers, fun r hr hname hwaiting => ?_, hinv.rowsDue, fun hhook t ht => ?_⟩
  · exact ahead_mono (s := s) (fun x hx => .inl ⟨x, hx, rfl⟩)
      (fun t ht p hp => ⟨t, hticks t ht, rfl, hp⟩) rfl (hinv.behind r hr hname hwaiting)
  · exact hinv.plansDue hhook t (hticks t ht)

theorem inv_step (hmode : job.plansForScope = true ∨ job.catchUpMode = .everyPlan)
    {s s' : State} {a : Act} (hinv : Inv job s) (hstays : staysBehind job parse s a = true)
    (h : next job parse s a = some s') : Inv job s' := by
  cases a with
  | db a =>
    cases hclaim : a with
    | claimInsert => simp [next, hclaim] at h
    | _ =>
      simp only [next, hclaim, Option.map_eq_some_iff] at h
      rcases h with ⟨db', hdb, rfl⟩
      exact inv_db hinv hdb (by simp) (by rw [← hclaim]; exact hstays)
  | plan now scope cfg =>
    simp only [next, Option.ite_none_right_eq_some, Option.some.injEq] at h
    rcases h with ⟨hnow, rfl⟩
    exact inv_plan hmode hinv hnow hstays
  | process i runnerID id leaseToken =>
    cases hi : s.ticks[i]? with
    | none => simp [next, hi] at h
    | some t =>
      rcases t with ⟨now, scope, _ | ⟨planTime, plans⟩⟩
      · simp [next, hi] at h
      · simp only [next, hi, Option.map_eq_some_iff] at h
        rcases h with ⟨db', hdb, rfl⟩
        exact inv_process hinv hi hdb
  | crash i =>
    simp only [next, Option.some.injEq] at h
    exact h ▸ inv_crash hinv i

/-- In every run in which no tick asks past a failed row and rows fail last, no failed row
with attempts left is passed over before it leaves the window, and its retry is answered. -/
theorem none_stranded (hmode : job.plansForScope = true ∨ job.catchUpMode = .everyPlan)
    (s : State)
    (hs : (machine job parse).ReachableUnder (fun s a => staysBehind job parse s a = true) s) :
    NoneStranded job parse s := by
  have hinv : Inv job s := by
    revert s
    refine Machine.invariant_under ?_ fun s a s' _ hinv hstays h => inv_step hmode hinv hstays h
    rintro s ⟨⟨hrows, -⟩, hticks, hanswers⟩
    constructor
    · simp [hanswers]
    · simp [hrows]
    · simp [hrows]
    · simp [hticks]
  exact hinv.noneStranded hmode

/-- A tick that asks past a failed row is answered past it. -/
theorem plan_strands (hmode : job.plansForScope = true ∨ job.catchUpMode = .everyPlan)
    (hlater : parse.Later) {s s' : State} {now : Int} {scope : Scope} {cfg : Option TriggerConfig}
    (hpast : staysBehind job parse s (.plan now scope cfg) = false)
    (h : next job parse s (.plan now scope cfg) = some s') : ¬ NoneStranded job parse s' := by
  simp only [next, Option.ite_none_right_eq_some, Option.some.injEq] at h
  rcases h with ⟨hnow, rfl⟩
  cases hnewest : newest (s.scopeRows job scope) with
  | none => simp [staysBehind, hnewest] at hpast
  | some r =>
    simp only [staysBehind, hnewest, Option.all_some, Bool.not_eq_false', Bool.and_eq_true] at hpast
    rcases hpast with ⟨hwaiting, hpasses⟩
    rcases plansForTick_passes hmode (job.waiting_mono hnow hwaiting) hlater hpasses with
      ⟨p, hp, hlt⟩
    intro hnone
    -- the answer has a later plan than the row it was given
    have hle := hnone.answers _ List.mem_cons_self r (newest_eq_some hnewest).1 hwaiting p
      (by rw [State.plansForTick, latestPlan, hnewest]; exact hp)
    omega

/-! ## The autopilot schedule job -/

def autopilotScheduleDispatchJob : Job where
  name := "autopilot_schedule_dispatch"
  catchUpWindow := 24 * 3600 * second
  runTimeout := 120 * second
  staleTimeout := 300 * second
  heartbeatInterval := 30 * second
  allowStaleReentry := true
  maxAttempts := 3
  retryBackoff := [60 * second, 300 * second, 900 * second]
  maxPlansPerTick := 5
  plansForScope := true
  valid := by decide

/-- The next full minute or hour. -/
def cronTable : CronParser := fun cron timezone =>
  if timezone = "UTC" ∧ cron = "* * * * *" then some fun t => t - t % (60 * second) + 60 * second
  else if timezone = "UTC" ∧ cron = "0 * * * *" then
    some fun t => t - t % (3600 * second) + 3600 * second
  else none

theorem cronTable_later : cronTable.Later := by
  intro cron timezone next h t
  have hnext : ∀ c : Int, 0 < c → t < t - t % c + c := by
    intro c hc
    have hmod := Int.emod_lt_of_pos t hc
    omega
  unfold cronTable at h
  split at h
  · rw [← Option.some.inj h]
    exact hnext _ (by decide)
  · split at h
    · rw [← Option.some.inj h]
      exact hnext _ (by decide)
    · simp at h

/-- So many seconds into the second day. -/
def secondDay (t : Int) : Int := (24 * 3600 + t) * second

def trigger (cron : String) : Option TriggerConfig := some ⟨cron, "UTC", secondDay (-30), none⟩

def triggerScope : Scope := ⟨"autopilot_trigger", "7"⟩

/-- A plan is claimed and its first attempt fails twenty seconds later. -/
def failedRun (cron : String) : List Act :=
  [.db (.tick (secondDay 0)), .plan (secondDay 0) triggerScope (trigger cron), .process 0 "a" 1 100,
    .db (.tick (secondDay 20)),
    .db (.finishFailure 1 100 (secondDay 20) 20000 "handler_error" "connection reset"
      (some (secondDay 20 + autopilotScheduleDispatchJob.retryDelay 1))),
    .db (.tick (secondDay 60)), .plan (secondDay 60) triggerScope (trigger cron)]

/-- The hourly trigger waits for the retry, which succeeds. -/
def retriedRun : List Act :=
  failedRun "0 * * * *" ++
    [.db (.tick (secondDay 90)), .plan (secondDay 90) triggerScope (trigger "0 * * * *"),
      .process 2 "a" 2 101,
      .db (.claimSteal ⟨autopilotScheduleDispatchJob, triggerScope, secondDay 0, secondDay 90, "a"⟩
        101),
      .db (.finishSuccess 1 101 (secondDay 95) 5000 {})]

def State.empty : State := ⟨Fencing.State.empty, [], []⟩

theorem init_empty : (machine autopilotScheduleDispatchJob cronTable).Init State.empty :=
  ⟨Fencing.init_empty, rfl, rfl⟩

theorem none_stranded_retriedRun :
    ∃ s, s.answers.map Answer.plans = [[secondDay 0], [], [secondDay 0]] ∧
      NoneStranded autopilotScheduleDispatchJob cronTable s := by
  rcases Machine.reachableUnder_of_run (machine autopilotScheduleDispatchJob cronTable)
    (staysBehind autopilotScheduleDispatchJob cronTable) init_empty retriedRun
    (fun s => s.answers.map Answer.plans == [[secondDay 0], [], [secondDay 0]]) (by decide)
    with ⟨s, hs, hplans⟩
  exact ⟨s, by simpa using hplans, none_stranded (.inl rfl) s hs⟩

/-- The trigger that fires every minute goes on to the next occurrence, and the plan whose
retry waits for another twenty seconds is left behind. -/
theorem backoff_strands :
    ¬ ∀ (job : Job) (parse : CronParser), parse.Later →
      (job.plansForScope = true ∨ job.catchUpMode = .everyPlan) →
      ∀ s, (machine job parse).Reachable s → NoneStranded job parse s := by
  intro h
  rcases Machine.reachable_of_run (machine autopilotScheduleDispatchJob cronTable) init_empty
    (failedRun "* * * * *")
    (fun s => s.answers.any fun a => a.rows.any fun r =>
      autopilotScheduleDispatchJob.waiting a.at_ r && a.plans.any fun p => decide (r.key.planTime < p))
    (by decide) with ⟨s, -, hs, hpast⟩
  have hnone := h autopilotScheduleDispatchJob cronTable cronTable_later (.inl rfl) s hs
  simp only [List.any_eq_true, Bool.and_eq_true, decide_eq_true_eq] at hpast
  rcases hpast with ⟨a, ha, r, hr, hwaiting, p, hp, hlt⟩
  have hle := hnone.answers a ha r hr hwaiting p hp
  omega

end Orynx.Scheduler.Stranded
