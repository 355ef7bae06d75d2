import Mathlib.Data.List.MinMax
import Orynx.Scheduler.Execution

/-! # Which plans a tick attempts

`plansForTick` of `server/internal/scheduler/manager.go` and the hook of the autopilot
schedule job, `autopilotPlansForScope`. Instants are counted from Go's zero time. Parsing a
cron expression is a parameter; what is left of it is the `Next` of its schedule.

The planner looks at the newest stored row of a scope. `passesRetry` is when its answer goes
past a failed row that has attempts left.
-/

namespace Orynx.Scheduler

/-! ## The newest row -/

/-- `LatestPlanInfo`, where a row was found. -/
structure LatestPlanInfo where
  planTime : Int
  status : Status
  attempt : Int
  maxAttempts : Int
  nextRetryAt : Option Int
deriving DecidableEq, Repr

/-- `RetryEligible`; no retry time means at once. -/
def LatestPlanInfo.retryEligible (i : LatestPlanInfo) (now : Int) : Bool :=
  i.status == .failed && decide (i.attempt < i.maxAttempts) && i.nextRetryAt.all (· ≤ now)

def Execution.info (r : Execution) : LatestPlanInfo :=
  ⟨r.key.planTime, r.status, r.attempt, r.maxAttempts, r.nextRetryAt⟩

/-- The rows of one (job, scope). -/
def scopeRows (q : ExecutionTable) (jobName : String) (scope : Scope) : List Execution :=
  q.rows.filter fun r => r.key.jobName == jobName && r.key.scope == scope

/-- The order of instants that computes. -/
local instance planOrder : Preorder Int := Int.instLinearOrder.toPreorder

/-- The newest of the rows: `ORDER BY plan_time DESC LIMIT 1`. -/
def newest (rows : List Execution) : Option Execution := rows.argmax fun r => r.key.planTime

/-- `latestPlan`. -/
def latestPlan (rows : List Execution) : Option LatestPlanInfo := (newest rows).map Execution.info

theorem newest_eq_none {rows : List Execution} : newest rows = none ↔ rows = [] :=
  List.argmax_eq_none

theorem newest_eq_some {rows : List Execution} {b : Execution} (h : newest rows = some b) :
    b ∈ rows ∧ ∀ r ∈ rows, r.key.planTime ≤ b.key.planTime := by
  rcases List.argmax_eq_some_iff.1 h with ⟨hb, hmax, -⟩
  exact ⟨hb, hmax⟩

/-! ## The cadence planner -/

/-- `FloorPlan`. -/
def floorPlan (eligible c : Int) : Int := if c ≤ 0 then eligible else eligible - eligible % c

/-- The most recent plan that is due. -/
def JobSpec.latestDue (job : JobSpec) (now : Int) : Int :=
  floorPlan (now - job.scheduleDelay) job.cadence

/-- The loop of the every-plan mode. -/
def plansFrom (latest cadence : Int) : Nat → Int → List Int
  | 0, _ => []
  | n + 1, t => if t ≤ latest then t :: plansFrom latest cadence n (t + cadence) else []

/-- The oldest plan still in the window. -/
def JobSpec.oldestAllowed (job : JobSpec) (now : Int) : Int :=
  if job.catchUpWindow ≤ 0 then job.latestDue now else now - job.catchUpWindow

/-- The first plan the every-plan mode attempts. -/
def JobSpec.startPlan (job : JobSpec) (now : Int) (info : Option LatestPlanInfo) : Int :=
  let start :=
    match info with
    | some i => if i.retryEligible now then i.planTime else i.planTime + job.cadence
    | none => job.latestDue now
  if start < job.oldestAllowed now then
    let floored := floorPlan (job.oldestAllowed now) job.cadence
    if floored < job.oldestAllowed now then floored + job.cadence else floored
  else start

/-- `plansForTick`; `hook` is what `PlansForScope` answers. -/
def plansForTick (job : JobSpec) (hook : Int → Option LatestPlanInfo → List Int) (now : Int)
    (info : Option LatestPlanInfo) : List Int :=
  if job.plansForScope then
    let plans := hook now info
    if 0 < job.maxPlansPerTick then plans.take job.maxPlansPerTick.toNat else plans
  else
    let latest := job.latestDue now
    if now - job.scheduleDelay < latest then []
    else
      match job.catchUpMode with
      | .latestOnly => [latest]
      | .everyPlan =>
        plansFrom latest job.cadence job.maxPlansPerTick.toNat (job.startPlan now info)

/-! ## The autopilot hook -/

/-- `autopilotTriggerConfig`. -/
structure TriggerConfig where
  cronExpression : String
  timezone : String
  createdAt : Int
  lastFiredAt : Option Int
deriving DecidableEq, Repr

/-- `parseCronSchedule`: the `Next` of a schedule, if the expression and zone parse. -/
abbrev CronParser := String → String → Option (Int → Int)

/-- The loop of `NextOccurrencesUTC`. -/
def occurrencesFrom (next : Int → Int) (untilTime : Int) : Nat → Int → List Int
  | 0, _ => []
  | n + 1, cursor =>
    if untilTime < next cursor then []
    else next cursor :: occurrencesFrom next untilTime n (next cursor)

/-- `NextOccurrencesUTC`, with its hard cap. -/
def nextOccurrencesUTC (next : Int → Int) (after untilTime : Int) : List Int :=
  occurrencesFrom next untilTime 1024 after

/-- `replayWindow`. -/
def replayWindow : Int := 24 * 3600 * second

/-- `maxAutopilotScheduleLateness`. -/
def maxAutopilotScheduleLateness : Int := 5 * 60 * second

def isAutopilotSchedulePlanStale (now planTime : Int) : Bool :=
  decide (maxAutopilotScheduleLateness < now - planTime)

/-- The occurrence to dispatch after an anchor: the last one due, unless that is stale. -/
def dueOccurrence (parse : CronParser) (cfg : TriggerConfig) (now after : Int) : Option Int :=
  ((parse cfg.cronExpression cfg.timezone).bind fun next =>
    (nextOccurrencesUTC next (max after (now - replayWindow)) now).getLast?).filter
      fun t => !isAutopilotSchedulePlanStale now t

/-- `autopilotPlansForScope`; a trigger that is gone has no configuration. -/
def autopilotPlansForScope (parse : CronParser) (cfg : Option TriggerConfig) (now : Int)
    (latest : Option LatestPlanInfo) : List Int :=
  match cfg with
  | none => []
  | some cfg =>
    match latest with
    | some i =>
      if i.retryEligible now then [i.planTime]
      else (dueOccurrence parse cfg now i.planTime).toList
    | none => (dueOccurrence parse cfg now (cfg.lastFiredAt.getD cfg.createdAt)).toList

/-! ## Answers that go past a failed row -/

/-- The oldest plan that the job still catches up with. -/
def JobSpec.windowStart (job : JobSpec) (now : Int) : Int :=
  if job.plansForScope then now - replayWindow else job.oldestAllowed now

/-- A failed row in the window that has attempts left. -/
def JobSpec.waiting (job : JobSpec) (now : Int) (r : Execution) : Bool :=
  r.status == .failed && decide (r.attempt < r.maxAttempts) &&
    decide (job.windowStart now ≤ r.key.planTime)

/-- Some occurrence of the trigger after the instant is due and not stale. -/
def occurrenceDue (parse : CronParser) (cfg : Option TriggerConfig) (now after : Int) : Bool :=
  cfg.any fun c => (dueOccurrence parse c now after).isSome

/-- A newer plan is due than that of the newest row, and the row does not hold the planner:
the backoff outlasts the distance to the newer plan, or a tick may attempt both. -/
def JobSpec.passesRetry (job : JobSpec) (parse : CronParser) (cfg : Option TriggerConfig)
    (now : Int) (r : Execution) : Bool :=
  if job.plansForScope then
    !r.info.retryEligible now && occurrenceDue parse cfg now r.key.planTime
  else
    decide (r.key.planTime + job.cadence ≤ job.latestDue now) &&
      (!r.info.retryEligible now || decide (2 ≤ job.maxPlansPerTick))

theorem floorPlan_le {eligible c : Int} (hc : 0 < c) : floorPlan eligible c ≤ eligible := by
  rw [floorPlan, if_neg (by omega)]
  have hmod := Int.emod_nonneg eligible (Int.ne_of_gt hc)
  omega

theorem floorPlan_mono {a b c : Int} (hab : a ≤ b) : floorPlan a c ≤ floorPlan b c := by
  by_cases hc : c ≤ 0
  · simp only [floorPlan, if_pos hc]
    exact hab
  · simp only [floorPlan, if_neg hc]
    have hpos : 0 < c := by omega
    have ha := Int.mul_ediv_add_emod a c
    have hb := Int.mul_ediv_add_emod b c
    have hdiv : a / c ≤ b / c := Int.ediv_le_ediv hpos hab
    have hmul := Int.mul_le_mul_of_nonneg_left hdiv (Int.le_of_lt hpos)
    omega

theorem JobSpec.latestDue_mono (job : JobSpec) {now now' : Int} (h : now ≤ now') :
    job.latestDue now ≤ job.latestDue now' :=
  floorPlan_mono (by omega)

theorem JobSpec.windowStart_mono (job : JobSpec) {now now' : Int} (h : now ≤ now') :
    job.windowStart now ≤ job.windowStart now' := by
  unfold JobSpec.windowStart JobSpec.oldestAllowed
  have hdue := job.latestDue_mono h
  split
  · omega
  · split <;> omega

/-- The window only moves on. -/
theorem JobSpec.waiting_mono (job : JobSpec) {now now' : Int} (h : now ≤ now') {r : Execution}
    (hr : job.waiting now' r = true) : job.waiting now r = true := by
  have hmono := job.windowStart_mono h
  simp only [JobSpec.waiting, Bool.and_eq_true, decide_eq_true_eq] at hr ⊢
  exact ⟨hr.1, Int.le_trans hmono hr.2⟩

theorem mem_plansFrom {latest cadence p : Int} (hc : 0 < cadence) {n : Nat} {t : Int}
    (h : p ∈ plansFrom latest cadence n t) :
    p ≤ latest ∧ (p = t ∨ (2 ≤ n ∧ t + cadence ≤ p)) := by
  induction n generalizing t with
  | zero => simp [plansFrom] at h
  | succ n ih =>
    by_cases hle : t ≤ latest
    · rw [plansFrom, if_pos hle] at h
      rcases List.mem_cons.1 h with h | h
      · exact ⟨by omega, .inl h⟩
      · have hn : 1 ≤ n := by
          cases n with
          | zero => simp [plansFrom] at h
          | succ n => omega
        rcases ih h with ⟨hlatest, hp | ⟨-, hp⟩⟩
        · exact ⟨hlatest, .inr ⟨by omega, by omega⟩⟩
        · exact ⟨hlatest, .inr ⟨by omega, by omega⟩⟩
    · rw [plansFrom, if_neg hle] at h
      simp at h

theorem start_mem_plansFrom {latest cadence : Int} {n : Nat} {t : Int} (hn : 1 ≤ n)
    (ht : t ≤ latest) : t ∈ plansFrom latest cadence n t := by
  cases n with
  | zero => omega
  | succ n => simp [plansFrom, ht]

/-- A cron schedule's next activation is later. -/
def CronParser.Later (parse : CronParser) : Prop :=
  ∀ cron timezone next, parse cron timezone = some next → ∀ t, t < next t

theorem mem_occurrencesFrom {next : Int → Int} (hlater : ∀ t, t < next t) {untilTime t : Int}
    {n : Nat} {cursor : Int} (h : t ∈ occurrencesFrom next untilTime n cursor) : cursor < t := by
  induction n generalizing cursor with
  | zero => simp [occurrencesFrom] at h
  | succ n ih =>
    by_cases hlt : untilTime < next cursor
    · rw [occurrencesFrom, if_pos hlt] at h
      simp at h
    · rw [occurrencesFrom, if_neg hlt] at h
      have hnext := hlater cursor
      rcases List.mem_cons.1 h with h | h
      · omega
      · have hcursor := ih h
        omega

theorem dueOccurrence_later {parse : CronParser} (hlater : parse.Later) {cfg : TriggerConfig}
    {now after t : Int} (h : dueOccurrence parse cfg now after = some t) : after < t := by
  simp only [dueOccurrence, Option.filter_eq_some_iff, Option.bind_eq_some_iff] at h
  rcases h with ⟨⟨next, hparse, hlast⟩, -⟩
  have hmem := mem_occurrencesFrom (hlater _ _ next hparse) (List.mem_of_getLast? hlast)
  omega

/-- The hook answers one plan at most, so the cap changes nothing. -/
theorem plansForTick_hook {job : Job} (hhook : job.plansForScope = true) (parse : CronParser)
    (cfg : Option TriggerConfig) (now : Int) (info : Option LatestPlanInfo) :
    plansForTick job.toJobSpec (autopilotPlansForScope parse cfg) now info =
      autopilotPlansForScope parse cfg now info := by
  have hlen : (autopilotPlansForScope parse cfg now info).length ≤ 1 := by
    have htoList : ∀ o : Option Int, o.toList.length ≤ 1 := by
      intro o
      cases o <;> simp
    unfold autopilotPlansForScope
    split
    · simp
    · split
      · split
        · simp
        · exact htoList _
      · exact htoList _
  rw [plansForTick, if_pos hhook]
  show (if 0 < job.maxPlansPerTick then _ else _) = _
  split
  · exact List.take_of_length_le (by omega)
  · rfl

theorem Job.everyPlan {job : Job} (hhook : job.plansForScope = false)
    (hmode : job.catchUpMode = .everyPlan) : 0 < job.cadence ∧ 1 ≤ job.maxPlansPerTick := by
  have hvalid := job.valid
  simp only [JobSpec.validate, Bool.and_eq_true, Bool.or_eq_true, decide_eq_true_eq, hhook,
    hmode] at hvalid
  simp at hvalid
  omega

/-- The planner in the every-plan mode, when the newest row is in the window. -/
theorem plansForTick_everyPlan {job : Job} (hhook : job.plansForScope = false)
    (hmode : job.catchUpMode = .everyPlan)
    (hook : Int → Option LatestPlanInfo → List Int) {now : Int} {r : Execution}
    (hwindow : job.windowStart now ≤ r.key.planTime) :
    plansForTick job.toJobSpec hook now (some r.info) =
      plansFrom (job.latestDue now) job.cadence job.maxPlansPerTick.toNat
        (if r.info.retryEligible now then r.key.planTime else r.key.planTime + job.cadence) := by
  rcases Job.everyPlan hhook hmode with ⟨hcadence, -⟩
  have hdue : job.latestDue now ≤ now - job.scheduleDelay := floorPlan_le hcadence
  have hallowed : job.oldestAllowed now ≤ r.key.planTime := by
    simpa [JobSpec.windowStart, hhook] using hwindow
  have hstart : job.startPlan now (some r.info) =
      if r.info.retryEligible now then r.key.planTime else r.key.planTime + job.cadence := by
    rw [JobSpec.startPlan]
    show (if (if r.info.retryEligible now then r.key.planTime
      else r.key.planTime + job.cadence) < job.oldestAllowed now then _ else _) = _
    refine if_neg ?_
    split <;> omega
  simp only [plansForTick, hhook, Bool.false_eq_true, if_false, hmode, hstart]
  exact if_neg (by omega)

theorem JobSpec.waiting_window {job : JobSpec} {now : Int} {r : Execution}
    (hr : job.waiting now r = true) : job.windowStart now ≤ r.key.planTime := by
  simp only [JobSpec.waiting, Bool.and_eq_true, decide_eq_true_eq] at hr
  exact hr.2

section

variable {job : Job} (hmode : job.plansForScope = true ∨ job.catchUpMode = .everyPlan)
  {parse : CronParser} {cfg : Option TriggerConfig} {now : Int} {r : Execution}
  (hr : job.waiting now r = true)

include hmode hr

/-- The answer stays at a waiting row unless `passesRetry`. -/
theorem plansForTick_le (h : job.passesRetry parse cfg now r = false) :
    ∀ p ∈ plansForTick job.toJobSpec (autopilotPlansForScope parse cfg) now (some r.info),
      p ≤ r.key.planTime := by
  intro p hp
  cases hhook : job.plansForScope with
  | true =>
    rw [plansForTick_hook hhook] at hp
    simp only [JobSpec.passesRetry, hhook, if_true] at h
    cases hcfg : cfg with
    | none => simp [hcfg, autopilotPlansForScope] at hp
    | some c =>
      cases heligible : r.info.retryEligible now with
      | true =>
        simp only [hcfg, autopilotPlansForScope, heligible, if_true, List.mem_singleton] at hp
        exact Int.le_of_eq hp
      | false =>
        have hnone : dueOccurrence parse c now r.key.planTime = none := by
          simpa [heligible, hcfg, occurrenceDue] using h
        have hplan : r.info.planTime = r.key.planTime := rfl
        simp [hcfg, autopilotPlansForScope, heligible, hplan, hnone] at hp
  | false =>
    have hevery : job.catchUpMode = .everyPlan := hmode.resolve_left (by simp [hhook])
    rw [plansForTick_everyPlan hhook hevery _ (JobSpec.waiting_window hr)] at hp
    rcases mem_plansFrom (Job.everyPlan hhook hevery).1 hp with ⟨hlatest, hfrom⟩
    simp only [JobSpec.passesRetry, hhook, Bool.false_eq_true, if_false] at h
    cases heligible : r.info.retryEligible now with
    | true =>
      simp only [heligible, if_true, Bool.not_true, Bool.false_or, Bool.and_eq_false_iff,
        decide_eq_false_iff_not] at h hfrom
      -- the plan itself comes first, and there is no second
      omega
    | false =>
      simp only [heligible, Bool.not_false, Bool.true_or, Bool.and_true,
        decide_eq_false_iff_not, Bool.false_eq_true, if_false] at h hfrom
      omega

/-- Where `passesRetry` holds the answer does go past the row. -/
theorem plansForTick_passes (hlater : parse.Later)
    (h : job.passesRetry parse cfg now r = true) :
    ∃ p ∈ plansForTick job.toJobSpec (autopilotPlansForScope parse cfg) now (some r.info),
      r.key.planTime < p := by
  cases hhook : job.plansForScope with
  | true =>
    rw [plansForTick_hook hhook]
    simp only [JobSpec.passesRetry, hhook, if_true, Bool.and_eq_true, Bool.not_eq_true',
      occurrenceDue, Option.any_eq_true, Option.isSome_iff_exists] at h
    rcases h with ⟨heligible, c, rfl, t, ht⟩
    refine ⟨t, ?_, dueOccurrence_later hlater ht⟩
    have hplan : r.info.planTime = r.key.planTime := rfl
    simp [autopilotPlansForScope, heligible, hplan, ht]
  | false =>
    have hevery : job.catchUpMode = .everyPlan := hmode.resolve_left (by simp [hhook])
    rcases Job.everyPlan hhook hevery with ⟨hcadence, hmax⟩
    rw [plansForTick_everyPlan hhook hevery _ (JobSpec.waiting_window hr)]
    simp only [JobSpec.passesRetry, hhook, Bool.false_eq_true, if_false, Bool.and_eq_true,
      Bool.or_eq_true, Bool.not_eq_true', decide_eq_true_eq] at h
    rcases h with ⟨hdue, hmany⟩
    refine ⟨r.key.planTime + job.cadence, ?_, by omega⟩
    cases heligible : r.info.retryEligible now with
    | true =>
      have htwo : 2 ≤ job.maxPlansPerTick := hmany.resolve_left (by simp [heligible])
      obtain ⟨n, hn⟩ : ∃ n, job.maxPlansPerTick.toNat = n + 1 + 1 :=
        ⟨job.maxPlansPerTick.toNat - 2, by omega⟩
      rw [if_pos rfl, hn, plansFrom, if_pos (by omega)]
      exact List.mem_cons_of_mem _ (start_mem_plansFrom (by omega) hdue)
    | false =>
      rw [if_neg (by simp)]
      exact start_mem_plansFrom (by omega) hdue

/-- A row whose retry is due comes first, if it is not after the latest plan. -/
theorem mem_plansForTick (hdue : job.plansForScope = false → r.key.planTime ≤ job.latestDue now)
    (hcfg : cfg.isSome) (heligible : r.info.retryEligible now = true) :
    r.key.planTime ∈
      plansForTick job.toJobSpec (autopilotPlansForScope parse cfg) now (some r.info) := by
  cases hhook : job.plansForScope with
  | true =>
    rw [plansForTick_hook hhook]
    rcases Option.isSome_iff_exists.1 hcfg with ⟨c, rfl⟩
    simp only [autopilotPlansForScope, heligible, if_true, List.mem_singleton]
    rfl
  | false =>
    have hevery : job.catchUpMode = .everyPlan := hmode.resolve_left (by simp [hhook])
    rcases Job.everyPlan hhook hevery with ⟨hcadence, hmax⟩
    rw [plansForTick_everyPlan hhook hevery _ (JobSpec.waiting_window hr), if_pos heligible]
    exact start_mem_plansFrom (by omega) (hdue hhook)

end

end Orynx.Scheduler
