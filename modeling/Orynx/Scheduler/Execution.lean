import Orynx.Lib.Table
import Orynx.Attribution.Classify
import Orynx.Text

/-! # `sys_cron_executions`

The row that is both lease and audit record of one planned execution, the job
specification, and the statements of `server/internal/scheduler/db_ops.go`. Instants and
durations are nanoseconds. The `RETURNING` id and token of a claim are arguments: the
database draws them.
-/

namespace Orynx.Scheduler

open Lib

/-- `time.Second`. -/
def second : Int := 1000000000

/-! ## Jobs -/

inductive CatchUpMode where
  | latestOnly
  | everyPlan
deriving DecidableEq, Repr

/-- `JobSpec`; `plansForScope` tells whether the hook is set. -/
structure JobSpec where
  name : String
  cadence : Int := 0
  scheduleDelay : Int := 0
  catchUpMode : CatchUpMode := .latestOnly
  catchUpWindow : Int := 0
  maxPlansPerTick : Int := 0
  runTimeout : Int
  staleTimeout : Int
  heartbeatInterval : Int
  allowStaleReentry : Bool := false
  maxAttempts : Int
  retryBackoff : List Int := []
  plansForScope : Bool := false
deriving DecidableEq, Repr

/-- `JobSpec.validate`, for a job with scopes and a handler. -/
def JobSpec.validate (j : JobSpec) : Bool :=
  !blank j.name && (j.plansForScope || decide (0 < j.cadence)) && decide (0 < j.runTimeout) &&
    decide (j.runTimeout < j.staleTimeout) &&
    (decide (0 < j.heartbeatInterval) && decide (j.heartbeatInterval < j.staleTimeout)) &&
    decide (1 ≤ j.maxAttempts) &&
    !(!j.plansForScope && j.catchUpMode == .everyPlan && decide (j.maxPlansPerTick ≤ 0))

/-- A registered job. -/
structure Job extends JobSpec where
  valid : toJobSpec.validate = true

theorem Job.runTimeout_lt (job : Job) : 0 < job.runTimeout ∧ job.runTimeout < job.staleTimeout := by
  have hvalid := job.valid
  simp only [JobSpec.validate, Bool.and_eq_true, decide_eq_true_eq] at hvalid
  exact ⟨hvalid.1.1.1.1.2, hvalid.1.1.1.2⟩

theorem Job.one_le_maxAttempts (job : Job) : 1 ≤ job.maxAttempts := by
  have hvalid := job.valid
  simp only [JobSpec.validate, Bool.and_eq_true, decide_eq_true_eq] at hvalid
  exact hvalid.1.2

/-- `retryDelay`: the wait after the given attempt, the last one for all later attempts. -/
def JobSpec.retryDelay (j : JobSpec) (attempt : Int) : Int :=
  (j.retryBackoff[min (attempt - 1).toNat (j.retryBackoff.length - 1)]?).getD 0

/-- `staleSecs`: whole seconds, one at least. -/
def staleSecs (staleTimeout : Int) : Int :=
  let secs := staleTimeout.tdiv second
  if secs ≤ 0 then 1 else secs

/-- The instant up to which a lease taken or renewed at `t` is good. -/
def staleAfter (staleTimeout t : Int) : Int := t + staleSecs staleTimeout * second

/-! ## Rows -/

inductive Status where
  | running
  | success
  | failed
deriving DecidableEq, Repr

structure Scope where
  kind : String
  id : String
deriving DecidableEq, Repr

/-- The columns of `uq_sys_cron_execution`. -/
structure PlanKey where
  jobName : String
  scope : Scope
  planTime : Int
deriving DecidableEq, Repr

/-- A row of `sys_cron_executions`. -/
structure Execution where
  id : UUID
  key : PlanKey
  status : Status
  attempt : Int
  maxAttempts : Int
  nextRetryAt : Option Int := none
  runnerID : String
  leaseToken : UUID
  heartbeatAt : Int
  staleAfter : Int
  startedAt : Int
  finishedAt : Option Int := none
  durationMs : Option Int := none
  rowsAffected : Option Int := none
  result : String := "\x7b\x7d"
  errorCode : Option String := none
  errorMsg : Option String := none
  updatedAt : Int
deriving DecidableEq, Repr

/-- Primary key and `uq_sys_cron_execution`. -/
def executionSchema : Schema Execution UUID PlanKey where
  key := Execution.id
  index r := some r.key

abbrev ExecutionTable := Table executionSchema

@[simp] theorem executionSchema_key (r : Execution) : executionSchema.key r = r.id := rfl

@[simp] theorem executionSchema_index (r : Execution) : executionSchema.index r = some r.key := rfl

theorem eq_of_planKey {q : ExecutionTable} {r r' : Execution} (hr : r ∈ q.rows)
    (hr' : r' ∈ q.rows) (h : r.key = r'.key) : r = r' :=
  q.eq_of_index hr hr' rfl (by rw [executionSchema_index, h])

/-! ## Statements -/

/-- What `tryClaim` is called with. -/
structure ClaimCall where
  job : Job
  scope : Scope
  planTime : Int
  dbTime : Int
  runnerID : String

def ClaimCall.key (c : ClaimCall) : PlanKey := ⟨c.job.name, c.scope, c.planTime⟩

/-- The row of the fresh-insert path of `tryClaim`. -/
def ClaimCall.insertRow (c : ClaimCall) (id leaseToken : UUID) : Execution :=
  { id := id, key := c.key, status := .running, attempt := 1, maxAttempts := c.job.maxAttempts,
    runnerID := c.runnerID, leaseToken := leaseToken, heartbeatAt := c.dbTime,
    staleAfter := Scheduler.staleAfter c.job.staleTimeout c.dbTime, startedAt := c.dbTime,
    updatedAt := c.dbTime }

/-- The retry or stale-steal statement of `tryClaim`. -/
def ClaimCall.steal (c : ClaimCall) (leaseToken : UUID) : Update Execution where
  sel r := r.key == c.key && decide (r.attempt < r.maxAttempts) &&
    ((r.status == .failed && decide (r.nextRetryAt.getD c.dbTime ≤ c.dbTime)) ||
      (r.status == .running && decide (r.staleAfter < c.dbTime) && c.job.allowStaleReentry))
  set r := { r with
    status := .running, attempt := r.attempt + 1, runnerID := c.runnerID,
    leaseToken := leaseToken, heartbeatAt := c.dbTime,
    staleAfter := Scheduler.staleAfter c.job.staleTimeout c.dbTime, startedAt := c.dbTime,
    finishedAt := none, durationMs := none, nextRetryAt := none, errorCode := none,
    errorMsg := none, updatedAt := c.dbTime }

/-- `markStaleAsFailed`. A lease without retry time is claimed again at once. -/
def markStaleAsFailed (jobName : String) (dbTime : Int) : Update Execution where
  sel r := r.key.jobName == jobName && r.status == .running && decide (r.staleAfter < dbTime)
  set r := { r with
    status := .failed, finishedAt := some dbTime, errorCode := some "stale_timeout",
    errorMsg := some "lease expired without heartbeat", updatedAt := dbTime }

/-- The guard of the three statements that a lease holder runs. -/
def leaseGuard (id leaseToken : UUID) (r : Execution) : Bool :=
  r.id == id && r.leaseToken == leaseToken && r.status == .running

/-- The statement of `heartbeat`, at transaction time `now`. -/
def heartbeatStmt (now : Int) (id leaseToken : UUID) (staleTimeout : Int) : Update Execution where
  sel := leaseGuard id leaseToken
  set r := { r with
    heartbeatAt := now, staleAfter := Scheduler.staleAfter staleTimeout now, updatedAt := now }

/-- What a handler returns; `result` is `none` where it does not marshal. -/
structure HandlerResult where
  rowsAffected : Int := 0
  result : Option String := some "\x7b\x7d"
deriving DecidableEq, Repr

/-- `encodeResult`: a bounded payload. -/
def encodeResult (res : HandlerResult) : Option String :=
  res.result.filter fun json => decide (json.utf8ByteSize ≤ 16 * 1024)

/-- The statement of `finishSuccess`. -/
def finishSuccessStmt (id leaseToken : UUID) (dbTime durationMs rowsAffected : Int)
    (resultJSON : String) : Update Execution where
  sel := leaseGuard id leaseToken
  set r := { r with
    status := .success, finishedAt := some dbTime, durationMs := some durationMs,
    rowsAffected := some rowsAffected, result := resultJSON, errorCode := none,
    errorMsg := none, updatedAt := dbTime }

/-- The statement of `finishFailure`; the message arrives cut to 4000 bytes. -/
def finishFailureStmt (id leaseToken : UUID) (dbTime durationMs : Int)
    (errorCode errorMsg : String) (nextRetryAt : Option Int) : Update Execution where
  sel := leaseGuard id leaseToken
  set r := { r with
    status := .failed, finishedAt := some dbTime, durationMs := some durationMs,
    nextRetryAt := nextRetryAt,
    errorCode := some (if errorCode = "" then "handler_error" else errorCode),
    errorMsg := some errorMsg, updatedAt := dbTime }

inductive Error where
  | leaseLost
  | result
  | database
deriving DecidableEq, Repr

/-- Run a holder's statement: no affected row means that the lease is lost. -/
def execLease (q : ExecutionTable) (u : Update Execution) : Except Error ExecutionTable :=
  match q.update? u with
  | none => .error .database
  | some q' => if q.rows.any u.sel then .ok q' else .error .leaseLost

def heartbeat (now : Int) (q : ExecutionTable) (id leaseToken : UUID) (staleTimeout : Int) :
    Except Error ExecutionTable :=
  execLease q (heartbeatStmt now id leaseToken staleTimeout)

def finishSuccess (q : ExecutionTable) (id leaseToken : UUID) (dbTime durationMs : Int)
    (res : HandlerResult) : Except Error ExecutionTable :=
  match encodeResult res with
  | none => .error .result
  | some resultJSON =>
    execLease q (finishSuccessStmt id leaseToken dbTime durationMs res.rowsAffected resultJSON)

def finishFailure (q : ExecutionTable) (id leaseToken : UUID) (dbTime durationMs : Int)
    (errorCode errorMsg : String) (nextRetryAt : Option Int) : Except Error ExecutionTable :=
  execLease q (finishFailureStmt id leaseToken dbTime durationMs errorCode errorMsg nextRetryAt)

/-! ## What a statement does to a row -/

/-- A row keeps its identity. Its lease stays, and is not reopened once closed, or passes to
the holder of a token that `claim` gives; a success is final. -/
structure LeaseStep (claim : Option UUID) (r r' : Execution) : Prop where
  id : r'.id = r.id
  key : r'.key = r.key
  maxAttempts : r'.maxAttempts = r.maxAttempts
  success : r.status = .success → r' = r
  lease : (r'.leaseToken = r.leaseToken ∧ r'.attempt = r.attempt ∧
      (r'.status = .running → r.status = .running)) ∨
    (claim = some r'.leaseToken ∧ r'.attempt = r.attempt + 1 ∧ r.attempt < r.maxAttempts)

theorem LeaseStep.refl {claim : Option UUID} (r : Execution) : LeaseStep claim r r :=
  ⟨rfl, rfl, rfl, fun _ => rfl, .inl ⟨rfl, rfl, fun h => h⟩⟩

theorem LeaseStep.apply {claim : Option UUID} {u : Update Execution} {r : Execution}
    (h : u.sel r = true → LeaseStep claim r (u.set r)) : LeaseStep claim r (u.apply r) := by
  cases hsel : u.sel r with
  | true =>
    rw [Update.apply_of_sel hsel]
    exact h hsel
  | false =>
    rw [Update.apply_of_not_sel hsel]
    exact .refl r

theorem steal_leaseStep (c : ClaimCall) (leaseToken : UUID) (r : Execution) :
    LeaseStep (some leaseToken) r ((c.steal leaseToken).apply r) := by
  refine .apply fun hsel => ?_
  simp only [ClaimCall.steal, Bool.and_eq_true, Bool.or_eq_true, beq_iff_eq,
    decide_eq_true_eq] at hsel
  rcases hsel with ⟨⟨-, hbudget⟩, hstatus⟩
  refine ⟨rfl, rfl, rfl, fun hsuccess => ?_, .inr ⟨rfl, rfl, hbudget⟩⟩
  rcases hstatus with h | h <;> simp [hsuccess] at h

theorem markStaleAsFailed_leaseStep (jobName : String) (dbTime : Int) (r : Execution) :
    LeaseStep none r ((markStaleAsFailed jobName dbTime).apply r) := by
  refine .apply fun hsel => ?_
  simp only [markStaleAsFailed, Bool.and_eq_true, beq_iff_eq] at hsel
  refine ⟨rfl, rfl, rfl, fun hsuccess => ?_, .inl ⟨rfl, rfl, fun _ => hsel.1.2⟩⟩
  simp [hsel.1.2] at hsuccess

/-- A holder's statement that leaves identity, token and attempt alone. -/
theorem leaseGuard_leaseStep {u : Update Execution} {id leaseToken : UUID}
    (hguard : u.sel = leaseGuard id leaseToken) {r : Execution}
    (hset : (u.set r).id = r.id ∧ (u.set r).key = r.key ∧ (u.set r).maxAttempts = r.maxAttempts ∧
      (u.set r).leaseToken = r.leaseToken ∧ (u.set r).attempt = r.attempt) :
    LeaseStep none r (u.apply r) := by
  refine .apply fun hsel => ?_
  rw [hguard] at hsel
  simp only [leaseGuard, Bool.and_eq_true, beq_iff_eq] at hsel
  rcases hset with ⟨hid, hkey, hmax, htoken, hattempt⟩
  refine ⟨hid, hkey, hmax, fun hsuccess => ?_, .inl ⟨htoken, hattempt, fun _ => hsel.2⟩⟩
  simp [hsel.2] at hsuccess

/-- No statement on single rows violates a constraint. -/
theorem update?_isSome {q : ExecutionTable} {u : Update Execution} {claim : Option UUID}
    (h : ∀ r ∈ q.rows, LeaseStep claim r (u.apply r)) : (q.update? u).isSome := by
  refine Table.update?_isSome_of_shrink (fun r hr => (h r hr).id) fun r hr => .inr ?_
  rw [executionSchema_index, (h r hr).key, executionSchema_index]

end Orynx.Scheduler
