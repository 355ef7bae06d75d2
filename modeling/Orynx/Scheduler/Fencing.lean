import Orynx.Lib.Machine
import Orynx.Scheduler.Execution

/-! # Lease fencing

Any number of runners race on the rows of `sys_cron_executions`, one statement a step: the
two statements of `tryClaim`, the sweep, the heartbeat and the terminal writes. The times
and jobs that the statements are called with are arbitrary, and so is whose lease a
heartbeat or a terminal write names; only the drawn tokens are fresh.

* `Fenced`: attempts count the claims, one lease at most is open, a lost lease stays lost;
* `lease_fenced`: it holds in every reachable state, and a success is final.
-/

namespace Orynx.Scheduler.Fencing

open Lib

/-- A lease that was issued. -/
structure Lease where
  key : PlanKey
  id : UUID
  token : UUID
deriving DecidableEq, Repr

/-- The lease is neither stolen nor closed. -/
def holds (q : ExecutionTable) (l : Lease) : Bool := q.rows.any (leaseGuard l.id l.token)

/-- `issued` is the history of the successful claims, `lost` of the leases that were stolen
or closed, and `succeeded` of the plans that a terminal write made a success. -/
structure State where
  now : Int
  executions : ExecutionTable
  issued : List Lease
  lost : List Lease
  succeeded : List PlanKey

inductive Act where
  | tick (t : Int)
  | claimInsert (c : ClaimCall) (id leaseToken : UUID)
  | claimSteal (c : ClaimCall) (leaseToken : UUID)
  | markStaleAsFailed (jobName : String) (dbTime : Int)
  | heartbeat (id leaseToken : UUID) (staleTimeout : Int)
  | finishSuccess (id leaseToken : UUID) (dbTime durationMs : Int) (res : HandlerResult)
  | finishFailure (id leaseToken : UUID) (dbTime durationMs : Int) (errorCode errorMsg : String)
      (nextRetryAt : Option Int)

/-- No claim has drawn the token before. -/
def State.fresh (s : State) (leaseToken : UUID) : Bool :=
  s.issued.all fun l => l.token != leaseToken

/-- Write the table and record the leases that end with it. -/
def State.commit (s : State) (q : ExecutionTable) : State :=
  { s with
    executions := q
    lost := s.lost ++ s.issued.filter fun l => holds s.executions l && !holds q l }

def State.issue (s : State) (l : Lease) : State := { s with issued := l :: s.issued }

def next (s : State) : Act → Option State
  | .tick t => if s.now ≤ t then some { s with now := t } else none
  | .claimInsert c id leaseToken =>
    if s.fresh leaseToken then
      match s.executions.insert? (c.insertRow id leaseToken) with
      | some q => some ((s.commit q).issue ⟨c.key, id, leaseToken⟩)
      | none => some s -- ON CONFLICT DO NOTHING
    else none
  | .claimSteal c leaseToken =>
    if s.fresh leaseToken then
      match s.executions.rows.find? (c.steal leaseToken).sel with
      | some r =>
        (s.executions.update? (c.steal leaseToken)).map fun q =>
          (s.commit q).issue ⟨c.key, r.id, leaseToken⟩
      | none => some s
    else none
  | .markStaleAsFailed jobName dbTime =>
    (s.executions.update? (Scheduler.markStaleAsFailed jobName dbTime)).map s.commit
  | .heartbeat id leaseToken staleTimeout =>
    match Scheduler.heartbeat s.now s.executions id leaseToken staleTimeout with
    | .ok q => some (s.commit q)
    | .error _ => some s
  | .finishSuccess id leaseToken dbTime durationMs res =>
    match Scheduler.finishSuccess s.executions id leaseToken dbTime durationMs res with
    | .ok q =>
      some { s.commit q with
        succeeded := ((s.executions.rows.find? (leaseGuard id leaseToken)).map
          Execution.key).toList ++ s.succeeded }
    | .error _ => some s
  | .finishFailure id leaseToken dbTime durationMs errorCode errorMsg nextRetryAt =>
    match Scheduler.finishFailure s.executions id leaseToken dbTime durationMs errorCode errorMsg
      nextRetryAt with
    | .ok q => some (s.commit q)
    | .error _ => some s

def machine : Machine State Act where
  Init s := s.executions = Table.empty ∧ s.issued = [] ∧ s.lost = [] ∧ s.succeeded = []
  next := next

def State.empty : State := ⟨0, Table.empty, [], [], []⟩

theorem init_empty : machine.Init State.empty := ⟨rfl, rfl, rfl, rfl⟩

/-! ## The property -/

/-- How often the plan was claimed. -/
def State.claims (s : State) (key : PlanKey) : Nat := s.issued.countP fun l => l.key == key

/-- The statements that a holder runs under its lease. -/
def Act.uses (l : Lease) : Act → Bool
  | .heartbeat id leaseToken _ => id == l.id && leaseToken == l.token
  | .finishSuccess id leaseToken _ _ _ => id == l.id && leaseToken == l.token
  | .finishFailure id leaseToken _ _ _ _ _ => id == l.id && leaseToken == l.token
  | _ => false

/-- What a holder is told that has lost its lease. -/
structure ReportsLost (s : State) (l : Lease) : Prop where
  heartbeat : ∀ staleTimeout,
    Scheduler.heartbeat s.now s.executions l.id l.token staleTimeout = .error .leaseLost
  finishSuccess : ∀ dbTime durationMs res, (encodeResult res).isSome →
    Scheduler.finishSuccess s.executions l.id l.token dbTime durationMs res = .error .leaseLost
  finishFailure : ∀ dbTime durationMs errorCode errorMsg nextRetryAt,
    Scheduler.finishFailure s.executions l.id l.token dbTime durationMs errorCode errorMsg
      nextRetryAt = .error .leaseLost
  unchanged : ∀ a : Act, a.uses l = true → next s a = some s

structure Fenced (s : State) : Prop where
  attempts : ∀ r ∈ s.executions.rows, r.attempt = s.claims r.key ∧ r.attempt ≤ r.maxAttempts
  unclaimed : ∀ key, (∀ r ∈ s.executions.rows, r.key ≠ key) → s.claims key = 0
  holder : ∀ r ∈ s.executions.rows, ∀ l ∈ s.issued, ∀ l' ∈ s.issued,
    leaseGuard l.id l.token r = true → leaseGuard l'.id l'.token r = true → l = l'
  lost : ∀ l ∈ s.lost, ReportsLost s l
  success : ∀ key, s.succeeded.count key ≤ 1

/-! ## The invariant -/

/-- The rows of a plan that are a success. -/
def successes (q : ExecutionTable) (key : PlanKey) : Nat :=
  q.rows.countP fun r => r.key == key && r.status == .success

structure Inv (s : State) : Prop where
  claimed : ∀ l ∈ s.issued, ∃ r ∈ s.executions.rows, r.id = l.id ∧ r.key = l.key
  attempts : ∀ r ∈ s.executions.rows, r.attempt = s.claims r.key ∧ r.attempt ≤ r.maxAttempts
  tokens : (s.issued.map Lease.token).Nodup
  lost : ∀ l ∈ s.lost, l ∈ s.issued ∧ holds s.executions l = false
  succeeded : ∀ key, s.succeeded.count key ≤ successes s.executions key

theorem successes_le (q : ExecutionTable) (key : PlanKey) : successes q key ≤ 1 := by
  -- the index has one row for each plan
  have hone : q.rows.countP (fun r => r.key == key) ≤ 1 := by
    have hindex := q.index_nodup
    have hmap : q.rows.filterMap executionSchema.index = q.rows.map Execution.key := by
      rw [← List.filterMap_eq_map]
      rfl
    rw [hmap] at hindex
    have hcount := List.nodup_iff_count_le_one.1 hindex key
    rwa [List.count, List.countP_map] at hcount
  refine Nat.le_trans (List.countP_mono_left fun r _ hr => ?_) hone
  simp only [Bool.and_eq_true] at hr
  exact hr.1

theorem not_holds_iff {q : ExecutionTable} {l : Lease} :
    holds q l = false ↔ ∀ r ∈ q.rows, leaseGuard l.id l.token r = false := by
  simp [holds, List.any_eq_false]

/-! ## The statements of a holder -/

theorem heartbeat_leaseStep (now : Int) (id leaseToken : UUID) (staleTimeout : Int)
    (r : Execution) : LeaseStep none r ((heartbeatStmt now id leaseToken staleTimeout).apply r) :=
  leaseGuard_leaseStep rfl ⟨rfl, rfl, rfl, rfl, rfl⟩

theorem finishSuccess_leaseStep (id leaseToken : UUID) (dbTime durationMs rowsAffected : Int)
    (resultJSON : String) (r : Execution) : LeaseStep none r
      ((finishSuccessStmt id leaseToken dbTime durationMs rowsAffected resultJSON).apply r) :=
  leaseGuard_leaseStep rfl ⟨rfl, rfl, rfl, rfl, rfl⟩

theorem finishFailure_leaseStep (id leaseToken : UUID) (dbTime durationMs : Int)
    (errorCode errorMsg : String) (nextRetryAt : Option Int) (r : Execution) : LeaseStep none r
      ((finishFailureStmt id leaseToken dbTime durationMs errorCode errorMsg nextRetryAt).apply r) :=
  leaseGuard_leaseStep rfl ⟨rfl, rfl, rfl, rfl, rfl⟩

theorem execLease_lost {q : ExecutionTable} {u : Update Execution} {l : Lease}
    (hguard : u.sel = leaseGuard l.id l.token) (hstep : ∀ r, LeaseStep none r (u.apply r))
    (hlost : holds q l = false) : execLease q u = .error .leaseLost := by
  rcases Option.isSome_iff_exists.1 (update?_isSome fun r (_ : r ∈ q.rows) => hstep r) with ⟨q', hq'⟩
  -- without a row that the guard selects the statement counts no row
  have hnone : q.rows.any u.sel = false := by
    rw [hguard]
    exact hlost
  simp [execLease, hq', hnone]

theorem execLease_ok {q q' : ExecutionTable} {u : Update Execution} (h : execLease q u = .ok q') :
    q.update? u = some q' ∧ ∃ r ∈ q.rows, u.sel r = true := by
  unfold execLease at h
  cases hu : q.update? u with
  | none => simp [hu] at h
  | some q₁ =>
    simp only [hu] at h
    split at h
    · rename_i hany
      simp only [Except.ok.injEq] at h
      subst h
      exact ⟨rfl, List.any_eq_true.1 hany⟩
    · simp at h

/-- Who has lost a lease is told so by each of the three statements, and changes nothing. -/
theorem reportsLost_of_not_holds {s : State} {l : Lease} (hlost : holds s.executions l = false) :
    ReportsLost s l := by
  have hheartbeat : ∀ staleTimeout,
      Scheduler.heartbeat s.now s.executions l.id l.token staleTimeout = .error .leaseLost :=
    fun staleTimeout => execLease_lost rfl (heartbeat_leaseStep _ _ _ _) hlost
  have hsuccess : ∀ dbTime durationMs res, (encodeResult res).isSome →
      Scheduler.finishSuccess s.executions l.id l.token dbTime durationMs res =
        .error .leaseLost := by
    intro dbTime durationMs res hres
    rcases Option.isSome_iff_exists.1 hres with ⟨json, hjson⟩
    simp only [Scheduler.finishSuccess, hjson]
    exact execLease_lost rfl (finishSuccess_leaseStep _ _ _ _ _ _) hlost
  have hfailure : ∀ dbTime durationMs errorCode errorMsg nextRetryAt,
      Scheduler.finishFailure s.executions l.id l.token dbTime durationMs errorCode errorMsg
        nextRetryAt = .error .leaseLost := by
    intro dbTime durationMs errorCode errorMsg nextRetryAt
    exact execLease_lost rfl (finishFailure_leaseStep _ _ _ _ _ _ _) hlost
  refine ⟨hheartbeat, hsuccess, hfailure, fun a ha => ?_⟩
  cases a with
  | heartbeat id leaseToken staleTimeout =>
    simp only [Act.uses, Bool.and_eq_true, beq_iff_eq] at ha
    simp only [next, ha.1, ha.2, hheartbeat]
  | finishSuccess id leaseToken dbTime durationMs res =>
    simp only [Act.uses, Bool.and_eq_true, beq_iff_eq] at ha
    cases hres : encodeResult res with
    | none => simp only [next, Scheduler.finishSuccess, hres]
    | some json => simp only [next, ha.1, ha.2, hsuccess dbTime durationMs res (by simp [hres])]
  | finishFailure id leaseToken dbTime durationMs errorCode errorMsg nextRetryAt =>
    simp only [Act.uses, Bool.and_eq_true, beq_iff_eq] at ha
    simp only [next, ha.1, ha.2, hfailure]
  | tick | claimInsert | claimSteal | markStaleAsFailed => simp [Act.uses] at ha

/-- What the invariant says about leases. -/
theorem Inv.fenced {s : State} (hinv : Inv s) : Fenced s := by
  constructor
  · exact hinv.attempts
  · -- a claim of the plan would have left a row
    intro key hnone
    rw [State.claims, List.countP_eq_zero]
    intro l hl hkey
    rcases hinv.claimed l hl with ⟨r, hr, -, hrkey⟩
    exact hnone r hr (hrkey.trans (by simpa using hkey))
  · intro r _ l hl l' hl' hguard hguard'
    simp only [leaseGuard, Bool.and_eq_true, beq_iff_eq] at hguard hguard'
    -- the row has one token, and no token was issued twice
    have htoken : l.token = l'.token := hguard.1.2.symm.trans hguard'.1.2
    exact List.inj_on_of_nodup_map hinv.tokens hl hl' htoken
  · exact fun l hl => reportsLost_of_not_holds (hinv.lost l hl).2
  · intro key
    exact Nat.le_trans (hinv.succeeded key) (successes_le s.executions key)

/-! ## The steps -/

/-- A lease that is not held is not held again. -/
theorem not_holds_step {q q' : ExecutionTable} {u : Update Execution} {claim : Option UUID}
    {l : Lease} (hupd : q.update? u = some q') (hstep : ∀ r ∈ q.rows, LeaseStep claim r (u.apply r))
    (hfresh : claim ≠ some l.token) (hlost : holds q l = false) : holds q' l = false := by
  rw [not_holds_iff] at hlost ⊢
  intro r' hr'
  rcases (Table.mem_update? hupd).1 hr' with ⟨r, hr, rfl⟩
  have hs := hstep r hr
  have hold := hlost r hr
  by_contra hguard
  simp only [Bool.not_eq_false, leaseGuard, Bool.and_eq_true, beq_iff_eq] at hguard
  rcases hguard with ⟨⟨hid, htoken⟩, hrunning⟩
  -- a row gets the token back only from a claim, and a claim takes a new one
  rcases hs.lease with ⟨hsame, -, hopen⟩ | ⟨hclaim, -, -⟩
  · have hopen' : leaseGuard l.id l.token r = true := by
      simp only [leaseGuard, Bool.and_eq_true, beq_iff_eq]
      exact ⟨⟨hs.id.symm.trans hid, hsame.symm.trans htoken⟩, hopen hrunning⟩
    simp [hopen'] at hold
  · exact hfresh (hclaim.trans (congrArg some htoken))

/-- The leases that a step ends join the lost ones. -/
theorem lost_commit {s : State} (hinv : Inv s) {q : ExecutionTable}
    (hkeep : ∀ l ∈ s.issued, holds s.executions l = false → holds q l = false) :
    ∀ l ∈ (s.commit q).lost, l ∈ s.issued ∧ holds q l = false := by
  intro l hl
  -- the leases lost before, and those that this step has ended
  rcases List.mem_append.1 hl with hl | hl
  · rcases hinv.lost l hl with ⟨hissued, hlost⟩
    exact ⟨hissued, hkeep l hissued hlost⟩
  · rcases List.mem_filter.1 hl with ⟨hissued, hends⟩
    simp only [Bool.and_eq_true, Bool.not_eq_true'] at hends
    exact ⟨hissued, hends.2⟩

/-- A success stays one. -/
theorem successes_step {q q' : ExecutionTable} {u : Update Execution} {claim : Option UUID}
    (hupd : q.update? u = some q') (hstep : ∀ r ∈ q.rows, LeaseStep claim r (u.apply r))
    (key : PlanKey) : successes q key ≤ successes q' key := by
  rw [successes, successes, Table.update?_rows hupd, List.countP_map]
  refine List.countP_mono_left fun r hr hsuccess => ?_
  simp only [Bool.and_eq_true, beq_iff_eq] at hsuccess
  simp only [Function.comp_apply, (hstep r hr).success hsuccess.2, Bool.and_eq_true, beq_iff_eq]
  exact hsuccess

/-- A statement that claims nothing. -/
theorem Inv.update {s : State} (hinv : Inv s) {u : Update Execution} {q : ExecutionTable}
    (hupd : s.executions.update? u = some q) (hstep : ∀ r, LeaseStep none r (u.apply r)) :
    Inv (s.commit q) := by
  have hstep' : ∀ r ∈ s.executions.rows, LeaseStep none r (u.apply r) := fun r _ => hstep r
  constructor
  · intro l hl
    rcases hinv.claimed l hl with ⟨r, hr, hid, hkey⟩
    exact ⟨u.apply r, (Table.mem_update? hupd).2 ⟨r, hr, rfl⟩, (hstep r).id.trans hid,
      (hstep r).key.trans hkey⟩
  · intro r' hr'
    rcases (Table.mem_update? hupd).1 hr' with ⟨r, hr, rfl⟩
    -- only a claim counts as an attempt
    have hattempt : (u.apply r).attempt = r.attempt := by
      rcases (hstep r).lease with ⟨-, hsame, -⟩ | ⟨hclaim, -, -⟩
      · exact hsame
      · simp at hclaim
    rw [hattempt, (hstep r).key, (hstep r).maxAttempts]
    exact hinv.attempts r hr
  · exact hinv.tokens
  · exact lost_commit hinv fun l _ => not_holds_step hupd hstep' (by simp)
  · exact fun key => Nat.le_trans (hinv.succeeded key) (successes_step hupd hstep' key)

/-- A statement that changes nothing but times and terminal columns of open leases. -/
theorem inv_exec {s : State} (hinv : Inv s) {u : Update Execution} {q : ExecutionTable}
    (hok : execLease s.executions u = .ok q) (hstep : ∀ r, LeaseStep none r (u.apply r)) :
    Inv (s.commit q) :=
  hinv.update (execLease_ok hok).1 hstep

theorem claims_issue (s : State) (q : ExecutionTable) (l : Lease) (key : PlanKey) :
    ((s.commit q).issue l).claims key = s.claims key + if l.key = key then 1 else 0 := by
  simp [State.claims, State.issue, State.commit, List.countP_cons]

theorem fresh_iff {s : State} {leaseToken : UUID} :
    s.fresh leaseToken = true ↔ ∀ l ∈ s.issued, l.token ≠ leaseToken := by
  simp [State.fresh]

theorem tokens_issue {s : State} (hinv : Inv s) {l : Lease} (hfresh : s.fresh l.token = true)
    (q : ExecutionTable) : (((s.commit q).issue l).issued.map Lease.token).Nodup := by
  show ((l :: s.issued).map Lease.token).Nodup
  rw [List.map_cons, List.nodup_cons]
  refine ⟨fun hmem => ?_, hinv.tokens⟩
  rcases List.mem_map.1 hmem with ⟨l', hl', htoken⟩
  exact fresh_iff.1 hfresh l' hl' htoken

/-- A plan without a row was never claimed. -/
theorem Inv.claims_eq_zero {s : State} (hinv : Inv s) {key : PlanKey}
    (h : ∀ r ∈ s.executions.rows, r.key ≠ key) : s.claims key = 0 :=
  hinv.fenced.unclaimed key h

/-- The fresh insert. -/
theorem inv_claimInsert {s : State} (hinv : Inv s) {c : ClaimCall} {id leaseToken : UUID}
    (hfresh : s.fresh leaseToken = true) {q : ExecutionTable}
    (hins : s.executions.insert? (c.insertRow id leaseToken) = some q) :
    Inv ((s.commit q).issue ⟨c.key, id, leaseToken⟩) := by
  have hnew : ∀ r ∈ s.executions.rows, r.key ≠ c.key := by
    have hsome : (s.executions.insert? (c.insertRow id leaseToken)).isSome := by
      rw [hins]
      rfl
    intro r hr hkey
    refine (Table.insert?_isSome.1 hsome).2 c.key rfl r hr ?_
    rw [executionSchema_index, hkey]
  have hmem : ∀ r, r ∈ q.rows ↔ r ∈ s.executions.rows ∨ r = c.insertRow id leaseToken :=
    fun r => Table.mem_insert? hins
  constructor
  · intro l hl
    rcases List.mem_cons.1 hl with rfl | hl
    · exact ⟨_, (hmem _).2 (.inr rfl), rfl, rfl⟩
    · rcases hinv.claimed l hl with ⟨r, hr, hid, hkey⟩
      exact ⟨r, (hmem r).2 (.inl hr), hid, hkey⟩
  · intro r hr
    rw [claims_issue]
    rcases (hmem r).1 hr with hr | rfl
    · rw [if_neg (hnew r hr).symm]
      exact hinv.attempts r hr
    · have hzero := hinv.claims_eq_zero hnew
      have hmax := c.job.one_le_maxAttempts
      -- the first claim of its plan is the first attempt
      show (1 : Int) = ((s.claims c.key + if c.key = c.key then 1 else 0 : Nat) : Int) ∧
        1 ≤ c.job.maxAttempts
      rw [hzero, if_pos rfl]
      exact ⟨rfl, hmax⟩
  · exact tokens_issue hinv hfresh q
  · have hlost := lost_commit hinv (q := q) fun l hl hgone => by
      rw [not_holds_iff] at hgone ⊢
      intro r hr
      rcases (hmem r).1 hr with hr | rfl
      · exact hgone r hr
      · -- the new row has a token that no lease had
        have htoken := fresh_iff.1 hfresh l hl
        simp [leaseGuard, ClaimCall.insertRow, htoken.symm]
    intro l hl
    exact ⟨List.mem_cons_of_mem _ (hlost l hl).1, (hlost l hl).2⟩
  · intro key
    refine Nat.le_trans (hinv.succeeded key) ?_
    show successes s.executions key ≤ successes q key
    rw [successes, successes, Table.insert?_rows hins, List.countP_append]
    exact Nat.le_add_right _ _

/-- The retry or the steal. -/
theorem inv_claimSteal {s : State} (hinv : Inv s) {c : ClaimCall} {leaseToken : UUID}
    (hfresh : s.fresh leaseToken = true) {r : Execution}
    (hfind : s.executions.rows.find? (c.steal leaseToken).sel = some r) {q : ExecutionTable}
    (hupd : s.executions.update? (c.steal leaseToken) = some q) :
    Inv ((s.commit q).issue ⟨c.key, r.id, leaseToken⟩) := by
  have hr : r ∈ s.executions.rows := List.mem_of_find?_eq_some hfind
  have hsel : (c.steal leaseToken).sel r = true := List.find?_some hfind
  have hkey : r.key = c.key := by
    simp only [ClaimCall.steal, Bool.and_eq_true, beq_iff_eq] at hsel
    exact hsel.1.1
  have hstep : ∀ x ∈ s.executions.rows,
      LeaseStep (some leaseToken) x ((c.steal leaseToken).apply x) :=
    fun x _ => steal_leaseStep c leaseToken x
  constructor
  · intro l hl
    rcases List.mem_cons.1 hl with rfl | hl
    · exact ⟨_, (Table.mem_update? hupd).2 ⟨r, hr, rfl⟩, (hstep r hr).id, (hstep r hr).key.trans hkey⟩
    · rcases hinv.claimed l hl with ⟨x, hx, hid, hxkey⟩
      exact ⟨_, (Table.mem_update? hupd).2 ⟨x, hx, rfl⟩, (hstep x hx).id.trans hid,
        (hstep x hx).key.trans hxkey⟩
  · intro x' hx'
    rcases (Table.mem_update? hupd).1 hx' with ⟨x, hx, rfl⟩
    have hold := hinv.attempts x hx
    rw [claims_issue, (hstep x hx).key, (hstep x hx).maxAttempts]
    by_cases hxr : x = r
    · -- the row that is claimed once more
      subst hxr
      have hbudget : x.attempt < x.maxAttempts := by
        simp only [ClaimCall.steal, Bool.and_eq_true, decide_eq_true_eq] at hsel
        exact hsel.1.2
      have hattempt : ((c.steal leaseToken).apply x).attempt = x.attempt + 1 := by
        rw [Update.apply_of_sel hsel]
        rfl
      rw [hattempt, if_pos hkey.symm]
      omega
    · have hother : x.key ≠ c.key := fun h => hxr (eq_of_planKey hx hr (h.trans hkey.symm))
      have hnsel : (c.steal leaseToken).sel x = false := by simp [ClaimCall.steal, hother]
      rw [Update.apply_of_not_sel hnsel, if_neg hother.symm]
      exact hold
  · exact tokens_issue hinv hfresh q
  · have hlost := lost_commit hinv (q := q) fun l hl hgone =>
      not_holds_step hupd hstep (fun h => fresh_iff.1 hfresh l hl (Option.some.inj h).symm) hgone
    intro l hl
    exact ⟨List.mem_cons_of_mem _ (hlost l hl).1, (hlost l hl).2⟩
  · intro key
    exact Nat.le_trans (hinv.succeeded key) (successes_step hupd hstep key)

/-- A terminal success is the first of its plan: the row was open before. -/
theorem inv_finishSuccess {s : State} (hinv : Inv s) {id leaseToken : UUID}
    {dbTime durationMs rowsAffected : Int} {json : String} {q : ExecutionTable}
    (hok : execLease s.executions
      (finishSuccessStmt id leaseToken dbTime durationMs rowsAffected json) = .ok q) :
    Inv { s.commit q with
      succeeded := ((s.executions.rows.find? (leaseGuard id leaseToken)).map
        Execution.key).toList ++ s.succeeded } := by
  have hexec := inv_exec hinv hok (finishSuccess_leaseStep _ _ _ _ _ _)
  rcases execLease_ok hok with ⟨hupd, x, hx, hsel⟩
  refine ⟨hexec.claimed, hexec.attempts, hexec.tokens, hexec.lost, fun key => ?_⟩
  cases hfind : s.executions.rows.find? (leaseGuard id leaseToken) with
  | none =>
    have hnone : leaseGuard id leaseToken x = false := by
      simpa using List.find?_eq_none.1 hfind x hx
    exact absurd hsel (Bool.eq_false_iff.1 hnone)
  | some r =>
    have hr : r ∈ s.executions.rows := List.mem_of_find?_eq_some hfind
    have hguard : leaseGuard id leaseToken r = true := List.find?_some hfind
    by_cases hkey : r.key = key
    · subst hkey
      -- the plan's one row was running until now
      have hopen : successes s.executions r.key = 0 := by
        rw [successes, List.countP_eq_zero]
        intro y hy hsuccess
        simp only [Bool.and_eq_true, beq_iff_eq] at hsuccess
        simp only [leaseGuard, Bool.and_eq_true, beq_iff_eq] at hguard
        rw [eq_of_planKey hy hr hsuccess.1, hguard.2] at hsuccess
        exact absurd hsuccess.2 (by decide)
      have hzero : s.succeeded.count r.key = 0 := by
        have hle := hinv.succeeded r.key
        omega
      -- it is a success from now on
      have hone : 1 ≤ successes q r.key := by
        refine List.countP_pos_iff.2 ⟨_, (Table.mem_update? hupd).2 ⟨r, hr, rfl⟩, ?_⟩
        rw [Update.apply_of_sel (by exact hguard)]
        simp [finishSuccessStmt]
      show (r.key :: s.succeeded).count r.key ≤ successes q r.key
      rw [List.count_cons_self, hzero]
      exact hone
    · show (r.key :: s.succeeded).count key ≤ successes q key
      rw [List.count_cons_of_ne hkey]
      exact hexec.succeeded key

/-- Everything a step can do, guards included. -/
inductive Effect (s : State) : Act → State → Prop where
  | tick {t : Int} (later : s.now ≤ t) : Effect s (.tick t) { s with now := t }
  | idle (a : Act) : Effect s a s
  | insert {c : ClaimCall} {id leaseToken : UUID} {q : ExecutionTable}
      (fresh : s.fresh leaseToken = true)
      (inserted : s.executions.insert? (c.insertRow id leaseToken) = some q) :
      Effect s (.claimInsert c id leaseToken) ((s.commit q).issue ⟨c.key, id, leaseToken⟩)
  | steal {c : ClaimCall} {leaseToken : UUID} {r : Execution} {q : ExecutionTable}
      (fresh : s.fresh leaseToken = true)
      (found : s.executions.rows.find? (c.steal leaseToken).sel = some r)
      (updated : s.executions.update? (c.steal leaseToken) = some q) :
      Effect s (.claimSteal c leaseToken) ((s.commit q).issue ⟨c.key, r.id, leaseToken⟩)
  | sweep {jobName : String} {dbTime : Int} {q : ExecutionTable}
      (updated : s.executions.update? (Scheduler.markStaleAsFailed jobName dbTime) = some q) :
      Effect s (.markStaleAsFailed jobName dbTime) (s.commit q)
  | heartbeat {id leaseToken : UUID} {staleTimeout : Int} {q : ExecutionTable}
      (ok : execLease s.executions (heartbeatStmt s.now id leaseToken staleTimeout) = .ok q) :
      Effect s (.heartbeat id leaseToken staleTimeout) (s.commit q)
  | success {id leaseToken : UUID} {dbTime durationMs : Int} {res : HandlerResult} {json : String}
      {q : ExecutionTable}
      (ok : execLease s.executions
        (finishSuccessStmt id leaseToken dbTime durationMs res.rowsAffected json) = .ok q) :
      Effect s (.finishSuccess id leaseToken dbTime durationMs res)
        { s.commit q with
          succeeded := ((s.executions.rows.find? (leaseGuard id leaseToken)).map
            Execution.key).toList ++ s.succeeded }
  | failure {id leaseToken : UUID} {dbTime durationMs : Int} {errorCode errorMsg : String}
      {nextRetryAt : Option Int} {q : ExecutionTable}
      (ok : execLease s.executions
        (finishFailureStmt id leaseToken dbTime durationMs errorCode errorMsg nextRetryAt) = .ok q) :
      Effect s (.finishFailure id leaseToken dbTime durationMs errorCode errorMsg nextRetryAt)
        (s.commit q)

theorem next_effect {s s' : State} {a : Act} (h : next s a = some s') : Effect s a s' := by
  cases a with
  | tick t =>
    simp only [next, Option.ite_none_right_eq_some, Option.some.injEq] at h
    rcases h with ⟨hlater, rfl⟩
    exact .tick hlater
  | claimInsert c id leaseToken =>
    simp only [next, Option.ite_none_right_eq_some] at h
    rcases h with ⟨hfresh, h⟩
    cases hins : s.executions.insert? (c.insertRow id leaseToken) with
    | none =>
      simp only [hins, Option.some.injEq] at h
      exact h ▸ .idle _
    | some q =>
      simp only [hins, Option.some.injEq] at h
      exact h ▸ .insert hfresh hins
  | claimSteal c leaseToken =>
    simp only [next, Option.ite_none_right_eq_some] at h
    rcases h with ⟨hfresh, h⟩
    cases hfind : s.executions.rows.find? (c.steal leaseToken).sel with
    | none =>
      simp only [hfind, Option.some.injEq] at h
      exact h ▸ .idle _
    | some r =>
      simp only [hfind, Option.map_eq_some_iff] at h
      rcases h with ⟨q, hupd, rfl⟩
      exact .steal hfresh hfind hupd
  | markStaleAsFailed jobName dbTime =>
    simp only [next, Option.map_eq_some_iff] at h
    rcases h with ⟨q, hupd, rfl⟩
    exact .sweep hupd
  | heartbeat id leaseToken staleTimeout =>
    cases hok : Scheduler.heartbeat s.now s.executions id leaseToken staleTimeout with
    | error e =>
      simp only [next, hok, Option.some.injEq] at h
      exact h ▸ .idle _
    | ok q =>
      simp only [next, hok, Option.some.injEq] at h
      exact h ▸ .heartbeat hok
  | finishSuccess id leaseToken dbTime durationMs res =>
    cases hok : Scheduler.finishSuccess s.executions id leaseToken dbTime durationMs res with
    | error e =>
      simp only [next, hok, Option.some.injEq] at h
      exact h ▸ .idle _
    | ok q =>
      simp only [next, hok, Option.some.injEq] at h
      cases hres : encodeResult res with
      | none => simp [Scheduler.finishSuccess, hres] at hok
      | some json =>
        simp only [Scheduler.finishSuccess, hres] at hok
        exact h ▸ .success hok
  | finishFailure id leaseToken dbTime durationMs errorCode errorMsg nextRetryAt =>
    cases hok : Scheduler.finishFailure s.executions id leaseToken dbTime durationMs errorCode
        errorMsg nextRetryAt with
    | error e =>
      simp only [next, hok, Option.some.injEq] at h
      exact h ▸ .idle _
    | ok q =>
      simp only [next, hok, Option.some.injEq] at h
      exact h ▸ .failure hok

theorem inv_step {s s' : State} (hinv : Inv s) {a : Act} (h : next s a = some s') : Inv s' := by
  cases next_effect h with
  | tick => exact ⟨hinv.claimed, hinv.attempts, hinv.tokens, hinv.lost, hinv.succeeded⟩
  | idle => exact hinv
  | insert hfresh hins => exact inv_claimInsert hinv hfresh hins
  | steal hfresh hfind hupd => exact inv_claimSteal hinv hfresh hfind hupd
  | sweep hupd => exact hinv.update hupd (markStaleAsFailed_leaseStep _ _)
  | heartbeat hok => exact inv_exec hinv hok (heartbeat_leaseStep _ _ _ _)
  | success hok => exact inv_finishSuccess hinv hok
  | failure hok => exact inv_exec hinv hok (finishFailure_leaseStep _ _ _ _ _ _ _)

theorem inv_reachable : ∀ s, machine.Reachable s → Inv s := by
  refine Machine.invariant ?_ fun s a s' _ hinv hn => inv_step hinv hn
  intro s hs
  rcases hs with ⟨hrows, hissued, hlost, hsucceeded⟩
  constructor
  · simp [hissued]
  · simp [hrows]
  · simp [hissued]
  · simp [hlost]
  · simp [hsucceeded]

/-- A success is final. -/
theorem success_step {s s' : State} {a : Act} (h : next s a = some s') {r : Execution}
    (hr : r ∈ s.executions.rows) (hsuccess : r.status = .success) : r ∈ s'.executions.rows := by
  have hupdate : ∀ {u : Update Execution} {q : ExecutionTable} {claim : Option UUID},
      s.executions.update? u = some q → LeaseStep claim r (u.apply r) → r ∈ q.rows := by
    intro u q claim hupd hstep
    exact (Table.mem_update? hupd).2 ⟨r, hr, hstep.success hsuccess⟩
  cases next_effect h with
  | tick | idle => exact hr
  | insert _ hins => exact (Table.mem_insert? hins).2 (.inl hr)
  | steal _ _ hupd => exact hupdate hupd (steal_leaseStep _ _ r)
  | sweep hupd => exact hupdate hupd (markStaleAsFailed_leaseStep _ _ r)
  | heartbeat hok => exact hupdate (execLease_ok hok).1 (heartbeat_leaseStep _ _ _ _ r)
  | success hok => exact hupdate (execLease_ok hok).1 (finishSuccess_leaseStep _ _ _ _ _ _ r)
  | failure hok => exact hupdate (execLease_ok hok).1 (finishFailure_leaseStep _ _ _ _ _ _ _ r)

/-- Whatever the runners do, attempts count claims within the budget, at most one lease is
open, who has lost a lease is told so and changes nothing, and a success is final. -/
theorem lease_fenced (s : State) (hs : machine.Reachable s) :
    Fenced s ∧ ∀ a s', machine.next s a = some s' →
      ∀ r ∈ s.executions.rows, r.status = .success → r ∈ s'.executions.rows :=
  ⟨(inv_reachable s hs).fenced, fun _ _ h _ hr hsuccess => success_step h hr hsuccess⟩

/-- Half a minute to run, a minute to go stale. -/
def minuteJob : Job where
  name := "rollup"
  cadence := 60 * second
  runTimeout := 30 * second
  staleTimeout := 60 * second
  heartbeatInterval := 20 * second
  allowStaleReentry := true
  maxAttempts := 2
  valid := by decide

def minuteCall (dbTime : Int) (runnerID : String) : ClaimCall :=
  ⟨minuteJob, ⟨"global", "global"⟩, 0, dbTime, runnerID⟩

/-- One runner claims a plan and stalls; another steals it and finishes. -/
def stolenRun : List Act :=
  [.claimInsert (minuteCall 0 "a") 1 100, .tick (61 * second),
    .claimInsert (minuteCall (61 * second) "b") 2 101,
    .claimSteal (minuteCall (61 * second) "b") 101, .heartbeat 1 100 (60 * second),
    .finishSuccess 1 101 (62 * second) 1000 {}, .finishSuccess 1 100 (63 * second) 9 {}]

theorem lease_fenced_stolenRun :
    ∃ s, machine.run State.empty stolenRun = some s ∧ s.lost.length = 2 ∧ Fenced s := by
  rcases Machine.reachable_of_run machine init_empty stolenRun (fun s => s.lost.length == 2)
    (by decide) with ⟨s, hrun, hs, hp⟩
  exact ⟨s, hrun, by simpa using hp, (lease_fenced s hs).1⟩

end Orynx.Scheduler.Fencing
