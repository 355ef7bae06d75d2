import Orynx.Scheduler.Fencing

/-! # Runners and the age of a tick

`RunOnce` reads the database clock once and works through jobs, scopes and plans with that
reading, running each handler it has claimed before it goes on. A claim late in a long tick
therefore stamps its lease with an old instant.

* `Exclusive`: no two handlers of one plan run at a time, and a running handler holds its
  lease;
* `startsInTime`: a handler starts early enough to return before its claim's stamp;
* `handlers_exclusive`: then it is so in every run, with or without heartbeats;
* `stale_sample_overlaps`: a tick that has grown old breaks it.
-/

namespace Orynx.Scheduler.Runner

open Lib Fencing

/-! ## The machine -/

/-- Where a runner is in `RunOnce`. A claim carries the tick's reading of the clock. -/
inductive Phase where
  | idle
  | ticking (now : Int)
  | conflicted (c : ClaimCall)
  | claimed (c : ClaimCall) (l : Lease)
  | handling (c : ClaimCall) (l : Lease) (startedAt : Int)
  | returned (c : ClaimCall) (l : Lease)

structure State where
  db : Fencing.State
  runners : List Phase

/-- The steps of the runner at an index. `markStale` and `claimInsert` are called for any
job, scope and plan; a heartbeat may come or not. -/
inductive Act where
  | advance (t : Int)
  | sample (i : Nat)
  | markStale (i : Nat) (job : Job)
  | claimInsert (i : Nat) (job : Job) (scope : Scope) (planTime : Int) (runnerID : String)
      (id leaseToken : UUID)
  | claimSteal (i : Nat) (leaseToken : UUID)
  | startHandler (i : Nat)
  | heartbeat (i : Nat)
  | handlerReturns (i : Nat)
  | finishSuccess (i : Nat) (dbTime durationMs : Int) (res : HandlerResult)
  | finishFailure (i : Nat) (dbTime durationMs : Int) (errorCode errorMsg : String)
      (nextRetryAt : Option Int)
  | endTick (i : Nat)
  | crash (i : Nat)

def State.setPhase (s : State) (i : Nat) (db : Fencing.State) (p : Phase) : State :=
  ⟨db, s.runners.set i p⟩

/-- A handler that is running has not reached its timeout. -/
def Phase.withinTimeout (t : Int) : Phase → Bool
  | .handling c _ startedAt => decide (t ≤ startedAt + c.job.runTimeout)
  | _ => true

/-- The lease whose handler the runner is about to run or has run. -/
def Phase.lease? : Phase → Option Lease
  | .claimed _ l | .handling _ l _ | .returned _ l => some l
  | _ => none

/-- The lease that the heartbeats of a runner renew. -/
def Phase.renews? : Phase → Option (ClaimCall × Lease)
  | .claimed c l | .handling c l _ => some (c, l)
  | _ => none

def next (s : State) : Act → Option State
  | .advance t =>
    -- handlers return within their timeout
    if s.runners.all (Phase.withinTimeout t) then
      (Fencing.next s.db (.tick t)).map fun db => { s with db := db }
    else none
  | .sample i =>
    match s.runners[i]? with
    | some .idle => some (s.setPhase i s.db (.ticking s.db.now))
    | _ => none
  | .markStale i job =>
    match s.runners[i]? with
    | some (.ticking now) =>
      (Fencing.next s.db (.markStaleAsFailed job.name now)).map fun db => { s with db := db }
    | _ => none
  | .claimInsert i job scope planTime runnerID id leaseToken =>
    match s.runners[i]? with
    | some (.ticking now) =>
      let c : ClaimCall := ⟨job, scope, planTime, now, runnerID⟩
      (Fencing.next s.db (.claimInsert c id leaseToken)).map fun db =>
        s.setPhase i db
          (if (s.db.executions.insert? (c.insertRow id leaseToken)).isSome then
            .claimed c ⟨c.key, id, leaseToken⟩
          else .conflicted c)
    | _ => none
  | .claimSteal i leaseToken =>
    match s.runners[i]? with
    | some (.conflicted c) =>
      (Fencing.next s.db (.claimSteal c leaseToken)).map fun db =>
        s.setPhase i db
          (match s.db.executions.rows.find? (c.steal leaseToken).sel with
          | some r => .claimed c ⟨c.key, r.id, leaseToken⟩
          | none => .ticking c.dbTime)
    | _ => none
  | .startHandler i =>
    match s.runners[i]? with
    | some (.claimed c l) => some (s.setPhase i s.db (.handling c l s.db.now))
    | _ => none
  | .heartbeat i =>
    match (s.runners[i]?).bind Phase.renews? with
    | some (c, l) =>
      (Fencing.next s.db (.heartbeat l.id l.token c.job.staleTimeout)).map fun db =>
        { s with db := db }
    | none => none
  | .handlerReturns i =>
    match s.runners[i]? with
    | some (.handling c l _) => some (s.setPhase i s.db (.returned c l))
    | _ => none
  | .finishSuccess i dbTime durationMs res =>
    match s.runners[i]? with
    | some (.returned c l) =>
      (Fencing.next s.db (.finishSuccess l.id l.token dbTime durationMs res)).map fun db =>
        s.setPhase i db (.ticking c.dbTime)
    | _ => none
  | .finishFailure i dbTime durationMs errorCode errorMsg nextRetryAt =>
    match s.runners[i]? with
    | some (.returned c l) =>
      (Fencing.next s.db
        (.finishFailure l.id l.token dbTime durationMs errorCode errorMsg nextRetryAt)).map
        fun db => s.setPhase i db (.ticking c.dbTime)
    | _ => none
  | .endTick i =>
    match s.runners[i]? with
    | some (.ticking _) => some (s.setPhase i s.db .idle)
    | _ => none
  | .crash i =>
    match s.runners[i]? with
    | some _ => some (s.setPhase i s.db .idle)
    | none => none

/-- Any number of runners, none of them in a tick. -/
def machine : Machine State Act where
  Init s := Fencing.machine.Init s.db ∧ ∀ p ∈ s.runners, p = .idle
  next := next

/-! ## The property -/

structure Exclusive (s : State) : Prop where
  alone : ∀ (i j : Nat) c c' l l' t t', s.runners[i]? = some (Phase.handling c l t) →
    s.runners[j]? = some (Phase.handling c' l' t') → c.key = c'.key → i = j
  held : ∀ (i : Nat) c l t, s.runners[i]? = some (Phase.handling c l t) →
    holds s.db.executions l = true

/-- The instant after which the claim may be taken for stale. -/
def stamp (c : ClaimCall) : Int := Scheduler.staleAfter c.job.staleTimeout c.dbTime

/-- A handler that starts now returns before its claim may be taken for stale. -/
def startsInTime (s : State) : Act → Bool
  | .startHandler i =>
    match s.runners[i]? with
    | some (.claimed c _) => decide (s.db.now + c.job.runTimeout ≤ stamp c)
    | _ => true
  | _ => true

/-! ## Leases that are good up to an instant -/

/-- The row is held under the lease and not stale before the horizon. -/
def Good (l : Lease) (horizon : Int) (r : Execution) : Prop :=
  leaseGuard l.id l.token r = true ∧ horizon ≤ r.staleAfter

/-- The claim's row is good up to the stamp, unless that is past. -/
def Kept (db : Fencing.State) (c : ClaimCall) (l : Lease) : Prop :=
  db.now ≤ stamp c → ∃ r ∈ db.executions.rows, Good l (stamp c) r

/-- The step runs no statement with an instant that is still to come. -/
def timely (now : Int) : Fencing.Act → Prop
  | .claimSteal c _ => c.dbTime ≤ now
  | .markStaleAsFailed _ dbTime => dbTime ≤ now
  | _ => True

/-- The step is not one of the lease's holder. -/
def spares (l : Lease) : Fencing.Act → Prop
  | .heartbeat _ leaseToken _ => leaseToken ≠ l.token
  | .finishSuccess _ leaseToken _ _ _ => leaseToken ≠ l.token
  | .finishFailure _ leaseToken _ _ _ _ _ => leaseToken ≠ l.token
  | _ => True

theorem good_update {q q' : ExecutionTable} {u : Update Execution} {l : Lease} {horizon : Int}
    (hupd : q.update? u = some q')
    (hkeep : ∀ r ∈ q.rows, Good l horizon r → u.sel r = false)
    (h : ∃ r ∈ q.rows, Good l horizon r) : ∃ r ∈ q'.rows, Good l horizon r := by
  rcases h with ⟨r, hr, hgood⟩
  refine ⟨r, (Table.mem_update? hupd).2 ⟨r, hr, ?_⟩, hgood⟩
  exact Update.apply_of_not_sel (hkeep r hr hgood)

/-- The statements of one holder leave the rows of another alone. -/
theorem not_sel_of_good {l : Lease} {horizon : Int} {r : Execution} (hgood : Good l horizon r)
    {id leaseToken : UUID} (hother : leaseToken ≠ l.token) : leaseGuard id leaseToken r = false := by
  have hguard := hgood.1
  by_contra hsel
  simp only [Bool.not_eq_false, leaseGuard, Bool.and_eq_true, beq_iff_eq] at hguard hsel
  exact hother (hsel.1.2.symm.trans hguard.1.2)

/-- Nobody but its holder touches a lease before it is stale. -/
theorem good_step {db db' : Fencing.State} {a : Fencing.Act} (h : Fencing.next db a = some db')
    {l : Lease} {horizon : Int} (htimely : timely db.now a) (hspares : spares l a)
    (hnow : db.now ≤ horizon) (hgood : ∃ r ∈ db.executions.rows, Good l horizon r) :
    ∃ r ∈ db'.executions.rows, Good l horizon r := by
  cases Fencing.next_effect h with
  | tick | idle => exact hgood
  | insert _ hins =>
    rcases hgood with ⟨r, hr, hgood⟩
    exact ⟨r, (Table.mem_insert? hins).2 (.inl hr), hgood⟩
  | @steal c leaseToken x q _ _ hupd =>
    refine good_update hupd (fun r _ hgood => ?_) hgood
    have hdb : c.dbTime ≤ db.now := htimely
    have hrunning : r.status = .running := by
      have hguard := hgood.1
      simp only [leaseGuard, Bool.and_eq_true, beq_iff_eq] at hguard
      exact hguard.2
    have hlater := hgood.2
    by_contra hsel
    simp only [Bool.not_eq_false, ClaimCall.steal, Bool.and_eq_true, Bool.or_eq_true,
      beq_iff_eq, decide_eq_true_eq, hrunning] at hsel
    -- a running row is stolen when it is stale
    have hstale : r.staleAfter < c.dbTime := by
      rcases hsel.2 with hfailed | hstale
      · exact absurd hfailed.1 (by decide)
      · exact hstale.1.2
    omega
  -- the sweep takes stale rows only, and its instant is not past the horizon
  | @sweep jobName dbTime q hupd =>
    refine good_update hupd (fun r _ hgood => ?_) hgood
    have hdb : dbTime ≤ db.now := htimely
    have hlater := hgood.2
    by_contra hsel
    simp only [Bool.not_eq_false, markStaleAsFailed, Bool.and_eq_true, decide_eq_true_eq] at hsel
    omega
  | heartbeat hok =>
    exact good_update (execLease_ok hok).1 (fun r _ hg => not_sel_of_good hg hspares) hgood
  | success hok =>
    exact good_update (execLease_ok hok).1 (fun r _ hg => not_sel_of_good hg hspares) hgood
  | failure hok =>
    exact good_update (execLease_ok hok).1 (fun r _ hg => not_sel_of_good hg hspares) hgood

/-! ## The invariant -/

/-- What is known of a runner in its phase. -/
def PhaseOk (db : Fencing.State) : Phase → Prop
  | .idle => True
  | .ticking now => now ≤ db.now
  | .conflicted c => c.dbTime ≤ db.now
  | .claimed c l => c.dbTime ≤ db.now ∧ l ∈ db.issued ∧ l.key = c.key ∧ Kept db c l
  | .handling c l startedAt => c.dbTime ≤ db.now ∧ l ∈ db.issued ∧ l.key = c.key ∧ Kept db c l ∧
      startedAt + c.job.runTimeout ≤ stamp c ∧ db.now ≤ startedAt + c.job.runTimeout
  | .returned c l => c.dbTime ≤ db.now ∧ l ∈ db.issued

structure Inv (s : State) : Prop where
  fencing : Fencing.Inv s.db
  phases : ∀ (i : Nat) p, s.runners[i]? = some p → PhaseOk s.db p
  distinct : ∀ (i j : Nat) p p' l l', s.runners[i]? = some p → s.runners[j]? = some p' →
    p.lease? = some l → p'.lease? = some l' → l.token = l'.token → i = j

/-- A handler that runs still holds its lease, whose row is the plan's. -/
theorem Inv.handling {s : State} (hinv : Inv s) {i : Nat} {c : ClaimCall} {l : Lease} {t : Int}
    (h : s.runners[i]? = some (.handling c l t)) :
    ∃ r ∈ s.db.executions.rows, leaseGuard l.id l.token r = true ∧ r.key = c.key := by
  have hok : PhaseOk s.db (.handling c l t) := hinv.phases i _ h
  rcases hok with ⟨-, hissued, hkey, hkept, hstarted, hnow⟩
  -- it is within its timeout, and the timeout ends before the stamp
  rcases hkept (by omega) with ⟨r, hr, hguard, -⟩
  rcases hinv.fencing.claimed l hissued with ⟨r', hr', hid, hrkey⟩
  have hrid : r.id = l.id := by
    simp only [leaseGuard, Bool.and_eq_true, beq_iff_eq] at hguard
    exact hguard.1.1
  have hsame : r = r' := s.db.executions.eq_of_key hr hr' (hrid.trans hid.symm)
  exact ⟨r, hr, hguard, by rw [hsame, hrkey, hkey]⟩

theorem Inv.exclusive {s : State} (hinv : Inv s) : Exclusive s := by
  constructor
  · intro i j c c' l l' t t' hi hj hkey
    rcases hinv.handling hi with ⟨r, hr, hguard, hrkey⟩
    rcases hinv.handling hj with ⟨r', hr', hguard', hrkey'⟩
    have hsame : r = r' := eq_of_planKey hr hr' (by rw [hrkey, hrkey', hkey])
    subst hsame
    simp only [leaseGuard, Bool.and_eq_true, beq_iff_eq] at hguard hguard'
    -- one row has one token, and one token has one runner
    exact hinv.distinct i j _ _ l l' hi hj rfl rfl (hguard.1.2.symm.trans hguard'.1.2)
  · intro i c l t hi
    rcases hinv.handling hi with ⟨r, hr, hguard, -⟩
    exact List.any_eq_true.2 ⟨r, hr, hguard⟩

/-! ## The steps -/

/-- The clock stands still and issued leases stay issued. -/
theorem now_issued_step {db db' : Fencing.State} {a : Fencing.Act}
    (h : Fencing.next db a = some db') (htick : ∀ t, a ≠ .tick t) :
    db'.now = db.now ∧ ∀ l ∈ db.issued, l ∈ db'.issued := by
  cases Fencing.next_effect h with
  | tick => exact absurd rfl (htick _)
  | idle | sweep | heartbeat | success | failure => exact ⟨rfl, fun _ h => h⟩
  | insert | steal => exact ⟨rfl, fun _ h => List.mem_cons_of_mem _ h⟩

/-- A runner is left where it was by a step of another. -/
theorem PhaseOk.step {db db' : Fencing.State} {a : Fencing.Act} {p : Phase} (hok : PhaseOk db p)
    (h : Fencing.next db a = some db') (htick : ∀ t, a ≠ .tick t) (htimely : timely db.now a)
    (hspares : ∀ l, p.lease? = some l → spares l a) : PhaseOk db' p := by
  rcases now_issued_step h htick with ⟨hnow, hissued⟩
  -- the lease is somebody else's, so the step spares it
  have hkept : ∀ {c : ClaimCall} {l : Lease}, p.lease? = some l → Kept db c l → Kept db' c l := by
    intro c l hl hkept hle
    rw [hnow] at hle
    exact good_step h htimely (hspares l hl) hle (hkept hle)
  cases p with
  | idle => trivial
  | ticking now =>
    show now ≤ db'.now
    rw [hnow]
    exact hok
  | conflicted c =>
    show c.dbTime ≤ db'.now
    rw [hnow]
    exact hok
  | claimed c l =>
    rcases hok with ⟨hdb, hl, hkey, hk⟩
    exact ⟨by rw [hnow]; exact hdb, hissued l hl, hkey, hkept rfl hk⟩
  | handling c l startedAt =>
    rcases hok with ⟨hdb, hl, hkey, hk, hstarted, hwithin⟩
    exact ⟨by rw [hnow]; exact hdb, hissued l hl, hkey, hkept rfl hk, hstarted, by
      rw [hnow]; exact hwithin⟩
  | returned c l =>
    rcases hok with ⟨hdb, hl⟩
    exact ⟨by rw [hnow]; exact hdb, hissued l hl⟩

theorem PhaseOk.issued {db : Fencing.State} {p : Phase} (hok : PhaseOk db p) {l : Lease}
    (hl : p.lease? = some l) : l ∈ db.issued := by
  cases p with
  | idle | ticking | conflicted => simp [Phase.lease?] at hl
  | claimed c l' =>
    rw [← Option.some.inj hl]
    exact hok.2.1
  | handling c l' t =>
    rw [← Option.some.inj hl]
    exact hok.2.1
  | returned c l' =>
    rw [← Option.some.inj hl]
    exact hok.2

theorem get_set {runners : List Phase} {i j : Nat} {p' q : Phase}
    (h : (runners.set i p')[j]? = some q) :
    (j = i ∧ q = p') ∨ (j ≠ i ∧ runners[j]? = some q) := by
  by_cases hij : j = i
  · subst hij
    rw [List.getElem?_set_self'] at h
    rcases Option.map_eq_some_iff.1 h with ⟨_, _, hq⟩
    exact .inl ⟨rfl, hq.symm⟩
  · rw [List.getElem?_set_ne (Ne.symm hij)] at h
    exact .inr ⟨hij, h⟩

/-- The runner at `i` moves on to the phase `p'`, whose lease is the one it had or a new
one. -/
theorem Inv.setPhase {s : State} (hinv : Inv s) {i : Nat} {p p' : Phase}
    (hi : s.runners[i]? = some p) {db' : Fencing.State} (hfencing : Fencing.Inv db')
    (hothers : ∀ (j : Nat) q, j ≠ i → s.runners[j]? = some q → PhaseOk db' q)
    (hp' : PhaseOk db' p')
    (hlease : ∀ l, p'.lease? = some l →
      p.lease? = some l ∨ ∀ l' ∈ s.db.issued, l'.token ≠ l.token) :
    Inv (s.setPhase i db' p') := by
  -- whoever had a lease before is told apart from the runner at `i`
  have hapart : ∀ (j : Nat) q l l', s.runners[j]? = some q → q.lease? = some l →
      p'.lease? = some l' → l.token = l'.token → j = i := by
    intro j q l l' hj hl hl' htoken
    rcases hlease l' hl' with hsame | hnew
    · exact hinv.distinct j i q p l l' hj hi hl hsame htoken
    · exact absurd htoken (hnew l ((hinv.phases j q hj).issued hl))
  constructor
  · exact hfencing
  · intro j q hj
    rcases get_set hj with ⟨-, rfl⟩ | ⟨hne, hj⟩
    · exact hp'
    · exact hothers j q hne hj
  · intro j k q q' l l' hj hk hl hl' htoken
    rcases get_set hj with ⟨hji, hq⟩ | ⟨hne, hold⟩
    · rcases get_set hk with ⟨hki, -⟩ | ⟨-, hold'⟩
      · rw [hji, hki]
      · rw [hq] at hl
        rw [hji, hapart k q' l' l hold' hl' hl htoken.symm]
    · rcases get_set hk with ⟨-, hq'⟩ | ⟨-, hold'⟩
      · rw [hq'] at hl'
        exact absurd (hapart j q l l' hold hl hl' htoken) hne
      · exact hinv.distinct j k q q' l l' hold hold' hl hl' htoken

/-- The phases of the other runners survive a step of the runner at `i`, which runs no
statement but under its own lease. -/
theorem Inv.others {s : State} (hinv : Inv s) {i : Nat} {p : Phase} (hi : s.runners[i]? = some p)
    {db' : Fencing.State} {a : Fencing.Act} (h : Fencing.next s.db a = some db')
    (htick : ∀ t, a ≠ .tick t) (htimely : timely s.db.now a)
    (hown : ∀ l, (∀ l', p.lease? = some l' → l'.token ≠ l.token) → spares l a) :
    ∀ (j : Nat) q, j ≠ i → s.runners[j]? = some q → PhaseOk db' q := by
  intro j q hne hj
  refine (hinv.phases j q hj).step h htick htimely fun l hl => hown l fun l' hl' htoken => ?_
  exact hne (hinv.distinct j i q p l l' hj hi hl hl' htoken.symm)

/-- A step that leaves the database alone. -/
theorem Inv.setPhase_same {s : State} (hinv : Inv s) {i : Nat} {p p' : Phase}
    (hi : s.runners[i]? = some p) (hp' : PhaseOk s.db p')
    (hlease : ∀ l, p'.lease? = some l → p.lease? = some l) : Inv (s.setPhase i s.db p') :=
  hinv.setPhase hi hinv.fencing (fun j q _ hj => hinv.phases j q hj) hp'
    fun l hl => .inl (hlease l hl)

/-- The clock moves, and no handler outlives its timeout. -/
theorem inv_advance {s : State} (hinv : Inv s) {t : Int}
    (hwithin : s.runners.all (Phase.withinTimeout t) = true) {db' : Fencing.State}
    (h : Fencing.next s.db (.tick t) = some db') : Inv { s with db := db' } := by
  have hfencing := Fencing.inv_step hinv.fencing h
  simp only [Fencing.next, Option.ite_none_right_eq_some, Option.some.injEq] at h
  rcases h with ⟨hlater, rfl⟩
  refine ⟨hfencing, fun i p hi => ?_, hinv.distinct⟩
  have hok := hinv.phases i p hi
  have hp : p.withinTimeout t = true := List.all_eq_true.1 hwithin p (List.mem_of_getElem? hi)
  have hkept : ∀ {c : ClaimCall} {l : Lease}, Kept s.db c l →
      Kept { s.db with now := t } c l := fun hk hle => hk (Int.le_trans hlater hle)
  cases p with
  | idle => trivial
  | ticking now => exact Int.le_trans hok hlater
  | conflicted c => exact Int.le_trans hok hlater
  | claimed c l =>
    rcases hok with ⟨hdb, hl, hkey, hk⟩
    exact ⟨Int.le_trans hdb hlater, hl, hkey, hkept hk⟩
  | handling c l startedAt =>
    rcases hok with ⟨hdb, hl, hkey, hk, hstarted, -⟩
    exact ⟨Int.le_trans hdb hlater, hl, hkey, hkept hk, hstarted, by
      simpa [Phase.withinTimeout] using hp⟩
  | returned c l => exact ⟨Int.le_trans hok.1 hlater, hok.2⟩

/-- The fresh insert of a claim. -/
theorem inv_claimInsert {s : State} (hinv : Inv s) {i : Nat} {c : ClaimCall}
    (hi : s.runners[i]? = some (.ticking c.dbTime)) {id leaseToken : UUID} {db' : Fencing.State}
    (h : Fencing.next s.db (.claimInsert c id leaseToken) = some db') :
    Inv (s.setPhase i db'
      (if (s.db.executions.insert? (c.insertRow id leaseToken)).isSome then
        .claimed c ⟨c.key, id, leaseToken⟩ else .conflicted c)) := by
  have hfencing := Fencing.inv_step hinv.fencing h
  have hothers := hinv.others hi h (by simp) trivial fun _ _ => trivial
  have hdb : c.dbTime ≤ s.db.now := hinv.phases i _ hi
  have hnow := (now_issued_step h (by simp)).1
  simp only [Fencing.next, Option.ite_none_right_eq_some] at h
  rcases h with ⟨hfresh, h⟩
  cases hins : s.db.executions.insert? (c.insertRow id leaseToken) with
  -- the plan has a row already: the claim goes on to the steal
  | none =>
    simp only [hins, Option.some.injEq] at h
    subst h
    exact hinv.setPhase hi hfencing hothers hdb (by simp [Phase.lease?])
  | some q =>
    simp only [hins, Option.some.injEq] at h
    subst h
    refine hinv.setPhase hi hfencing hothers ?_ ?_
    · refine ⟨hdb, List.mem_cons_self, rfl, fun _ => ?_⟩
      -- the new row is stamped with the claim's own clock
      refine ⟨_, (Table.mem_insert? hins).2 (.inr rfl), ?_, Int.le_refl _⟩
      simp [leaseGuard, ClaimCall.insertRow]
    · intro l hl
      have hll : (⟨c.key, id, leaseToken⟩ : Lease) = l := by simpa [Phase.lease?] using hl
      rw [← hll]
      exact .inr (Fencing.fresh_iff.1 hfresh)

/-- The retry or the steal. -/
theorem inv_claimSteal {s : State} (hinv : Inv s) {i : Nat} {c : ClaimCall}
    (hi : s.runners[i]? = some (.conflicted c)) {leaseToken : UUID} {db' : Fencing.State}
    (h : Fencing.next s.db (.claimSteal c leaseToken) = some db') :
    Inv (s.setPhase i db'
      (match s.db.executions.rows.find? (c.steal leaseToken).sel with
      | some r => .claimed c ⟨c.key, r.id, leaseToken⟩
      -- somebody else has the plan
      | none => .ticking c.dbTime)) := by
  have hfencing := Fencing.inv_step hinv.fencing h
  have hdb : c.dbTime ≤ s.db.now := hinv.phases i _ hi
  have hothers := hinv.others hi h (by simp) hdb fun _ _ => trivial
  simp only [Fencing.next, Option.ite_none_right_eq_some] at h
  rcases h with ⟨hfresh, h⟩
  cases hfind : s.db.executions.rows.find? (c.steal leaseToken).sel with
  | none =>
    simp only [hfind, Option.some.injEq] at h
    subst h
    exact hinv.setPhase hi hfencing hothers hdb (by simp [Phase.lease?])
  | some r =>
    simp only [hfind, Option.map_eq_some_iff] at h
    rcases h with ⟨q, hupd, rfl⟩
    refine hinv.setPhase hi hfencing hothers ?_ ?_
    · refine ⟨hdb, List.mem_cons_self, rfl, fun _ => ?_⟩
      have hr : r ∈ s.db.executions.rows := List.mem_of_find?_eq_some hfind
      refine ⟨_, (Table.mem_update? hupd).2 ⟨r, hr, rfl⟩, ?_⟩
      rw [Update.apply_of_sel (List.find?_some hfind)]
      refine ⟨?_, Int.le_refl _⟩
      simp [leaseGuard, ClaimCall.steal]
    · intro l hl
      have hll : (⟨c.key, r.id, leaseToken⟩ : Lease) = l := by simpa [Phase.lease?] using hl
      rw [← hll]
      exact .inr (Fencing.fresh_iff.1 hfresh)

/-- Who renews a lease has claimed the plan, or handles it. -/
theorem cases_of_renews {p : Phase} {c : ClaimCall} {l : Lease} (h : p.renews? = some (c, l)) :
    p = .claimed c l ∨ ∃ t, p = .handling c l t := by
  cases p with
  | claimed c' l' =>
    have hcl : c' = c ∧ l' = l := by simpa [Phase.renews?] using h
    exact .inl (by rw [hcl.1, hcl.2])
  | handling c' l' t =>
    have hcl : c' = c ∧ l' = l := by simpa [Phase.renews?] using h
    exact .inr ⟨t, by rw [hcl.1, hcl.2]⟩
  | idle | ticking | conflicted | returned => simp [Phase.renews?] at h

/-- A heartbeat puts off the end of the lease, if it does anything. -/
theorem kept_heartbeat {db db' : Fencing.State} {c : ClaimCall} {l : Lease}
    (h : Fencing.next db (.heartbeat l.id l.token c.job.staleTimeout) = some db')
    (hdb : c.dbTime ≤ db.now) (hkept : Kept db c l) : Kept db' c l := by
  intro hle
  rw [(now_issued_step h (by simp)).1] at hle
  rcases hkept hle with ⟨r, hr, hguard, hlater⟩
  cases Fencing.next_effect h with
  | idle => exact ⟨r, hr, hguard, hlater⟩
  | heartbeat hok =>
    refine ⟨_, (Table.mem_update? (execLease_ok hok).1).2 ⟨r, hr, rfl⟩, ?_⟩
    rw [Update.apply_of_sel (by exact hguard)]
    refine ⟨hguard, ?_⟩
    -- the claim's reading of the clock is older than the heartbeat's
    simp only [stamp, heartbeatStmt, Scheduler.staleAfter]
    omega

/-- A heartbeat only touches the row of its own lease. -/
theorem inv_heartbeat {s : State} (hinv : Inv s) {i : Nat} {p : Phase}
    (hi : s.runners[i]? = some p) {c : ClaimCall} {l : Lease} (hp : p.renews? = some (c, l))
    {db' : Fencing.State}
    (h : Fencing.next s.db (.heartbeat l.id l.token c.job.staleTimeout) = some db') :
    Inv { s with db := db' } := by
  have hfencing := Fencing.inv_step hinv.fencing h
  rcases now_issued_step h (by simp) with ⟨hnow, hissued⟩
  have hl : p.lease? = some l := by
    rcases cases_of_renews hp with rfl | ⟨t, rfl⟩
    · rfl
    · rfl
  have hothers := hinv.others hi h (by simp) trivial fun l' hne => hne l hl
  -- the runner itself stays in its phase, with a lease that is kept
  have hown : PhaseOk db' p := by
    have hok := hinv.phases i p hi
    rcases cases_of_renews hp with rfl | ⟨t, rfl⟩
    · rcases hok with ⟨hdb, hmem, hkey, hk⟩
      exact ⟨by rw [hnow]; exact hdb, hissued l hmem, hkey, kept_heartbeat h hdb hk⟩
    · rcases hok with ⟨hdb, hmem, hkey, hk, hstarted, hwithin⟩
      exact ⟨by rw [hnow]; exact hdb, hissued l hmem, hkey, kept_heartbeat h hdb hk, hstarted, by
        rw [hnow]; exact hwithin⟩
  refine ⟨hfencing, fun j q hj => ?_, hinv.distinct⟩
  by_cases hji : j = i
  · subst hji
    rw [← Option.some.inj (hi.symm.trans hj)]
    exact hown
  · exact hothers j q hji hj

/-- The terminal write of a handler that has returned. -/
theorem inv_finish {s : State} (hinv : Inv s) {i : Nat} {c : ClaimCall} {l : Lease}
    (hi : s.runners[i]? = some (.returned c l)) {a : Fencing.Act} (htick : ∀ t, a ≠ .tick t)
    (htimely : timely s.db.now a) (hown : ∀ l', l.token ≠ l'.token → spares l' a)
    {db' : Fencing.State} (h : Fencing.next s.db a = some db') :
    Inv (s.setPhase i db' (.ticking c.dbTime)) := by
  have hothers := hinv.others hi h htick htimely fun l' hne => hown l' (hne l rfl)
  have hdb : c.dbTime ≤ s.db.now := (hinv.phases i _ hi).1
  refine hinv.setPhase hi (Fencing.inv_step hinv.fencing h) hothers ?_ (by simp [Phase.lease?])
  show c.dbTime ≤ db'.now
  rw [(now_issued_step h htick).1]
  exact hdb

theorem inv_startHandler {s : State} (hinv : Inv s) {i : Nat} {c : ClaimCall} {l : Lease}
    (hi : s.runners[i]? = some (.claimed c l)) (hintime : s.db.now + c.job.runTimeout ≤ stamp c) :
    Inv (s.setPhase i s.db (.handling c l s.db.now)) := by
  have hrun := c.job.runTimeout_lt.1
  have hok : PhaseOk s.db (.claimed c l) := hinv.phases i _ hi
  rcases hok with ⟨hdb, hl, hkey, hk⟩
  -- no time has passed since its start
  refine hinv.setPhase_same hi ⟨hdb, hl, hkey, hk, hintime, ?_⟩ (by simp [Phase.lease?])
  omega

theorem inv_step {s s' : State} (hinv : Inv s) {a : Act} (hintime : startsInTime s a = true)
    (h : next s a = some s') : Inv s' := by
  cases a with
  | advance t =>
    simp only [next, Option.ite_none_right_eq_some, Option.map_eq_some_iff] at h
    rcases h with ⟨hwithin, db', hdb, rfl⟩
    exact inv_advance hinv hwithin hdb
  | sample i =>
    simp only [next] at h
    split at h
    · rename_i hi
      simp only [Option.some.injEq] at h
      rw [← h]
      exact hinv.setPhase_same hi (Int.le_refl _) (by simp [Phase.lease?])
    · simp at h
  | markStale i job =>
    simp only [next] at h
    split at h
    · rename_i now hi
      rcases Option.map_eq_some_iff.1 h with ⟨db', hdb, rfl⟩
      have hnow : now ≤ s.db.now := hinv.phases i _ hi
      refine ⟨Fencing.inv_step hinv.fencing hdb, fun j q hj => ?_, hinv.distinct⟩
      exact (hinv.phases j q hj).step hdb (by simp) hnow fun _ _ => trivial
    · simp at h
  | claimInsert i job scope planTime runnerID id leaseToken =>
    simp only [next] at h
    split at h
    · rename_i now hi
      rcases Option.map_eq_some_iff.1 h with ⟨db', hdb, rfl⟩
      exact inv_claimInsert (c := ⟨job, scope, planTime, now, runnerID⟩) hinv hi hdb
    · simp at h
  | claimSteal i leaseToken =>
    simp only [next] at h
    split at h
    · rename_i c hi
      rcases Option.map_eq_some_iff.1 h with ⟨db', hdb, rfl⟩
      exact inv_claimSteal hinv hi hdb
    · simp at h
  | startHandler i =>
    simp only [next] at h
    split at h
    · rename_i c l hi
      simp only [Option.some.injEq] at h
      rw [← h]
      exact inv_startHandler hinv hi (by simpa [startsInTime, hi] using hintime)
    · simp at h
  | heartbeat i =>
    cases hp : (s.runners[i]?).bind Phase.renews? with
    | none => simp [next, hp] at h
    | some cl =>
      simp only [next, hp, Option.map_eq_some_iff] at h
      rcases h with ⟨db', hdb, rfl⟩
      rcases Option.bind_eq_some_iff.1 hp with ⟨p, hi, hrenews⟩
      exact inv_heartbeat hinv hi hrenews hdb
  | handlerReturns i =>
    simp only [next] at h
    split at h
    · rename_i c l t hi
      simp only [Option.some.injEq] at h
      rw [← h]
      have hok : PhaseOk s.db (.handling c l t) := hinv.phases i _ hi
      exact hinv.setPhase_same hi ⟨hok.1, hok.2.1⟩ (by simp [Phase.lease?])
    · simp at h
  | finishSuccess i dbTime durationMs res =>
    simp only [next] at h
    split at h
    · rename_i c l hi
      rcases Option.map_eq_some_iff.1 h with ⟨db', hdb, rfl⟩
      refine inv_finish hinv hi (by simp) ?_ ?_ hdb
      · trivial
      · exact fun l' hne => hne
    · simp at h
  | finishFailure i dbTime durationMs errorCode errorMsg nextRetryAt =>
    simp only [next] at h
    split at h
    · rename_i c l hi
      rcases Option.map_eq_some_iff.1 h with ⟨db', hdb, rfl⟩
      refine inv_finish hinv hi (by simp) ?_ ?_ hdb
      · trivial
      · exact fun l' hne => hne
    · simp at h
  | endTick i =>
    simp only [next] at h
    split at h
    · rename_i now hi
      simp only [Option.some.injEq] at h
      rw [← h]
      exact hinv.setPhase_same hi trivial (by simp [Phase.lease?])
    · simp at h
  | crash i =>
    simp only [next] at h
    split at h
    · rename_i p hi
      simp only [Option.some.injEq] at h
      rw [← h]
      exact hinv.setPhase_same hi trivial (by simp [Phase.lease?])
    · simp at h

/-- In every run whose handlers start early enough to return before their claim's stamp, no
two handlers of one plan run at a time, and a handler holds its lease while it runs. -/
theorem handlers_exclusive (s : State)
    (hs : machine.ReachableUnder (fun s a => startsInTime s a = true) s) : Exclusive s := by
  have hinv : ∀ s, machine.ReachableUnder (fun s a => startsInTime s a = true) s → Inv s := by
    refine Machine.invariant_under ?_ fun s a s' _ hinv hintime hn => inv_step hinv hintime hn
    intro s hs
    rcases hs with ⟨hdb, hidle⟩
    have hphase : ∀ (i : Nat) p, s.runners[i]? = some p → p = .idle :=
      fun i p hi => hidle p (List.mem_of_getElem? hi)
    refine ⟨Fencing.inv_reachable _ (.init hdb), fun i p hi => ?_, ?_⟩
    · rw [hphase i p hi]
      trivial
    · intro i j p p' l l' hi _ hl
      rw [hphase i p hi] at hl
      simp [Phase.lease?] at hl
  exact (hinv s hs).exclusive

/-- Runners that have nothing to do yet. -/
def State.idle (n : Nat) : State := ⟨Fencing.State.empty, List.replicate n .idle⟩

theorem init_idle (n : Nat) : machine.Init (State.idle n) :=
  ⟨Fencing.init_empty, fun _ hp => List.eq_of_mem_replicate hp⟩

/-- The lone handler of a plan runs; it dies and is retried when its lease is stale. -/
def retriedRun : List Act :=
  [.sample 0, .claimInsert 0 minuteJob ⟨"global", "global"⟩ 0 "a" 1 100, .startHandler 0,
    .advance (30 * second), .crash 0, .advance (61 * second), .sample 1, .markStale 1 minuteJob,
    .claimInsert 1 minuteJob ⟨"global", "global"⟩ 0 "b" 2 101, .claimSteal 1 101, .startHandler 1]

theorem handlers_exclusive_retriedRun :
    ∃ s, machine.ReachableUnder (fun s a => startsInTime s a = true) s ∧
      (∃ p : Phase, s.runners[1]? = some p ∧ p.withinTimeout (91 * second + 1) = false) ∧
      Exclusive s := by
  rcases Machine.reachableUnder_of_run machine startsInTime (init_idle 2) retriedRun
    (fun s => (s.runners[1]?).any fun p => !p.withinTimeout (91 * second + 1))
    (by decide) with ⟨s, hs, hp⟩
  rcases (Option.any_eq_true _ _).1 hp with ⟨p, hi, hrunning⟩
  exact ⟨s, hs, ⟨p, hi, by simpa using hrunning⟩, handlers_exclusive s hs⟩

/-- A job that may run longer than the next one takes to go stale. -/
def slowJob : Job where
  name := "report"
  cadence := 60 * second
  runTimeout := 120 * second
  staleTimeout := 180 * second
  heartbeatInterval := 60 * second
  maxAttempts := 1
  valid := by decide

/-- The tick of runner 0 spends a hundred seconds in the handler of its first job and claims
the plan of its second with the clock of its start; runner 1 finds that lease stale at
once. -/
def longTick : List Act :=
  [.sample 0, .claimInsert 0 slowJob ⟨"global", "global"⟩ 0 "a" 1 100, .startHandler 0,
    .advance (100 * second), .handlerReturns 0, .finishSuccess 0 (100 * second) 100000 {},
    .markStale 0 minuteJob, .claimInsert 0 minuteJob ⟨"global", "global"⟩ 0 "a" 2 101,
    .startHandler 0, .sample 1, .markStale 1 minuteJob,
    .claimInsert 1 minuteJob ⟨"global", "global"⟩ 0 "b" 3 102, .claimSteal 1 102, .startHandler 1]

/-- Both are in a handler, of one plan. -/
def Phase.overlaps : Phase → Phase → Bool
  | .handling c _ _, .handling c' _ _ => c.key == c'.key
  | _, _ => false

theorem Phase.of_overlaps {p p' : Phase} (h : p.overlaps p' = true) :
    ∃ c l t c' l' t', p = .handling c l t ∧ p' = .handling c' l' t' ∧ c.key = c'.key := by
  cases p with
  | handling c l t =>
    cases p' with
    | handling c' l' t' => exact ⟨c, l, t, c', l', t', rfl, rfl, by simpa [Phase.overlaps] using h⟩
    | _ => simp [Phase.overlaps] at h
  | _ => simp [Phase.overlaps] at h

/-- Both runners are in the handler of one plan. -/
theorem stale_sample_overlaps :
    ¬∀ s, machine.Reachable s → Exclusive s := by
  intro hclaim
  rcases Machine.reachable_of_run machine (init_idle 2) longTick
    (fun s => (s.runners[0]?).any fun p => (s.runners[1]?).any p.overlaps) (by decide) with
    ⟨s, -, hs, hboth⟩
  rcases (Option.any_eq_true _ _).1 hboth with ⟨p, hp, hboth⟩
  rcases (Option.any_eq_true _ _).1 hboth with ⟨p', hp', hoverlaps⟩
  rcases Phase.of_overlaps hoverlaps with ⟨c, l, t, c', l', t', rfl, rfl, hkey⟩
  -- the two runners would have to be one
  have hsame := (hclaim s hs).alone 0 1 c c' l l' t t' hp hp' hkey
  exact absurd hsame (by decide)

end Orynx.Scheduler.Runner
