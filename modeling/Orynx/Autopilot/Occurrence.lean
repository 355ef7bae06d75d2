import Orynx.Autopilot.Dispatch
import Orynx.Lib.Exclusive
import Orynx.Lib.Machine

/-! # A scheduled occurrence

The attempts of `autopilotHandler` at one occurrence of a schedule trigger. Each looks for a
run with the planned time, returns with success on a complete one, gives up a partial one, and
stores and dispatches a run of its own; any of its statements may fail, and it may die between
any two of them. A retry or a stale steal makes the next attempt.

* `OnceEach`: one issue and one run-only task at most, and no success without a skip or a task;
* `startsClean`: an attempt starts when no other is under way and the earlier ones have left
  no failed run without its work, no issue without a task and no partial run with a task;
* `occurrence_once`: then it is so in every run;
* `failed_attempt_succeeds`: a database error that is recorded on the run breaks it.
-/

namespace Orynx.Autopilot.Occurrence

open Lib

/-! ## The machine -/

/-- Where an attempt is. -/
inductive Attempt where
  | recover (runId : UUID)
  | admission
  | recordSkip (runId : UUID) (reason : String)
  | dispatch (runId : UUID) (d : Dispatch)
  | done
deriving DecidableEq, Repr

def Attempt.active (a : Attempt) : Bool := a != .done

/-- `successes` is the history of what the attempts have returned without an error: the run, or
nothing when the trigger or the autopilot is gone or switched off. -/
structure State where
  now : Int
  store : Store
  attempts : List Attempt
  successes : List (Option UUID)

/-- A database step of an attempt. The execution mode is the autopilot's at the time. -/
inductive Step where
  | createRun (mode : ExecutionMode) (runId : UUID)
  | recordSkippedRun (runId : UUID) (reason : String)
  | run (a : DispatchStep)

inductive Act where
  | tick (t : Int)
  | switchedOff
  | lookup
  | step (i : Nat) (a : Step)
  | crash (i : Nat)
  | syncRun (runId : UUID) (o : RunOutcome)

/-- The occurrence. -/
structure Plan where
  triggerId : UUID
  plannedAt : Int

def Plan.run (p : Plan) (status : RunStatus) (runId : UUID) : Run :=
  { id := runId, triggerId := p.triggerId, status := status, plannedAt := some p.plannedAt }

def getRun (p : Plan) (st : Store) : Option Run :=
  getAutopilotRunByTriggerAndPlanned st.runs p.triggerId p.plannedAt

/-- What an attempt is at next, or that it has returned. -/
inductive Next where
  | goesOn (a : Attempt)
  | succeeds (runId : UUID)
  | errs
deriving DecidableEq, Repr

def dispatched (runId : UUID) : DispatchResult → Next
  | .goesOn d => .goesOn (.dispatch runId d)
  | .returns true => .succeeds runId
  | .returns false => .errs

def advance (p : Plan) (now : Int) (st : Store) : Attempt → Step → Option (Store × Next)
  | .recover runId, .run .write =>
    some (st.exec (recoverPartialAutopilotRun runId now), .goesOn .admission)
  | .admission, .createRun mode runId =>
    (st.runs.insert? (p.run mode.initialStatus runId)).map fun runs =>
      ({ st with runs := runs }, .goesOn (.dispatch runId mode.dispatch))
  | .admission, .recordSkippedRun runId reason =>
    (st.runs.insert? (p.run .skipped runId)).map fun runs =>
      ({ st with runs := runs }, .goesOn (.recordSkip runId reason))
  | .recover _, .run (.error _) | .admission, .run (.error _) => some (st, .errs)
  | .recordSkip runId reason, .run .write =>
    some (st.exec (updateAutopilotRunSkipped runId now reason), .succeeds runId)
  -- a reason that cannot be written is only logged
  | .recordSkip runId _, .run (.error _) => some (st, .succeeds runId)
  | .dispatch runId d, .run a =>
    (dispatchAutopilotRun now runId st d a).map fun (st', res) => (st', dispatched runId res)
  | _, _ => none

/-- Enter what an attempt has come to. -/
def State.enter (s : State) (i : Nat) : Next → State
  | .goesOn a => { s with attempts := s.attempts.set i a }
  | .succeeds runId =>
    { s with attempts := s.attempts.set i .done, successes := some runId :: s.successes }
  | .errs => { s with attempts := s.attempts.set i .done }

def next (p : Plan) (s : State) : Act → Option State
  | .tick t => if s.now ≤ t then some { s with now := t } else none
  | .switchedOff => some { s with successes := none :: s.successes }
  | .lookup =>
    match getRun p s.store with
    | some r =>
      if isAutopilotRunComplete r then some { s with successes := some r.id :: s.successes }
      else some { s with attempts := s.attempts ++ [.recover r.id] }
    | none => some { s with attempts := s.attempts ++ [.admission] }
  | .step i a =>
    match s.attempts[i]? with
    | some x =>
      (advance p s.now s.store x a).map fun (st, y) => State.enter { s with store := st } i y
    | none => none
  | .crash i => (s.attempts[i]?).map fun _ => { s with attempts := s.attempts.set i .done }
  | .syncRun runId o => (s.store.sync runId s.now o).map fun st => { s with store := st }

def machine (p : Plan) : Machine State Act where
  Init s := s.store = Store.empty ∧ s.attempts = [] ∧ s.successes = []
  next := next p

/-! ## The property -/

/-- All runs of the store are the occurrence's, with those given up. -/
structure OnceEach (s : State) : Prop where
  oneIssue : s.store.issues.length ≤ 1
  oneTask : (s.store.tasks.filter fun t => t.autopilotRunId.isSome).length ≤ 1
  success : ∀ runId, some runId ∈ s.successes → s.store.Served runId

/-- The run has not failed without its work, its issue has a task, and it is not a partial run
whose task is there all the same. -/
def settledRun (st : Store) (r : Run) : Bool :=
  (r.status != .failed || st.started r.id) &&
    (st.issues.all fun i => i.runId != r.id || st.tasks.any fun t => t.issueId == some i.id) &&
    (isAutopilotRunComplete r || !st.started r.id)

def startsClean (p : Plan) (s : State) : Act → Bool
  | .lookup =>
    (s.attempts.all fun a => !a.active) && (getRun p s.store).all (settledRun s.store)
  | _ => true

/-! ## What the attempts know -/

def Plan.holds (p : Plan) (r : Run) : Prop :=
  r.triggerId = p.triggerId ∧ r.plannedAt = some p.plannedAt

theorem Plan.holds_kin {p : Plan} {r r' : Run} (h : r.Kin r') (hplan : p.holds r) : p.holds r' :=
  ⟨h.triggerId.trans hplan.1, h.plannedAt.trans hplan.2⟩

/-- Only runs that still have the planned time have an issue or a task. -/
structure Sound (p : Plan) (st : Store) : Prop where
  wf : st.Wf
  planned : ∀ r ∈ st.runs.rows, st.started r.id = true → p.holds r
  noDelivery : ∀ r ∈ st.runs.rows, r.webhookDeliveryId = none

def Attempt.Knows (p : Plan) (st : Store) : Attempt → Prop
  | .recover runId => st.Bare ∧ ∃ r ∈ st.runs.rows, r.id = runId ∧ r.status.ended = false
  | .admission => st.Bare
  | .recordSkip runId _ => ∃ r ∈ st.runs.rows, r.id = runId ∧ r.status = .skipped
  | .dispatch runId d => d.Knows st runId ∧ ∃ r ∈ st.runs.rows, r.id = runId ∧ p.holds r
  | .done => True

/-- What is known after a step. -/
def Next.Knows (p : Plan) (st : Store) : Next → Prop
  | .goesOn a => a.Knows p st
  | .succeeds runId => st.Served runId
  | .errs => True

theorem getRun_some {p : Plan} {st : Store} {r : Run} (h : getRun p st = some r) :
    r ∈ st.runs.rows ∧ p.holds r := by
  have hfound := List.find?_some h
  simp only [Bool.and_eq_true, beq_iff_eq] at hfound
  exact ⟨List.mem_of_find?_eq_some h, hfound⟩

theorem getRun_none {p : Plan} {st : Store} (h : getRun p st = none) {r : Run}
    (hr : r ∈ st.runs.rows) : ¬ p.holds r := by
  rintro ⟨htrigger, hplanned⟩
  have hnot := List.find?_eq_none.1 h r hr
  simp [htrigger, hplanned] at hnot

theorem Sound.oneRun {p : Plan} {st : Store} (h : Sound p st) {r r' : Run}
    (hr : r ∈ st.runs.rows) (hr' : r' ∈ st.runs.rows) (hplan : p.holds r) (hplan' : p.holds r') :
    r = r' := by
  have hkey : ∀ x ∈ st.runs.rows, p.holds x →
      runSchema.index x = some (.planned p.triggerId p.plannedAt) := by
    rintro x hx ⟨htrigger, hplanned⟩
    simp [Run.key?, h.noDelivery x hx, htrigger, hplanned]
  exact st.runs.eq_of_index hr hr' (hkey r hr hplan) (hkey r' hr' hplan')

/-- A store in which no planned run is started is bare. -/
theorem Sound.bare {p : Plan} {st : Store} (h : Sound p st)
    (hnone : ∀ r ∈ st.runs.rows, p.holds r → st.started r.id = false) : st.Bare := by
  have hnot : ∀ id, (∃ r ∈ st.runs.rows, r.id = id) → st.started id = false := by
    rintro id ⟨r, hr, rfl⟩
    rw [Bool.eq_false_iff]
    intro hstarted
    rw [hnone r hr (h.planned r hr hstarted)] at hstarted
    simp at hstarted
  -- an issue or a task of a run would make that run started, hence planned
  constructor
  · refine List.eq_nil_iff_forall_not_mem.2 fun i hi => ?_
    have hstarted : st.started i.runId = true := Store.started_iff.2 (.inl ⟨i, hi, rfl⟩)
    rw [hnot i.runId (h.wf.issues i hi)] at hstarted
    simp at hstarted
  · intro t ht
    by_contra hsome
    rcases Option.ne_none_iff_exists'.1 hsome with ⟨id, hid⟩
    have hstarted : st.started id = true := Store.started_iff.2 (.inr ⟨t, ht, hid⟩)
    rw [hnot id (h.wf.tasks t ht id hid)] at hstarted
    simp at hstarted

theorem Sound.of_rows {p : Plan} {st st' : Store} (h : Sound p st) (hwf : st'.Wf)
    (hrows : ∀ r' ∈ st'.runs.rows, ∃ r ∈ st.runs.rows, r.Kin r')
    (hstarted : ∀ r ∈ st.runs.rows, st'.started r.id = true → p.holds r) : Sound p st' := by
  refine ⟨hwf, fun r' hr' hs => ?_, fun r' hr' => ?_⟩
  · rcases hrows r' hr' with ⟨r, hr, hkin⟩
    rw [hkin.id] at hs
    exact Plan.holds_kin hkin (hstarted r hr hs)
  · rcases hrows r' hr' with ⟨r, hr, hkin⟩
    rw [hkin.delivery, h.noDelivery r hr]

/-! ## The lookup -/

/-- A started run that is left settled has what a success promises. -/
theorem served_of_started {p : Plan} {st : Store} (h : Sound p st) {r : Run}
    (hr : r ∈ st.runs.rows) (hsettled : settledRun st r = true) (hstarted : st.started r.id = true) :
    st.Served r.id := by
  simp only [settledRun, Bool.and_eq_true, List.all_eq_true] at hsettled
  rcases Store.started_iff.1 hstarted with ⟨i, hi, hrun⟩ | ⟨t, ht, hrun⟩
  · have htask := hsettled.1.2 i hi
    simp only [hrun, bne_self_eq_false, Bool.false_or, List.any_eq_true, beq_iff_eq] at htask
    rcases htask with ⟨t, ht, hti⟩
    exact ⟨r, hr, rfl, .inr (.inl ⟨i, hi, (h.wf.runs r hr).created i hi hrun, t, ht, hti⟩)⟩
  · exact ⟨r, hr, rfl, .inr (.inr ⟨t, ht, hrun⟩)⟩

theorem served_of_complete {p : Plan} {st : Store} (h : Sound p st) {r : Run}
    (hr : r ∈ st.runs.rows) (hsettled : settledRun st r = true)
    (hcomplete : isAutopilotRunComplete r = true) : st.Served r.id := by
  have hfits := h.wf.runs r hr
  cases hstatus : r.status with
  | pending => simp [isAutopilotRunComplete, hstatus] at hcomplete
  -- its issue is there, and with it a task
  | issueCreated =>
    simp only [isAutopilotRunComplete, hstatus] at hcomplete
    rcases Option.isSome_iff_exists.1 hcomplete with ⟨x, hx⟩
    rcases (hfits.issueId x hx).2 with ⟨i, hi, -, hrun⟩
    exact served_of_started h hr hsettled (Store.started_iff.2 (.inl ⟨i, hi, hrun⟩))
  | running =>
    simp only [isAutopilotRunComplete, hstatus] at hcomplete
    rcases Option.isSome_iff_exists.1 hcomplete with ⟨x, hx⟩
    rcases (hfits.taskId x hx).2 with ⟨t, ht, -, hrun⟩
    exact served_of_started h hr hsettled (Store.started_iff.2 (.inr ⟨t, ht, hrun⟩))
  | skipped => exact ⟨r, hr, rfl, .inl hstatus⟩
  -- only a run with work completes
  | completed =>
    exact served_of_started h hr hsettled (Store.started_iff.2 (hfits.completed hstatus))
  | failed =>
    -- what has failed without work is not left behind
    have hworked := hsettled
    simp only [settledRun, hstatus, bne_self_eq_false, Bool.false_or, Bool.and_eq_true] at hworked
    exact served_of_started h hr hsettled hworked.1.1

/-- A partial run that is left settled has nothing yet. -/
theorem not_started_of_incomplete {st : Store} {r : Run} (hsettled : settledRun st r = true)
    (hincomplete : isAutopilotRunComplete r = false) : st.started r.id = false := by
  simp only [settledRun, hincomplete, Bool.false_or, Bool.and_eq_true, Bool.not_eq_true']
    at hsettled
  exact hsettled.2

/-! ## The steps of an attempt -/

structure Steps (p : Plan) (st st' : Store) (y : Next) : Prop where
  sound : Sound p st'
  knows : y.Knows p st'
  ext : st.Extends st'

/-- A partial run gives up the planned time. -/
theorem step_recover {p : Plan} {st : Store} {runId : UUID} (now : Int) (h : Sound p st)
    (hknows : (Attempt.recover runId).Knows p st) :
    Steps p st (st.exec (recoverPartialAutopilotRun runId now)) (.goesOn .admission) := by
  rcases hknows with ⟨hbare, hopen⟩
  refine ⟨⟨h.wf.fail runId now rfl, fun r' hr' hs => ?_, fun r' hr' => ?_⟩, hbare,
    Store.extends_exec fun r hr hid => ?_⟩
  · -- nothing is started, so the run may lose its planned time
    have hnot : (st.exec (recoverPartialAutopilotRun runId now)).started r'.id = false :=
      hbare.not_started r'.id
    rw [hnot] at hs
    simp at hs
  · rcases Store.of_mem_exec hr' with ⟨hr, -⟩ | ⟨r, hr, -, rfl⟩
    · exact h.noDelivery r' hr
    · exact h.noDelivery r hr
  · -- the run had not ended
    have hstatus := Store.forall_of_exists hopen r hr hid
    refine ⟨RunWrite.set_sameRun now _ r, fun hskipped => ?_, fun hended => ?_, fun x hx => hx⟩
    · rw [hskipped] at hstatus
      simp [RunStatus.ended] at hstatus
    · rw [hstatus] at hended
      simp at hended

/-- The occurrence's next run is stored. -/
theorem insertRun_sound {p : Plan} {st : Store} {runId : UUID} {status : RunStatus}
    {runs : RunTable} (h : Sound p st) (hins : st.runs.insert? (p.run status runId) = some runs)
    (hstatus : status ≠ .completed) :
    Sound p { st with runs := runs } ∧ p.run status runId ∈ runs.rows := by
  have hmem : ∀ x, x ∈ runs.rows ↔ x ∈ st.runs.rows ∨ x = p.run status runId :=
    fun x => Table.mem_insert? hins
  refine ⟨⟨h.wf.insertRun hins rfl rfl hstatus, fun r hr hs => ?_, fun r hr => ?_⟩,
    (hmem _).2 (.inr rfl)⟩
  · rcases (hmem r).1 hr with hr | rfl
    · exact h.planned r hr hs
    · exact ⟨rfl, rfl⟩
  · rcases (hmem r).1 hr with hr | rfl
    · exact h.noDelivery r hr
    · rfl

theorem step_createRun {p : Plan} {st : Store} {runId : UUID} {mode : ExecutionMode}
    {runs : RunTable} (h : Sound p st) (hbare : st.Bare)
    (hins : st.runs.insert? (p.run mode.initialStatus runId) = some runs) :
    Steps p st { st with runs := runs } (.goesOn (.dispatch runId mode.dispatch)) := by
  have hstatus : mode.initialStatus ≠ .completed := by
    cases mode <;> simp [ExecutionMode.initialStatus]
  rcases insertRun_sound h hins hstatus with ⟨hsound, hmem⟩
  refine ⟨hsound, ⟨?_, _, hmem, rfl, rfl, rfl⟩, (Store.env_insertRun hins).ext⟩
  cases mode with
  | createIssue => exact ⟨hbare, _, hmem, rfl, rfl⟩
  | runOnly => exact ⟨hbare, _, hmem, rfl, rfl⟩

theorem step_recordSkip {p : Plan} {st : Store} {runId : UUID} (now : Int) (reason : String)
    (h : Sound p st) (hskipped : ∃ r ∈ st.runs.rows, r.id = runId ∧ r.status = .skipped) :
    Steps p st (st.exec (updateAutopilotRunSkipped runId now reason)) (.succeeds runId) := by
  rcases recordSkip_spec h.wf now reason hskipped with ⟨hwf, henv⟩
  refine ⟨h.of_rows hwf (fun r' hr' => ?_) fun r hr hs => h.planned r hr hs, ?_, henv.ext⟩
  · rcases Store.of_mem_exec hr' with ⟨hr, -⟩ | ⟨r, hr, -, rfl⟩
    · exact ⟨r', hr, .refl r'⟩
    · exact ⟨r, hr, RunWrite.set_kin (by simp) now r⟩
  · rcases skipped_extends henv.ext hskipped with ⟨r, hr, hid, hstatus⟩
    exact ⟨r, hr, hid, .inl hstatus⟩

theorem step_dispatch {p : Plan} {st st' : Store} {now : Int} {runId : UUID} {d : Dispatch}
    {a : DispatchStep} {res : DispatchResult} (h : Sound p st)
    (hknows : (Attempt.dispatch runId d).Knows p st)
    (hstep : dispatchAutopilotRun now runId st d a = some (st', res)) :
    Steps p st st' (dispatched runId res) := by
  rcases hknows with ⟨hknows, hplanned⟩
  have hspec := dispatch_spec h.wf hknows hstep
  have hrows : ∀ r' ∈ st'.runs.rows, ∃ r ∈ st.runs.rows, r.Kin r' := by
    intro r' hr'
    rcases dispatch_rows hstep hr' with ⟨r, hr, hkin, -⟩
    exact ⟨r, hr, hkin⟩
  refine ⟨h.of_rows hspec.wf hrows fun r hr hs => ?_, ?_, hspec.ext⟩
  · -- it starts no run but its own, which is planned
    rcases dispatch_started hstep hs with hs | hid
    · exact h.planned r hr hs
    · exact Store.forall_of_exists hplanned r hr hid
  · have hres := hspec.knows
    cases res with
    | goesOn d' =>
      -- the run is still the one of before, so it still has the planned time
      rcases hres.notSkipped with ⟨r', hr', hid', -⟩
      rcases hrows r' hr' with ⟨r, hr, hkin⟩
      have hplan := Store.forall_of_exists hplanned r hr (hkin.id.symm.trans hid')
      exact ⟨hres, r', hr', hid', Plan.holds_kin hkin hplan⟩
    | returns ok =>
      cases ok with
      | true => exact hres rfl
      | false => trivial

theorem advance_spec {p : Plan} {st st' : Store} {now : Int} {x : Attempt} {a : Step} {y : Next}
    (h : Sound p st) (hknows : x.Knows p st) (hstep : advance p now st x a = some (st', y)) :
    x.active = true ∧ Steps p st st' y := by
  cases x with
  | done => simp [advance] at hstep
  | recover runId =>
    refine ⟨rfl, ?_⟩
    rcases a with _ | _ | _ | _ | _ | _ | _ <;>
      simp only [advance, Option.some.injEq, Prod.mk.injEq, reduceCtorEq] at hstep
    · rcases hstep with ⟨rfl, rfl⟩
      exact step_recover now h hknows
    · rcases hstep with ⟨rfl, rfl⟩
      exact ⟨h, trivial, .refl st⟩
  | admission =>
    refine ⟨rfl, ?_⟩
    rcases a with ⟨mode, runId⟩ | ⟨runId, reason⟩ | _ | _ | _ | _ | _ <;>
      simp only [advance, Option.map_eq_some_iff, Option.some.injEq, Prod.mk.injEq,
        reduceCtorEq] at hstep
    · rcases hstep with ⟨runs, hins, rfl, rfl⟩
      exact step_createRun h hknows hins
    · rcases hstep with ⟨runs, hins, rfl, rfl⟩
      rcases insertRun_sound h hins (by simp) with ⟨hsound, hmem⟩
      exact ⟨hsound, ⟨_, hmem, rfl, rfl⟩, (Store.env_insertRun hins).ext⟩
    · rcases hstep with ⟨rfl, rfl⟩
      exact ⟨h, trivial, .refl st⟩
  | recordSkip runId reason =>
    refine ⟨rfl, ?_⟩
    rcases a with _ | _ | _ | _ | _ | _ | _ <;>
      simp only [advance, Option.some.injEq, Prod.mk.injEq, reduceCtorEq] at hstep
    · rcases hstep with ⟨rfl, rfl⟩
      exact step_recordSkip now reason h hknows
    · rcases hstep with ⟨rfl, rfl⟩
      rcases hknows with ⟨r, hr, hid, hstatus⟩
      exact ⟨h, ⟨r, hr, hid, .inl hstatus⟩, .refl st⟩
  | dispatch runId d =>
    refine ⟨rfl, ?_⟩
    cases a with
    | run a =>
      simp only [advance, Option.map_eq_some_iff, Prod.mk.injEq] at hstep
      rcases hstep with ⟨⟨st₁, res⟩, hrun, rfl, rfl⟩
      exact step_dispatch h hknows hrun
    | createRun mode id => simp [advance] at hstep
    | recordSkippedRun id reason => simp [advance] at hstep

/-! ## The invariant -/

structure Inv (p : Plan) (s : State) : Prop where
  sound : Sound p s.store
  alone : AtMostOne Attempt.active s.attempts
  attempts : ∀ x ∈ s.attempts, x.Knows p s.store
  successes : ∀ runId, some runId ∈ s.successes → s.store.Served runId

theorem Inv.onceEach {p : Plan} {s : State} (hinv : Inv p s) : OnceEach s :=
  ⟨hinv.sound.wf.oneIssue, hinv.sound.wf.oneTask, hinv.successes⟩

theorem Attempt.Knows.env {p : Plan} {st st' : Store} (h : st.Env st')
    (hrows : ∀ r ∈ st.runs.rows, ∃ r' ∈ st'.runs.rows, r.Kin r') {x : Attempt}
    (hknows : x.Knows p st) : x.Knows p st' := by
  cases x with
  | done => trivial
  | recover runId =>
    exact ⟨h.bare hknows.1, h.status (P := fun x => x.ended = false) hknows.1 hknows.2⟩
  | admission => exact h.bare hknows
  | recordSkip runId reason => exact skipped_extends h.ext hknows
  | dispatch runId d =>
    rcases hknows with ⟨hknows, r, hr, hid, hplan⟩
    rcases hrows r hr with ⟨r', hr', hkin⟩
    exact ⟨hknows.env h, r', hr', hkin.id.trans hid, Plan.holds_kin hkin hplan⟩

/-- A step of the one attempt that is under way. -/
theorem inv_enter {p : Plan} {s : State} (hinv : Inv p s) {i : Nat} {x : Attempt}
    (hi : s.attempts[i]? = some x) (hactive : x.active = true) {st : Store} {y : Next}
    (hsteps : Steps p s.store st y) : Inv p (State.enter { s with store := st } i y) := by
  have hkept : ∀ runId, some runId ∈ s.successes → st.Served runId :=
    fun runId h => hsteps.ext.served (hinv.successes runId h)
  -- the others have come to their end and know nothing
  have hattempts : ∀ z : Attempt, z.Knows p st → ∀ x' ∈ s.attempts.set i z, x'.Knows p st := by
    intro z hz x' hx'
    rcases hinv.alone.mem_set hi hactive hx' with rfl | ⟨hx', hinactive⟩
    · exact hz
    · have hdone : x' = .done := by simpa [Attempt.active] using hinactive
      rw [hdone]
      trivial
  have halone : ∀ z : Attempt, AtMostOne Attempt.active (s.attempts.set i z) :=
    fun z => hinv.alone.set hi fun _ => hactive
  cases y with
  | goesOn z => exact ⟨hsteps.sound, halone z, hattempts z hsteps.knows, hkept⟩
  | succeeds runId =>
    refine ⟨hsteps.sound, halone .done, hattempts .done trivial, fun id hid => ?_⟩
    rcases List.mem_cons.1 hid with heq | hid
    · rw [Option.some.inj heq]
      exact hsteps.knows
    · exact hkept id hid
  | errs => exact ⟨hsteps.sound, halone .done, hattempts .done trivial, hkept⟩

theorem inv_lookup {p : Plan} {s s' : State} (hinv : Inv p s)
    (hcond : startsClean p s .lookup = true) (h : next p s .lookup = some s') : Inv p s' := by
  simp only [startsClean, Bool.and_eq_true, List.all_eq_true, Bool.not_eq_true'] at hcond
  rcases hcond with ⟨hidle, hclean⟩
  -- the new attempt is the only one under way
  have hjoin : ∀ x : Attempt, x.Knows p s.store →
      Inv p { s with attempts := s.attempts ++ [x] } := by
    intro x hknows
    refine ⟨hinv.sound, .append_of_none hidle x, fun y hy => ?_, hinv.successes⟩
    rcases List.mem_append.1 hy with hy | hy
    · exact hinv.attempts y hy
    · rw [List.mem_singleton.1 hy]
      exact hknows
  cases hget : getRun p s.store with
  | none =>
    simp only [next, hget, Option.some.injEq] at h
    subst h
    -- no run has the planned time, so nothing is started
    exact hjoin .admission (hinv.sound.bare fun r hr hplan => absurd hplan (getRun_none hget hr))
  | some r =>
    rcases getRun_some hget with ⟨hr, hplan⟩
    rw [hget] at hclean
    have hsettled : settledRun s.store r = true := hclean
    cases hcomplete : isAutopilotRunComplete r with
    | true =>
      simp only [next, hget, hcomplete, if_true, Option.some.injEq] at h
      subst h
      -- the complete run is returned as it is, and is settled by the condition
      refine ⟨hinv.sound, hinv.alone, hinv.attempts, fun id hid => ?_⟩
      rcases List.mem_cons.1 hid with heq | hid
      · rw [Option.some.inj heq]
        exact served_of_complete hinv.sound hr hsettled hcomplete
      · exact hinv.successes id hid
    | false =>
      simp only [next, hget, hcomplete, Bool.false_eq_true, if_false, Option.some.injEq] at h
      subst h
      -- the partial run is the only planned one, and it has nothing
      have hopen := not_ended_of_incomplete hcomplete
      refine hjoin (.recover r.id) ⟨hinv.sound.bare fun x hx hplanx => ?_, r, hr, rfl, hopen⟩
      rw [hinv.sound.oneRun hx hr hplanx hplan]
      exact not_started_of_incomplete hsettled hcomplete

theorem inv_step {p : Plan} {s s' : State} {a : Act} (hinv : Inv p s)
    (hcond : startsClean p s a = true) (h : next p s a = some s') : Inv p s' := by
  cases a with
  | tick t =>
    simp only [next, Option.ite_none_right_eq_some, Option.some.injEq] at h
    rcases h with ⟨-, rfl⟩
    exact ⟨hinv.sound, hinv.alone, hinv.attempts, hinv.successes⟩
  | switchedOff =>
    simp only [next, Option.some.injEq] at h
    subst h
    refine ⟨hinv.sound, hinv.alone, hinv.attempts, fun id hid => ?_⟩
    rcases List.mem_cons.1 hid with heq | hid
    · simp at heq
    · exact hinv.successes id hid
  | lookup => exact inv_lookup hinv hcond h
  | step i a =>
    cases hi : s.attempts[i]? with
    | none => simp [next, hi] at h
    | some x =>
      simp only [next, hi, Option.map_eq_some_iff] at h
      rcases h with ⟨⟨st, y⟩, hstep, rfl⟩
      rcases advance_spec hinv.sound (hinv.attempts x (List.mem_of_getElem? hi)) hstep with
        ⟨hactive, hsteps⟩
      exact inv_enter hinv hi hactive hsteps
  | crash i =>
    simp only [next, Option.map_eq_some_iff] at h
    rcases h with ⟨x, hi, rfl⟩
    refine ⟨hinv.sound, hinv.alone.set hi (by simp [Attempt.active]), fun y hy => ?_,
      hinv.successes⟩
    rcases List.mem_or_eq_of_mem_set hy with hy | rfl
    · exact hinv.attempts y hy
    · trivial
  | syncRun runId o =>
    simp only [next, Option.map_eq_some_iff] at h
    rcases h with ⟨st, hsync, rfl⟩
    rcases sync_spec hinv.sound.wf hsync with ⟨hwf, henv⟩
    -- a listener inserts nothing
    have hstarted : ∀ id, st.started id = s.store.started id := by
      intro id
      simp only [Store.sync, Option.ite_none_right_eq_some, Option.some.injEq] at hsync
      rw [← hsync.2]
      rfl
    refine ⟨hinv.sound.of_rows hwf (fun r' hr' => ?_) (fun r hr hs => ?_), hinv.alone,
      fun x hx => (hinv.attempts x hx).env henv fun r hr => sync_kept hsync hr,
      fun id hid => henv.ext.served (hinv.successes id hid)⟩
    · rcases sync_rows hsync hr' with ⟨r, hr, hkin, -⟩
      exact ⟨r, hr, hkin⟩
    · rw [hstarted] at hs
      exact hinv.sound.planned r hr hs

/-- As long as no attempt starts on what an earlier one has left unsettled, the occurrence has
its effect once, and whoever returns with success has seen to it. -/
theorem occurrence_once (p : Plan) (s : State)
    (hs : (machine p).ReachableUnder (fun s a => startsClean p s a = true) s) : OnceEach s := by
  have hinv : Inv p s := by
    revert s
    refine Machine.invariant_under ?_ fun s a s' _ hinv hcond h => inv_step hinv hcond h
    rintro s ⟨hstore, hattempts, hsuccesses⟩
    refine ⟨?_, ?_, ?_, ?_⟩
    · rw [hstore]
      exact ⟨wf_empty, by simp [Store.empty], by simp [Store.empty]⟩
    · rw [hattempts]
      exact atMostOne_nil
    · simp [hattempts]
    · simp [hsuccesses]
  exact hinv.onceEach

/-! ## Runs -/

def State.empty : State := ⟨0, Store.empty, [], []⟩

theorem init_empty (p : Plan) : (machine p).Init State.empty := ⟨rfl, rfl, rfl⟩

/-- The first attempt dies with a partial run, which the second gives up; the third finds the
run of the second. -/
def recoveredRun : List Act :=
  [.lookup, .step 0 (.createRun .createIssue 50), .crash 0, .lookup, .step 1 (.run .write),
    .step 1 (.createRun .createIssue 51), .step 1 (.run (.insertIssue 60)),
    .step 1 (.run (.insertTask 70)), .lookup]

theorem occurrence_once_recoveredRun :
    ∃ s, s.successes = [some 51, some 51] ∧ s.store.issues.map Issue.runId = [51] ∧ OnceEach s := by
  rcases Machine.reachableUnder_of_run (machine ⟨7, 0⟩) (startsClean ⟨7, 0⟩) (init_empty ⟨7, 0⟩)
    recoveredRun (fun s => s.successes == [some 51, some 51] &&
      s.store.issues.map Issue.runId == [51]) (by decide) with ⟨s, hs, h⟩
  simp only [Bool.and_eq_true, beq_iff_eq] at h
  exact ⟨s, h.1, h.2, occurrence_once ⟨7, 0⟩ s hs⟩

/-- The first attempt cannot insert its task, and fails its run; the second finds that run. -/
def failedRun : List Act :=
  [.lookup, .step 0 (.createRun .runOnly 50), .step 0 (.run (.error "connection reset")),
    .step 0 (.run .write), .lookup]

theorem failed_attempt_succeeds : ¬ ∀ p s, (machine p).Reachable s → OnceEach s := by
  intro hclaim
  rcases Machine.reachable_of_run (machine ⟨7, 0⟩) (init_empty ⟨7, 0⟩) failedRun
    (fun s => s.successes == [some 50] && s.store.tasks.isEmpty && s.store.issues.isEmpty &&
      s.store.runs.rows.all fun r => r.status != .skipped) (by decide) with ⟨s, -, hs, h⟩
  simp only [Bool.and_eq_true, beq_iff_eq, List.isEmpty_iff, List.all_eq_true, bne_iff_ne] at h
  rcases h with ⟨⟨⟨hsuccess, htasks⟩, hissues⟩, hrows⟩
  rcases (hclaim ⟨7, 0⟩ s hs).success 50 (by simp [hsuccess]) with ⟨r, hr, -, hserved⟩
  rcases hserved with hskipped | ⟨i, hi, -⟩ | ⟨t, ht, -⟩
  · exact hrows r hr hskipped
  · rw [hissues] at hi
    simp at hi
  · rw [htasks] at ht
    simp at ht

end Orynx.Autopilot.Occurrence
