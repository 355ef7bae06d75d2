import Orynx.Autopilot.Run

/-! # Runs with their issues and tasks

* `Store`: the runs, the issues created for them, and the tasks of both;
* `Store.Wf`: these fit together, and there is one issue and one run-only task at most;
* `Store.Extends`: what one party's step leaves of what another relies on;
* `Store.Env`: what listeners and other requests do.
-/

namespace Orynx.Autopilot

open Lib

/-! ## Issues and tasks -/

inductive IssueStatus where
  | backlog
  | todo
  | inProgress
  | inReview
  | done
  | blocked
  | cancelled
deriving DecidableEq, Repr

/-- `todo` and `in_progress`. -/
def IssueStatus.needsTask (s : IssueStatus) : Bool := s == .todo || s == .inProgress

/-- `isTerminalIssueStatus`, and what `NOT IN ('done', 'cancelled')` leaves out. -/
def IssueStatus.terminal (s : IssueStatus) : Bool := s == .done || s == .cancelled

/-- `runId` is the history of the run that the issue was created for. -/
structure Issue where
  id : UUID
  runId : UUID
  status : IssueStatus := .todo
deriving DecidableEq, Repr

/-- A row of `agent_task_queue`: the task of an issue or of a run-only run. -/
structure Task where
  id : UUID
  issueId : Option UUID := none
  autopilotRunId : Option UUID := none
deriving DecidableEq, Repr

structure Store where
  runs : RunTable
  issues : List Issue
  tasks : List Task

def Store.empty : Store := ⟨Table.empty, [], []⟩

/-- Run an update of runs; none violates a constraint. -/
def Store.exec (st : Store) (u : Update Run) : Store :=
  { st with runs := (st.runs.update? u).getD st.runs }

def Store.insertTask (st : Store) (t : Task) : Store := { st with tasks := st.tasks ++ [t] }

/-- The transaction of `dispatchCreateIssue`. -/
def Store.createIssue (st : Store) (runId : UUID) (now : Int) (issueId : UUID) : Store :=
  let st' := st.exec (updateAutopilotRunIssueCreated runId now issueId)
  { st' with issues := st'.issues ++ [{ id := issueId, runId := runId }] }

def Store.freshIssue (st : Store) (id : UUID) : Bool := st.issues.all fun i => i.id != id

def Store.freshTask (st : Store) (id : UUID) : Bool := st.tasks.all fun t => t.id != id

/-- The run has an issue or a task. -/
def Store.started (st : Store) (runId : UUID) : Bool :=
  st.issues.any (fun i => i.runId == runId) || st.tasks.any fun t => t.autopilotRunId == some runId

/-- How the listeners of issues and tasks end a run. -/
inductive RunOutcome where
  | completed (result : Option String)
  | failed (reason : String)
deriving DecidableEq, Repr

def RunOutcome.write : RunOutcome → RunWrite
  | .completed result => .completed result
  | .failed reason => .failed reason

/-- `SyncRunFromIssue`, `SyncRunFromTask` and `SyncRunFromLinkedIssueTask`. -/
def Store.sync (st : Store) (runId : UUID) (now : Int) (o : RunOutcome) : Option Store :=
  if st.started runId then some (st.exec (o.write.stmt runId now)) else none

def listTasksByIssue (st : Store) (issueId : UUID) : List Task :=
  st.tasks.filter fun t => t.issueId == some issueId

def getIssue (st : Store) (id : UUID) : Option Issue := st.issues.find? fun i => i.id == id

/-- `GetAutopilotTaskByRun`: the oldest. -/
def getAutopilotTaskByRun (st : Store) (runId : UUID) : Option Task :=
  st.tasks.find? fun t => t.autopilotRunId == some runId

/-! ## Updates of runs in the store -/

@[simp] theorem Store.exec_issues (st : Store) (u : Update Run) : (st.exec u).issues = st.issues :=
  rfl

@[simp] theorem Store.exec_tasks (st : Store) (u : Update Run) : (st.exec u).tasks = st.tasks := rfl

theorem Store.mem_exec {st : Store} {runId : UUID} {now : Int} {w : RunWrite} {x : Run} :
    x ∈ (st.exec (w.stmt runId now)).runs.rows ↔
      ∃ r ∈ st.runs.rows, (w.stmt runId now).apply r = x := by
  have hsome : (st.runs.update? (w.stmt runId now)).isSome :=
    runs_update?_isSome fun r => w.set_sameRun now r
  rcases Option.isSome_iff_exists.1 hsome with ⟨q, hq⟩
  simp only [Store.exec, hq, Option.getD_some]
  exact Table.mem_update? hq

/-- A row of afterwards is another run's, as it was, or the written one. -/
theorem Store.of_mem_exec {st : Store} {runId : UUID} {now : Int} {w : RunWrite} {x : Run}
    (hx : x ∈ (st.exec (w.stmt runId now)).runs.rows) :
    (x ∈ st.runs.rows ∧ x.id ≠ runId) ∨ ∃ r ∈ st.runs.rows, r.id = runId ∧ x = w.set now r := by
  rcases Store.mem_exec.1 hx with ⟨r, hr, rfl⟩
  by_cases hid : r.id = runId
  · subst hid
    exact .inr ⟨r, hr, rfl, RunWrite.apply_stmt_self⟩
  · rw [RunWrite.apply_stmt_of_ne hid]
    exact .inl ⟨hr, hid⟩

theorem Store.exec_other {st : Store} {runId : UUID} {now : Int} {w : RunWrite} {r : Run}
    (hr : r ∈ st.runs.rows) (hid : r.id ≠ runId) : r ∈ (st.exec (w.stmt runId now)).runs.rows :=
  Store.mem_exec.2 ⟨r, hr, RunWrite.apply_stmt_of_ne hid⟩

theorem Store.exec_self {st : Store} {runId : UUID} {now : Int} {w : RunWrite} {r : Run}
    (hr : r ∈ st.runs.rows) (hid : r.id = runId) :
    w.set now r ∈ (st.exec (w.stmt runId now)).runs.rows := by
  subst hid
  exact Store.mem_exec.2 ⟨r, hr, RunWrite.apply_stmt_self⟩

/-- What one row with the id satisfies, all do. -/
theorem Store.forall_of_exists {st : Store} {runId : UUID} {P : Run → Prop}
    (h : ∃ r ∈ st.runs.rows, r.id = runId ∧ P r) : ∀ r ∈ st.runs.rows, r.id = runId → P r := by
  rcases h with ⟨r₀, hr₀, hid₀, hP⟩
  intro r hr hid
  rw [eq_of_runId hr hr₀ (hid.trans hid₀.symm)]
  exact hP

/-- What a write other than the recovery leaves alone. -/
structure Run.Kin (r r' : Run) : Prop where
  id : r'.id = r.id
  triggerId : r'.triggerId = r.triggerId
  plannedAt : r'.plannedAt = r.plannedAt
  delivery : r'.webhookDeliveryId = r.webhookDeliveryId

theorem Run.Kin.refl (r : Run) : r.Kin r := ⟨rfl, rfl, rfl, rfl⟩

theorem RunWrite.set_kin {w : RunWrite} (hw : w ≠ .recover) (now : Int) (r : Run) :
    r.Kin (w.set now r) := by
  cases w with
  | recover => exact absurd rfl hw
  | _ => exact ⟨rfl, rfl, rfl, rfl⟩

/-! ## The store fits together -/

/-- What a run says about issues and tasks is so. -/
structure Run.Fits (issues : List Issue) (tasks : List Task) (r : Run) : Prop where
  created : ∀ i ∈ issues, i.runId = r.id → r.issueId = some i.id
  queued : ∀ t ∈ tasks, t.autopilotRunId = some r.id → r.status = .running ∨ r.status.ended = true
  issueId : ∀ x, r.issueId = some x →
    (r.status = .issueCreated ∨ r.status.ended = true) ∧ ∃ i ∈ issues, i.id = x ∧ i.runId = r.id
  taskId : ∀ x, r.taskId = some x →
    (r.status = .running ∨ r.status.ended = true) ∧
      ∃ t ∈ tasks, t.id = x ∧ t.autopilotRunId = some r.id
  skipped : r.status = .skipped →
    (∀ i ∈ issues, i.runId ≠ r.id) ∧ ∀ t ∈ tasks, t.autopilotRunId ≠ some r.id
  completed : r.status = .completed →
    (∃ i ∈ issues, i.runId = r.id) ∨ ∃ t ∈ tasks, t.autopilotRunId = some r.id

structure Store.Wf (st : Store) : Prop where
  runs : ∀ r ∈ st.runs.rows, r.Fits st.issues st.tasks
  issues : ∀ i ∈ st.issues, ∃ r ∈ st.runs.rows, r.id = i.runId
  tasks : ∀ t ∈ st.tasks, ∀ id, t.autopilotRunId = some id → ∃ r ∈ st.runs.rows, r.id = id
  oneIssue : st.issues.length ≤ 1
  oneTask : (st.tasks.filter fun t => t.autopilotRunId.isSome).length ≤ 1

/-- No run has an issue or a task yet. -/
def Store.Bare (st : Store) : Prop := st.issues = [] ∧ ∀ t ∈ st.tasks, t.autopilotRunId = none

theorem Store.started_iff {st : Store} {runId : UUID} : st.started runId = true ↔
    (∃ i ∈ st.issues, i.runId = runId) ∨ ∃ t ∈ st.tasks, t.autopilotRunId = some runId := by
  simp [Store.started]

theorem Store.started_insertTask {st : Store} {t : Task} {runId : UUID} :
    (st.insertTask t).started runId = true ↔
      st.started runId = true ∨ t.autopilotRunId = some runId := by
  simp [Store.started, Store.insertTask, or_assoc]

theorem Store.started_createIssue {st : Store} {runId issueId id : UUID} {now : Int} :
    (st.createIssue runId now issueId).started id = true ↔ st.started id = true ∨ runId = id := by
  simp [Store.started, Store.createIssue, or_assoc, or_comm]

theorem Store.Bare.not_started {st : Store} (hbare : st.Bare) (runId : UUID) :
    st.started runId = false := by
  rw [Bool.eq_false_iff]
  intro hstarted
  rcases Store.started_iff.1 hstarted with ⟨i, hi, -⟩ | ⟨t, ht, hrun⟩
  · rw [hbare.1] at hi
    simp at hi
  · rw [hbare.2 t ht] at hrun
    simp at hrun

theorem wf_empty : Store.empty.Wf :=
  ⟨by simp [Store.empty], by simp [Store.empty], by simp [Store.empty], by simp [Store.empty],
    by simp [Store.empty]⟩

/-- A write for which the written rows still fit. -/
theorem Store.Wf.exec {st : Store} (hwf : st.Wf) {runId : UUID} {now : Int} {w : RunWrite}
    (hfits : ∀ r ∈ st.runs.rows, r.id = runId → (w.set now r).Fits st.issues st.tasks) :
    (st.exec (w.stmt runId now)).Wf := by
  have hkept : ∀ id, (∃ r ∈ st.runs.rows, r.id = id) →
      ∃ r ∈ (st.exec (w.stmt runId now)).runs.rows, r.id = id := by
    rintro id ⟨r, hr, rfl⟩
    -- the written row keeps its id, the others are untouched
    by_cases hid : r.id = runId
    · exact ⟨_, Store.exec_self hr hid, (w.set_sameRun now r).id⟩
    · exact ⟨r, Store.exec_other hr hid, rfl⟩
  constructor
  · intro x hx
    rcases Store.of_mem_exec hx with ⟨hx, -⟩ | ⟨r, hr, hid, rfl⟩
    · exact hwf.runs x hx
    · exact hfits r hr hid
  · exact fun i hi => hkept _ (hwf.issues i hi)
  · exact fun t ht id hid => hkept _ (hwf.tasks t ht id hid)
  · exact hwf.oneIssue
  · exact hwf.oneTask

/-- In a bare store no run claims anything. -/
theorem Store.Wf.bare {st : Store} (hwf : st.Wf) (hbare : st.Bare) {r : Run}
    (hr : r ∈ st.runs.rows) : r.issueId = none ∧ r.taskId = none ∧ r.status ≠ .completed := by
  have hfits := hwf.runs r hr
  have hnotask : ∀ t ∈ st.tasks, t.autopilotRunId ≠ some r.id := by
    intro t ht
    simp [hbare.2 t ht]
  -- each of them would need an issue or a task of the run
  refine ⟨?_, ?_, ?_⟩
  · by_contra hsome
    rcases Option.ne_none_iff_exists'.1 hsome with ⟨x, hx⟩
    rcases (hfits.issueId x hx).2 with ⟨i, hi, -⟩
    rw [hbare.1] at hi
    simp at hi
  · by_contra hsome
    rcases Option.ne_none_iff_exists'.1 hsome with ⟨x, hx⟩
    rcases (hfits.taskId x hx).2 with ⟨t, ht, -, hrun⟩
    exact hnotask t ht hrun
  · intro hcompleted
    rcases hfits.completed hcompleted with ⟨i, hi, -⟩ | ⟨t, ht, hrun⟩
    · rw [hbare.1] at hi
      simp at hi
    · exact hnotask t ht hrun

/-! ## What the writes keep -/

theorem Store.Wf.createIssue {st : Store} (hwf : st.Wf) (hbare : st.Bare) (runId : UUID) (now : Int)
    (issueId : UUID) (hrun : ∃ r ∈ st.runs.rows, r.id = runId ∧ r.status = .issueCreated) :
    (st.createIssue runId now issueId).Wf := by
  have hmem : ∀ i, i ∈ (st.createIssue runId now issueId).issues → i = ⟨issueId, runId, .todo⟩ := by
    intro i hi
    simpa [Store.createIssue, hbare.1] using hi
  have hnotask : ∀ t ∈ st.tasks, ∀ id, t.autopilotRunId ≠ some id := by
    intro t ht id
    simp [hbare.2 t ht]
  have hnew : (⟨issueId, runId, .todo⟩ : Issue) ∈ (st.createIssue runId now issueId).issues := by
    simp [Store.createIssue]
  rcases hrun with ⟨r₀, hr₀, hid₀, -⟩
  constructor
  · intro x hx
    rcases Store.of_mem_exec hx with ⟨hx, hne⟩ | ⟨r, hr, hid, rfl⟩
    · -- another run has nothing, and the issue is not its own
      rcases hwf.bare hbare hx with ⟨hissue, htask, hcompleted⟩
      refine ⟨fun i hi heq => ?_, fun t ht hrun => absurd hrun (hnotask t ht _), by simp [hissue],
        by simp [htask], fun _ => ⟨fun i hi heq => ?_, fun t ht => hnotask t ht _⟩,
        fun h => absurd h hcompleted⟩
      all_goals
        rw [hmem i hi] at heq
        exact absurd heq.symm hne
    · -- the run itself, which now points to the new issue
      have htask := (hwf.bare hbare hr).2.1
      refine ⟨fun i hi _ => ?_, fun t ht hrun => absurd hrun (hnotask t ht _), fun y hy => ?_,
        fun y hy => ?_, fun h => ?_, fun h => ?_⟩
      · rw [hmem i hi]
        rfl
      · have hy : issueId = y := Option.some.inj hy
        exact ⟨.inl rfl, _, hnew, hy, hid.symm⟩
      · have hnone : r.taskId = some y := hy
        rw [htask] at hnone
        simp at hnone
      · simp [RunWrite.status] at h
      · simp [RunWrite.status] at h
  · intro i hi
    rw [hmem i hi]
    exact ⟨_, Store.exec_self hr₀ hid₀, hid₀⟩
  · exact fun t ht id hid => absurd hid (hnotask t ht id)
  · simp [Store.createIssue, hbare.1]
  · exact hwf.oneTask

/-- A task for a run-only run. -/
theorem Store.Wf.createTask {st : Store} (hwf : st.Wf) (hbare : st.Bare) {runId taskId : UUID}
    (hrun : ∃ r ∈ st.runs.rows, r.id = runId ∧ r.status = .running) :
    (st.insertTask { id := taskId, autopilotRunId := some runId }).Wf := by
  rcases hrun with ⟨r₀, hr₀, hid₀, hrunning⟩
  have hmem : ∀ t, t ∈ (st.insertTask { id := taskId, autopilotRunId := some runId }).tasks →
      ∀ id, t.autopilotRunId = some id → id = runId := by
    intro t ht id hid
    rcases List.mem_append.1 ht with ht | ht
    · simp [hbare.2 t ht] at hid
    · rw [List.mem_singleton] at ht
      subst ht
      exact (Option.some.inj hid).symm
  -- the runs that the task may belong to
  have hstatus : ∀ r ∈ st.runs.rows, r.id = runId → r.status = .running := by
    intro r hr hid
    rw [eq_of_runId hr hr₀ (hid.trans hid₀.symm), hrunning]
  constructor
  · intro r hr
    rcases hwf.bare hbare hr with ⟨hissue, htask, hcompleted⟩
    have hissues : ∀ i ∈ st.issues, False := by simp [hbare.1]
    refine ⟨fun i hi => (hissues i hi).elim, fun t ht hrun => ?_, by simp [hissue], by simp [htask],
      fun hskipped => ⟨fun i hi => (hissues i hi).elim, fun t ht hrun => ?_⟩,
      fun h => absurd h hcompleted⟩
    · exact .inl (hstatus r hr (hmem t ht r.id hrun))
    · rw [hstatus r hr (hmem t ht r.id hrun)] at hskipped
      simp at hskipped
  · exact hwf.issues
  · intro t ht id hid
    exact ⟨r₀, hr₀, hid₀.trans (hmem t ht id hid).symm⟩
  · exact hwf.oneIssue
  · -- before the insertion no task has a run
    have hnone : (st.tasks.filter fun t => t.autopilotRunId.isSome) = [] := by
      refine List.filter_eq_nil_iff.2 fun t ht => ?_
      simp [hbare.2 t ht]
    simp [Store.insertTask, List.filter_append, hnone]

/-- A task for an issue belongs to no run. -/
theorem Store.Wf.issueTask {st : Store} (hwf : st.Wf) (taskId issueId : UUID) :
    (st.insertTask { id := taskId, issueId := some issueId }).Wf := by
  have hmem : ∀ t, t ∈ (st.insertTask { id := taskId, issueId := some issueId }).tasks →
      ∀ id, t.autopilotRunId = some id → t ∈ st.tasks := by
    intro t ht id hid
    rcases List.mem_append.1 ht with ht | ht
    · exact ht
    · rw [List.mem_singleton] at ht
      simp [ht] at hid
  constructor
  · intro r hr
    have hfits := hwf.runs r hr
    refine ⟨hfits.created, fun t ht hrun => hfits.queued t (hmem t ht _ hrun) hrun, hfits.issueId,
      fun x hx => ⟨(hfits.taskId x hx).1, ?_⟩, fun h => ⟨(hfits.skipped h).1, fun t ht hrun => ?_⟩,
      fun h => ?_⟩
    · rcases (hfits.taskId x hx).2 with ⟨t, ht, htx⟩
      exact ⟨t, List.mem_append_left _ ht, htx⟩
    · exact (hfits.skipped h).2 t (hmem t ht _ hrun) hrun
    · rcases hfits.completed h with hissue | ⟨t, ht, hrun⟩
      · exact .inl hissue
      · exact .inr ⟨t, List.mem_append_left _ ht, hrun⟩
  · exact hwf.issues
  · exact fun t ht id hid => hwf.tasks t (hmem t ht id hid) id hid
  · exact hwf.oneIssue
  · simpa [Store.insertTask, List.filter_append] using hwf.oneTask

/-- The linkage of a run-only task, when there are no issues. -/
theorem Store.Wf.link {st : Store} (hwf : st.Wf) (hissues : st.issues = []) {runId taskId : UUID}
    (now : Int) (htask : ∃ t ∈ st.tasks, t.id = taskId ∧ t.autopilotRunId = some runId) :
    (st.exec (updateAutopilotRunRunning runId now taskId)).Wf := by
  refine hwf.exec fun r hr hid => ?_
  have hfits := hwf.runs r hr
  refine ⟨by simp [hissues], fun _ _ _ => .inl rfl, fun x hx => ?_, fun x hx => ?_, fun h => ?_,
    fun h => ?_⟩
  · -- there is no issue that the run could point to
    rcases (hfits.issueId x hx).2 with ⟨i, hi, -⟩
    rw [hissues] at hi
    simp at hi
  · have hx : taskId = x := Option.some.inj hx
    rcases htask with ⟨t, ht, htid, hrun⟩
    exact ⟨.inl rfl, t, ht, htid.trans hx, hrun.trans (by rw [← hid]; rfl)⟩
  · simp [RunWrite.status] at h
  · simp [RunWrite.status] at h

/-- A run fails, by `failRun` or by the recovery of a partial run. -/
theorem Store.Wf.fail {st : Store} (hwf : st.Wf) (runId : UUID) (now : Int) {w : RunWrite}
    (hw : w.status = .failed) : (st.exec (w.stmt runId now)).Wf := by
  refine hwf.exec fun r hr _ => ?_
  have hfits := hwf.runs r hr
  have hstatus : (w.set now r).status = .failed := (w.set_status now r).trans hw
  have hended : (w.set now r).status.ended = true := by rw [hstatus]; rfl
  -- failing touches neither link
  have hlinks : (w.set now r).id = r.id ∧ (w.set now r).issueId = r.issueId ∧
      (w.set now r).taskId = r.taskId := by
    cases w with
    | issueCreated issueId => simp [RunWrite.status] at hw
    | running taskId => simp [RunWrite.status] at hw
    | _ => exact ⟨rfl, rfl, rfl⟩
  rcases hlinks with ⟨hid, hissue, htask⟩
  constructor
  · rw [hid, hissue]
    exact hfits.created
  · exact fun _ _ _ => .inr hended
  · rw [hid, hissue]
    exact fun x hx => ⟨.inr hended, (hfits.issueId x hx).2⟩
  · rw [hid, htask]
    exact fun x hx => ⟨.inr hended, (hfits.taskId x hx).2⟩
  · simp [hw]
  · simp [hw]

/-- A run that has its issue or its task completes. -/
theorem Store.Wf.complete {st : Store} (hwf : st.Wf) (runId : UUID) (now : Int)
    (result : Option String) (hstarted : st.started runId = true) :
    (st.exec (updateAutopilotRunCompleted runId now result)).Wf := by
  refine hwf.exec fun r hr hid => ?_
  have hfits := hwf.runs r hr
  rw [← hid] at hstarted
  exact ⟨hfits.created, fun _ _ _ => .inr rfl, fun x hx => ⟨.inr rfl, (hfits.issueId x hx).2⟩,
    fun x hx => ⟨.inr rfl, (hfits.taskId x hx).2⟩, by simp [RunWrite.status],
    fun _ => Store.started_iff.1 hstarted⟩

/-- A run is skipped while it has neither an issue nor a task. -/
theorem Store.Wf.skip {st : Store} (hwf : st.Wf) (runId : UUID) (now : Int) (reason : String)
    (hnone : (∀ i ∈ st.issues, i.runId ≠ runId) ∧ ∀ t ∈ st.tasks, t.autopilotRunId ≠ some runId) :
    (st.exec (updateAutopilotRunSkipped runId now reason)).Wf := by
  refine hwf.exec fun r hr hid => ?_
  have hfits := hwf.runs r hr
  refine ⟨hfits.created, fun _ _ _ => .inr rfl, fun x hx => ⟨.inr rfl, (hfits.issueId x hx).2⟩,
    fun x hx => ⟨.inr rfl, (hfits.taskId x hx).2⟩, fun _ => ?_, by simp [RunWrite.status]⟩
  rw [← hid] at hnone
  exact hnone

/-- A run is stored without an issue or a task. -/
theorem Store.Wf.insertRun {st : Store} (hwf : st.Wf) {r : Run} {q : RunTable}
    (hins : st.runs.insert? r = some q) (hissue : r.issueId = none) (htask : r.taskId = none)
    (hstatus : r.status ≠ .completed) : Store.Wf { st with runs := q } := by
  have hmem : ∀ x, x ∈ q.rows ↔ x ∈ st.runs.rows ∨ x = r := fun x => Table.mem_insert? hins
  have hfresh : ∀ x ∈ st.runs.rows, x.id ≠ r.id :=
    (Table.insert?_isSome.1 (by rw [hins]; rfl)).1
  -- nothing belongs to a run that was not there
  have hissues : ∀ i ∈ st.issues, i.runId ≠ r.id := by
    intro i hi heq
    rcases hwf.issues i hi with ⟨x, hx, hxi⟩
    exact hfresh x hx (hxi.trans heq)
  have htasks : ∀ t ∈ st.tasks, t.autopilotRunId ≠ some r.id := by
    intro t ht heq
    rcases hwf.tasks t ht r.id heq with ⟨x, hx, hxi⟩
    exact hfresh x hx hxi
  have hkept : ∀ id, (∃ x ∈ st.runs.rows, x.id = id) → ∃ x ∈ q.rows, x.id = id :=
    fun id ⟨x, hx, hxid⟩ => ⟨x, (hmem x).2 (.inl hx), hxid⟩
  constructor
  · intro x hx
    rcases (hmem x).1 hx with hx | rfl
    · exact hwf.runs x hx
    · -- the new run has nothing yet
      exact ⟨fun i hi heq => absurd heq (hissues i hi), fun t ht heq => absurd heq (htasks t ht),
        by simp [hissue], by simp [htask], fun _ => ⟨hissues, htasks⟩, fun h => absurd h hstatus⟩
  · exact fun i hi => hkept _ (hwf.issues i hi)
  · exact fun t ht id hid => hkept _ (hwf.tasks t ht id hid)
  · exact hwf.oneIssue
  · exact hwf.oneTask

/-- Issues change without changing places. -/
theorem Store.Wf.mapIssues {st : Store} (hwf : st.Wf) {f : Issue → Issue}
    (hsame : ∀ i, (f i).id = i.id ∧ (f i).runId = i.runId) :
    Store.Wf { st with issues := st.issues.map f } := by
  have hmem : ∀ i, i ∈ st.issues.map f ↔ ∃ x ∈ st.issues, f x = i := fun i => List.mem_map
  constructor
  · intro r hr
    have hfits := hwf.runs r hr
    refine ⟨fun i hi hrun => ?_, hfits.queued, fun x hx => ⟨(hfits.issueId x hx).1, ?_⟩,
      hfits.taskId, fun hs => ⟨fun i hi hrun => ?_, (hfits.skipped hs).2⟩, fun hc => ?_⟩
    · rcases (hmem i).1 hi with ⟨x, hx, rfl⟩
      rw [(hsame x).1]
      exact hfits.created x hx ((hsame x).2 ▸ hrun)
    · rcases (hfits.issueId x hx).2 with ⟨i, hi, hix, hrun⟩
      exact ⟨f i, (hmem _).2 ⟨i, hi, rfl⟩, (hsame i).1.trans hix, (hsame i).2.trans hrun⟩
    · rcases (hmem i).1 hi with ⟨x, hx, rfl⟩
      exact (hfits.skipped hs).1 x hx ((hsame x).2 ▸ hrun)
    · rcases hfits.completed hc with ⟨i, hi, hrun⟩ | htask
      · exact .inl ⟨f i, (hmem _).2 ⟨i, hi, rfl⟩, (hsame i).2.trans hrun⟩
      · exact .inr htask
  · intro i hi
    rcases (hmem i).1 hi with ⟨x, hx, rfl⟩
    rw [(hsame x).2]
    exact hwf.issues x hx
  · exact hwf.tasks
  · simpa using hwf.oneIssue
  · exact hwf.oneTask

/-! ## What the others rely on -/

structure Issue.Later (tasks : List Task) (i i' : Issue) : Prop where
  id : i'.id = i.id
  runId : i'.runId = i.runId
  needsTask : i'.status.needsTask = true →
    i.status.needsTask = true ∨ ∃ t ∈ tasks, t.issueId = some i.id

structure Run.Later (tasks : List Task) (r r' : Run) : Prop where
  same : SameRun r r'
  skipped : r.status = .skipped → r'.status = .skipped
  ended : r.status.ended = true →
    r'.status.ended = true ∨ ∃ t ∈ tasks, t.autopilotRunId = some r.id
  issueId : ∀ x, r.issueId = some x → r'.issueId = some x

theorem Issue.Later.refl (tasks : List Task) (i : Issue) : i.Later tasks i :=
  ⟨rfl, rfl, fun h => .inl h⟩

theorem Run.Later.refl (tasks : List Task) (r : Run) : r.Later tasks r :=
  ⟨.refl r, fun h => h, fun h => .inl h, fun _ h => h⟩

/-- Nothing gets lost. -/
structure Store.Extends (st st' : Store) : Prop where
  issues : ∀ i ∈ st.issues, ∃ i' ∈ st'.issues, i.Later st'.tasks i'
  tasks : ∀ t ∈ st.tasks, t ∈ st'.tasks
  runs : ∀ r ∈ st.runs.rows, ∃ r' ∈ st'.runs.rows, r.Later st'.tasks r'

theorem Store.Extends.refl (st : Store) : st.Extends st :=
  ⟨fun i hi => ⟨i, hi, .refl _ i⟩, fun _ h => h, fun r hr => ⟨r, hr, .refl _ r⟩⟩

theorem Store.extends_insertTask (st : Store) (t : Task) : st.Extends (st.insertTask t) :=
  ⟨fun i hi => ⟨i, hi, .refl _ i⟩, fun _ h => List.mem_append_left _ h,
    fun r hr => ⟨r, hr, .refl _ r⟩⟩

theorem Store.extends_exec {st : Store} {runId : UUID} {now : Int} {w : RunWrite}
    (hlater : ∀ r ∈ st.runs.rows, r.id = runId → r.Later st.tasks (w.set now r)) :
    st.Extends (st.exec (w.stmt runId now)) := by
  refine ⟨fun i hi => ⟨i, hi, .refl _ i⟩, fun _ h => h, fun r hr => ?_⟩
  by_cases hid : r.id = runId
  · exact ⟨_, Store.exec_self hr hid, hlater r hr hid⟩
  · exact ⟨r, Store.exec_other hr hid, .refl _ r⟩

/-- The run was skipped, or its issue has a task, or it has a task of its own. -/
def Run.Served (st : Store) (r : Run) : Prop :=
  r.status = .skipped ∨
    (∃ i ∈ st.issues, r.issueId = some i.id ∧ ∃ t ∈ st.tasks, t.issueId = some i.id) ∨
    ∃ t ∈ st.tasks, t.autopilotRunId = some r.id

def Store.Served (st : Store) (runId : UUID) : Prop :=
  ∃ r ∈ st.runs.rows, r.id = runId ∧ r.Served st

theorem Store.Extends.served {st st' : Store} (h : st.Extends st') {runId : UUID}
    (hserved : st.Served runId) : st'.Served runId := by
  rcases hserved with ⟨r, hr, rfl, hserved⟩
  rcases h.runs r hr with ⟨r', hr', hlater⟩
  refine ⟨r', hr', hlater.same.id, ?_⟩
  rcases hserved with hskipped | ⟨i, hi, hri, t, ht, hti⟩ | ⟨t, ht, htr⟩
  · exact .inl (hlater.skipped hskipped)
  · rcases h.issues i hi with ⟨i', hi', hissue⟩
    exact .inr (.inl ⟨i', hi', by rw [hissue.id]; exact hlater.issueId _ hri, t, h.tasks t ht,
      by rw [hissue.id]; exact hti⟩)
  · exact .inr (.inr ⟨t, h.tasks t ht, htr.trans (by rw [hlater.same.id])⟩)

theorem skipped_extends {st st' : Store} (h : st.Extends st') {runId : UUID}
    (hskipped : ∃ r ∈ st.runs.rows, r.id = runId ∧ r.status = .skipped) :
    ∃ r ∈ st'.runs.rows, r.id = runId ∧ r.status = .skipped := by
  rcases hskipped with ⟨r, hr, hid, hstatus⟩
  rcases h.runs r hr with ⟨r', hr', hlater⟩
  exact ⟨r', hr', hlater.same.id.trans hid, hlater.skipped hstatus⟩

theorem started_extends {st st' : Store} (h : st.Extends st') {runId : UUID}
    (hstarted : st.started runId = true) : st'.started runId = true := by
  rcases Store.started_iff.1 hstarted with ⟨i, hi, hrun⟩ | ⟨t, ht, hrun⟩
  · rcases h.issues i hi with ⟨i', hi', hissue⟩
    exact Store.started_iff.2 (.inl ⟨i', hi', hissue.runId.trans hrun⟩)
  · exact Store.started_iff.2 (.inr ⟨t, h.tasks t ht, hrun⟩)

/-! ## Steps of others -/

/-- What listeners and other requests may do while the code is somewhere: a run that has an
issue or a task ends, and what is bare stays so. -/
structure Store.Env (st st' : Store) : Prop where
  ext : st.Extends st'
  noIssue : st.issues = [] → st'.issues = []
  noTask : (∀ t ∈ st.tasks, t.autopilotRunId = none) → ∀ t ∈ st'.tasks, t.autopilotRunId = none
  runs : ∀ r ∈ st.runs.rows, ∃ r' ∈ st'.runs.rows, r.Later st'.tasks r' ∧
    (r'.status = r.status ∨ (r'.status ≠ .skipped ∧ st.started r.id = true))

theorem Store.Env.refl (st : Store) : st.Env st :=
  ⟨.refl st, fun h => h, fun h => h, fun r hr => ⟨r, hr, .refl _ r, .inl rfl⟩⟩

theorem Store.Env.bare {st st' : Store} (h : st.Env st') (hbare : st.Bare) : st'.Bare :=
  ⟨h.noIssue hbare.1, h.noTask hbare.2⟩

/-- The runs of a bare store keep their status. -/
theorem Store.Env.status {st st' : Store} (h : st.Env st') (hbare : st.Bare) {runId : UUID}
    {P : RunStatus → Prop} (hrun : ∃ r ∈ st.runs.rows, r.id = runId ∧ P r.status) :
    ∃ r ∈ st'.runs.rows, r.id = runId ∧ P r.status := by
  rcases hrun with ⟨r, hr, hid, hP⟩
  rcases h.runs r hr with ⟨r', hr', hlater, hstatus | ⟨-, hstarted⟩⟩
  · exact ⟨r', hr', hlater.same.id.trans hid, by rwa [hstatus]⟩
  · rw [hbare.not_started] at hstarted
    simp at hstarted

theorem Store.Env.notSkipped {st st' : Store} (h : st.Env st') {r : Run} (hr : r ∈ st.runs.rows)
    (hns : r.status ≠ .skipped) :
    ∃ r' ∈ st'.runs.rows, r.Later st'.tasks r' ∧ r'.status ≠ .skipped := by
  rcases h.runs r hr with ⟨r', hr', hlater, hstatus | ⟨hns', -⟩⟩
  · exact ⟨r', hr', hlater, by rwa [hstatus]⟩
  · exact ⟨r', hr', hlater, hns'⟩

theorem Store.env_insertRun {st : Store} {r : Run} {q : RunTable}
    (hins : st.runs.insert? r = some q) : st.Env { st with runs := q } := by
  have hkept : ∀ x ∈ st.runs.rows, x ∈ q.rows := fun x hx => (Table.mem_insert? hins).2 (.inl hx)
  refine ⟨⟨fun i hi => ⟨i, hi, .refl _ i⟩, fun _ h => h, fun x hx => ⟨x, hkept x hx, .refl _ x⟩⟩,
    fun h => h, fun h => h, fun x hx => ⟨x, hkept x hx, .refl _ x, .inl rfl⟩⟩

/-- An issue that comes to need a task has one. -/
theorem Store.env_mapIssues {st : Store} {f : Issue → Issue}
    (hsame : ∀ i, (f i).id = i.id ∧ (f i).runId = i.runId)
    (hneeds : ∀ i ∈ st.issues, (f i).status.needsTask = true →
      i.status.needsTask = true ∨ ∃ t ∈ st.tasks, t.issueId = some i.id) :
    st.Env { st with issues := st.issues.map f } := by
  refine ⟨⟨fun i hi => ?_, fun t ht => ht, fun r hr => ⟨r, hr, .refl _ r⟩⟩, fun h => ?_,
    fun h => h, fun r hr => ⟨r, hr, .refl _ r, .inl rfl⟩⟩
  · -- only the need for a task can change
    exact ⟨f i, List.mem_map.2 ⟨i, hi, rfl⟩, (hsame i).1, (hsame i).2, hneeds i hi⟩
  · show st.issues.map f = []
    rw [h, List.map_nil]

/-- The reason of a skipped run is written after its row. -/
theorem recordSkip_spec {st : Store} (hwf : st.Wf) {runId : UUID} (now : Int) (reason : String)
    (hskipped : ∃ r ∈ st.runs.rows, r.id = runId ∧ r.status = .skipped) :
    (st.exec (updateAutopilotRunSkipped runId now reason)).Wf ∧
      st.Env (st.exec (updateAutopilotRunSkipped runId now reason)) := by
  have hstatus := Store.forall_of_exists hskipped
  have hnone : (∀ i ∈ st.issues, i.runId ≠ runId) ∧
      ∀ t ∈ st.tasks, t.autopilotRunId ≠ some runId := by
    rcases hskipped with ⟨r, hr, rfl, hs⟩
    exact (hwf.runs r hr).skipped hs
  -- the status is the one it has
  have hlater : ∀ r ∈ st.runs.rows, r.id = runId →
      r.Later st.tasks ((RunWrite.skipped reason).set now r) := by
    intro r hr hid
    exact ⟨RunWrite.set_sameRun now _ r, fun _ => rfl, fun _ => .inl rfl, fun x hx => hx⟩
  refine ⟨hwf.skip runId now reason hnone, Store.extends_exec hlater, fun h => h, fun h => h,
    fun r hr => ?_⟩
  by_cases hid : r.id = runId
  · exact ⟨_, Store.exec_self hr hid, hlater r hr hid, .inl (hstatus r hr hid).symm⟩
  · exact ⟨r, Store.exec_other hr hid, .refl _ r, .inl rfl⟩

/-- A listener ends a run that is not skipped. -/
theorem sync_spec {st st' : Store} {runId : UUID} {now : Int} {o : RunOutcome} (hwf : st.Wf)
    (h : st.sync runId now o = some st') : st'.Wf ∧ st.Env st' := by
  simp only [Store.sync, Option.ite_none_right_eq_some, Option.some.injEq] at h
  rcases h with ⟨hstarted, rfl⟩
  -- what is started is not skipped
  have hns : ∀ r ∈ st.runs.rows, r.id = runId → r.status ≠ .skipped := by
    intro r hr hid hskipped
    have hnone := (hwf.runs r hr).skipped hskipped
    rcases Store.started_iff.1 hstarted with ⟨i, hi, hrun⟩ | ⟨t, ht, hrun⟩
    · exact hnone.1 i hi (hrun.trans hid.symm)
    · exact hnone.2 t ht (hrun.trans (by rw [hid]))
  have hwrite : o.write.status.ended = true ∧ o.write.status ≠ .skipped := by
    cases o <;> simp [RunOutcome.write, RunWrite.status, RunStatus.ended]
  have hlater : ∀ r ∈ st.runs.rows, r.id = runId → r.Later st.tasks (o.write.set now r) := by
    intro r hr hid
    refine ⟨o.write.set_sameRun now r, fun hs => absurd hs (hns r hr hid), fun _ => .inl ?_,
      fun x hx => ?_⟩
    · rw [RunWrite.set_status]
      exact hwrite.1
    · cases o <;> exact hx
  constructor
  · cases o with
    | completed result => exact hwf.complete runId now result hstarted
    | failed reason => exact hwf.fail runId now rfl
  · -- no issue and no task is touched
    refine ⟨Store.extends_exec hlater, fun h => h, fun h => h, fun r hr => ?_⟩
    by_cases hid : r.id = runId
    · refine ⟨_, Store.exec_self hr hid, hlater r hr hid, .inr ⟨?_, by rwa [hid]⟩⟩
      rw [RunWrite.set_status]
      exact hwrite.2
    · exact ⟨r, Store.exec_other hr hid, .refl _ r, .inl rfl⟩

theorem sync_kept {st st' : Store} {runId : UUID} {now : Int} {o : RunOutcome}
    (h : st.sync runId now o = some st') {r : Run} (hr : r ∈ st.runs.rows) :
    ∃ r' ∈ st'.runs.rows, r.Kin r' := by
  simp only [Store.sync, Option.ite_none_right_eq_some, Option.some.injEq] at h
  rcases h with ⟨-, rfl⟩
  by_cases hid : r.id = runId
  · refine ⟨_, Store.exec_self hr hid, ?_⟩
    cases o <;> exact RunWrite.set_kin (by simp [RunOutcome.write]) now r
  · exact ⟨r, Store.exec_other hr hid, .refl r⟩

/-- A listener's row is one of before, with the same status or ended. -/
theorem sync_rows {st st' : Store} {runId : UUID} {now : Int} {o : RunOutcome}
    (h : st.sync runId now o = some st') {r' : Run} (hr' : r' ∈ st'.runs.rows) :
    ∃ r ∈ st.runs.rows, r.Kin r' ∧ (r'.status = r.status ∨ r'.status.ended = true) := by
  simp only [Store.sync, Option.ite_none_right_eq_some, Option.some.injEq] at h
  rcases h with ⟨-, rfl⟩
  rcases Store.of_mem_exec hr' with ⟨hr, -⟩ | ⟨r, hr, -, rfl⟩
  · exact ⟨r', hr, .refl r', .inl rfl⟩
  · refine ⟨r, hr, ?_, .inr ?_⟩
    · cases o <;> exact RunWrite.set_kin (by simp [RunOutcome.write]) now r
    · rw [RunWrite.set_status]
      cases o <;> rfl

end Orynx.Autopilot
