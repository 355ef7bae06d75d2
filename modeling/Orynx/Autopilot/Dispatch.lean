import Orynx.Autopilot.Store

/-! # Dispatch of one run

`dispatchAutopilotRun` gives a run that is already stored its issue or its task, one
statement or transaction at a time; it may be refused, fail or die between any two of them.

* `dispatchAutopilotRun`: one database step, from and to a place in the code;
* `Dispatch.Knows`: what holds where the code is;
* `dispatch_spec`: a step keeps it and the store well formed, and a dispatch that returns
  without an error has skipped its run or has got it a task.
-/

namespace Orynx.Autopilot

open Lib

/-! ## The code -/

/-- Where the code is: in `dispatchCreateIssue`, in `dispatchRunOnly`, or in what the caller
does when one of them returns an error. -/
inductive Dispatch where
  | createIssue
  | enqueue (issueId : UUID)
  | createTask
  | link (taskId : UUID)
  | skip (reason : String)
  | fail (reason : String)
deriving DecidableEq, Repr

/-- How it starts. -/
def ExecutionMode.dispatch : ExecutionMode → Dispatch
  | .createIssue => .createIssue
  | .runOnly => .createTask

/-- A database step and how it goes. `refuse` is `errDispatchSkipped`: the guard has found a
recent duplicate, or the agent is not ready. -/
inductive DispatchStep where
  | insertIssue (issueId : UUID)
  | insertTask (taskId : UUID)
  | refuse (reason : String)
  | write
  | error (reason : String)
deriving DecidableEq, Repr

inductive DispatchResult where
  | goesOn (d : Dispatch)
  | returns (ok : Bool)
deriving DecidableEq, Repr

def dispatchAutopilotRun (now : Int) (runId : UUID) (st : Store) :
    Dispatch → DispatchStep → Option (Store × DispatchResult)
  | .createIssue, .insertIssue issueId =>
    if st.freshIssue issueId then
      some (st.createIssue runId now issueId, .goesOn (.enqueue issueId))
    else none
  | .enqueue issueId, .insertTask taskId =>
    if st.freshTask taskId then
      some (st.insertTask { id := taskId, issueId := some issueId }, .returns true)
    else none
  | .createTask, .insertTask taskId =>
    if st.freshTask taskId then
      some (st.insertTask { id := taskId, autopilotRunId := some runId }, .goesOn (.link taskId))
    else none
  | .createIssue, .refuse reason | .createTask, .refuse reason => some (st, .goesOn (.skip reason))
  | .link taskId, .write => some (st.exec (updateAutopilotRunRunning runId now taskId), .returns true)
  -- a task that cannot be linked is only logged
  | .link _, .error _ => some (st, .returns true)
  | .skip reason, .write => some (st.exec (updateAutopilotRunSkipped runId now reason), .returns true)
  -- a skip that cannot be written becomes a failure with the same reason
  | .skip reason, .error _ => some (st, .goesOn (.fail reason))
  | .fail reason, .write => some (st.exec (updateAutopilotRunFailed runId now reason), .returns false)
  | .fail _, .error _ => some (st, .returns false)
  | .createIssue, .error reason | .enqueue _, .error reason | .createTask, .error reason =>
    some (st, .goesOn (.fail reason))
  | _, _ => none

/-! ## One step of the code -/

/-- What holds where the code is. -/
def Dispatch.Knows (st : Store) (runId : UUID) : Dispatch → Prop
  | .createIssue => st.Bare ∧ ∃ r ∈ st.runs.rows, r.id = runId ∧ r.status = .issueCreated
  | .enqueue issueId =>
    ∃ r ∈ st.runs.rows, r.id = runId ∧ r.status ≠ .skipped ∧ r.issueId = some issueId
  | .createTask => st.Bare ∧ ∃ r ∈ st.runs.rows, r.id = runId ∧ r.status = .running
  | .link taskId =>
    st.issues = [] ∧ (∃ r ∈ st.runs.rows, r.id = runId ∧ r.status ≠ .skipped) ∧
      ∃ t ∈ st.tasks, t.id = taskId ∧ t.autopilotRunId = some runId
  | .skip _ => st.Bare ∧ ∃ r ∈ st.runs.rows, r.id = runId ∧ r.status.ended = false
  | .fail _ => ∃ r ∈ st.runs.rows, r.id = runId ∧ r.status ≠ .skipped

/-- And when it returns. -/
def DispatchResult.Knows (st : Store) (runId : UUID) : DispatchResult → Prop
  | .goesOn d => d.Knows st runId
  | .returns ok => ok = true → st.Served runId

/-- Wherever the code is, its run is not skipped. -/
theorem Dispatch.Knows.notSkipped {st : Store} {runId : UUID} {d : Dispatch}
    (h : d.Knows st runId) : ∃ r ∈ st.runs.rows, r.id = runId ∧ r.status ≠ .skipped := by
  cases d with
  | createIssue =>
    rcases h with ⟨-, r, hr, hid, hstatus⟩
    exact ⟨r, hr, hid, by simp [hstatus]⟩
  | enqueue issueId =>
    rcases h with ⟨r, hr, hid, hstatus, -⟩
    exact ⟨r, hr, hid, hstatus⟩
  | createTask =>
    rcases h with ⟨-, r, hr, hid, hstatus⟩
    exact ⟨r, hr, hid, by simp [hstatus]⟩
  | link taskId => exact h.2.1
  | skip reason =>
    rcases h with ⟨-, r, hr, hid, hstatus⟩
    refine ⟨r, hr, hid, fun hskipped => ?_⟩
    simp [hskipped, RunStatus.ended] at hstatus
  | fail reason => exact h

theorem Store.extends_createIssue {st : Store} (hwf : st.Wf) (hbare : st.Bare) {runId : UUID}
    (now : Int) (issueId : UUID)
    (hrun : ∃ r ∈ st.runs.rows, r.id = runId ∧ r.status = .issueCreated) :
    st.Extends (st.createIssue runId now issueId) := by
  have hext : st.Extends (st.exec (updateAutopilotRunIssueCreated runId now issueId)) := by
    refine Store.extends_exec fun r hr hid => ?_
    have hstatus := Store.forall_of_exists hrun r hr hid
    refine ⟨RunWrite.set_sameRun now _ r, by simp [hstatus], by simp [hstatus, RunStatus.ended],
      fun x hx => ?_⟩
    rw [(hwf.bare hbare hr).1] at hx
    simp at hx
  -- there was no issue to keep
  refine ⟨fun i hi => ?_, hext.tasks, hext.runs⟩
  rw [hbare.1] at hi
  simp at hi

/-- A step keeps the store well formed and gives what holds where the code is next, and takes
nothing from the others. -/
structure Store.Steps (st st' : Store) (runId : UUID) (res : DispatchResult) : Prop where
  wf : st'.Wf
  knows : res.Knows st' runId
  ext : st.Extends st'

section Steps

variable {now : Int} {runId : UUID} {st st' : Store} {a : DispatchStep} {res : DispatchResult}

theorem createIssue_spec (hwf : st.Wf) (hknows : Dispatch.createIssue.Knows st runId)
    (h : dispatchAutopilotRun now runId st .createIssue a = some (st', res)) :
    st.Steps st' runId res := by
  have hrun := hknows.notSkipped
  rcases hknows with ⟨hbare, hcreated⟩
  cases a with
  | insertIssue issueId =>
    rcases Option.ite_none_right_eq_some.1 h with ⟨-, h⟩
    obtain ⟨rfl, rfl⟩ := Prod.mk.inj (Option.some.inj h)
    refine ⟨hwf.createIssue hbare runId now issueId hcreated, ?_,
      Store.extends_createIssue hwf hbare now issueId hcreated⟩
    -- the same transaction links the run to the issue
    rcases hcreated with ⟨r, hr, hid, -⟩
    exact ⟨_, Store.exec_self hr hid, hid, by simp [RunWrite.status], rfl⟩
  | refuse reason =>
    obtain ⟨rfl, rfl⟩ := Prod.mk.inj (Option.some.inj h)
    rcases hcreated with ⟨r, hr, hid, hstatus⟩
    exact ⟨hwf, ⟨hbare, r, hr, hid, by simp [hstatus, RunStatus.ended]⟩, .refl _⟩
  | error reason =>
    obtain ⟨rfl, rfl⟩ := Prod.mk.inj (Option.some.inj h)
    exact ⟨hwf, hrun, .refl _⟩
  | insertTask taskId => cases h
  | write => cases h

theorem enqueue_spec (hwf : st.Wf) {issueId : UUID}
    (hknows : (Dispatch.enqueue issueId).Knows st runId)
    (h : dispatchAutopilotRun now runId st (.enqueue issueId) a = some (st', res)) :
    st.Steps st' runId res := by
  have hrun := hknows.notSkipped
  rcases hknows with ⟨r, hr, hid, hstatus, hissue⟩
  cases a with
  | insertTask taskId =>
    rcases Option.ite_none_right_eq_some.1 h with ⟨-, h⟩
    obtain ⟨rfl, rfl⟩ := Prod.mk.inj (Option.some.inj h)
    refine ⟨hwf.issueTask taskId issueId, fun _ => ?_, st.extends_insertTask _⟩
    -- the run points to an issue that is there, and the task is that issue's
    rcases ((hwf.runs r hr).issueId issueId hissue).2 with ⟨i, hi, hii, -⟩
    exact ⟨r, hr, hid, .inr (.inl ⟨i, hi, by rw [hissue, hii], _,
      List.mem_append_right _ List.mem_cons_self, by rw [hii]⟩)⟩
  | error reason =>
    obtain ⟨rfl, rfl⟩ := Prod.mk.inj (Option.some.inj h)
    exact ⟨hwf, hrun, .refl _⟩
  | insertIssue issueId => cases h
  | refuse reason => cases h
  | write => cases h

theorem createTask_spec (hwf : st.Wf) (hknows : Dispatch.createTask.Knows st runId)
    (h : dispatchAutopilotRun now runId st .createTask a = some (st', res)) :
    st.Steps st' runId res := by
  have hrun := hknows.notSkipped
  rcases hknows with ⟨hbare, hrunning⟩
  cases a with
  | insertTask taskId =>
    rcases Option.ite_none_right_eq_some.1 h with ⟨-, h⟩
    obtain ⟨rfl, rfl⟩ := Prod.mk.inj (Option.some.inj h)
    exact ⟨hwf.createTask hbare hrunning, ⟨hbare.1, hrun, _,
      List.mem_append_right _ List.mem_cons_self, rfl, rfl⟩, st.extends_insertTask _⟩
  | refuse reason =>
    obtain ⟨rfl, rfl⟩ := Prod.mk.inj (Option.some.inj h)
    rcases hrunning with ⟨r, hr, hid, hstatus⟩
    exact ⟨hwf, ⟨hbare, r, hr, hid, by simp [hstatus, RunStatus.ended]⟩, .refl _⟩
  | error reason =>
    obtain ⟨rfl, rfl⟩ := Prod.mk.inj (Option.some.inj h)
    exact ⟨hwf, hrun, .refl _⟩
  | insertIssue issueId => cases h
  | write => cases h

/-- The run has its task, linked or not. -/
theorem Dispatch.Knows.served {taskId : UUID} (hknows : (Dispatch.link taskId).Knows st runId) :
    st.Served runId := by
  rcases hknows with ⟨-, ⟨r, hr, hid, -⟩, t, ht, -, htrun⟩
  exact ⟨r, hr, hid, .inr (.inr ⟨t, ht, by rw [hid]; exact htrun⟩)⟩

theorem Dispatch.Knows.link_extends {taskId : UUID}
    (hknows : (Dispatch.link taskId).Knows st runId) (now : Int) :
    st.Extends (st.exec (updateAutopilotRunRunning runId now taskId)) := by
  rcases hknows with ⟨-, hrun, t, ht, -, htrun⟩
  refine Store.extends_exec fun r hr hid => ?_
  have hstatus := Store.forall_of_exists hrun r hr hid
  exact ⟨RunWrite.set_sameRun now _ r, fun hs => absurd hs hstatus,
    fun _ => .inr ⟨t, ht, by rw [hid]; exact htrun⟩, fun x hx => hx⟩

theorem link_spec (hwf : st.Wf) {taskId : UUID} (hknows : (Dispatch.link taskId).Knows st runId)
    (h : dispatchAutopilotRun now runId st (.link taskId) a = some (st', res)) :
    st.Steps st' runId res := by
  have hserved := hknows.served
  have hext := hknows.link_extends now
  rcases hknows with ⟨hissues, -, htask⟩
  cases a with
  | write =>
    obtain ⟨rfl, rfl⟩ := Prod.mk.inj (Option.some.inj h)
    exact ⟨hwf.link hissues now htask, fun _ => hext.served hserved, hext⟩
  | error reason =>
    obtain ⟨rfl, rfl⟩ := Prod.mk.inj (Option.some.inj h)
    -- the task is there all the same
    exact ⟨hwf, fun _ => hserved, .refl _⟩
  | insertIssue issueId => cases h
  | insertTask taskId => cases h
  | refuse reason => cases h

theorem skip_spec (hwf : st.Wf) {reason : String} (hknows : (Dispatch.skip reason).Knows st runId)
    (h : dispatchAutopilotRun now runId st (.skip reason) a = some (st', res)) :
    st.Steps st' runId res := by
  have hrun := hknows.notSkipped
  rcases hknows with ⟨hbare, hopen⟩
  cases a with
  | write =>
    obtain ⟨rfl, rfl⟩ := Prod.mk.inj (Option.some.inj h)
    refine ⟨hwf.skip runId now reason ⟨by simp [hbare.1], fun t ht => by simp [hbare.2 t ht]⟩,
      fun _ => ?_, Store.extends_exec fun r hr hid => ?_⟩
    · rcases hopen with ⟨r, hr, hid, -⟩
      exact ⟨_, Store.exec_self hr hid, hid, .inl rfl⟩
    · have hstatus := Store.forall_of_exists hopen r hr hid
      exact ⟨RunWrite.set_sameRun now _ r, fun _ => rfl, by simp [hstatus], fun x hx => hx⟩
  | error cause =>
    obtain ⟨rfl, rfl⟩ := Prod.mk.inj (Option.some.inj h)
    exact ⟨hwf, hrun, .refl _⟩
  | insertIssue issueId => cases h
  | insertTask taskId => cases h
  | refuse reason => cases h

theorem fail_spec (hwf : st.Wf) {reason : String} (hknows : (Dispatch.fail reason).Knows st runId)
    (h : dispatchAutopilotRun now runId st (.fail reason) a = some (st', res)) :
    st.Steps st' runId res := by
  cases a with
  | write =>
    obtain ⟨rfl, rfl⟩ := Prod.mk.inj (Option.some.inj h)
    refine ⟨hwf.fail runId now rfl, by simp [DispatchResult.Knows],
      Store.extends_exec fun r hr hid => ?_⟩
    -- wherever the code may fail, the run is not skipped
    have hstatus := Store.forall_of_exists hknows r hr hid
    exact ⟨RunWrite.set_sameRun now _ r, fun hs => absurd hs hstatus, fun _ => .inl rfl,
      fun x hx => hx⟩
  | error cause =>
    obtain ⟨rfl, rfl⟩ := Prod.mk.inj (Option.some.inj h)
    exact ⟨hwf, by simp [DispatchResult.Knows], .refl _⟩
  | insertIssue issueId => cases h
  | insertTask taskId => cases h
  | refuse reason => cases h

theorem dispatch_spec {d : Dispatch} (hwf : st.Wf) (hknows : d.Knows st runId)
    (h : dispatchAutopilotRun now runId st d a = some (st', res)) : st.Steps st' runId res := by
  cases d with
  | createIssue => exact createIssue_spec hwf hknows h
  | enqueue issueId => exact enqueue_spec hwf hknows h
  | createTask => exact createTask_spec hwf hknows h
  | link taskId => exact link_spec hwf hknows h
  | skip reason => exact skip_spec hwf hknows h
  | fail reason => exact fail_spec hwf hknows h

end Steps

/-- A linkage follows on the insert of a task. -/
theorem goesOn_link {now : Int} {runId : UUID} {st st' : Store} {d : Dispatch} {a : DispatchStep}
    {taskId : UUID}
    (h : dispatchAutopilotRun now runId st d a = some (st', .goesOn (.link taskId))) :
    d = .createTask := by
  cases d with
  | createTask => rfl
  | _ => cases a <;> simp [dispatchAutopilotRun] at h

/-! ## The runs of afterwards -/

/-- The write that a step does. -/
def Dispatch.write? : Dispatch → DispatchStep → Option RunWrite
  | .createIssue, .insertIssue issueId => some (.issueCreated issueId)
  | .link taskId, .write => some (.running taskId)
  | .skip reason, .write => some (.skipped reason)
  | .fail reason, .write => some (.failed reason)
  | _, _ => none

theorem dispatch_runs {now : Int} {runId : UUID} {st st' : Store} {d : Dispatch} {a : DispatchStep}
    {res : DispatchResult} (h : dispatchAutopilotRun now runId st d a = some (st', res)) :
    st'.runs = match d.write? a with
      | some w => (st.exec (w.stmt runId now)).runs
      | none => st.runs := by
  cases d <;> cases a <;>
    simp only [dispatchAutopilotRun, Option.ite_none_right_eq_some, Option.some.injEq,
      Prod.mk.injEq, reduceCtorEq] at h
  -- a guarded insert, or one outcome
  all_goals
    first
    | rcases h with ⟨-, rfl, -⟩
      rfl
    | rcases h with ⟨rfl, -⟩
      rfl

theorem Dispatch.write?_ne_recover {d : Dispatch} {a : DispatchStep} {w : RunWrite}
    (h : d.write? a = some w) : w ≠ .recover := by
  rintro rfl
  cases d <;> cases a <;> simp [Dispatch.write?] at h

/-- They are the runs of before. -/
theorem dispatch_rows {now : Int} {runId : UUID} {st st' : Store} {d : Dispatch} {a : DispatchStep}
    {res : DispatchResult} (h : dispatchAutopilotRun now runId st d a = some (st', res)) {r' : Run}
    (hr' : r' ∈ st'.runs.rows) :
    ∃ r ∈ st.runs.rows, r.Kin r' ∧
      (r'.status = r.status ∨ ∃ w, d.write? a = some w ∧ r'.status = w.status) := by
  have hruns := dispatch_runs h
  cases hw : d.write? a with
  | none =>
    rw [hw] at hruns
    rw [hruns] at hr'
    exact ⟨r', hr', .refl r', .inl rfl⟩
  | some w =>
    rw [hw] at hruns
    rw [hruns] at hr'
    rcases Store.of_mem_exec hr' with ⟨hr, -⟩ | ⟨r, hr, -, rfl⟩
    · exact ⟨r', hr, .refl r', .inl rfl⟩
    · exact ⟨r, hr, RunWrite.set_kin (Dispatch.write?_ne_recover hw) now r,
        .inr ⟨w, rfl, w.set_status now r⟩⟩

/-- The step starts no run but its own. -/
theorem dispatch_started {now : Int} {runId : UUID} {st st' : Store} {d : Dispatch}
    {a : DispatchStep} {res : DispatchResult}
    (h : dispatchAutopilotRun now runId st d a = some (st', res)) {id : UUID}
    (hstarted : st'.started id = true) : st.started id = true ∨ id = runId := by
  cases d <;> cases a <;>
    simp only [dispatchAutopilotRun, Option.ite_none_right_eq_some, Option.some.injEq,
      Prod.mk.injEq, reduceCtorEq] at h
  case createIssue.insertIssue issueId =>
    rcases h with ⟨-, rfl, -⟩
    rcases Store.started_createIssue.1 hstarted with hstarted | hrun
    · exact .inl hstarted
    · exact .inr hrun.symm
  case enqueue.insertTask issueId taskId =>
    rcases h with ⟨-, rfl, -⟩
    rcases Store.started_insertTask.1 hstarted with hstarted | hrun
    · exact .inl hstarted
    · simp at hrun
  case createTask.insertTask taskId =>
    rcases h with ⟨-, rfl, -⟩
    rcases Store.started_insertTask.1 hstarted with hstarted | hrun
    · exact .inl hstarted
    · exact .inr (Option.some.inj hrun).symm
  -- the other steps insert nothing
  all_goals
    rcases h with ⟨rfl, -⟩
    exact .inl hstarted

/-! ## Steps of others -/

theorem Dispatch.Knows.env {st st' : Store} (h : st.Env st') {runId : UUID} {d : Dispatch}
    (hknows : d.Knows st runId) : d.Knows st' runId := by
  cases d with
  | createIssue => exact ⟨h.bare hknows.1, h.status (P := fun x => x = .issueCreated) hknows.1 hknows.2⟩
  -- a listener may have ended the run, but its issue stays
  | enqueue issueId =>
    rcases hknows with ⟨r, hr, hid, hns, hissue⟩
    rcases h.notSkipped hr hns with ⟨r', hr', hlater, hns'⟩
    exact ⟨r', hr', hlater.same.id.trans hid, hns', hlater.issueId _ hissue⟩
  | createTask => exact ⟨h.bare hknows.1, h.status (P := fun x => x = .running) hknows.1 hknows.2⟩
  | link taskId =>
    rcases hknows with ⟨hissues, ⟨r, hr, hid, hns⟩, t, ht, htask⟩
    rcases h.notSkipped hr hns with ⟨r', hr', hlater, hns'⟩
    exact ⟨h.noIssue hissues, ⟨r', hr', hlater.same.id.trans hid, hns'⟩, t, h.ext.tasks t ht, htask⟩
  | skip reason =>
    exact ⟨h.bare hknows.1, h.status (P := fun x => x.ended = false) hknows.1 hknows.2⟩
  | fail reason =>
    rcases hknows with ⟨r, hr, hid, hns⟩
    rcases h.notSkipped hr hns with ⟨r', hr', hlater, hns'⟩
    exact ⟨r', hr', hlater.same.id.trans hid, hns'⟩

end Orynx.Autopilot
