import Orynx.Autopilot.Dispatch
import Orynx.Autopilot.Webhook
import Orynx.Lib.Exclusive
import Orynx.Lib.Machine

/-! # The effect of a webhook delivery

One delivery of an autopilot with a fixed execution mode. The ingress admits it, and any number
of workers claim it whenever its lease has run out, admit it or take its run over, repair what
an earlier attempt has left, dispatch, and complete it; each of these is a statement or a
transaction of its own, and a worker may die in between. Listeners end runs, and issues are
moved and get other tasks meanwhile.

* `ExactlyOnce`: the delivery's run has one issue and one task at most, none of them if it is
  skipped, and a dispatched delivery has got its run somewhere;
* `oneAtATime`: a worker enters the dispatch when no other is inside;
* `exactly_once_effect`: then it is so in every run;
* `outlived_lease_doubles_task`: two workers that resume the same run break it.
-/

namespace Orynx.Autopilot.Effect

open Lib

/-! ## The machine -/

/-- Where a worker is. The stages of a repair carry the status that the delivery gets, which
the run as it was read decides. -/
inductive Stage where
  | claimed
  | recordSkip (runId : UUID) (reason : String)
  | listTasks (status : DeliveryStatus) (runId issueId : UUID)
  | loadIssue (status : DeliveryStatus) (runId issueId : UUID)
  | repairTask (status : DeliveryStatus) (runId issueId : UUID)
  | lookupTask (runId : UUID)
  | repairLink (runId taskId : UUID)
  | dispatch (runId : UUID) (d : Dispatch)
  | complete (status : DeliveryStatus) (runId : UUID)
  | done
deriving DecidableEq, Repr

/-- Inside `DispatchAutopilotForWebhookDelivery`. -/
def Stage.inside : Stage → Bool
  | .claimed | .complete _ _ | .done => false
  | _ => true

/-- A worker with the row and the token of its claim. -/
structure Worker where
  claim : Delivery
  token : UUID
  stage : Stage
deriving DecidableEq, Repr

/-- `recordings` are the skipped runs whose reason the ingress has still to write. -/
structure State where
  now : Int
  delivery : Delivery
  store : Store
  workers : List Worker
  recordings : List (UUID × String)

/-- A database step inside: a read, or one that writes or fails. -/
inductive Step where
  | read
  | run (a : DispatchStep)

inductive Act where
  | tick (t : Int)
  | acknowledge (runId : UUID) (skip : Option String)
  | recordSkip (runId : UUID) (reason : String)
  | claim (token : UUID)
  | defer (j : Nat) (availableAt : Int)
  | retryOrFail (j : Nat) (availableAt : Int) (cause : String)
  | giveUp (j : Nat) (status : DeliveryStatus) (reason : String)
  | enter (j : Nat) (runId : UUID) (skip : Option String)
  | step (j : Nat) (a : Step)
  | complete (j : Nat) (error : Option String)
  | crash (j : Nat)
  | syncRun (runId : UUID) (o : RunOutcome)
  | issueTask (taskId issueId : UUID)
  | moveIssue (issueId : UUID) (status : IssueStatus)

/-- The status of a delivery whose run was there already. -/
def outcome (r : Run) : DeliveryStatus := if r.status = .failed then .failed else .dispatched

/-- What `DispatchAutopilotForWebhookDelivery` does with the admitted run. -/
def resume (mode : ExecutionMode) (r : Run) : Stage :=
  if isAutopilotRunComplete r then
    match mode, r.issueId with
    | .createIssue, some issueId => .listTasks (outcome r) r.id issueId
    | _, _ => .complete (outcome r) r.id
  else if mode = .runOnly ∧ r.taskId = none then .lookupTask r.id
  else .dispatch r.id mode.dispatch

/-- The row that an admission writes. -/
def admittedRun (mode : ExecutionMode) (triggerId runId : UUID) (skip : Option String) : Run :=
  { id := runId, triggerId := triggerId
    status := if skip.isSome then .skipped else mode.initialStatus }

/-- The reason of a skipped run is written after its row. -/
def admittedStage (mode : ExecutionMode) (before : RunTable) (deliveryId : UUID)
    (skip : Option String) (r : Run) : Stage :=
  match getAutopilotRunByWebhookDelivery before deliveryId, skip with
  | none, some reason => .recordSkip r.id reason
  | _, _ => resume mode r

/-- What follows when `dispatchAutopilotRun` returns. -/
def dispatched (runId : UUID) : DispatchResult → Stage
  | .goesOn d => .dispatch runId d
  | .returns true => .complete .dispatched runId
  | .returns false => .complete .failed runId

def advance (now : Int) (st : Store) : Stage → Step → Option (Store × Stage)
  | .recordSkip runId reason, .run .write =>
    some (st.exec (updateAutopilotRunSkipped runId now reason), .complete .dispatched runId)
  -- a reason that cannot be written is only logged
  | .recordSkip runId _, .run (.error _) => some (st, .complete .dispatched runId)
  | .listTasks status runId issueId, .read =>
    if (listTasksByIssue st issueId).isEmpty then some (st, .loadIssue status runId issueId)
    else some (st, .complete status runId)
  | .loadIssue status runId issueId, .read =>
    (getIssue st issueId).map fun i =>
      if i.status.needsTask then (st, .repairTask status runId issueId)
      else (st, .complete status runId)
  | .repairTask status runId issueId, .run (.insertTask taskId) =>
    if st.freshTask taskId then
      some (st.insertTask { id := taskId, issueId := some issueId }, .complete status runId)
    else none
  | .lookupTask runId, .read =>
    match getAutopilotTaskByRun st runId with
    | some t => some (st, .repairLink runId t.id)
    | none => some (st, .dispatch runId .createTask)
  | .repairLink runId taskId, .run .write =>
    some (st.exec (updateAutopilotRunRunning runId now taskId), .complete .dispatched runId)
  | .listTasks _ runId _, .run (.error _) | .loadIssue _ runId _, .run (.error _)
  | .repairTask _ runId _, .run (.error _) | .lookupTask runId, .run (.error _)
  | .repairLink runId _, .run (.error _) => some (st, .complete .failed runId)
  | .dispatch runId d, .run a =>
    (dispatchAutopilotRun now runId st d a).map fun (st', res) => (st', dispatched runId res)
  | _, _ => none

def State.setStage (s : State) (j : Nat) (w : Worker) (stage : Stage) : State :=
  { s with workers := s.workers.set j { w with stage := stage } }

def State.exec (s : State) (u : Update Delivery) : State :=
  { s with delivery := u.apply s.delivery }

def moved (issueId : UUID) (status : IssueStatus) (i : Issue) : Issue :=
  if i.id = issueId then { i with status := status } else i

/-- Somebody gives the issue another status. -/
def moveIssue (st : Store) (issueId : UUID) (status : IssueStatus) : Store :=
  { st with issues := st.issues.map (moved issueId status) }

def next (mode : ExecutionMode) (s : State) : Act → Option State
  | .tick t => if s.now ≤ t then some { s with now := t } else none
  | .acknowledge runId skip =>
    (admitAutopilotWebhookDelivery s.store.runs
      (admittedRun mode s.delivery.triggerId runId skip) s.delivery.id).map fun (runs, _) =>
        { s with
          store := { s.store with runs := runs }
          recordings :=
            match getAutopilotRunByWebhookDelivery s.store.runs s.delivery.id, skip with
            | none, some reason => (runId, reason) :: s.recordings
            | _, _ => s.recordings }
  | .recordSkip runId reason =>
    if (runId, reason) ∈ s.recordings then
      some { s with
        store := s.store.exec (updateAutopilotRunSkipped runId s.now reason)
        recordings := s.recordings.erase (runId, reason) }
    else none
  | .claim token =>
    let u := claimQueuedWebhookDelivery s.delivery.id token s.now
    if u.sel s.delivery then
      some { s.exec u with workers := s.workers ++ [⟨u.set s.delivery, token, .claimed⟩] }
    else none
  | .defer j availableAt =>
    match s.workers[j]? with
    | some ⟨d, token, .claimed⟩ =>
      some ((s.exec (deferClaimedWebhookDelivery d.id token availableAt)).setStage j
        ⟨d, token, .claimed⟩ .done)
    | _ => none
  | .retryOrFail j availableAt cause =>
    match s.workers[j]? with
    | some ⟨d, token, .claimed⟩ =>
      some ((s.exec (Autopilot.retryOrFail d token availableAt cause)).setStage j
        ⟨d, token, .claimed⟩ .done)
    | _ => none
  | .giveUp j status reason =>
    match s.workers[j]? with
    | some ⟨d, token, .claimed⟩ =>
      -- it is ignored when an earlier step has found no run for it
      if status = .failed ∨ status = .ignored then
        some ((s.exec (completeClaimedWebhookDelivery d.id token status none (some reason))).setStage
          j ⟨d, token, .claimed⟩ .done)
      else none
    | _ => none
  | .enter j runId skip =>
    match s.workers[j]? with
    | some ⟨d, token, .claimed⟩ =>
      (admitAutopilotWebhookDelivery s.store.runs
        (admittedRun mode s.delivery.triggerId runId skip) s.delivery.id).map fun (runs, r) =>
          State.setStage { s with store := { s.store with runs := runs } } j ⟨d, token, .claimed⟩
            (admittedStage mode s.store.runs s.delivery.id skip r)
    | _ => none
  | .step j a =>
    match s.workers[j]? with
    | some w =>
      (advance s.now s.store w.stage a).map fun (st, stage) =>
        State.setStage { s with store := st } j w stage
    | none => none
  | .complete j error =>
    match s.workers[j]? with
    | some ⟨d, token, .complete status runId⟩ =>
      some ((s.exec (completeClaimedWebhookDelivery d.id token status (some runId) error)).setStage
        j ⟨d, token, .complete status runId⟩ .done)
    | _ => none
  | .crash j => (s.workers[j]?).map fun w => s.setStage j w .done
  | .syncRun runId o => (s.store.sync runId s.now o).map fun st => { s with store := st }
  | .issueTask taskId issueId =>
    if s.store.freshTask taskId ∧ (getIssue s.store issueId).isSome then
      some { s with store := s.store.insertTask { id := taskId, issueId := some issueId } }
    else none
  | .moveIssue issueId status => some { s with store := moveIssue s.store issueId status }

def machine (mode : ExecutionMode) : Machine State Act where
  Init s := s.delivery.status = .queued ∧ s.store = Store.empty ∧ s.workers = [] ∧
    s.recordings = []
  next := next mode

/-! ## The property -/

/-- The run was skipped or has ended, or has its issue, with a task while it is in `todo` or
`in_progress`, or has its task. -/
def Settled (st : Store) (r : Run) : Prop :=
  r.status.ended = true ∨
    (∃ i ∈ st.issues, r.issueId = some i.id ∧
      (i.status.needsTask = true → ∃ t ∈ st.tasks, t.issueId = some i.id)) ∨
    ∃ t ∈ st.tasks, t.autopilotRunId = some r.id

structure ExactlyOnce (s : State) : Prop where
  oneRun : ∀ r ∈ s.store.runs.rows, ∀ r' ∈ s.store.runs.rows, r = r'
  oneIssue : ∀ r ∈ s.store.runs.rows, (s.store.issues.filter fun i => i.runId == r.id).length ≤ 1
  oneTask : ∀ r ∈ s.store.runs.rows,
    (s.store.tasks.filter fun t => t.autopilotRunId == some r.id).length ≤ 1
  skipped : ∀ r ∈ s.store.runs.rows, r.status = .skipped → s.store.started r.id = false
  dispatched : s.delivery.status = .dispatched → ∃ r ∈ s.store.runs.rows,
    r.webhookDeliveryId = some s.delivery.id ∧ s.delivery.autopilotRunId = some r.id ∧
      Settled s.store r

/-- A worker enters the dispatch when no other is inside, and no issue is moved into `todo` or
`in_progress` without a task. -/
def oneAtATime (s : State) : Act → Bool
  | .enter _ _ _ => s.workers.all fun w => !w.stage.inside
  | .moveIssue issueId status =>
    !status.needsTask || !(listTasksByIssue s.store issueId).isEmpty ||
      s.store.issues.all fun i => i.id != issueId || i.status.needsTask
  | _ => true

/-! ## What the stages know -/

def SettledRun (st : Store) (runId : UUID) : Prop :=
  ∃ r ∈ st.runs.rows, r.id = runId ∧ Settled st r

def Stage.Knows (mode : ExecutionMode) (st : Store) : Stage → Prop
  | .claimed | .done => True
  | .recordSkip runId _ => ∃ r ∈ st.runs.rows, r.id = runId ∧ r.status = .skipped
  | .listTasks _ runId issueId | .loadIssue _ runId issueId | .repairTask _ runId issueId =>
    ∃ r ∈ st.runs.rows, r.id = runId ∧ r.issueId = some issueId
  | .lookupTask runId =>
    mode = .runOnly ∧ st.issues = [] ∧ ∃ r ∈ st.runs.rows, r.id = runId ∧ r.status ≠ .skipped ∧
      (r.status = .running ∨ st.started runId = true)
  | .repairLink runId taskId => mode = .runOnly ∧ (Dispatch.link taskId).Knows st runId
  | .dispatch runId d => d.Knows st runId ∧ ∀ taskId, d = .link taskId → mode = .runOnly
  | .complete status runId => status = .dispatched → SettledRun st runId

/-- The store and the runs in it belong to the delivery and its mode. -/
structure Sound (mode : ExecutionMode) (deliveryId : UUID) (st : Store) : Prop where
  wf : st.Wf
  anchored : ∀ r ∈ st.runs.rows, r.webhookDeliveryId = some deliveryId
  modes : ∀ r ∈ st.runs.rows, r.status = mode.initialStatus ∨ r.status.ended = true

theorem Sound.oneRun {mode : ExecutionMode} {deliveryId : UUID} {st : Store}
    (h : Sound mode deliveryId st) {r r' : Run} (hr : r ∈ st.runs.rows) (hr' : r' ∈ st.runs.rows) :
    r = r' := by
  have hkey : ∀ x ∈ st.runs.rows, runSchema.index x = some (.delivery deliveryId) := by
    intro x hx
    simp [Run.key?, h.anchored x hx]
  exact st.runs.eq_of_index hr hr' (hkey r hr) (hkey r' hr')

/-- A step that keeps the runs, and gives them their mode's status or ends them. -/
theorem Sound.of_rows {mode : ExecutionMode} {deliveryId : UUID} {st st' : Store}
    (h : Sound mode deliveryId st) (hwf : st'.Wf)
    (hrows : ∀ r' ∈ st'.runs.rows, ∃ r ∈ st.runs.rows, r.Kin r' ∧
      (r'.status = r.status ∨ r'.status = mode.initialStatus ∨ r'.status.ended = true)) :
    Sound mode deliveryId st' := by
  refine ⟨hwf, fun r' hr' => ?_, fun r' hr' => ?_⟩
  · rcases hrows r' hr' with ⟨r, hr, hkin, -⟩
    rw [hkin.delivery, h.anchored r hr]
  · rcases hrows r' hr' with ⟨r, hr, -, hsame | hmode | hended⟩
    · rw [hsame]
      exact h.modes r hr
    · exact .inl hmode
    · exact .inr hended

theorem settled_extends {st st' : Store} (h : st.Extends st') {runId : UUID}
    (hsettled : SettledRun st runId) : SettledRun st' runId := by
  rcases hsettled with ⟨r, hr, hid, hsettled⟩
  -- the row may have been written since: each way of being settled is carried over
  rcases h.runs r hr with ⟨r', hr', hlater⟩
  have htask : (∃ t ∈ st'.tasks, t.autopilotRunId = some r.id) → Settled st' r' := by
    rintro ⟨t, ht, hrun⟩
    exact .inr (.inr ⟨t, ht, hrun.trans (by rw [hlater.same.id])⟩)
  refine ⟨r', hr', hlater.same.id.trans hid, ?_⟩
  rcases hsettled with hended | ⟨i, hi, hri, hneeds⟩ | ⟨t, ht, hrun⟩
  · rcases hlater.ended hended with hended | htask'
    · exact .inl hended
    · exact htask htask'
  · rcases h.issues i hi with ⟨i', hi', hissue⟩
    refine .inr (.inl ⟨i', hi', by rw [hissue.id]; exact hlater.issueId _ hri, fun hactive => ?_⟩)
    rw [hissue.id]
    -- it has got its task before it could be moved there
    rcases hissue.needsTask hactive with hactive | htask'
    · rcases hneeds hactive with ⟨t, ht, hti⟩
      exact ⟨t, h.tasks t ht, hti⟩
    · exact htask'
  · exact htask ⟨t, h.tasks t ht, hrun⟩

theorem served_settled {st : Store} {runId : UUID} (h : st.Served runId) : SettledRun st runId := by
  rcases h with ⟨r, hr, hid, hskipped | ⟨i, hi, hri, htask⟩ | htask⟩
  · exact ⟨r, hr, hid, .inl (by rw [hskipped]; rfl)⟩
  · exact ⟨r, hr, hid, .inr (.inl ⟨i, hi, hri, fun _ => htask⟩)⟩
  · exact ⟨r, hr, hid, .inr (.inr htask)⟩

/-- A worker that is not inside relies on nothing that a worker inside may change. -/
theorem Stage.Knows.of_extends {mode : ExecutionMode} {st st' : Store} (h : st.Extends st')
    {stage : Stage} (hout : stage.inside = false) (hknows : stage.Knows mode st) :
    stage.Knows mode st' := by
  cases stage with
  | claimed => trivial
  | done => trivial
  | complete status runId => exact fun hstatus => settled_extends h (hknows hstatus)
  | _ => simp [Stage.inside] at hout

/-- No worker relies on what listeners and other requests may change. -/
theorem Stage.Knows.env {mode : ExecutionMode} {st st' : Store} (h : st.Env st') {stage : Stage}
    (hknows : stage.Knows mode st) : stage.Knows mode st' := by
  have hlinked : ∀ {runId issueId : UUID},
      (∃ r ∈ st.runs.rows, r.id = runId ∧ r.issueId = some issueId) →
        ∃ r ∈ st'.runs.rows, r.id = runId ∧ r.issueId = some issueId := by
    rintro runId issueId ⟨r, hr, hid, hissue⟩
    rcases h.ext.runs r hr with ⟨r', hr', hlater⟩
    exact ⟨r', hr', hlater.same.id.trans hid, hlater.issueId _ hissue⟩
  cases stage with
  | claimed => trivial
  | done => trivial
  | recordSkip runId reason => exact skipped_extends h.ext hknows
  | listTasks status runId issueId => exact hlinked hknows
  | loadIssue status runId issueId => exact hlinked hknows
  | repairTask status runId issueId => exact hlinked hknows
  -- a listener may end the run, but then its task is already there
  | lookupTask runId =>
    rcases hknows with ⟨hmode, hissues, r, hr, hid, hns, hstatus⟩
    rcases h.runs r hr with ⟨r', hr', hlater, hsame⟩
    refine ⟨hmode, h.noIssue hissues, r', hr', hlater.same.id.trans hid, ?_, ?_⟩
    · rcases hsame with hsame | ⟨hns', -⟩
      · rwa [hsame]
      · exact hns'
    · rcases hstatus with hrunning | hstarted
      · rcases hsame with hsame | ⟨-, hstarted⟩
        · exact .inl (hsame.trans hrunning)
        · rw [hid] at hstarted
          exact .inr (started_extends h.ext hstarted)
      · exact .inr (started_extends h.ext hstarted)
  | repairLink runId taskId => exact ⟨hknows.1, hknows.2.env h⟩
  | dispatch runId d => exact ⟨hknows.1.env h, hknows.2⟩
  | complete status runId => exact fun hstatus => settled_extends h.ext (hknows hstatus)

/-! ## The steps of the dispatch -/

/-- A partial run of a mode has neither an issue nor, in `create_issue`, a task. -/
theorem no_issue_of_incomplete {mode : ExecutionMode} {deliveryId : UUID} {st : Store}
    (h : Sound mode deliveryId st) {r : Run} (hr : r ∈ st.runs.rows)
    (hincomplete : isAutopilotRunComplete r = false) :
    r.status = mode.initialStatus ∧ st.issues = [] := by
  have hopen := not_ended_of_incomplete hincomplete
  have hstatus : r.status = mode.initialStatus := by
    rcases h.modes r hr with hmode | hended
    · exact hmode
    · rw [hopen] at hended
      simp at hended
  -- an issue belongs to a run, and this is the only one
  refine ⟨hstatus, List.eq_nil_iff_forall_not_mem.2 fun i hi => ?_⟩
  rcases h.wf.issues i hi with ⟨x, hx, hxi⟩
  rw [h.oneRun hx hr] at hxi
  have hissue := (h.wf.runs r hr).created i hi hxi.symm
  -- a run with an issue is complete
  rcases ((h.wf.runs r hr).issueId i.id hissue).1 with hcreated | hended
  · simp [isAutopilotRunComplete, hcreated, hissue] at hincomplete
  · rw [hopen] at hended
    simp at hended

/-- A complete run without an issue to repair has ended, or has its task. -/
theorem settled_of_complete {mode : ExecutionMode} {deliveryId : UUID} {st : Store}
    (h : Sound mode deliveryId st) {r : Run} (hr : r ∈ st.runs.rows)
    (hcomplete : isAutopilotRunComplete r = true) (hno : mode = .runOnly ∨ r.issueId = none) :
    outcome r = .dispatched → SettledRun st r.id := by
  intro houtcome
  have hfits := h.wf.runs r hr
  refine ⟨r, hr, rfl, ?_⟩
  cases hstatus : r.status with
  | pending => simp [isAutopilotRunComplete, hstatus] at hcomplete
  | issueCreated =>
    simp only [isAutopilotRunComplete, hstatus] at hcomplete
    rcases hno with rfl | hnone
    · rcases h.modes r hr with hmode | hended
      · simp [hstatus, ExecutionMode.initialStatus] at hmode
      · simp [hstatus, RunStatus.ended] at hended
    · simp [hnone] at hcomplete
  | running =>
    simp only [isAutopilotRunComplete, hstatus] at hcomplete
    rcases Option.isSome_iff_exists.1 hcomplete with ⟨x, hx⟩
    rcases (hfits.taskId x hx).2 with ⟨t, ht, -, hrun⟩
    exact .inr (.inr ⟨t, ht, hrun⟩)
  | skipped => exact .inl (by rw [hstatus]; rfl)
  | completed => exact .inl (by rw [hstatus]; rfl)
  | failed => simp [outcome, hstatus] at houtcome

theorem resume_knows {mode : ExecutionMode} {deliveryId : UUID} {st : Store}
    (h : Sound mode deliveryId st) {r : Run} (hr : r ∈ st.runs.rows) :
    (resume mode r).Knows mode st := by
  unfold resume
  cases hcomplete : isAutopilotRunComplete r with
  | true =>
    have hsettled := settled_of_complete h hr hcomplete
    cases mode with
    | createIssue =>
      cases hissue : r.issueId with
      | some issueId => exact ⟨r, hr, rfl, hissue⟩
      | none => exact hsettled (.inr hissue)
    | runOnly => exact hsettled (.inl rfl)
  | false =>
    rcases no_issue_of_incomplete h hr hcomplete with ⟨hstatus, hissues⟩
    cases mode with
    | createIssue =>
      -- a task of the run would have come with a status that the run does not have
      have hbare : st.Bare := by
        refine ⟨hissues, fun t ht => ?_⟩
        by_contra hsome
        rcases Option.ne_none_iff_exists'.1 hsome with ⟨id, hid⟩
        rcases h.wf.tasks t ht id hid with ⟨x, hx, hxid⟩
        rw [h.oneRun hx hr] at hxid
        have hqueued := (h.wf.runs r hr).queued t ht (hid.trans (by rw [hxid]))
        simp [hstatus, ExecutionMode.initialStatus, RunStatus.ended] at hqueued
      exact ⟨⟨hbare, r, hr, rfl, hstatus⟩, fun taskId heq => by simp [ExecutionMode.dispatch] at heq⟩
    | runOnly =>
      have htask : r.taskId = none := by
        simpa [isAutopilotRunComplete, hstatus, ExecutionMode.initialStatus] using hcomplete
      simp only [htask, and_self, if_true]
      exact ⟨rfl, hissues, r, hr, rfl, by rw [hstatus]; simp [ExecutionMode.initialStatus],
        .inl hstatus⟩

/-- A step inside keeps the store sound, and gives what is known at the next stage. -/
structure Steps (mode : ExecutionMode) (deliveryId : UUID) (st st' : Store) (stage : Stage) :
    Prop where
  sound : Sound mode deliveryId st'
  knows : stage.Knows mode st'
  ext : st.Extends st'

theorem dispatched_knows {mode : ExecutionMode} {st : Store} {runId : UUID} {res : DispatchResult}
    (hknows : res.Knows st runId) (hlink : ∀ taskId, res = .goesOn (.link taskId) → mode = .runOnly) :
    (dispatched runId res).Knows mode st := by
  cases res with
  | goesOn d => exact ⟨hknows, fun taskId hd => hlink taskId (by rw [hd])⟩
  | returns ok =>
    cases ok with
    | true => exact fun _ => served_settled (hknows rfl)
    | false => simp [dispatched, Stage.Knows]

/-- The steps of `dispatchAutopilotRun` itself. -/
theorem step_dispatch {mode : ExecutionMode} {deliveryId : UUID} {st st' : Store} {now : Int}
    {runId : UUID} {d : Dispatch} {a : DispatchStep} {res : DispatchResult}
    (h : Sound mode deliveryId st) (hknows : (Stage.dispatch runId d).Knows mode st)
    (hstep : dispatchAutopilotRun now runId st d a = some (st', res)) :
    Steps mode deliveryId st st' (dispatched runId res) := by
  rcases hknows with ⟨hknows, hlink⟩
  have hspec := dispatch_spec h.wf hknows hstep
  -- the mode whose step this is
  have hcreated : d = .createIssue → mode.initialStatus = .issueCreated := by
    rintro rfl
    rcases hknows with ⟨-, r, hr, -, hstatus⟩
    rcases h.modes r hr with hmode | hended
    · rw [← hmode, hstatus]
    · simp [hstatus, RunStatus.ended] at hended
  have hrunOnly : d = .createTask → mode = .runOnly := by
    rintro rfl
    rcases hknows with ⟨-, r, hr, -, hstatus⟩
    rcases h.modes r hr with hmode | hended
    · cases mode with
      | createIssue => simp [hstatus, ExecutionMode.initialStatus] at hmode
      | runOnly => rfl
    · simp [hstatus, RunStatus.ended] at hended
  -- each write gives a status of its own mode or an ending
  refine ⟨h.of_rows hspec.wf fun r' hr' => ?_, ?_, hspec.ext⟩
  · rcases dispatch_rows hstep hr' with ⟨r, hr, hkin, hsame | ⟨w, hw, hstatus⟩⟩
    · exact ⟨r, hr, hkin, .inl hsame⟩
    · refine ⟨r, hr, hkin, .inr ?_⟩
      rw [hstatus]
      cases d with
      | createIssue =>
        cases a <;> simp only [Dispatch.write?, Option.some.injEq, reduceCtorEq] at hw
        rw [hcreated rfl, ← hw]
        exact .inl rfl
      | link taskId =>
        cases a <;> simp only [Dispatch.write?, Option.some.injEq, reduceCtorEq] at hw
        rw [hlink taskId rfl, ← hw]
        exact .inl rfl
      | skip reason =>
        cases a <;> simp only [Dispatch.write?, Option.some.injEq, reduceCtorEq] at hw
        rw [← hw]
        exact .inr rfl
      | fail reason =>
        cases a <;> simp only [Dispatch.write?, Option.some.injEq, reduceCtorEq] at hw
        rw [← hw]
        exact .inr rfl
      | enqueue issueId => cases a <;> simp [Dispatch.write?] at hw
      | createTask => cases a <;> simp [Dispatch.write?] at hw
  · refine dispatched_knows hspec.knows ?_
    rintro taskId rfl
    exact hrunOnly (goesOn_link hstep)

/-- The repair of an issue's task. -/
theorem step_repair {mode : ExecutionMode} {deliveryId : UUID} {st : Store} {status : DeliveryStatus}
    {runId issueId taskId : UUID} (h : Sound mode deliveryId st)
    (hknows : ∃ r ∈ st.runs.rows, r.id = runId ∧ r.issueId = some issueId) :
    Steps mode deliveryId st (st.insertTask { id := taskId, issueId := some issueId })
      (.complete status runId) := by
  refine ⟨⟨h.wf.issueTask taskId issueId, h.anchored, h.modes⟩, fun _ => ?_,
    st.extends_insertTask _⟩
  rcases hknows with ⟨r, hr, hid, hissue⟩
  rcases ((h.wf.runs r hr).issueId issueId hissue).2 with ⟨i, hi, hii, -⟩
  exact ⟨r, hr, hid, .inr (.inl ⟨i, hi, by rw [hissue, hii], fun _ =>
    ⟨_, List.mem_append_right _ List.mem_cons_self, by rw [hii]⟩⟩)⟩

/-- The linkage of a task that an earlier attempt has inserted. -/
theorem step_repairLink {mode : ExecutionMode} {deliveryId : UUID} {st : Store} {now : Int}
    {runId taskId : UUID} (h : Sound mode deliveryId st)
    (hknows : (Stage.repairLink runId taskId).Knows mode st) :
    Steps mode deliveryId st (st.exec (updateAutopilotRunRunning runId now taskId))
      (.complete .dispatched runId) := by
  rcases hknows with ⟨rfl, hknows⟩
  have hext := hknows.link_extends now
  refine ⟨h.of_rows (h.wf.link hknows.1 now hknows.2.2) fun r' hr' => ?_,
    fun _ => settled_extends hext (served_settled hknows.served), hext⟩
  rcases Store.of_mem_exec hr' with ⟨hr, -⟩ | ⟨r, hr, -, rfl⟩
  · exact ⟨r', hr, .refl r', .inl rfl⟩
  · exact ⟨r, hr, RunWrite.set_kin (by simp) now r, .inr (.inl rfl)⟩

/-- The reason of a skipped run is written. -/
theorem env_recordSkip {mode : ExecutionMode} {deliveryId : UUID} {st : Store} (now : Int)
    {runId : UUID} (reason : String) (h : Sound mode deliveryId st)
    (hskipped : ∃ r ∈ st.runs.rows, r.id = runId ∧ r.status = .skipped) :
    Sound mode deliveryId (st.exec (updateAutopilotRunSkipped runId now reason)) ∧
      st.Env (st.exec (updateAutopilotRunSkipped runId now reason)) := by
  rcases recordSkip_spec h.wf now reason hskipped with ⟨hwf, henv⟩
  refine ⟨h.of_rows hwf fun r' hr' => ?_, henv⟩
  rcases Store.of_mem_exec hr' with ⟨hr, -⟩ | ⟨r, hr, -, rfl⟩
  · exact ⟨r', hr, .refl r', .inl rfl⟩
  · exact ⟨r, hr, RunWrite.set_kin (by simp) now r, .inr (.inr rfl)⟩

/-- A read, or an error that ends the dispatch. -/
theorem step_same {mode : ExecutionMode} {deliveryId : UUID} {st : Store} {stage : Stage}
    (h : Sound mode deliveryId st) (hknows : stage.Knows mode st) :
    Steps mode deliveryId st st stage :=
  ⟨h, hknows, .refl st⟩

theorem step_failed {mode : ExecutionMode} {deliveryId : UUID} {st : Store} (runId : UUID)
    (h : Sound mode deliveryId st) : Steps mode deliveryId st st (.complete .failed runId) :=
  step_same h (by simp [Stage.Knows])

theorem step_listTasks {mode : ExecutionMode} {deliveryId : UUID} {st : Store}
    {status : DeliveryStatus} {runId issueId : UUID} (h : Sound mode deliveryId st)
    (hknows : ∃ r ∈ st.runs.rows, r.id = runId ∧ r.issueId = some issueId)
    (htasks : (listTasksByIssue st issueId).isEmpty = false) :
    Steps mode deliveryId st st (.complete status runId) := by
  refine step_same h fun _ => ?_
  rcases hknows with ⟨r, hr, hid, hissue⟩
  rcases ((h.wf.runs r hr).issueId issueId hissue).2 with ⟨i, hi, hii, -⟩
  rcases List.exists_mem_of_ne_nil _ (List.isEmpty_eq_false_iff.1 htasks) with ⟨t, ht⟩
  simp only [listTasksByIssue, List.mem_filter, beq_iff_eq] at ht
  exact ⟨r, hr, hid, .inr (.inl ⟨i, hi, by rw [hissue, hii], fun _ => ⟨t, ht.1, by rw [hii, ht.2]⟩⟩)⟩

theorem step_loadIssue {mode : ExecutionMode} {deliveryId : UUID} {st : Store}
    {status : DeliveryStatus} {runId issueId : UUID} {i : Issue} (h : Sound mode deliveryId st)
    (hknows : ∃ r ∈ st.runs.rows, r.id = runId ∧ r.issueId = some issueId)
    (hget : getIssue st issueId = some i) (hneeds : i.status.needsTask = false) :
    Steps mode deliveryId st st (.complete status runId) := by
  refine step_same h fun _ => ?_
  rcases hknows with ⟨r, hr, hid, hissue⟩
  have hii : i.id = issueId := by simpa using List.find?_some hget
  exact ⟨r, hr, hid, .inr (.inl ⟨i, List.mem_of_find?_eq_some hget, by rw [hissue, hii],
    by simp [hneeds]⟩)⟩

/-- The task of a run-only run is looked for. -/
theorem step_lookupTask {mode : ExecutionMode} {deliveryId : UUID} {st st' : Store} {now : Int}
    {runId : UUID} {stage : Stage} (h : Sound mode deliveryId st)
    (hknows : (Stage.lookupTask runId).Knows mode st)
    (hstep : advance now st (.lookupTask runId) .read = some (st', stage)) :
    Steps mode deliveryId st st' stage := by
  rcases hknows with ⟨hmode, hissues, r, hr, hid, hns, hstatus⟩
  cases hget : getAutopilotTaskByRun st runId with
  | some t =>
    simp only [advance, hget, Option.some.injEq, Prod.mk.injEq] at hstep
    rcases hstep with ⟨rfl, rfl⟩
    have hrun : t.autopilotRunId = some runId := by simpa using List.find?_some hget
    exact step_same h ⟨hmode, hissues, ⟨r, hr, hid, hns⟩, t, List.mem_of_find?_eq_some hget, rfl,
      hrun⟩
  | none =>
    simp only [advance, hget, Option.some.injEq, Prod.mk.injEq] at hstep
    rcases hstep with ⟨rfl, rfl⟩
    -- every task with a run has this one
    have hbare : st.Bare := by
      refine ⟨hissues, fun t ht => ?_⟩
      by_contra hsome
      rcases Option.ne_none_iff_exists'.1 hsome with ⟨id, htid⟩
      rcases h.wf.tasks t ht id htid with ⟨x, hx, hxid⟩
      rw [h.oneRun hx hr, hid] at hxid
      have hnot := List.find?_eq_none.1 hget t ht
      rw [htid, hxid] at hnot
      simp at hnot
    have hrunning : r.status = .running := by
      rcases hstatus with hrunning | hstarted
      · exact hrunning
      · rw [hbare.not_started] at hstarted
        simp at hstarted
    exact step_same h ⟨⟨hbare, r, hr, hid, hrunning⟩, fun taskId heq => by simp at heq⟩

theorem advance_spec {mode : ExecutionMode} {deliveryId : UUID} {st st' : Store} {now : Int}
    {stage stage' : Stage} {a : Step} (h : Sound mode deliveryId st)
    (hknows : stage.Knows mode st) (hstep : advance now st stage a = some (st', stage')) :
    stage.inside = true ∧ Steps mode deliveryId st st' stage' := by
  cases stage with
  | claimed => simp [advance] at hstep
  | complete status runId => simp [advance] at hstep
  | done => simp [advance] at hstep
  | recordSkip runId reason =>
    refine ⟨rfl, ?_⟩
    -- a skipped run is settled whether or not its reason is written
    have hended : SettledRun st runId := by
      rcases hknows with ⟨r, hr, hid, hskipped⟩
      exact ⟨r, hr, hid, .inl (by rw [hskipped]; rfl)⟩
    have hrecord := env_recordSkip now reason h hknows
    rcases a with _ | _ | _ | _ | _ | _ <;>
      simp only [advance, Option.some.injEq, Prod.mk.injEq, reduceCtorEq] at hstep
    · rcases hstep with ⟨rfl, rfl⟩
      exact ⟨hrecord.1, fun _ => settled_extends hrecord.2.ext hended, hrecord.2.ext⟩
    · rcases hstep with ⟨rfl, rfl⟩
      exact step_same h fun _ => hended
  | listTasks status runId issueId =>
    refine ⟨rfl, ?_⟩
    rcases a with _ | _ | _ | _ | _ | _ <;>
      simp only [advance, Option.some.injEq, Prod.mk.injEq, reduceCtorEq] at hstep
    · cases htasks : (listTasksByIssue st issueId).isEmpty with
      | true =>
        simp only [htasks, if_true, Option.some.injEq, Prod.mk.injEq] at hstep
        rcases hstep with ⟨rfl, rfl⟩
        exact step_same h hknows
      | false =>
        simp only [htasks, Bool.false_eq_true, if_false, Option.some.injEq, Prod.mk.injEq] at hstep
        rcases hstep with ⟨rfl, rfl⟩
        exact step_listTasks h hknows htasks
    · rcases hstep with ⟨rfl, rfl⟩
      exact step_failed runId h
  | loadIssue status runId issueId =>
    refine ⟨rfl, ?_⟩
    rcases a with _ | _ | _ | _ | _ | _ <;>
      simp only [advance, Option.map_eq_some_iff, Option.some.injEq, Prod.mk.injEq,
        reduceCtorEq] at hstep
    · rcases hstep with ⟨i, hget, heq⟩
      cases hneeds : i.status.needsTask with
      | true =>
        simp only [hneeds, if_true, Prod.mk.injEq] at heq
        rcases heq with ⟨rfl, rfl⟩
        exact step_same h hknows
      | false =>
        simp only [hneeds, Bool.false_eq_true, if_false, Prod.mk.injEq] at heq
        rcases heq with ⟨rfl, rfl⟩
        exact step_loadIssue h hknows hget hneeds
    · rcases hstep with ⟨rfl, rfl⟩
      exact step_failed runId h
  | repairTask status runId issueId =>
    refine ⟨rfl, ?_⟩
    rcases a with _ | _ | _ | _ | _ | _ <;>
      simp only [advance, Option.ite_none_right_eq_some, Option.some.injEq, Prod.mk.injEq,
        reduceCtorEq] at hstep
    · rcases hstep with ⟨-, rfl, rfl⟩
      exact step_repair h hknows
    · rcases hstep with ⟨rfl, rfl⟩
      exact step_failed runId h
  | lookupTask runId =>
    refine ⟨rfl, ?_⟩
    rcases a with _ | _ | _ | _ | _ | _
    case read => exact step_lookupTask h hknows hstep
    all_goals simp only [advance, Option.some.injEq, Prod.mk.injEq, reduceCtorEq] at hstep
    rcases hstep with ⟨rfl, rfl⟩
    exact step_failed runId h
  | repairLink runId taskId =>
    refine ⟨rfl, ?_⟩
    rcases a with _ | _ | _ | _ | _ | _ <;>
      simp only [advance, Option.some.injEq, Prod.mk.injEq, reduceCtorEq] at hstep
    · rcases hstep with ⟨rfl, rfl⟩
      exact step_repairLink h hknows
    · rcases hstep with ⟨rfl, rfl⟩
      exact step_failed runId h
  | dispatch runId d =>
    refine ⟨rfl, ?_⟩
    cases a with
    | read => simp [advance] at hstep
    | run a =>
      simp only [advance, Option.map_eq_some_iff, Prod.mk.injEq] at hstep
      rcases hstep with ⟨⟨x, res⟩, hrun, rfl, rfl⟩
      exact step_dispatch h hknows hrun

/-! ## Admission -/

/-- An admission finds the run, or stores it. -/
theorem admission_spec {mode : ExecutionMode} {deliveryId triggerId runId : UUID} {st : Store}
    {skip : Option String} {runs : RunTable} {r : Run} (h : Sound mode deliveryId st)
    (hadmitted : admitAutopilotWebhookDelivery st.runs (admittedRun mode triggerId runId skip)
      deliveryId = some (runs, r)) :
    Sound mode deliveryId { st with runs := runs } ∧ st.Env { st with runs := runs } ∧
      (admittedStage mode st.runs deliveryId skip r).Knows mode { st with runs := runs } ∧
      r ∈ runs.rows ∧
      (getAutopilotRunByWebhookDelivery st.runs deliveryId = none →
        r.id = runId ∧ (skip.isSome = true → r.status = .skipped)) := by
  cases hget : getAutopilotRunByWebhookDelivery st.runs deliveryId with
  -- the delivery was admitted before: its run is taken over as it stands
  | some existing =>
    simp only [admitAutopilotWebhookDelivery, hget, Option.some.injEq, Prod.mk.injEq] at hadmitted
    rcases hadmitted with ⟨rfl, rfl⟩
    have hr : existing ∈ st.runs.rows := List.mem_of_find?_eq_some hget
    refine ⟨h, .refl st, ?_, hr, by simp⟩
    rw [show admittedStage mode st.runs deliveryId skip existing = resume mode existing by
      simp [admittedStage, hget]]
    exact resume_knows h hr
  | none =>
    simp only [admitAutopilotWebhookDelivery, hget, Option.map_eq_some_iff, Prod.mk.injEq]
      at hadmitted
    rcases hadmitted with ⟨q, hins, rfl, rfl⟩
    -- of the new row only its links, status and delivery matter
    generalize hrow : ({ admittedRun mode triggerId runId skip with
      webhookDeliveryId := some deliveryId, plannedAt := none } : Run) = row at hins ⊢
    have hid : row.id = runId := by rw [← hrow]; rfl
    have hdelivery : row.webhookDeliveryId = some deliveryId := by rw [← hrow]
    have hlinks : row.issueId = none ∧ row.taskId = none := by
      rw [← hrow]
      exact ⟨rfl, rfl⟩
    have hstatus : row.status = if skip.isSome then .skipped else mode.initialStatus := by
      rw [← hrow]
      rfl
    have hmem : ∀ x, x ∈ q.rows ↔ x ∈ st.runs.rows ∨ x = row := fun x => Table.mem_insert? hins
    have hnew : row ∈ q.rows := (hmem row).2 (.inr rfl)
    have hopen : row.status = mode.initialStatus ∨ row.status.ended = true := by
      rw [hstatus]
      cases skip with
      | some reason => exact .inr rfl
      | none => exact .inl rfl
    have hnotCompleted : row.status ≠ .completed := by
      rw [hstatus]
      cases skip <;> cases mode <;> simp [ExecutionMode.initialStatus]
    have hsound : Sound mode deliveryId { st with runs := q } := by
      refine ⟨h.wf.insertRun hins hlinks.1 hlinks.2 hnotCompleted, fun x hx => ?_, fun x hx => ?_⟩
      · rcases (hmem x).1 hx with hx | rfl
        · exact h.anchored x hx
        · exact hdelivery
      · rcases (hmem x).1 hx with hx | rfl
        · exact h.modes x hx
        · exact hopen
    refine ⟨hsound, Store.env_insertRun hins, ?_, hnew, fun _ => ⟨hid, fun hskip => ?_⟩⟩
    · cases skip with
      | some reason =>
        rw [show admittedStage mode st.runs deliveryId (some reason) row = .recordSkip row.id reason
          by simp [admittedStage, hget]]
        exact ⟨row, hnew, rfl, hstatus⟩
      | none =>
        rw [show admittedStage mode st.runs deliveryId none row = resume mode row by
          simp [admittedStage, hget]]
        exact resume_knows hsound hnew
    · rw [hstatus, if_pos hskip]

/-! ## The invariant -/

structure Inv (mode : ExecutionMode) (s : State) : Prop where
  sound : Sound mode s.delivery.id s.store
  alone : AtMostOne (fun w => w.stage.inside) s.workers
  workers : ∀ w ∈ s.workers, w.stage.Knows mode s.store
  recordings : ∀ p ∈ s.recordings, ∃ r ∈ s.store.runs.rows, r.id = p.1 ∧ r.status = .skipped
  dispatched : s.delivery.status = .dispatched →
    ∃ runId, s.delivery.autopilotRunId = some runId ∧ SettledRun s.store runId

theorem Inv.exactlyOnce {mode : ExecutionMode} {s : State} (hinv : Inv mode s) :
    ExactlyOnce s := by
  have hwf := hinv.sound.wf
  refine ⟨fun r hr r' hr' => hinv.sound.oneRun hr hr', fun r _ => ?_, fun r _ => ?_,
    fun r hr hskipped => ?_, fun hdispatched => ?_⟩
  · exact (List.length_filter_le _ _).trans hwf.oneIssue
  · -- the tasks of the run are among the run-only tasks
    have hsub : (s.store.tasks.filter fun t => t.autopilotRunId == some r.id).Sublist
        (s.store.tasks.filter fun t => t.autopilotRunId.isSome) := by
      refine List.monotone_filter_right s.store.tasks fun t ht => ?_
      have hrun : t.autopilotRunId = some r.id := by simpa using ht
      simp [hrun]
    exact hsub.length_le.trans hwf.oneTask
  · -- a started run is not skipped, by what its row allows
    have hnone := (hwf.runs r hr).skipped hskipped
    rw [Bool.eq_false_iff]
    intro hstarted
    rcases Store.started_iff.1 hstarted with ⟨i, hi, hrun⟩ | ⟨t, ht, hrun⟩
    · exact hnone.1 i hi hrun
    · exact hnone.2 t ht hrun
  · rcases hinv.dispatched hdispatched with ⟨runId, hrun, r, hr, rfl, hsettled⟩
    exact ⟨r, hr, hinv.sound.anchored r hr, hrun, hsettled⟩

/-- A step of listeners, of other requests or of the ingress. -/
theorem inv_env {mode : ExecutionMode} {s : State} (hinv : Inv mode s) {st : Store}
    (hsound : Sound mode s.delivery.id st) (henv : s.store.Env st) :
    Inv mode { s with store := st } := by
  refine ⟨hsound, hinv.alone, fun w hw => (hinv.workers w hw).env henv, fun p hp => ?_, fun h => ?_⟩
  · exact skipped_extends henv.ext (hinv.recordings p hp)
  · rcases hinv.dispatched h with ⟨runId, hrun, hsettled⟩
    exact ⟨runId, hrun, settled_extends henv.ext hsettled⟩

/-- A statement on the delivery that completes it as dispatched only for a settled run. -/
theorem inv_exec {mode : ExecutionMode} {s : State} (hinv : Inv mode s) {u : Update Delivery}
    (hsame : SameDelivery s.delivery (u.set s.delivery))
    (hdispatched : u.sel s.delivery = true → (u.set s.delivery).status = .dispatched →
      ∃ runId, (u.set s.delivery).autopilotRunId = some runId ∧ SettledRun s.store runId) :
    Inv mode (s.exec u) := by
  have hid : (u.apply s.delivery).id = s.delivery.id := hsame.apply.id
  refine ⟨?_, hinv.alone, hinv.workers, hinv.recordings, fun h => ?_⟩
  · have hsound := hinv.sound
    rw [← hid] at hsound
    exact hsound
  · have h : (u.apply s.delivery).status = .dispatched := h
    show ∃ runId, (u.apply s.delivery).autopilotRunId = some runId ∧ SettledRun s.store runId
    cases hsel : u.sel s.delivery with
    | true =>
      rw [Update.apply_of_sel hsel] at h ⊢
      exact hdispatched hsel h
    | false =>
      rw [Update.apply_of_not_sel hsel] at h ⊢
      exact hinv.dispatched h

/-- A worker that leaves, or is not inside. -/
theorem inv_setStage {mode : ExecutionMode} {s : State} (hinv : Inv mode s) {j : Nat} {w : Worker}
    (hj : s.workers[j]? = some w) {stage : Stage} (hout : stage.inside = false)
    (hknows : stage.Knows mode s.store) : Inv mode (s.setStage j w stage) := by
  refine ⟨hinv.sound, hinv.alone.set hj fun h => ?_, fun x hx => ?_, hinv.recordings,
    hinv.dispatched⟩
  · have hinside : stage.inside = true := h
    rw [hout] at hinside
    simp at hinside
  · rcases List.mem_or_eq_of_mem_set hx with hx | rfl
    · exact hinv.workers x hx
    · exact hknows

/-- A step of the one worker that is inside. -/
theorem inv_inside {mode : ExecutionMode} {s : State} (hinv : Inv mode s) {j : Nat} {w : Worker}
    (hj : s.workers[j]? = some w) (hinside : w.stage.inside = true) {st : Store} {stage : Stage}
    (hsteps : Steps mode s.delivery.id s.store st stage) :
    Inv mode (State.setStage { s with store := st } j w stage) := by
  refine ⟨hsteps.sound, hinv.alone.set hj fun _ => hinside, fun x hx => ?_, fun p hp => ?_,
    fun h => ?_⟩
  · rcases hinv.alone.mem_set hj hinside hx with rfl | ⟨hx, hout⟩
    · exact hsteps.knows
    · exact (hinv.workers x hx).of_extends hsteps.ext hout
  · exact skipped_extends hsteps.ext (hinv.recordings p hp)
  · rcases hinv.dispatched h with ⟨runId, hrun, hsettled⟩
    exact ⟨runId, hrun, settled_extends hsteps.ext hsettled⟩

/-- A worker's last statement on the delivery. -/
theorem inv_release {mode : ExecutionMode} {s : State} (hinv : Inv mode s) {j : Nat} {w : Worker}
    (hj : s.workers[j]? = some w) {u : Update Delivery}
    (hsame : SameDelivery s.delivery (u.set s.delivery))
    (hdispatched : u.sel s.delivery = true → (u.set s.delivery).status = .dispatched →
      ∃ runId, (u.set s.delivery).autopilotRunId = some runId ∧ SettledRun s.store runId) :
    Inv mode ((s.exec u).setStage j w .done) :=
  inv_setStage (inv_exec hinv hsame hdispatched) hj rfl trivial

/-- A worker enters while nobody is inside. -/
theorem inv_enter {mode : ExecutionMode} {s : State} (hinv : Inv mode s) {j : Nat} {w : Worker}
    {runId : UUID} {skip : Option String} (hcond : oneAtATime s (.enter j runId skip) = true)
    {st : Store} {stage : Stage} (hsound : Sound mode s.delivery.id st) (henv : s.store.Env st)
    (hknows : stage.Knows mode st) : Inv mode (State.setStage { s with store := st } j w stage) := by
  have hkept := inv_env hinv hsound henv
  have hnone : ∀ x ∈ s.workers, x.stage.inside = false := by
    intro x hx
    have hout := List.all_eq_true.1 hcond x hx
    simpa using hout
  -- nobody was inside, so the one that enters is alone
  refine ⟨hkept.sound, .set_of_none hnone j _, fun x hx => ?_, hkept.recordings, hkept.dispatched⟩
  rcases List.mem_or_eq_of_mem_set hx with hx | rfl
  · exact hkept.workers x hx
  · exact hknows

/-- What is moved without a task stays out of `todo` and `in_progress`. -/
theorem inv_moveIssue {mode : ExecutionMode} {s : State} (hinv : Inv mode s) {issueId : UUID}
    {status : IssueStatus} (hcond : oneAtATime s (.moveIssue issueId status) = true) :
    Inv mode { s with store := moveIssue s.store issueId status } := by
  have hsame : ∀ i, (moved issueId status i).id = i.id ∧ (moved issueId status i).runId = i.runId := by
    intro i
    unfold moved
    split <;> exact ⟨rfl, rfl⟩
  -- an issue that comes to need a task has one
  have hneeds : ∀ i ∈ s.store.issues, (moved issueId status i).status.needsTask = true →
      i.status.needsTask = true ∨ ∃ t ∈ s.store.tasks, t.issueId = some i.id := by
    intro i hi hafter
    by_cases heq : i.id = issueId
    · have hstatus : (moved issueId status i).status = status := by simp [moved, heq]
      rw [hstatus] at hafter
      simp only [oneAtATime, hafter, Bool.not_true, Bool.false_or, Bool.or_eq_true,
        Bool.not_eq_true', List.all_eq_true] at hcond
      rcases hcond with htasks | hall
      · rcases List.exists_mem_of_ne_nil _ (List.isEmpty_eq_false_iff.1 htasks) with ⟨t, ht⟩
        simp only [listTasksByIssue, List.mem_filter, beq_iff_eq] at ht
        exact .inr ⟨t, ht.1, by rw [ht.2, heq]⟩
      · exact .inl (by simpa [heq] using hall i hi)
    · have hunmoved : moved issueId status i = i := by simp [moved, heq]
      rw [hunmoved] at hafter
      exact .inl hafter
  exact inv_env hinv ⟨hinv.sound.wf.mapIssues hsame, hinv.sound.anchored, hinv.sound.modes⟩
    (Store.env_mapIssues hsame hneeds)

/-- A step of a worker that has just claimed the delivery. -/
theorem claimed_of_step {s s' : State} {j : Nat} {f : Delivery → UUID → Option State}
    (h : (match s.workers[j]? with
      | some ⟨d, token, .claimed⟩ => f d token
      | _ => none) = some s') :
    ∃ d token, s.workers[j]? = some ⟨d, token, .claimed⟩ ∧ f d token = some s' := by
  cases hj : s.workers[j]? with
  | none => simp [hj] at h
  | some w =>
    rcases w with ⟨d, token, stage⟩
    cases stage with
    | claimed =>
      rw [hj] at h
      exact ⟨d, token, rfl, h⟩
    | _ => simp [hj] at h

theorem inv_step {mode : ExecutionMode} {s s' : State} {a : Act} (hinv : Inv mode s)
    (hcond : oneAtATime s a = true) (h : next mode s a = some s') : Inv mode s' := by
  cases a with
  | tick t =>
    simp only [next, Option.ite_none_right_eq_some, Option.some.injEq] at h
    rcases h with ⟨-, rfl⟩
    exact ⟨hinv.sound, hinv.alone, hinv.workers, hinv.recordings, hinv.dispatched⟩
  | acknowledge runId skip =>
    simp only [next, Option.map_eq_some_iff] at h
    rcases h with ⟨⟨runs, r⟩, hadmitted, rfl⟩
    rcases admission_spec hinv.sound hadmitted with ⟨hsound, henv, -, hr, hnew⟩
    have hkept := inv_env hinv hsound henv
    refine ⟨hkept.sound, hkept.alone, hkept.workers, fun p hp => ?_, hkept.dispatched⟩
    -- only the request that stores a skipped run has its reason to write
    cases hget : getAutopilotRunByWebhookDelivery s.store.runs s.delivery.id with
    | some existing =>
      simp only [hget] at hp
      exact hkept.recordings p hp
    | none =>
      cases skip with
      | none =>
        simp only [hget] at hp
        exact hkept.recordings p hp
      | some reason =>
        simp only [hget] at hp
        rcases List.mem_cons.1 hp with rfl | hp
        · exact ⟨r, hr, (hnew hget).1, (hnew hget).2 rfl⟩
        · exact hkept.recordings p hp
  | recordSkip runId reason =>
    simp only [next, Option.ite_none_right_eq_some, Option.some.injEq] at h
    rcases h with ⟨hmem, rfl⟩
    rcases env_recordSkip s.now reason hinv.sound (hinv.recordings _ hmem) with ⟨hsound, henv⟩
    have hkept := inv_env hinv hsound henv
    exact ⟨hkept.sound, hkept.alone, hkept.workers,
      fun p hp => hkept.recordings p (List.mem_of_mem_erase hp), hkept.dispatched⟩
  | claim token =>
    simp only [next, Option.ite_none_right_eq_some, Option.some.injEq] at h
    rcases h with ⟨-, rfl⟩
    -- a dispatched delivery is not due
    have hexec := inv_exec hinv (u := claimQueuedWebhookDelivery s.delivery.id token s.now)
      ⟨rfl, rfl, rfl, rfl⟩ fun hsel hdispatched => by
        have hstatus : s.delivery.status = .dispatched := hdispatched
        simp [claimQueuedWebhookDelivery, Delivery.due, hstatus] at hsel
    refine ⟨hexec.sound, hexec.alone.append rfl, fun w hw => ?_, hexec.recordings, hexec.dispatched⟩
    rcases List.mem_append.1 hw with hw | hw
    · exact hexec.workers w hw
    · rw [List.mem_singleton] at hw
      subst hw
      trivial
  | defer j availableAt =>
    rcases claimed_of_step h with ⟨d, token, hj, h⟩
    rw [Option.some.injEq] at h
    subst h
    -- a row that still has its token is queued, so nothing dispatched is overwritten
    refine inv_release hinv hj ⟨rfl, rfl, rfl, rfl⟩ fun hsel hdispatched => ?_
    have hstatus : s.delivery.status = .dispatched := hdispatched
    rw [Delivery.queued_of_heldBy hsel] at hstatus
    simp at hstatus
  | retryOrFail j availableAt cause =>
    rcases claimed_of_step h with ⟨d, token, hj, h⟩
    rw [Option.some.injEq] at h
    subst h
    refine inv_release hinv hj (retryOrFail_sameDelivery d token availableAt cause s.delivery) ?_
    intro hsel hdispatched
    unfold Autopilot.retryOrFail at hsel hdispatched
    -- it ends as failed, or stays queued
    split at hdispatched
    · simp [completeClaimedWebhookDelivery] at hdispatched
    · rename_i hretry
      rw [if_neg hretry] at hsel
      have hstatus : s.delivery.status = .dispatched := hdispatched
      rw [Delivery.queued_of_heldBy hsel] at hstatus
      simp at hstatus
  | giveUp j status reason =>
    rcases claimed_of_step h with ⟨d, token, hj, h⟩
    simp only [Option.ite_none_right_eq_some, Option.some.injEq] at h
    rcases h with ⟨hend, rfl⟩
    refine inv_release hinv hj ⟨rfl, rfl, rfl, rfl⟩ fun _ hdispatched => ?_
    have hstatus : status = .dispatched := hdispatched
    simp [hstatus] at hend
  | enter j runId skip =>
    rcases claimed_of_step h with ⟨d, token, hj, h⟩
    simp only [Option.map_eq_some_iff] at h
    rcases h with ⟨⟨runs, r⟩, hadmitted, rfl⟩
    rcases admission_spec hinv.sound hadmitted with ⟨hsound, henv, hknows, -, -⟩
    exact inv_enter hinv hcond hsound henv hknows
  | step j a =>
    cases hj : s.workers[j]? with
    | none => simp [next, hj] at h
    | some w =>
      simp only [next, hj, Option.map_eq_some_iff] at h
      rcases h with ⟨⟨st, stage⟩, hstep, rfl⟩
      rcases advance_spec hinv.sound (hinv.workers w (List.mem_of_getElem? hj)) hstep with
        ⟨hinside, hsteps⟩
      exact inv_inside hinv hj hinside hsteps
  | complete j error =>
    cases hj : s.workers[j]? with
    | none => simp [next, hj] at h
    | some w =>
      rcases w with ⟨d, token, stage⟩
      cases stage with
      | complete status runId =>
        simp only [next, hj, Option.some.injEq] at h
        subst h
        have hknows := hinv.workers _ (List.mem_of_getElem? hj)
        -- what the stage knows is what a dispatched delivery needs
        exact inv_release hinv hj ⟨rfl, rfl, rfl, rfl⟩ fun _ hdispatched =>
          ⟨runId, rfl, hknows hdispatched⟩
      | _ => simp [next, hj] at h
  | crash j =>
    simp only [next, Option.map_eq_some_iff] at h
    rcases h with ⟨w, hj, rfl⟩
    exact inv_setStage hinv hj rfl trivial
  | syncRun runId o =>
    simp only [next, Option.map_eq_some_iff] at h
    rcases h with ⟨st, hsync, rfl⟩
    rcases sync_spec hinv.sound.wf hsync with ⟨hwf, henv⟩
    -- a listener leaves the status or ends the run
    refine inv_env hinv (hinv.sound.of_rows hwf fun r' hr' => ?_) henv
    rcases sync_rows hsync hr' with ⟨r, hr, hkin, hsame | hended⟩
    · exact ⟨r, hr, hkin, .inl hsame⟩
    · exact ⟨r, hr, hkin, .inr (.inr hended)⟩
  | issueTask taskId issueId =>
    simp only [next, Option.ite_none_right_eq_some, Option.some.injEq] at h
    rcases h with ⟨-, rfl⟩
    -- the task is the issue's, not the run's
    refine inv_env hinv ⟨hinv.sound.wf.issueTask taskId issueId, hinv.sound.anchored,
      hinv.sound.modes⟩ ⟨s.store.extends_insertTask _, fun h => h, fun h t ht => ?_,
        fun r hr => ⟨r, hr, .refl _ r, .inl rfl⟩⟩
    rcases List.mem_append.1 ht with ht | ht
    · exact h t ht
    · rw [List.mem_singleton] at ht
      rw [ht]
  | moveIssue issueId status =>
    simp only [next, Option.some.injEq] at h
    subst h
    exact inv_moveIssue hinv hcond

/-- As long as workers enter the dispatch one at a time, a delivery has its effect once. -/
theorem exactly_once_effect (mode : ExecutionMode) (s : State)
    (hs : (machine mode).ReachableUnder (fun s a => oneAtATime s a = true) s) : ExactlyOnce s := by
  have hinv : Inv mode s := by
    revert s
    refine Machine.invariant_under ?_ fun s a s' _ hinv hcond h => inv_step hinv hcond h
    rintro s ⟨hqueued, hstore, hworkers, hrecordings⟩
    refine ⟨?_, ?_, ?_, ?_, ?_⟩
    · rw [hstore]
      exact ⟨wf_empty, by simp [Store.empty], by simp [Store.empty]⟩
    · rw [hworkers]
      exact atMostOne_nil
    · simp [hworkers]
    · simp [hrecordings]
    · intro hdispatched
      rw [hqueued] at hdispatched
      simp at hdispatched
  exact hinv.exactlyOnce

/-! ## Runs -/

def State.empty : State :=
  ⟨0, { id := 1, triggerId := 7, signatureStatus := .valid, availableAt := 0, createdAt := 0 },
    Store.empty, [], []⟩

theorem init_empty (mode : ExecutionMode) : (machine mode).Init State.empty := ⟨rfl, rfl, rfl, rfl⟩

/-- A worker dies between the issue's transaction and its task, and the next one repairs it. -/
def repairedRun : List Act :=
  [.acknowledge 50 none, .claim 100, .enter 0 51 none, .step 0 (.run (.insertIssue 60)), .crash 0,
    .tick leaseInterval, .claim 101, .enter 1 52 none, .step 1 .read, .step 1 .read,
    .step 1 (.run (.insertTask 70)), .complete 1 none]

theorem exactly_once_effect_repairedRun :
    ∃ s, s.delivery.status = .dispatched ∧ s.store.tasks.map Task.issueId = [some 60] ∧
      ExactlyOnce s := by
  rcases Machine.reachableUnder_of_run (machine .createIssue) oneAtATime (init_empty .createIssue)
    repairedRun (fun s => s.delivery.status == .dispatched &&
      s.store.tasks.map Task.issueId == [some 60]) (by decide) with ⟨s, hs, h⟩
  simp only [Bool.and_eq_true, beq_iff_eq] at h
  exact ⟨s, h.1, h.2, exactly_once_effect .createIssue s hs⟩

/-- Two minutes pass while the first worker is inside. -/
def outlivedRun : List Act :=
  [.claim 100, .enter 0 50 none, .step 0 .read, .tick leaseInterval, .claim 101, .enter 1 51 none,
    .step 1 .read, .step 0 (.run (.insertTask 60)), .step 1 (.run (.insertTask 61))]

theorem outlived_lease_doubles_task :
    ¬ ∀ mode s, (machine mode).Reachable s → ExactlyOnce s := by
  intro hclaim
  rcases Machine.reachable_of_run (machine .runOnly) (init_empty .runOnly) outlivedRun
    (fun s => s.store.runs.rows.any fun r => decide
      (1 < (s.store.tasks.filter fun t => t.autopilotRunId == some r.id).length)) (by decide) with
    ⟨s, -, hs, htwice⟩
  rcases List.any_eq_true.1 htwice with ⟨r, hr, hlt⟩
  -- the two tasks of the row are one too many
  have hone := (hclaim .runOnly s hs).oneTask r hr
  have htwo := of_decide_eq_true hlt
  omega

end Orynx.Autopilot.Effect
