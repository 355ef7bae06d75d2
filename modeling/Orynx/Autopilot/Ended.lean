import Orynx.Autopilot.Run
import Orynx.Lib.Machine

/-! # Ended runs

Any number of parties write runs: dispatchers that create a run or take one over, link its
issue or task, skip or fail it; listeners that react to issues and tasks; the recovery of
partial runs; the deletion of issues. A party reads or creates the run in one step and writes
it in a later one, by id.

* `StaysEnded`: a run that was completed, failed or skipped still has that status;
* `endsLast`: a run ends when nobody else has yet to give it another status, and a task's
  listener does not start on a run that has ended otherwise;
* `ended_stays`: then it is so in every run of the parties;
* `late_linkage_reopens`: a task that ends before its dispatcher links it breaks it.
-/

namespace Orynx.Autopilot.Ended

open Lib

/-! ## The machine -/

/-- A task of a run-only dispatch. -/
structure Task where
  id : UUID
  autopilotRunId : UUID
deriving DecidableEq, Repr

/-- What a party has read and has still to do. -/
inductive Writer where
  | resumed (mode : ExecutionMode) (run : Run)
  | dispatch (mode : ExecutionMode) (runId : UUID)
  | linked (runId : UUID)
  | skipping (runId : UUID) (reason : String)
  | write (runId : UUID) (w : RunWrite)
  | done
deriving DecidableEq, Repr

structure State where
  runs : RunTable
  tasks : List Task
  writers : List Writer
  ended : List (UUID × RunStatus)

/-- How an issue or a task ended, for its listener. -/
inductive Outcome where
  | completed (result : Option String)
  | failed (reason : String)
deriving DecidableEq, Repr

def Outcome.write : Outcome → RunWrite
  | .completed result => .completed result
  | .failed reason => .failed reason

/-- `admitExisting` finds the run of a delivery, `step` looks for its task. `perform` is the
update that a party has decided on. -/
inductive Act where
  | createRun (mode : ExecutionMode) (id triggerId : UUID) (plannedAt : Option Int)
      (deliveryId : Option UUID)
  | recordSkippedRun (id triggerId : UUID) (plannedAt : Option Int) (deliveryId : Option UUID)
      (reason : String)
  | admitExisting (mode : ExecutionMode) (deliveryId : UUID)
  | step (i : Nat)
  | createIssue (i : Nat) (issueId : UUID) (now : Int)
  | createTask (i : Nat) (taskId : UUID)
  | skip (i : Nat) (reason : String)
  | fail (i : Nat) (reason : String)
  | finish (i : Nat)
  | perform (i : Nat) (now : Int)
  | crash (i : Nat)
  | syncRunFromIssue (issueId : UUID) (outcome : Outcome)
  | syncRunFromTask (taskId : UUID) (outcome : Outcome)
  | syncRunFromLinkedIssueTask (issueId : UUID) (reason : String)
  | recoverPartial (triggerId : UUID) (plannedAt : Int)
  | failAutopilotRunsByIssue (issueId : UUID) (now : Int)

/-- Write the table and record the runs that are newly ended. -/
def State.commit (s : State) (q : RunTable) : State :=
  { s with
    runs := q
    ended := s.ended ++
      (q.rows.filter fun r => r.status.ended && !s.ended.any fun e => e.1 == r.id).map
        fun r => (r.id, r.status) }

def State.add (s : State) (x : Writer) : State := { s with writers := s.writers ++ [x] }

def State.set (s : State) (i : Nat) (x : Writer) : State := { s with writers := s.writers.set i x }

def createdRun (status : RunStatus) (id triggerId : UUID) (plannedAt : Option Int)
    (deliveryId : Option UUID) : Run :=
  { id := id, triggerId := triggerId, status := status, plannedAt := plannedAt
    webhookDeliveryId := deliveryId }

/-- A run-only run without a task may have one that is not linked. -/
def resume (tasks : List Task) (mode : ExecutionMode) (r : Run) : Writer :=
  if mode = .runOnly ∧ r.taskId = none then
    match tasks.find? fun t => t.autopilotRunId == r.id with
    | some t => .write r.id (.running t.id)
    | none => .dispatch mode r.id
  else .dispatch mode r.id

/-- The update that a party may do next. -/
def Writer.pending? : Writer → Option (UUID × RunWrite)
  | .write runId w => some (runId, w)
  | .skipping runId reason => some (runId, .skipped reason)
  | _ => none

/-- The run that `failRun` gets when a party meets an error. -/
def Writer.fails? : Writer → Option UUID
  | .dispatch _ runId | .linked runId | .skipping runId _ => some runId
  | _ => none

def next (s : State) : Act → Option State
  | .createRun mode id triggerId plannedAt deliveryId =>
    (s.runs.insert? (createdRun mode.initialStatus id triggerId plannedAt deliveryId)).map
      fun q => (s.commit q).add (.dispatch mode id)
  | .recordSkippedRun id triggerId plannedAt deliveryId reason =>
    (s.runs.insert? (createdRun .skipped id triggerId plannedAt deliveryId)).map
      fun q => (s.commit q).add (.write id (.skipped reason))
  | .admitExisting mode deliveryId =>
    match getAutopilotRunByWebhookDelivery s.runs deliveryId with
    | some r => if isAutopilotRunComplete r then none else some (s.add (.resumed mode r))
    | none => none
  | .step i =>
    match s.writers[i]? with
    | some (.resumed mode r) => some (s.set i (resume s.tasks mode r))
    | _ => none
  | .createIssue i issueId now =>
    match s.writers[i]? with
    | some (.dispatch .createIssue runId) =>
      (s.runs.update? (updateAutopilotRunIssueCreated runId now issueId)).map fun q =>
        (s.commit q).set i (.linked runId)
    | _ => none
  | .createTask i taskId =>
    match s.writers[i]? with
    | some (.dispatch .runOnly runId) =>
      some (State.set { s with tasks := s.tasks ++ [⟨taskId, runId⟩] } i
        (.write runId (.running taskId)))
    | _ => none
  | .skip i reason =>
    match s.writers[i]? with
    | some (.dispatch _ runId) => some (s.set i (.skipping runId reason))
    | _ => none
  | .fail i reason =>
    ((s.writers[i]?).bind Writer.fails?).map fun runId => s.set i (.write runId (.failed reason))
  | .finish i =>
    match s.writers[i]? with
    | some (.linked _) => some (s.set i .done)
    | _ => none
  | .perform i now =>
    match (s.writers[i]?).bind Writer.pending? with
    | some (runId, w) => (s.runs.update? (w.stmt runId now)).map fun q => (s.commit q).set i .done
    | none => none
  | .crash i => (s.writers[i]?).map fun _ => s.set i .done
  | .syncRunFromIssue issueId outcome =>
    (getAutopilotRunByIssue s.runs issueId).map fun r => s.add (.write r.id outcome.write)
  | .syncRunFromTask taskId outcome =>
    match s.tasks.find? fun t => t.id == taskId with
    | some t =>
      (getAutopilotRun s.runs t.autopilotRunId).map fun r => s.add (.write r.id outcome.write)
    | none => none
  | .syncRunFromLinkedIssueTask issueId reason =>
    (getAutopilotRunByIssue s.runs issueId).map fun r => s.add (.write r.id (.failed reason))
  | .recoverPartial triggerId plannedAt =>
    match getAutopilotRunByTriggerAndPlanned s.runs triggerId plannedAt with
    | some r => if isAutopilotRunComplete r then none else some (s.add (.write r.id .recover))
    | none => none
  | .failAutopilotRunsByIssue issueId now =>
    (s.runs.update? (Autopilot.failAutopilotRunsByIssue issueId now)).map s.commit

def machine : Machine State Act where
  Init s := s.runs = Table.empty ∧ s.tasks = [] ∧ s.writers = [] ∧ s.ended = []
  next := next

/-! ## The property -/

/-- Every run that has ended is recorded with the status it ended with, and has it still. -/
structure StaysEnded (s : State) : Prop where
  recorded : ∀ r ∈ s.runs.rows, r.status.ended = true → (r.id, r.status) ∈ s.ended
  kept : ∀ e ∈ s.ended, ∃ r ∈ s.runs.rows, r.id = e.1 ∧ r.status = e.2

/-- The party may still give the run another status. -/
def Writer.mayWrite (id : UUID) (status : RunStatus) : Writer → Bool
  | .write runId w => runId == id && w.status != status
  | .resumed _ r => r.id == id
  | .dispatch _ runId | .linked runId | .skipping runId _ => runId == id
  | .done => false

/-- Nobody may give the run another status. -/
def settled (writers : List Writer) (id : UUID) (status : RunStatus) : Bool :=
  writers.all fun x => !x.mayWrite id status

def endsLast (s : State) : Act → Bool
  | .perform i _ =>
    match (s.writers[i]?).bind Writer.pending? with
    | some (runId, w) => !w.status.ended || settled (s.writers.set i .done) runId w.status
    | none => true
  | .failAutopilotRunsByIssue issueId now =>
    s.runs.rows.all fun r =>
      !(Autopilot.failAutopilotRunsByIssue issueId now).sel r || settled s.writers r.id .failed
  | .syncRunFromTask taskId outcome =>
    match (s.tasks.find? fun t => t.id == taskId).bind fun t =>
      getAutopilotRun s.runs t.autopilotRunId with
    | some r => !r.status.ended || r.status == outcome.write.status
    | none => true
  | _ => true

/-! ## The invariant -/

/-- The run that a party is about. -/
def Writer.runId? : Writer → Option UUID
  | .write runId _ | .dispatch _ runId | .linked runId | .skipping runId _ => some runId
  | .resumed _ r => some r.id
  | .done => none

structure Inv (s : State) : Prop where
  stays : StaysEnded s
  endings : ∀ e ∈ s.ended, e.2.ended = true
  quiet : ∀ r ∈ s.runs.rows, r.status.ended = true → settled s.writers r.id r.status = true
  targets : ∀ x ∈ s.writers, ∀ id, x.runId? = some id → ∃ r ∈ s.runs.rows, r.id = id

theorem settled_iff {writers : List Writer} {id : UUID} {status : RunStatus} :
    settled writers id status = true ↔ ∀ x ∈ writers, x.mayWrite id status = false := by
  simp [settled, List.all_eq_true]

theorem mayWrite_runId {x : Writer} {id : UUID} {status : RunStatus}
    (h : x.mayWrite id status = true) : x.runId? = some id := by
  cases x with
  | write runId w =>
    simp only [Writer.mayWrite, Bool.and_eq_true, beq_iff_eq] at h
    simp [Writer.runId?, h.1]
  | resumed | dispatch | linked | skipping => simpa [Writer.mayWrite, Writer.runId?] using h
  | done => simp [Writer.mayWrite] at h

theorem settled_set {writers : List Writer} {i : Nat} {x : Writer} {id : UUID}
    {status : RunStatus} (h : settled writers id status = true)
    (hx : x.mayWrite id status = false) : settled (writers.set i x) id status = true := by
  rw [settled_iff] at h ⊢
  intro y hy
  rcases List.mem_or_eq_of_mem_set hy with hy | rfl
  · exact h y hy
  · exact hx

theorem settled_append {writers : List Writer} {x : Writer} {id : UUID} {status : RunStatus}
    (h : settled writers id status = true) (hx : x.mayWrite id status = false) :
    settled (writers ++ [x]) id status = true := by
  rw [settled_iff] at h ⊢
  intro y hy
  rcases List.mem_append.1 hy with hy | hy
  · exact h y hy
  · rw [List.mem_singleton] at hy
    exact hy ▸ hx

/-- Ended rows that keep their status keep the record true. -/
theorem stays_commit {s : State} (hinv : Inv s) {q : RunTable}
    (hstep : ∀ r ∈ s.runs.rows, ∃ r' ∈ q.rows, r'.id = r.id ∧
      (r.status.ended = true → r'.status = r.status)) :
    StaysEnded (s.commit q) ∧ ∀ e ∈ (s.commit q).ended, e.2.ended = true := by
  have hold : ∀ e ∈ s.ended, ∃ r ∈ q.rows, r.id = e.1 ∧ r.status = e.2 := by
    intro e he
    rcases hinv.stays.kept e he with ⟨r, hr, hid, hstatus⟩
    rcases hstep r hr with ⟨r', hr', hid', hkept⟩
    have hended : r.status.ended = true := by
      rw [hstatus]
      exact hinv.endings e he
    exact ⟨r', hr', hid'.trans hid, (hkept hended).trans hstatus⟩
  -- a commit records what has ended and was not recorded
  have hnew : ∀ e ∈ (s.commit q).ended, e ∈ s.ended ∨
      ∃ r ∈ q.rows, r.status.ended = true ∧ e = (r.id, r.status) := by
    intro e he
    rcases List.mem_append.1 he with he | he
    · exact .inl he
    · rcases List.mem_map.1 he with ⟨r, hr, rfl⟩
      simp only [List.mem_filter, Bool.and_eq_true] at hr
      exact .inr ⟨r, hr.1, hr.2.1, rfl⟩
  refine ⟨⟨fun r hr hended => ?_, fun e he => ?_⟩, fun e he => ?_⟩
  · by_cases hany : (s.ended.any fun e => e.1 == r.id) = true
    · -- the run had ended before, with the status it has now
      rcases List.any_eq_true.1 hany with ⟨e, he, heid⟩
      have heid : e.1 = r.id := by simpa using heid
      rcases hold e he with ⟨r', hr', hid, hstatus⟩
      have hsame : r' = r := eq_of_runId hr' hr (hid.trans heid)
      refine List.mem_append_left _ ?_
      rw [← heid, ← hsame, hstatus]
      exact he
    · refine List.mem_append_right _ (List.mem_map.2 ⟨r, List.mem_filter.2 ⟨hr, ?_⟩, rfl⟩)
      simp [hended, Bool.eq_false_iff.2 hany]
  · rcases hnew e he with he | ⟨r, hr, -, rfl⟩
    · exact hold e he
    · exact ⟨r, hr, rfl, rfl⟩
  · rcases hnew e he with he | ⟨r, -, hended, rfl⟩
    · exact hinv.endings e he
    · exact hended

/-! ## The steps -/

/-- A party goes on without touching a run. -/
theorem inv_set {s : State} (hinv : Inv s) {i : Nat} {x y : Writer} (hi : s.writers[i]? = some x)
    (hid : ∀ id, y.runId? = some id → x.runId? = some id)
    (hwrite : ∀ id status, y.mayWrite id status = true → x.mayWrite id status = true) :
    Inv (s.set i y) := by
  have hx : x ∈ s.writers := List.mem_of_getElem? hi
  refine ⟨⟨hinv.stays.recorded, hinv.stays.kept⟩, hinv.endings, fun r hr hended => ?_,
    fun z hz id hzid => ?_⟩
  · have hquiet := hinv.quiet r hr hended
    refine settled_set hquiet (Bool.eq_false_iff.2 fun h => ?_)
    have hxquiet := settled_iff.1 hquiet x hx
    rw [hwrite _ _ h] at hxquiet
    simp at hxquiet
  · rcases List.mem_or_eq_of_mem_set hz with hz | rfl
    · exact hinv.targets z hz id hzid
    · exact hinv.targets x hx id (hid id hzid)

/-- A party has read a run that has not ended, or will not give it another status. -/
theorem inv_add {s : State} (hinv : Inv s) {r : Run} (hr : r ∈ s.runs.rows) {y : Writer}
    (hid : y.runId? = some r.id)
    (hquiet : r.status.ended = true → y.mayWrite r.id r.status = false) : Inv (s.add y) := by
  refine ⟨⟨hinv.stays.recorded, hinv.stays.kept⟩, hinv.endings, fun x hx hended => ?_,
    fun z hz id hzid => ?_⟩
  · refine settled_append (hinv.quiet x hx hended) (Bool.eq_false_iff.2 fun h => ?_)
    have hxr : x = r := by
      have hidx := mayWrite_runId h
      rw [hid, Option.some.injEq] at hidx
      exact eq_of_runId hx hr hidx.symm
    subst hxr
    rw [hquiet hended] at h
    simp at h
  · rcases List.mem_append.1 hz with hz | hz
    · exact hinv.targets z hz id hzid
    · rw [List.mem_singleton] at hz
      subst hz
      rw [hid, Option.some.injEq] at hzid
      exact ⟨r, hr, hzid⟩

/-- A new run with its party. -/
theorem inv_insert {s : State} (hinv : Inv s) {row : Run} {q : RunTable}
    (hins : s.runs.insert? row = some q) {y : Writer} (hid : y.runId? = some row.id)
    (hquiet : row.status.ended = true → y.mayWrite row.id row.status = false) :
    Inv ((s.commit q).add y) := by
  have hmem : ∀ r, r ∈ q.rows ↔ r ∈ s.runs.rows ∨ r = row := fun r => Table.mem_insert? hins
  -- the key refuses a second run with the id
  have hfresh : ∀ r ∈ s.runs.rows, r.id ≠ row.id := by
    have hsome : (s.runs.insert? row).isSome := by
      rw [hins]
      rfl
    exact fun r hr => (Table.insert?_isSome.1 hsome).1 r hr
  rcases stays_commit hinv (q := q) fun r hr => ⟨r, (hmem r).2 (.inl hr), rfl, fun _ => rfl⟩ with
    ⟨hstays, hendings⟩
  refine ⟨⟨hstays.recorded, hstays.kept⟩, hendings, fun r hr hended => ?_, fun z hz id hzid => ?_⟩
  · rcases (hmem r).1 hr with hr | rfl
    · refine settled_append (hinv.quiet r hr hended) (Bool.eq_false_iff.2 fun h => ?_)
      have hidr := mayWrite_runId h
      rw [hid, Option.some.injEq] at hidr
      exact hfresh r hr hidr.symm
    · refine settled_append (settled_iff.2 fun x hx => Bool.eq_false_iff.2 fun h => ?_)
        (hquiet hended)
      -- no party is about a run that is not there yet
      rcases hinv.targets x hx _ (mayWrite_runId h) with ⟨r', hr', hid'⟩
      exact hfresh r' hr' hid'
  · rcases List.mem_append.1 hz with hz | hz
    · rcases hinv.targets z hz id hzid with ⟨r, hr, hrid⟩
      exact ⟨r, (hmem r).2 (.inl hr), hrid⟩
    · rw [List.mem_singleton] at hz
      subst hz
      rw [hid, Option.some.injEq] at hzid
      exact ⟨row, (hmem row).2 (.inr rfl), hzid⟩

/-- The update of a party that leaves a run with another status only if it had not ended. -/
theorem inv_update {s : State} (hinv : Inv s) {i : Nat} {x y : Writer}
    (hi : s.writers[i]? = some x) {runId : UUID} {w : RunWrite} {now : Int} {q : RunTable}
    (hupd : s.runs.update? (w.stmt runId now) = some q) (hx : x.runId? = some runId)
    (hy : ∀ id, y.runId? = some id → id = runId)
    (hkeep : ∀ r ∈ s.runs.rows, r.id = runId → r.status.ended = true → w.status = r.status)
    (hsettled : w.status.ended = true → settled (s.writers.set i y) runId w.status = true) :
    Inv ((s.commit q).set i y) := by
  -- another row is untouched, and this one keeps an ended status
  have hrow : ∀ r ∈ s.runs.rows, ∃ r' ∈ q.rows, r'.id = r.id ∧
      (r.status.ended = true → r'.status = r.status) := by
    intro r hr
    refine ⟨_, (Table.mem_update? hupd).2 ⟨r, hr, rfl⟩,
      (SameRun.apply (w.set_sameRun now r)).id, fun hended => ?_⟩
    by_cases hrid : r.id = runId
    · subst hrid
      rw [RunWrite.apply_stmt_self, RunWrite.set_status]
      exact hkeep r hr rfl hended
    · rw [RunWrite.apply_stmt_of_ne hrid]
  rcases stays_commit hinv hrow with ⟨hstays, hendings⟩
  refine ⟨⟨hstays.recorded, hstays.kept⟩, hendings, fun r' hr' hended => ?_, fun z hz id hzid => ?_⟩
  · rcases (Table.mem_update? hupd).1 hr' with ⟨r, hr, rfl⟩
    by_cases hrid : r.id = runId
    · subst hrid
      rw [RunWrite.apply_stmt_self] at hended ⊢
      rw [RunWrite.set_status] at hended ⊢
      rw [(w.set_sameRun now r).id]
      exact hsettled hended
    · rw [RunWrite.apply_stmt_of_ne hrid] at hended ⊢
      refine settled_set (hinv.quiet r hr hended) (Bool.eq_false_iff.2 fun h => ?_)
      exact hrid (hy r.id (mayWrite_runId h))
  · have hold : ∃ r ∈ s.runs.rows, r.id = id := by
      rcases List.mem_or_eq_of_mem_set hz with hz | rfl
      · exact hinv.targets z hz id hzid
      · rw [hy id hzid]
        exact hinv.targets x (List.mem_of_getElem? hi) runId hx
    rcases hold with ⟨r, hr, hrid⟩
    rcases hrow r hr with ⟨r', hr', hid', -⟩
    exact ⟨r', hr', hid'.trans hrid⟩

/-- The deletion of an issue fails its runs that are still active. -/
theorem inv_failByIssue {s : State} (hinv : Inv s) {issueId : UUID} {now : Int} {q : RunTable}
    (hupd : s.runs.update? (Autopilot.failAutopilotRunsByIssue issueId now) = some q)
    (hlast : (s.runs.rows.all fun r => !(Autopilot.failAutopilotRunsByIssue issueId now).sel r ||
      settled s.writers r.id .failed) = true) : Inv (s.commit q) := by
  -- it selects active runs only
  have hsel : ∀ r : Run, (Autopilot.failAutopilotRunsByIssue issueId now).sel r = true →
      r.status.ended = false := by
    intro r h
    simp only [Autopilot.failAutopilotRunsByIssue, Run.active, Bool.and_eq_true, Bool.or_eq_true,
      beq_iff_eq] at h
    rcases h.2 with h | h <;> rw [h] <;> rfl
  have hid : ∀ r : Run, ((Autopilot.failAutopilotRunsByIssue issueId now).apply r).id = r.id :=
    fun r => (SameRun.apply ⟨rfl, rfl, rfl, .inl rfl⟩).id
  have hrow : ∀ r ∈ s.runs.rows, ∃ r' ∈ q.rows, r'.id = r.id ∧
      (r.status.ended = true → r'.status = r.status) := by
    intro r hr
    refine ⟨_, (Table.mem_update? hupd).2 ⟨r, hr, rfl⟩, hid r, fun hended => ?_⟩
    have hnot : (Autopilot.failAutopilotRunsByIssue issueId now).sel r = false := by
      refine Bool.eq_false_iff.2 fun h => ?_
      rw [hsel r h] at hended
      simp at hended
    rw [Update.apply_of_not_sel hnot]
  rcases stays_commit hinv hrow with ⟨hstays, hendings⟩
  refine ⟨hstays, hendings, fun r' hr' hended => ?_, fun z hz id hzid => ?_⟩
  · rcases (Table.mem_update? hupd).1 hr' with ⟨r, hr, rfl⟩
    rw [hid r]
    cases h : (Autopilot.failAutopilotRunsByIssue issueId now).sel r with
    | true =>
      rw [Update.apply_of_sel h]
      -- nobody else has this run to write, by the condition
      have hall := List.all_eq_true.1 hlast r hr
      rw [h, Bool.not_true, Bool.false_or] at hall
      exact hall
    | false =>
      rw [Update.apply_of_not_sel h] at hended ⊢
      exact hinv.quiet r hr hended
  · rcases hinv.targets z hz id hzid with ⟨r, hr, hrid⟩
    rcases hrow r hr with ⟨r', hr', hid', -⟩
    exact ⟨r', hr', hid'.trans hrid⟩

theorem not_ended_of_active {r : Run} (h : r.active = true) : r.status.ended = false := by
  simp only [Run.active, Bool.or_eq_true, beq_iff_eq] at h
  rcases h with h | h <;> rw [h] <;> rfl

/-- The run that the listeners of issues find. -/
theorem getAutopilotRunByIssue_spec {q : RunTable} {issueId : UUID} {r : Run}
    (h : getAutopilotRunByIssue q issueId = some r) : r ∈ q.rows ∧ r.status.ended = false := by
  have hactive := List.find?_some h
  simp only [Bool.and_eq_true] at hactive
  exact ⟨List.mem_of_find?_eq_some h, not_ended_of_active hactive.2⟩

/-- A party that may give a run any status has one that has not ended. -/
theorem not_ended_of_mayWrite {s : State} (hinv : Inv s) {x : Writer} (hx : x ∈ s.writers)
    {r : Run} (hr : r ∈ s.runs.rows) (hany : x.mayWrite r.id r.status = true) :
    r.status.ended = false := by
  refine Bool.eq_false_iff.2 fun hended => ?_
  have hquiet := settled_iff.1 (hinv.quiet r hr hended) x hx
  rw [hany] at hquiet
  simp at hquiet

theorem resume_cases (tasks : List Task) (mode : ExecutionMode) (r : Run) :
    resume tasks mode r = .dispatch mode r.id ∨
      ∃ taskId, resume tasks mode r = .write r.id (.running taskId) := by
  unfold resume
  split
  · split
    · exact .inr ⟨_, rfl⟩
    · exact .inl rfl
  · exact .inl rfl

theorem inv_step {s s' : State} {a : Act} (hinv : Inv s) (hlast : endsLast s a = true)
    (h : next s a = some s') : Inv s' := by
  cases a with
  | createRun mode id triggerId plannedAt deliveryId =>
    simp only [next, Option.map_eq_some_iff] at h
    rcases h with ⟨q, hins, rfl⟩
    -- no mode starts with an ended status
    refine inv_insert hinv hins rfl fun hended => ?_
    cases mode <;> simp [createdRun, ExecutionMode.initialStatus, RunStatus.ended] at hended
  | recordSkippedRun id triggerId plannedAt deliveryId reason =>
    simp only [next, Option.map_eq_some_iff] at h
    rcases h with ⟨q, hins, rfl⟩
    exact inv_insert hinv hins rfl fun _ => by
      simp [Writer.mayWrite, createdRun, RunWrite.status]
  | admitExisting mode deliveryId =>
    cases hget : getAutopilotRunByWebhookDelivery s.runs deliveryId with
    | none => simp [next, hget] at h
    | some r =>
      cases hcomplete : isAutopilotRunComplete r with
      | true => simp [next, hget, hcomplete] at h
      | false =>
        simp only [next, hget, hcomplete, Bool.false_eq_true, if_false, Option.some.injEq] at h
        subst h
        -- a partial run has not ended
        refine inv_add hinv (List.mem_of_find?_eq_some hget) rfl fun hended => ?_
        rw [not_ended_of_incomplete hcomplete] at hended
        simp at hended
  | step i =>
    cases hi : s.writers[i]? with
    | none => simp [next, hi] at h
    | some x =>
      cases x with
      | resumed mode r =>
        simp only [next, hi, Option.some.injEq] at h
        subst h
        rcases resume_cases s.tasks mode r with hto | ⟨taskId, hto⟩
        · rw [hto]
          exact inv_set hinv hi (fun id hid => hid) fun id status hw => hw
        · -- its task was there, and only the linkage is left to write
          rw [hto]
          refine inv_set hinv hi (fun id hid => hid) fun id status hw => ?_
          simp only [Writer.mayWrite, Bool.and_eq_true] at hw ⊢
          exact hw.1
      | _ => simp [next, hi] at h
  | createIssue i issueId now =>
    cases hi : s.writers[i]? with
    | none => simp [next, hi] at h
    | some x =>
      cases x with
      | dispatch mode runId =>
        cases mode with
        | runOnly => simp [next, hi] at h
        | createIssue =>
          simp only [next, hi, Option.map_eq_some_iff] at h
          rcases h with ⟨q, hupd, rfl⟩
          refine inv_update hinv hi hupd rfl (fun id hid => (Option.some.inj hid).symm)
            (fun r hr hid hended => ?_) fun hended => by simp [RunWrite.status, RunStatus.ended] at hended
          -- as long as the dispatcher holds it the run has not ended
          rw [not_ended_of_mayWrite hinv (List.mem_of_getElem? hi) hr
            (by simp [Writer.mayWrite, hid])] at hended
          simp at hended
      | _ => simp [next, hi] at h
  | createTask i taskId =>
    cases hi : s.writers[i]? with
    | none => simp [next, hi] at h
    | some x =>
      cases x with
      | dispatch mode runId =>
        cases mode with
        | createIssue => simp [next, hi] at h
        | runOnly =>
          simp only [next, hi, Option.some.injEq] at h
          subst h
          have hset : Inv (s.set i (.write runId (.running taskId))) := by
            refine inv_set hinv hi (fun id hid => hid) fun id status hw => ?_
            simp only [Writer.mayWrite, Bool.and_eq_true] at hw ⊢
            exact hw.1
          exact ⟨⟨hset.stays.recorded, hset.stays.kept⟩, hset.endings, hset.quiet, hset.targets⟩
      | _ => simp [next, hi] at h
  | skip i reason =>
    cases hi : s.writers[i]? with
    | none => simp [next, hi] at h
    | some x =>
      cases x with
      | dispatch mode runId =>
        simp only [next, hi, Option.some.injEq] at h
        subst h
        exact inv_set hinv hi (fun id hid => hid) fun id status hw => hw
      | _ => simp [next, hi] at h
  | fail i reason =>
    simp only [next, Option.map_eq_some_iff, Option.bind_eq_some_iff] at h
    rcases h with ⟨runId, ⟨x, hi, hfails⟩, rfl⟩
    -- who may fail the run could write it already
    have hwrite : ∀ id status, (Writer.write runId (.failed reason)).mayWrite id status = true →
        x.mayWrite id status = true := by
      intro id status hw
      simp only [Writer.mayWrite, Bool.and_eq_true] at hw
      cases x <;> simp_all [Writer.fails?, Writer.mayWrite]
    refine inv_set hinv hi (fun id hid => ?_) hwrite
    cases x <;> simp_all [Writer.fails?, Writer.runId?]
  | finish i =>
    cases hi : s.writers[i]? with
    | none => simp [next, hi] at h
    | some x =>
      cases x with
      | linked runId =>
        simp only [next, hi, Option.some.injEq] at h
        subst h
        exact inv_set hinv hi (fun id hid => by simp [Writer.runId?] at hid) fun id status hw => by
          simp [Writer.mayWrite] at hw
      | _ => simp [next, hi] at h
  | perform i now =>
    cases hpending : (s.writers[i]?).bind Writer.pending? with
    | none => simp [next, hpending] at h
    | some p =>
      rcases p with ⟨runId, w⟩
      simp only [next, hpending, Option.map_eq_some_iff] at h
      rcases h with ⟨q, hupd, rfl⟩
      rcases Option.bind_eq_some_iff.1 hpending with ⟨x, hi, hx⟩
      have hmem : x ∈ s.writers := List.mem_of_getElem? hi
      refine inv_update hinv hi hupd ?_ (fun id hid => by simp [Writer.runId?] at hid)
        (fun r hr hid hended => ?_) fun hended => ?_
      · cases x <;> simp_all [Writer.pending?, Writer.runId?]
      · -- the run had ended already: this can only be its own status again
        have hquiet := settled_iff.1 (hinv.quiet r hr hended) x hmem
        cases x <;> simp_all [Writer.pending?, Writer.mayWrite]
      · simpa [endsLast, hpending, hended] using hlast
  | crash i =>
    simp only [next, Option.map_eq_some_iff] at h
    rcases h with ⟨x, hi, rfl⟩
    exact inv_set hinv hi (fun id hid => by simp [Writer.runId?] at hid) fun id status hw => by
      simp [Writer.mayWrite] at hw
  | syncRunFromIssue issueId outcome =>
    simp only [next, Option.map_eq_some_iff] at h
    rcases h with ⟨r, hget, rfl⟩
    -- the listener has read an active run
    rcases getAutopilotRunByIssue_spec hget with ⟨hr, hopen⟩
    exact inv_add hinv hr rfl fun hended => by simp [hopen] at hended
  | syncRunFromTask taskId outcome =>
    cases hfind : s.tasks.find? fun t => t.id == taskId with
    | none => simp [next, hfind] at h
    | some t =>
      simp only [next, hfind, Option.map_eq_some_iff] at h
      rcases h with ⟨r, hget, rfl⟩
      refine inv_add hinv (List.mem_of_find?_eq_some hget) rfl fun hended => ?_
      -- an ended run is written again with the status it has
      have hsame : r.status = outcome.write.status := by
        simpa [endsLast, hfind, hget, hended] using hlast
      simp [Writer.mayWrite, hsame]
  | syncRunFromLinkedIssueTask issueId reason =>
    simp only [next, Option.map_eq_some_iff] at h
    rcases h with ⟨r, hget, rfl⟩
    rcases getAutopilotRunByIssue_spec hget with ⟨hr, hopen⟩
    exact inv_add hinv hr rfl fun hended => by simp [hopen] at hended
  | recoverPartial triggerId plannedAt =>
    cases hget : getAutopilotRunByTriggerAndPlanned s.runs triggerId plannedAt with
    | none => simp [next, hget] at h
    | some r =>
      cases hcomplete : isAutopilotRunComplete r with
      | true => simp [next, hget, hcomplete] at h
      | false =>
        simp only [next, hget, hcomplete, Bool.false_eq_true, if_false, Option.some.injEq] at h
        subst h
        refine inv_add hinv (List.mem_of_find?_eq_some hget) rfl fun hended => ?_
        rw [not_ended_of_incomplete hcomplete] at hended
        simp at hended
  | failAutopilotRunsByIssue issueId now =>
    simp only [next, Option.map_eq_some_iff] at h
    rcases h with ⟨q, hupd, rfl⟩
    exact inv_failByIssue hinv hupd hlast

/-- As long as runs end when nobody else has yet to write them, a run that was completed,
failed or skipped stays so. -/
theorem ended_stays (s : State)
    (hs : machine.ReachableUnder (fun s a => endsLast s a = true) s) : StaysEnded s := by
  have hinv : Inv s := by
    revert s
    refine Machine.invariant_under ?_ fun s a s' _ hinv hlast h => inv_step hinv hlast h
    rintro s ⟨hruns, -, hwriters, hended⟩
    refine ⟨⟨?_, ?_⟩, ?_, ?_, ?_⟩
    · simp [hruns]
    · simp [hended]
    · simp [hended]
    · simp [hruns]
    · simp [hwriters]
  exact hinv.stays

/-! ## Runs -/

def State.empty : State := ⟨Table.empty, [], [], []⟩

theorem init_empty : machine.Init State.empty := ⟨rfl, rfl, rfl, rfl⟩

/-- A task that ends after its dispatcher has linked it, and a run that is skipped. -/
def linkedRun : List Act :=
  [.createRun .runOnly 1 7 (some 0) none, .createTask 0 5, .perform 0 10,
    .syncRunFromTask 5 (.completed none), .perform 1 20,
    .recordSkippedRun 2 7 (some 60) none "agent runtime is offline", .perform 2 30]

theorem ended_stays_linkedRun :
    ∃ s, s.ended = [(1, .completed), (2, .skipped)] ∧ StaysEnded s := by
  rcases Machine.reachableUnder_of_run machine endsLast init_empty linkedRun
    (fun s => s.ended == [(1, .completed), (2, .skipped)]) (by decide) with ⟨s, hs, hended⟩
  exact ⟨s, by simpa using hended, ended_stays s hs⟩

/-- The task is claimed and ends before its dispatcher writes the linkage. -/
def lateLinkage : List Act :=
  [.createRun .runOnly 1 7 (some 0) none, .createTask 0 5, .syncRunFromTask 5 (.completed none),
    .perform 1 10, .perform 0 20]

/-- The run that the task completed is running again. -/
theorem late_linkage_reopens : ¬ ∀ s, machine.Reachable s → StaysEnded s := by
  intro hclaim
  rcases Machine.reachable_of_run machine init_empty lateLinkage
    (fun s => s.ended.any fun e => s.runs.rows.all fun r => !(r.id == e.1 && r.status == e.2))
    (by decide) with ⟨s, -, hs, hlost⟩
  rcases List.any_eq_true.1 hlost with ⟨e, he, hnone⟩
  rcases (hclaim s hs).kept e he with ⟨r, hr, hid, hstatus⟩
  have hrow := List.all_eq_true.1 hnone r hr
  simp [hid, hstatus] at hrow

end Orynx.Autopilot.Ended
