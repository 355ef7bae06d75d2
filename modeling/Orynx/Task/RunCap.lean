import Mathlib.Data.List.Sort
import Orynx.Lib.Window
import Orynx.Task.Plan

/-! # The run cap of an issue

`enqueueIssueTaskWithCommentPlan` and `enqueueMentionTaskWithCommentPlan`, behind every
assignment, mention, squad, thread and rerun enqueue, count the issue's recent runs and
insert theirs some time later. The deferred fallback and the retry clones do not count.

* `issueRunCapExceeded` is the guard, on the answer of `ListTasksByIssue`;
* `covered` are the steps that keep the cap: the guard's count is still good, or there is
  room anyway;
* `runCap_holds`: they keep it in every run, and any other step breaks it at once.
-/

namespace Orynx.Task.RunCap

open Lib Lib.Window

/-! ## The guard -/

/-- `issueRunWindow`. -/
def issueRunWindow : Nat := 30 * 60

/-- `defaultIssueRunCap`. -/
def defaultIssueRunCap : Int := 25

/-- `issueRunCap`, on what `strconv.Atoi` makes of `ORYNX_MAX_ISSUE_RUNS`. -/
def issueRunCap (maxIssueRuns : Option Int) : Int :=
  match maxIssueRuns with
  | some n => if 0 < n then n else defaultIssueRunCap
  | none => defaultIssueRunCap

/-- The `LIMIT` of `ListTasksByIssue`. -/
def listTasksLimit : Nat := 1000

/-- `ListTasksByIssue`: the newest rows of the issue. -/
def listTasksByIssue (q : TaskTable) (issueID : UUID) : List AgentTask :=
  ((q.rows.filter fun t => t.issueID == some issueID).insertionSort
    fun t u => u.createdAt ≤ t.createdAt).take listTasksLimit

/-- `issueRunCapExceeded`, on the rows listed; a failed query lets the enqueue pass. -/
def issueRunCapExceeded (cap : Int) (now : Timestamp) (tasks : Option (List AgentTask)) :
    Bool × Nat :=
  match tasks with
  | none => (false, 0)
  | some tasks =>
    let n := tasks.countP (recent AgentTask.createdAt issueRunWindow now)
    (decide (cap ≤ n), n)

/-! ## The machine -/

structure Config where
  task : Task.Config
  maxIssueRuns : Option Int

def Config.cap (cfg : Config) : Int := issueRunCap cfg.maxIssueRuns

/-- An enqueue that the guard let pass: whether its query answered, and how many runs had
been created for the issue by then. -/
structure Call where
  issueID : UUID
  listed : Bool
  seen : Nat
deriving DecidableEq, Repr

/-- `created` is the history of the rows, as they were inserted. -/
structure State where
  sys : Task.State
  calls : List Call
  created : List AgentTask

/-- The runs that were created for the issue. -/
def State.runsOf (s : State) (issueID : UUID) : List AgentTask :=
  s.created.filter fun t => t.issueID == some issueID

/-- How many of them are recent. -/
def State.recentRuns (s : State) (issueID : UUID) : Nat :=
  (s.runsOf issueID).countP (recent AgentTask.createdAt issueRunWindow s.sys.now)

inductive Act where
  | queue (step : Task.Step)
  | checkRunCap (issueID : UUID) (listed : Bool)
  | createAgentTask (i : Nat) (id : UUID) (p : CreateAgentTaskParams)

/-- The rows a step of the queue inserts. -/
def inserts (cfg : Config) (s : Task.State) : Task.Step → List AgentTask
  | .insert stmt => (stmt.row s.now s.queue).toList
  | .failTask c =>
    match Task.failTask cfg.task.classify s.now s.queue c with
    | .ok (_, _, child) => child.toList
    | .error _ => []
  | _ => []

/-- An enqueue for an issue inserts its row as a step of its own. -/
def steps : Task.Step → Bool
  | .insert (.createAgentTask _ _) => false
  | _ => true

def next (cfg : Config) (s : State) : Act → Option State
  | .queue step =>
    if steps step then
      (Task.next cfg.task s.sys step).map fun sys =>
        { s with sys := sys, created := s.created ++ inserts cfg s.sys step }
    else none
  | .checkRunCap issueID listed =>
    let tasks := if listed then some (listTasksByIssue s.sys.queue issueID) else none
    if (issueRunCapExceeded cfg.cap s.sys.now tasks).1 then some s
    else some { s with calls := s.calls ++ [⟨issueID, listed, (s.runsOf issueID).length⟩] }
  | .createAgentTask i id p =>
    match s.calls[i]? with
    | none => none
    | some call =>
      if p.issueID = some call.issueID then
        (Task.next cfg.task s.sys (.insert (.createAgentTask id p))).map fun sys =>
          { sys := sys
            calls := s.calls.eraseIdx i
            created := s.created ++ [Task.createAgentTask s.sys.now id p] }
      else none

def machine (cfg : Config) : Machine State Act where
  Init s := (Task.machine cfg.task).Init s.sys ∧ s.calls = [] ∧ s.created = []
  next := next cfg

def State.empty : State := ⟨Task.State.empty, [], []⟩

theorem init_empty (cfg : Config) : (machine cfg).Init State.empty :=
  ⟨Task.init_empty cfg.task, rfl, rfl⟩

/-! ## The property -/

/-- No half hour holds more than `issueRunCap` runs created for one issue. -/
def RunCapHolds (cfg : Config) (s : State) : Prop :=
  ∀ issueID, Capped AgentTask.createdAt issueRunWindow cfg.cap (s.runsOf issueID)

/-- The issue has room for one more run. -/
def State.hasRoom (cfg : Config) (s : State) (issueID : UUID) : Bool :=
  decide ((s.recentRuns issueID : Int) < cfg.cap)

theorem State.hasRoom_iff {cfg : Config} {s : State} {issueID : UUID} :
    s.hasRoom cfg issueID = true ↔ (s.recentRuns issueID : Int) < cfg.cap := by
  simp [State.hasRoom]

/-- The count that let the enqueue pass still stands: the query answered, its `LIMIT` does
not hide the cap, and no run has been created for the issue since. -/
def Call.stands (cfg : Config) (s : State) (call : Call) : Bool :=
  call.listed && decide (cfg.cap ≤ listTasksLimit) && call.seen == (s.runsOf call.issueID).length

/-- A step that creates a run for an issue finds room for it, or inserts on a count that
still stands. -/
def covered (cfg : Config) (s : State) : Act → Bool
  | .queue step => (inserts cfg s.sys step).all fun t => t.issueID.all (s.hasRoom cfg)
  | .checkRunCap _ _ => true
  | .createAgentTask i _ _ =>
    (s.calls[i]?).all fun call => call.stands cfg s || s.hasRoom cfg call.issueID

/-! ## The invariant -/

/-- `room` is what the guard has seen: there is room as long as its count stands. -/
structure Inv (cfg : Config) (s : State) : Prop where
  past : ∀ t ∈ s.created, t.createdAt ≤ s.sys.now
  rows : ∀ issueID, ∀ p : Timestamp → Bool,
    (s.runsOf issueID).countP (fun t => p t.createdAt) ≤
      (s.sys.queue.rows.filter fun t => t.issueID == some issueID).countP fun t => p t.createdAt
  seen : ∀ call ∈ s.calls, call.seen ≤ (s.runsOf call.issueID).length
  room : ∀ call ∈ s.calls, call.stands cfg s = true → s.hasRoom cfg call.issueID = true

/-- The listed rows are the newest, so the `LIMIT` hides a recent row only behind a
thousand others. -/
theorem countP_listTasksByIssue (q : TaskTable) (issueID : UUID) (now : Timestamp) :
    (listTasksByIssue q issueID).countP (recent AgentTask.createdAt issueRunWindow now) =
      min listTasksLimit ((q.rows.filter fun t => t.issueID == some issueID).countP
        (recent AgentTask.createdAt issueRunWindow now)) := by
  let newestFirst : AgentTask → AgentTask → Prop := fun t u => u.createdAt ≤ t.createdAt
  have : Std.Total newestFirst := ⟨fun t u => Nat.le_total u.createdAt t.createdAt⟩
  have : IsTrans AgentTask newestFirst := ⟨fun t u v h h' => Nat.le_trans h' h⟩
  have hsorted := List.pairwise_insertionSort newestFirst
    (q.rows.filter fun t => t.issueID == some issueID)
  -- what is newer than a recent row is recent
  have hrecent : ∀ {t u : AgentTask}, newestFirst t u →
      recent AgentTask.createdAt issueRunWindow now u = true →
      recent AgentTask.createdAt issueRunWindow now t = true := by
    intro t u htu hu
    have hle : u.createdAt ≤ t.createdAt := htu
    simp only [recent, decide_eq_true_eq] at hu ⊢
    exact Nat.lt_of_lt_of_le hu (Nat.add_le_add_right hle _)
  rw [listTasksByIssue, countP_take (hsorted.imp hrecent),
    (List.perm_insertionSort newestFirst _).countP_eq]

/-- A count that passes the guard leaves room, unless the `LIMIT` hides the cap. -/
theorem room_of_not_exceeded {cap : Int} {now : Timestamp} {q : TaskTable} {issueID : UUID}
    (hlimit : cap ≤ listTasksLimit)
    (h : (issueRunCapExceeded cap now (some (listTasksByIssue q issueID))).1 = false) :
    ((q.rows.filter fun t => t.issueID == some issueID).countP
      (recent AgentTask.createdAt issueRunWindow now) : Int) < cap := by
  simp only [issueRunCapExceeded, countP_listTasksByIssue, decide_eq_false_iff_not] at h
  omega

/-! ## What a step inserts -/

/-- The rows of an issue that a predicate on the creation time picks. -/
def countAt (rows : List AgentTask) (issueID : UUID) (p : Timestamp → Bool) : Nat :=
  (rows.filter fun t => t.issueID == some issueID).countP fun t => p t.createdAt

theorem countAt_append (rows rows' : List AgentTask) (issueID : UUID) (p : Timestamp → Bool) :
    countAt (rows ++ rows') issueID p = countAt rows issueID p + countAt rows' issueID p := by
  rw [countAt, List.filter_append, List.countP_append]
  rfl

theorem countAt_insert {q q' : TaskTable} {row : AgentTask} (h : q.insert? row = some q')
    (issueID : UUID) (p : Timestamp → Bool) :
    countAt q'.rows issueID p = countAt q.rows issueID p + countAt [row] issueID p := by
  rw [Table.insert?_rows h, countAt_append]

theorem countAt_update {q q' : TaskTable} {u : Update AgentTask} {b : Bool}
    (h : q.update? u = some q') (hu : ∀ r ∈ q.rows, Carried b r (u.apply r)) (issueID : UUID)
    (p : Timestamp → Bool) : countAt q.rows issueID p ≤ countAt q'.rows issueID p := by
  rw [countAt, countAt, List.countP_filter, List.countP_filter, Table.update?_rows h,
    List.countP_map]
  refine List.countP_mono_left fun t ht hp => ?_
  simp only [Bool.and_eq_true, beq_iff_eq, Function.comp_apply] at hp ⊢
  rw [(hu t ht).createdAt]
  exact ⟨hp.1, (hu t ht).issueID issueID hp.2⟩

theorem createdAt_row {now : Timestamp} {q : TaskTable} {stmt : InsertStmt} {row : AgentTask}
    (h : stmt.row now q = some row) : row.createdAt = now := by
  cases stmt with
  | createRetryTask id parentID =>
    simp only [InsertStmt.row, Option.map_eq_some_iff] at h
    rcases h with ⟨r, -, rfl⟩
    rfl
  | _ =>
    simp only [InsertStmt.row, Option.some.injEq] at h
    rw [← h]
    rfl

/-- What a step of the queue does to the table and the clock. -/
structure Grows (s s' : Task.State) (rows : List AgentTask) : Prop where
  rows_eq : rows = [] ∨ ∃ row, rows = [row] ∧ row.createdAt = s.now ∧ s'.now = s.now
  later : s.now ≤ s'.now
  counts : ∀ issueID p,
    countAt s.queue.rows issueID p + countAt rows issueID p ≤ countAt s'.queue.rows issueID p

/-- Rows that stay, and are carried along. -/
theorem Grows.keep {s s' : Task.State} (hlater : s.now ≤ s'.now)
    (hcounts : ∀ issueID p,
      countAt s.queue.rows issueID p ≤ countAt s'.queue.rows issueID p) : Grows s s' [] :=
  ⟨.inl rfl, hlater, fun issueID p => hcounts issueID p⟩

/-- A failed run, and its retry if it gets one. -/
theorem grows_failTask {cfg : Config} {s s' : Task.State} {c : FailTaskCall}
    (h : Task.next cfg.task s (.failTask c) = some s') :
    Grows s s' (inserts cfg s (.failTask c)) := by
  simp only [Task.next, State.commit_eq_some] at h
  rcases h with ⟨q, hq, rfl⟩
  have hinserts : inserts cfg s (.failTask c) =
      match Task.failTask cfg.task.classify s.now s.queue c with
      | .ok (_, _, child) => child.toList
      | .error _ => [] := rfl
  rw [hinserts]
  cases hf : Task.failTask cfg.task.classify s.now s.queue c with
  | error e => simp [hf, Except.map] at hq
  | ok r =>
    rcases r with ⟨q₁, t, child⟩
    have hqq : q₁ = q := by simpa [hf, Except.map] using hq
    subst hqq
    rcases failTask_ok hf with ⟨r, -, failed, -, -, hupd, hcase⟩
    have hfailed := countAt_update hupd fun r _ => c.carried cfg.task.classify s.now r
    rcases hcase with ⟨-, rfl, rfl⟩ | ⟨-, rfl, hins⟩
    · exact .keep (Nat.le_refl _) hfailed
    · -- the retry is created at the instant of the failure
      refine ⟨.inr ⟨_, rfl, rfl, rfl⟩, Nat.le_refl _, fun issueID p => ?_⟩
      have hmore := countAt_insert hins issueID p
      have hless := hfailed issueID p
      simp only [Option.toList_some]
      omega

theorem grows_of_next {cfg : Config} {s s' : Task.State} {step : Task.Step}
    (h : Task.next cfg.task s step = some s') : Grows s s' (inserts cfg s step) := by
  cases step with
  | failTask c => exact grows_failTask h
  | insert stmt =>
    cases next_effect h with
    | @insert _ row q hrow hins =>
      have hrows : inserts cfg s (.insert stmt) = [row] := by simp [inserts, hrow]
      rw [hrows]
      refine ⟨.inr ⟨row, rfl, createdAt_row hrow, rfl⟩, Nat.le_refl _, fun issueID p => ?_⟩
      exact Nat.le_of_eq (countAt_insert hins issueID p).symm
  | update stmt =>
    cases next_effect h with
    | update hadm hupd =>
      exact .keep (Nat.le_refl _) (countAt_update hupd fun r hr => UpdateStmt.carried hadm hr)
  | claimAgentTask a locked pick =>
    cases next_effect h with
    | claim _ _ hpick hupd =>
      rcases claim_pick hpick with ⟨t, ht, hid, -, hqueued⟩
      have hpicked : ∀ x ∈ s.queue.rows, x.id = pick → x.status = .queued := by
        intro x hx hxid
        rw [s.queue.eq_of_key hx ht (hxid.trans hid.symm), hqueued]
      exact .keep (Nat.le_refl _)
        (countAt_update hupd fun r hr => claimAgentTask_carried hpicked hr)
  | tick t =>
    cases next_effect h with
    | tick hlater => exact .keep hlater fun _ _ => Nat.le_refl _
  | lockAgent a =>
    cases next_effect h with
    | lock => exact .keep (Nat.le_refl _) fun _ _ => Nat.le_refl _
  | countRunningTasks a =>
    cases next_effect h with
    | count => exact .keep (Nat.le_refl _) fun _ _ => Nat.le_refl _
  | releaseAgent a =>
    cases next_effect h with
    | release => exact .keep (Nat.le_refl _) fun _ _ => Nat.le_refl _

/-! ## The steps -/

theorem runsOf_append {s s' : State} {rows : List AgentTask} (h : s'.created = s.created ++ rows)
    (issueID : UUID) : s'.runsOf issueID =
      s.runsOf issueID ++ rows.filter fun t => t.issueID == some issueID := by
  rw [State.runsOf, h, List.filter_append, State.runsOf]

/-- A step that creates rows, or none, and drops or keeps calls. -/
theorem Inv.grow {cfg : Config} {s s' : State} (hinv : Inv cfg s) {rows : List AgentTask}
    (hgrows : Grows s.sys s'.sys rows) (hcreated : s'.created = s.created ++ rows)
    (hcalls : ∀ call ∈ s'.calls, call ∈ s.calls) : Inv cfg s' := by
  have hruns := runsOf_append hcreated
  have hlater := hgrows.later
  constructor
  · intro t ht
    rw [hcreated] at ht
    rcases List.mem_append.1 ht with ht | ht
    · exact Nat.le_trans (hinv.past t ht) hlater
    · rcases hgrows.rows_eq with rfl | ⟨row, rfl, hat, -⟩
      · simp at ht
      · have htr : t = row := by simpa using ht
        rw [htr, hat]
        exact hlater
  · intro issueID p
    have hold := hinv.rows issueID p
    have hcounts := hgrows.counts issueID p
    rw [hruns, List.countP_append]
    simp only [countAt] at hcounts
    omega
  · intro call hcall
    have hold := hinv.seen call (hcalls call hcall)
    rw [hruns, List.length_append]
    omega
  · intro call hcall hstands
    have hold := hinv.seen call (hcalls call hcall)
    simp only [Call.stands, Bool.and_eq_true, beq_iff_eq] at hstands
    have hsame : s'.runsOf call.issueID = s.runsOf call.issueID := by
      -- a run created for the issue would have outdated the count
      have hlength := hstands.2
      rw [hruns, List.length_append] at hlength
      have hnil : (rows.filter fun t => t.issueID == some call.issueID) = [] :=
        List.length_eq_zero_iff.1 (by omega)
      rw [hruns, hnil, List.append_nil]
    have hroom := hinv.room call (hcalls call hcall) (by
      simp only [Call.stands, Bool.and_eq_true, beq_iff_eq]
      exact ⟨hstands.1, hsame ▸ hstands.2⟩)
    -- time only takes runs out of the window
    have hle : s'.recentRuns call.issueID ≤ s.recentRuns call.issueID := by
      rw [State.recentRuns, hsame]
      exact countP_recent_le hlater _
    rw [State.hasRoom_iff] at hroom ⊢
    omega

/-- A row that finds room keeps the cap. -/
theorem RunCapHolds.grow {cfg : Config} {s s' : State} (h : RunCapHolds cfg s)
    {rows : List AgentTask} (hgrows : Grows s.sys s'.sys rows)
    (hcreated : s'.created = s.created ++ rows)
    (hroom : ∀ t ∈ rows, ∀ issueID, t.issueID = some issueID → s.hasRoom cfg issueID = true) :
    RunCapHolds cfg s' := by
  intro issueID
  rw [runsOf_append hcreated]
  rcases hgrows.rows_eq with rfl | ⟨row, rfl, hat, -⟩
  · simpa using h issueID
  · -- a run of another issue counts nothing here
    by_cases hissue : row.issueID = some issueID
    · have hfull := hroom row List.mem_cons_self issueID hissue
      rw [State.hasRoom_iff] at hfull
      rw [List.filter_cons_of_pos (by simp [hissue]), List.filter_nil]
      refine (h issueID).snoc ?_
      rw [hat]
      exact hfull
    · rw [List.filter_cons_of_neg (by simpa using hissue), List.filter_nil, List.append_nil]
      exact h issueID

/-- A row that finds none breaks it. -/
theorem not_runCapHolds_grow {cfg : Config} {s s' : State} (hinv : Inv cfg s)
    {rows : List AgentTask} (hgrows : Grows s.sys s'.sys rows)
    (hcreated : s'.created = s.created ++ rows) {t : AgentTask} (ht : t ∈ rows) {issueID : UUID}
    (hissue : t.issueID = some issueID) (hfull : s.hasRoom cfg issueID = false) :
    ¬RunCapHolds cfg s' := by
  intro h
  have hcapped := h issueID
  rcases hgrows.rows_eq with rfl | ⟨row, rfl, hat, -⟩
  · simp at ht
  · have htr : t = row := by simpa using ht
    subst htr
    have hruns : s'.runsOf issueID = s.runsOf issueID ++ [t] := by
      rw [runsOf_append hcreated, List.filter_cons_of_pos (by simp [hissue]), List.filter_nil]
    rw [hruns] at hcapped
    refine not_capped_snoc (by decide) ?_ ?_ hcapped
    · intro x hx
      rw [hat]
      exact hinv.past x (List.mem_filter.1 hx).1
    · -- without room the window is full already
      have hle : cfg.cap ≤ (s.recentRuns issueID : Int) := by
        by_contra hlt
        have hroom := State.hasRoom_iff.2 (Int.not_le.1 hlt)
        simp [hfull] at hroom
      rw [hat]
      exact hle

theorem inv_checkRunCap {cfg : Config} {s : State} (hinv : Inv cfg s) {issueID : UUID}
    {listed : Bool}
    (h : (issueRunCapExceeded cfg.cap s.sys.now
      (if listed then some (listTasksByIssue s.sys.queue issueID) else none)).1 = false) :
    Inv cfg { s with calls := s.calls ++ [⟨issueID, listed, (s.runsOf issueID).length⟩] } := by
  refine ⟨hinv.past, hinv.rows, ?_, ?_⟩
  · intro call hcall
    rcases List.mem_append.1 hcall with hcall | hcall
    · exact hinv.seen call hcall
    · have hnew : call = ⟨issueID, listed, (s.runsOf issueID).length⟩ := by simpa using hcall
      rw [hnew]
      exact Nat.le_refl _
  · intro call hcall hstands
    rcases List.mem_append.1 hcall with hcall | hcall
    · exact hinv.room call hcall hstands
    · have hnew : call = ⟨issueID, listed, (s.runsOf issueID).length⟩ := by simpa using hcall
      subst hnew
      simp only [Call.stands, Bool.and_eq_true, decide_eq_true_eq] at hstands
      rcases hstands with ⟨⟨rfl, hlimit⟩, -⟩
      -- the table has at least the runs that the history has
      have hroom := room_of_not_exceeded hlimit (by simpa using h)
      have hrows := hinv.rows issueID fun t => decide (s.sys.now < t + issueRunWindow)
      refine State.hasRoom_iff.2 ?_
      show ((s.runsOf issueID).countP
        (recent AgentTask.createdAt issueRunWindow s.sys.now) : Int) < cfg.cap
      refine Int.lt_of_le_of_lt ?_ hroom
      exact_mod_cast hrows

/-- What a step of the machine creates. -/
theorem next_cases {cfg : Config} {s s' : State} {a : Act} (h : next cfg s a = some s') :
    (∃ rows, Grows s.sys s'.sys rows ∧ s'.created = s.created ++ rows ∧
      (∀ call ∈ s'.calls, call ∈ s.calls) ∧
      ((∃ step, a = .queue step ∧ rows = inserts cfg s.sys step) ∨
        ∃ i id p call, a = .createAgentTask i id p ∧ s.calls[i]? = some call ∧
          rows = [Task.createAgentTask s.sys.now id p] ∧ p.issueID = some call.issueID)) ∨
      (s'.created = s.created ∧ ((∃ issueID listed, a = .checkRunCap issueID listed) ∧
        (Inv cfg s → Inv cfg s'))) := by
  cases a with
  | queue step =>
    simp only [next, Option.ite_none_right_eq_some, Option.map_eq_some_iff] at h
    rcases h with ⟨-, sys, hsys, rfl⟩
    exact .inl ⟨_, grows_of_next hsys, rfl, fun _ h => h, .inl ⟨step, rfl, rfl⟩⟩
  | checkRunCap issueID listed =>
    refine .inr ?_
    cases hexceeded : (issueRunCapExceeded cfg.cap s.sys.now
        (if listed then some (listTasksByIssue s.sys.queue issueID) else none)).1 with
    | true =>
      simp only [next, hexceeded, if_true, Option.some.injEq] at h
      subst h
      exact ⟨rfl, ⟨issueID, listed, rfl⟩, id⟩
    | false =>
      simp only [next, hexceeded, Bool.false_eq_true, if_false, Option.some.injEq] at h
      subst h
      exact ⟨rfl, ⟨issueID, listed, rfl⟩, fun hinv => inv_checkRunCap hinv hexceeded⟩
  | createAgentTask i id p =>
    simp only [next] at h
    cases hcall : s.calls[i]? with
    | none => simp [hcall] at h
    | some call =>
      simp only [hcall, Option.ite_none_right_eq_some, Option.map_eq_some_iff] at h
      rcases h with ⟨hissue, sys, hsys, rfl⟩
      refine .inl ⟨_, grows_of_next hsys, rfl, ?_, .inr ⟨i, id, p, call, rfl, hcall, rfl, hissue⟩⟩
      exact fun call hcall => List.mem_of_mem_eraseIdx hcall

theorem inv_step {cfg : Config} {s s' : State} (hinv : Inv cfg s) {a : Act}
    (h : next cfg s a = some s') : Inv cfg s' := by
  rcases next_cases h with ⟨rows, hgrows, hcreated, hcalls, -⟩ | ⟨-, -, hcheck⟩
  · exact hinv.grow hgrows hcreated hcalls
  · exact hcheck hinv

theorem inv_reachable {cfg : Config} : ∀ s, (machine cfg).Reachable s → Inv cfg s := by
  refine Machine.invariant ?_ fun s a s' _ hinv hn => inv_step hinv hn
  intro s hs
  rcases hs with ⟨-, hcalls, hcreated⟩
  constructor
  · simp [hcreated]
  · simp [State.runsOf, hcreated]
  · simp [hcalls]
  · simp [hcalls]

/-- A covered step keeps the cap. -/
theorem runCapHolds_step {cfg : Config} {s s' : State} {a : Act} (hinv : Inv cfg s)
    (hcap : RunCapHolds cfg s) (hcovered : covered cfg s a = true) (h : next cfg s a = some s') :
    RunCapHolds cfg s' := by
  rcases next_cases h with ⟨rows, hgrows, hcreated, -, hact⟩ | ⟨hcreated, -⟩
  · refine hcap.grow hgrows hcreated ?_
    intro t ht issueID hissue
    rcases hact with ⟨step, rfl, rfl⟩ | ⟨i, id, p, call, rfl, hcall, rfl, hp⟩
    · simp only [covered, List.all_eq_true] at hcovered
      have hroom := hcovered t ht
      rwa [hissue, Option.all_some] at hroom
    · have htp : t.issueID = p.issueID := by
        rw [List.mem_singleton.1 ht]
        rfl
      have hsame : call.issueID = issueID := Option.some.inj (hp.symm.trans (htp.symm.trans hissue))
      simp only [covered, hcall, Option.all_some, Bool.or_eq_true] at hcovered
      rw [← hsame]
      rcases hcovered with hstands | hroom
      · exact hinv.room call (List.mem_of_getElem? hcall) hstands
      · exact hroom
  · intro issueID
    have hruns : s'.runsOf issueID = s.runsOf issueID := by
      rw [State.runsOf, hcreated, State.runsOf]
    rw [hruns]
    exact hcap issueID

/-- A step that is not covered breaks it. -/
theorem not_runCapHolds_step {cfg : Config} {s s' : State} {a : Act} (hinv : Inv cfg s)
    (hcovered : covered cfg s a = false) (h : next cfg s a = some s') : ¬RunCapHolds cfg s' := by
  rcases next_cases h with ⟨rows, hgrows, hcreated, -, hact⟩ | ⟨-, ⟨issueID, listed, rfl⟩, -⟩
  · rcases hact with ⟨step, rfl, rfl⟩ | ⟨i, id, p, call, rfl, hcall, rfl, hp⟩
    · simp only [covered, List.all_eq_false] at hcovered
      rcases hcovered with ⟨t, ht, hissue⟩
      cases hi : t.issueID with
      | none => simp [hi] at hissue
      | some issueID =>
        have hfull : s.hasRoom cfg issueID = false := by simpa [hi] using hissue
        exact not_runCapHolds_grow hinv hgrows hcreated ht hi hfull
    · simp only [covered, hcall, Option.all_some, Bool.or_eq_false_iff] at hcovered
      exact not_runCapHolds_grow hinv hgrows hcreated List.mem_cons_self hp hcovered.2
  · simp [covered] at hcovered

theorem cap_pos (cfg : Config) : 0 < cfg.cap := by
  unfold Config.cap issueRunCap
  cases cfg.maxIssueRuns with
  | none => decide
  | some n =>
    show 0 < if 0 < n then n else defaultIssueRunCap
    by_cases hn : 0 < n
    · rwa [if_pos hn]
    · rw [if_neg hn]
      decide

/-- The cap holds in every run whose steps are covered, and the first step that is not
breaks it. -/
theorem runCap_holds (cfg : Config) :
    (∀ s, (machine cfg).ReachableUnder (fun s a => covered cfg s a = true) s →
      RunCapHolds cfg s) ∧
    ∀ s a s', (machine cfg).Reachable s → covered cfg s a = false →
      (machine cfg).next s a = some s' → ¬RunCapHolds cfg s' := by
  constructor
  · refine Machine.invariant_under ?_ ?_
    · intro s hs issueID
      have hruns : s.runsOf issueID = [] := by simp [State.runsOf, hs.2.2]
      rw [hruns]
      exact .nil (Int.le_of_lt (cap_pos cfg))
    · intro s a s' hreach hcap hcovered hn
      exact runCapHolds_step (inv_reachable s hreach.reachable) hcap hcovered hn
  · intro s a s' hreach hcovered hn
    exact not_runCapHolds_step (inv_reachable s hreach) hcovered hn

/-- One run an issue, in half an hour. -/
def oneRun : Config := ⟨⟨fun _ => 1, id⟩, some 1⟩

/-- Issue 10 is assigned, and its run times out half an hour later and is retried. -/
def retriedRun : List Act :=
  [.checkRunCap 10 true,
    .createAgentTask 0 1 { agentID := 7, runtimeID := 3, issueID := some 10 },
    .queue (.lockAgent 7), .queue (.countRunningTasks 7), .queue (.claimAgentTask 7 [] 1),
    .queue (.tick 1800),
    .queue (.failTask { taskID := 1, failureReason := "timeout", childID := 2 })]

theorem runCap_holds_retriedRun :
    ∃ s, (machine oneRun).ReachableUnder (fun s a => covered oneRun s a = true) s ∧
      (s.runsOf 10).length = 2 ∧ RunCapHolds oneRun s := by
  rcases Machine.reachableUnder_of_run (machine oneRun) (covered oneRun) (init_empty _) retriedRun
    (fun s => (s.runsOf 10).length == 2) (by decide) with ⟨s, hs, hp⟩
  exact ⟨s, hs, by simpa using hp, (runCap_holds oneRun).1 s hs⟩

/-- A comment on an issue with a run queues the assignee's fallback, which nothing counts. -/
theorem fallback_exceeds_runCap :
    ¬∀ (cfg : Config) (s : State), (machine cfg).Reachable s → RunCapHolds cfg s := by
  intro hclaim
  rcases Machine.reachable_of_run (machine oneRun) (init_empty _)
    [.checkRunCap 10 true,
      .createAgentTask 0 1 { agentID := 7, runtimeID := 3, issueID := some 10 },
      .queue (.insert (.createDeferredAgentTask 2
        { agentID := 8, runtimeID := 3, issueID := 10, escalationForTaskID := some 1,
          fireAt := 300 }))]
    (fun s => (s.runsOf 10).countP (within AgentTask.createdAt issueRunWindow 0) == 2)
    (by decide) with ⟨s, -, hs, hp⟩
  have htwo : (s.runsOf 10).countP (within AgentTask.createdAt issueRunWindow 0) = 2 := by
    simpa using hp
  have hcap := hclaim oneRun s hs 10 0
  rw [htwo] at hcap
  exact absurd hcap (by decide)

end Orynx.Task.RunCap
