import Orynx.Issue.RunTrigger
import Orynx.Lib.Machine

/-! # No run without invoke permission

`UpdateIssue` and `BatchUpdateIssues` against `canInvokeAgent`, over runs in which the requests of
all callers and whatever else writes to the store take turns. A permission is judged in the state in
which the task is enqueued, and on the caller that the request was resolved to. The wake of the
parent of a closed issue, which no gate stands before, is left out.

* `batchUpdateIssues_permitted_iff`: the tasks of a request are permitted exactly if it makes no
  promotion that passes no gate;
* `run_permitted`: so they are in runs without such a promotion;
* `promotions_slip`: a promotion starts the private agent of somebody else.
-/

namespace Orynx.RunTrigger

open Lib Orynx.Task Orynx.Attribution
open IssueUpdate (AssigneeType)

/-! ## The gap -/

/-- Whether the caller may invoke the agent whose task it is. -/
def Enqueued.permitted (e : Enqueued) (c : Caller) (workspaceId : UUID) : Bool :=
  (e.store.agent e.task.agentID).any fun agent =>
    c.canInvoke e.store workspaceId e.task.agentID agent

/-- The write is a promotion out of backlog that starts a run, of a request without an assignee,
by a caller who may not invoke the agent that would run. -/
def ungated (w : Store) (now : Timestamp) (c : Caller) (workspaceId : UUID) (u : Updates)
    (id : UUID) : Bool :=
  (w.getIssueInWorkspace id workspaceId).any fun prev =>
    let issue := u.apply prev
    !u.touchesAssignee && !u.suppressRun &&
      (u.input prev).source (writeProbe c issue) == some .status &&
      (runner w issue).any fun (type, agentId, agent) =>
        getsThrough w now c issue type agentId agent && !c.canInvoke w workspaceId agentId agent

/-- So is one of the writes, in the state that those before it leave. -/
def ungatedAlong (now : Timestamp) (c : Caller) (workspaceId : UUID) (u : Updates) :
    Store → List UUID → Bool
  | _, [] => false
  | w, id :: ids =>
    ungated w now c workspaceId u id ||
      ungatedAlong now c workspaceId u (updateIssue w now c workspaceId u id).store ids

section Permitted

variable {w : Store} {now : Timestamp} {c : Caller} {workspaceId : UUID} {u : Updates} {id : UUID}

/-- A request that names no assignee changes none. -/
theorem source_of_not_touchesAssignee {prev : Issue} {source : RunEnqueueSource}
    {probe : IssueTriggerProbe} (htouches : u.touchesAssignee = false)
    (h : (u.input prev).source probe = some source) : source = .status := by
  have hchanged : (u.input prev).assigneeChanged = false := by
    simp only [Updates.touchesAssignee, Bool.or_eq_false_iff, Option.isSome_eq_false_iff,
      Option.isNone_iff_eq_none] at htouches
    simp [Updates.input, htouches.1, htouches.2]
  have hcreate : (u.input prev).isCreate = false := rfl
  simp only [IssueTriggerInput.source, hchanged, hcreate, Bool.or_self, Bool.false_eq_true,
    if_false, Option.ite_none_right_eq_some, Option.ite_none_left_eq_some, Option.some.injEq] at h
  exact h.2.2.symm

theorem updateIssue_permitted_iff :
    (∀ e ∈ (updateIssue w now c workspaceId u id).enqueued, e.permitted c workspaceId = true) ↔
      ungated w now c workspaceId u id = false := by
  cases hprev : w.getIssueInWorkspace id workspaceId with
  | none => simp [updateIssue_absent hprev, ungated, hprev]
  | some prev =>
    constructor
    · -- a run without a gate leaves a task that is not permitted
      intro hall
      rw [Bool.eq_false_iff]
      intro hungated
      simp only [ungated, hprev, Option.any_some, Bool.and_eq_true, Bool.not_eq_true', beq_iff_eq,
        Option.any_eq_true] at hungated
      rcases hungated with ⟨⟨⟨htouches, hasked⟩, hsource⟩, ⟨type, agentId, agent⟩, hrunner,
        hthrough, hdenied⟩
      have hstarts : Starts w now c workspaceId u prev .status type agentId agent :=
        ⟨by simp [Updates.accepted, htouches], hasked, hsource, hrunner, hthrough⟩
      rcases exists_updateIssue_enqueued hprev hstarts with ⟨e, he, hagent⟩
      rcases mem_updateIssue_enqueued hprev he with ⟨-, -, -, -, hstore, -⟩
      have hpermitted : c.canInvoke w workspaceId agentId agent = true := by
        have hfound : e.store.agent e.task.agentID = some agent := by
          rw [hstore, hagent]
          exact (runner_cases hrunner).1.found
        have h := hall e he
        rw [Enqueued.permitted, hfound, Option.any_some, hstore, hagent] at h
        exact h
      cases hdenied.symm.trans hpermitted
    · intro hgated e he
      rcases mem_updateIssue_enqueued hprev he with ⟨source, type, agent, hstarts, hstore, -⟩
      have hfound : e.store.agent e.task.agentID = some agent := by
        rw [hstore]
        exact (runner_cases hstarts.runner).1.found
      rw [Enqueued.permitted, hfound, Option.any_some, hstore]
      change c.canInvoke w workspaceId e.task.agentID agent = true
      cases htouches : u.touchesAssignee with
      | true =>
        -- the pair was validated for this caller
        have hvalid := hstarts.accepted
        rw [Updates.accepted, htouches, Bool.not_true, Bool.false_or,
          Option.isNone_iff_eq_none] at hvalid
        have hws : prev.workspaceId = workspaceId := by
          simpa using (Option.filter_eq_some_iff.1 hprev).2
        exact canInvoke_of_validateAssigneePair hvalid hws hstarts.runner
      | false =>
        have hsource := source_of_not_touchesAssignee htouches hstarts.source
        by_contra hdenied
        rw [Bool.not_eq_true] at hdenied
        have hungated : ungated w now c workspaceId u id = true := by
          have hstatus := hstarts.source
          rw [hsource] at hstatus
          simp [ungated, hprev, htouches, hstarts.asked, hstatus, hstarts.runner, hstarts.through,
            hdenied]
        cases hgated.symm.trans hungated

/-- A request leaves only permitted tasks, unless a promotion of it passes no gate. -/
theorem batchUpdateIssues_permitted_iff {ids : List UUID} :
    (∀ e ∈ (batchUpdateIssues now c workspaceId u w ids).enqueued,
        e.permitted c workspaceId = true) ↔
      ungatedAlong now c workspaceId u w ids = false := by
  induction ids generalizing w with
  | nil => simp [batchUpdateIssues, ungatedAlong]
  | cons id ids ih =>
    rw [ungatedAlong, Bool.or_eq_false_iff, ← ih, ← updateIssue_permitted_iff]
    simp only [batchUpdateIssues, List.mem_append, or_imp, forall_and]

end Permitted

/-! ## Runs -/

/-- A task with the request that it came with. -/
structure Started where
  caller : Caller
  workspaceId : UUID
  enqueued : Enqueued

def Started.permitted (r : Started) : Bool := r.enqueued.permitted r.caller r.workspaceId

/-- The store, and all that issue writes have started. -/
structure World where
  store : Store
  started : List Started

/-- `UpdateIssue` is a request for one issue; everything else may do anything. -/
inductive Act where
  | request (now : Timestamp) (workspaceId : UUID) (headers : Headers) (u : Updates)
      (ids : List UUID)
  | elsewhere (f : Store → Store)

def World.next (s : World) : Act → World
  | .request now workspaceId headers u ids =>
    let c := resolveCaller s.store workspaceId headers
    let written := batchUpdateIssues now c workspaceId u s.store ids
    { store := written.store
      started := s.started ++ written.enqueued.map fun e => ⟨c, workspaceId, e⟩ }
  | .elsewhere f => { s with store := f s.store }

def machine : Machine World Act where
  Init s := s.started = []
  next s a := some (s.next a)

/-- The step makes no promotion without a gate. -/
def gated (s : World) : Act → Bool
  | .request now workspaceId headers u ids =>
    !ungatedAlong now (resolveCaller s.store workspaceId headers) workspaceId u s.store ids
  | .elsewhere _ => true

theorem permitted_step {s : World} {a : Act} (hok : gated s a = true)
    (h : ∀ r ∈ s.started, r.permitted = true) : ∀ r ∈ (s.next a).started, r.permitted = true := by
  cases a with
  | elsewhere f => exact h
  | request now workspaceId headers u ids =>
    intro r hr
    rcases List.mem_append.1 hr with hr | hr
    · exact h r hr
    · rcases List.mem_map.1 hr with ⟨e, he, rfl⟩
      rw [gated, Bool.not_eq_true'] at hok
      exact batchUpdateIssues_permitted_iff.2 hok e he

/-- Every task that an issue write starts is permitted, in runs without an ungated promotion. A
request with one leaves a task that is not. -/
theorem run_permitted (s : World) :
    (machine.ReachableUnder (fun s a => gated s a = true) s →
      ∀ r ∈ s.started, r.permitted = true) ∧
    ∀ (w : Store) (now : Timestamp) (c : Caller) (workspaceId : UUID) (u : Updates)
      (ids : List UUID),
      (∀ e ∈ (batchUpdateIssues now c workspaceId u w ids).enqueued,
          e.permitted c workspaceId = true) ↔
        ungatedAlong now c workspaceId u w ids = false := by
  refine ⟨Machine.invariant_under (I := fun s => ∀ r ∈ s.started, r.permitted = true) ?_ ?_ s,
    fun w now c workspaceId u ids => batchUpdateIssues_permitted_iff⟩
  · intro s hinit r hr
    rw [show s.started = [] from hinit] at hr
    cases hr
  · intro s a s' _ h hok hn
    obtain rfl : s.next a = s' := Option.some.inj hn
    exact permitted_step hok h

/-! ## Three promotions -/

/-- Parked in backlog, unassigned. -/
def parkedIssue : Issue :=
  { id := 7, workspaceId := 9, status := .backlog, creatorType := .member, creatorId := some 1 }

/-- Agent 5 is the private agent of member 1 and leads squad 8. Member 2 runs agent 6, in task
30. -/
def office : Store where
  agent id :=
    if id = 5 then
      some { workspaceId := 9, ownerId := some 1, permissionMode := .ownerOnly, runtimeId := some 4 }
    else if id = 6 then
      some { workspaceId := 9, ownerId := some 2, permissionMode := .ownerOnly, runtimeId := some 4 }
    else none
  targets _ := []
  isMember user workspaceId := workspaceId == 9 && (user == 1 || user == 2)
  squad id := if id = 8 then some { workspaceId := 9, leaderId := 5 } else none
  online _ := true
  failClosed _ := some false
  issue k := if k = 7 then some parkedIssue else none
  tasks :=
    { rows := [{ id := 30, agentID := 6, runtimeID := 4, status := .running, createdAt := 1
                 attribution := { originatorUserID := some 2 } }]
      key_nodup := by decide
      index_nodup := by decide }
  autopilot _ := {}
  reviewSha _ := ""
  maxIssueRuns := none
  issue_id {k r} h := by
    split at h
    · rename_i hk
      rw [hk, ← Option.some.inj h]
      rfl
    · cases h

def office.opened : World := ⟨office, []⟩

def user (id : UUID) : Headers := .client id none none

def assign (type : AssigneeType) (id : UUID) : Updates :=
  { assigneeType := some (some type), assigneeId := some (some id) }

def promote : Updates := { status := some .todo }

/-- The owner promotes the issue of the agent. -/
def owned : List Act :=
  [.request 100 9 (user 1) (assign .agent 5) [7], .request 200 9 (user 1) promote [7]]

theorem run_permitted_owned : ∃ s : World,
    s.started.map (fun r => r.enqueued.task.agentID) = [5] ∧
      ∀ r ∈ s.started, r.permitted = true := by
  rcases Machine.reachableUnder_of_run machine gated (s := office.opened) rfl owned
    (fun s => s.started.map (fun r => r.enqueued.task.agentID) == [5]) (by decide +kernel) with
    ⟨s, hs, hstarted⟩
  exact ⟨s, beq_iff_eq.1 hstarted, (run_permitted s).1 hs⟩

/-- A colleague promotes it. -/
def promoted : List Act :=
  [.request 100 9 (user 1) (assign .agent 5) [7], .request 200 9 (user 2) promote [7]]

/-- The permission that the assignment needed is withdrawn. -/
def withdrawn : List Act :=
  [.elsewhere fun w => { w with
      agent := fun id => (w.agent id).map fun a => { a with permissionMode := .publicTo }
      targets := fun _ => [{ targetType := .member, targetId := some 2 }] },
    .request 100 9 (user 2) (assign .agent 5) [7],
    .elsewhere fun w => { w with targets := fun _ => [] },
    .request 200 9 (user 2) promote [7]]

/-- An agent that acts for the colleague promotes an issue of the squad, which the owner has
created. -/
def relayed : List Act :=
  [.request 100 9 (user 1) (assign .squad 8) [7], .request 200 9 (.taskToken 6 30) promote [7]]

/-- Each of them starts the agent of the owner without permission. -/
theorem promotions_slip : ∀ run ∈ [promoted, withdrawn, relayed],
    ∃ s, machine.run office.opened run = some s ∧ machine.Reachable s ∧
      ∃ r ∈ s.started, r.enqueued.task.agentID = 5 ∧ r.permitted = false := by
  intro run hrun
  have hslip : (machine.run office.opened run).any (fun s => s.started.any fun r =>
      r.enqueued.task.agentID == 5 && !r.permitted) = true := by
    simp only [List.mem_cons, List.not_mem_nil, or_false] at hrun
    rcases hrun with rfl | rfl | rfl
    · decide +kernel
    · decide +kernel
    · decide +kernel
  rcases Machine.reachable_of_run machine (s := office.opened) rfl run _ hslip with ⟨s, hrun, hs, hp⟩
  rcases List.any_eq_true.1 hp with ⟨r, hr, hdenied⟩
  rw [Bool.and_eq_true, beq_iff_eq, Bool.not_eq_true'] at hdenied
  exact ⟨s, hrun, hs, r, hr, hdenied⟩

theorem promotion_slips :
    ¬ ∀ s, machine.Reachable s → ∀ r ∈ s.started, r.permitted = true := by
  intro hclaim
  rcases promotions_slip _ List.mem_cons_self with ⟨s, -, hs, r, hr, -, hdenied⟩
  cases hdenied.symm.trans (hclaim s hs r hr)

end Orynx.RunTrigger
