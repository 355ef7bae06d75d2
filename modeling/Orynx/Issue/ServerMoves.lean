import Orynx.Issue.ChildDone
import Orynx.Lib.Machine
import Orynx.Lib.Parties

/-! # Status moves by the server

Four functions read an issue's status, run further queries, and then write a status through
`UpdateIssueStatus`, which looks at the id and the workspace only. Users and agents move the issue
in between.

* `Phase`: the statements of the four functions and of what calls them;
* `Justified`: no write of theirs met a status that its guard excludes;
* `respectsGuards`: the move leaves every guard that was read, and has not been written on, true;
* `moves_justified`: then every server write is justified;
* `done_issue_reopened`: a user closes an issue that is about to be sent to review.
-/

namespace Orynx.ServerMoves

open Lib
open Autopilot (IssueStatus)
open IssueUpdate (AssigneeType)
open ChildDone

/-! ## Writes -/

/-- The functions that write, the last for the reset in `HandleFailedTasks`. -/
inductive Kind where
  | autoCloseEpic
  | autoAdvanceCompletedIssue
  | advanceIssueToDone
  | resetStuck
deriving DecidableEq, Repr

def Kind.status : Kind → IssueStatus
  | autoCloseEpic => .inReview
  | autoAdvanceCompletedIssue => .inReview
  | advanceIssueToDone => .done
  | resetStuck => .todo

/-- The statuses from which the function moves an issue. -/
def Kind.guard : Kind → IssueStatus → Bool
  | autoCloseEpic, st => !st.terminal && st != .backlog
  | autoAdvanceCompletedIssue, st => st == .inProgress
  | advanceIssueToDone, st => !st.terminal
  | resetStuck, st => st == .inProgress

/-- The next statement of a function, with the issue as it was read. `notifyParentOfChildDone` and
its batch run the first three for each parent, `autoAdvanceCompletedIssue` the next four, a terminal
`pull_request` event the next three for each issue it names, and `HandleFailedTasks` the last four
for each task. -/
inductive Phase where
  | loadParent (id : UUID)
  | listChildren (parent : Issue)
  | closeEpic (parent : Issue)
  | loadCompleted (id : UUID)
  | checkActive (issue : Issue)
  | checkChildren (issue : Issue)
  | advance (issue : Issue)
  | lookupIssue (workspaceId : UUID) (number : Int)
  | closeAggregate (issue : Issue)
  | toDone (issue : Issue)
  | maybeRetry (id : UUID)
  | loadFailed (id : UUID)
  | checkStuck (issue : Issue)
  | reset (issue : Issue)
deriving DecidableEq, Repr

/-- The guard that was read, and the issue it was read of. -/
def Phase.holds : Phase → Option (Kind × UUID)
  | listChildren issue | closeEpic issue => some (.autoCloseEpic, issue.id)
  | checkActive issue | checkChildren issue | advance issue =>
    some (.autoAdvanceCompletedIssue, issue.id)
  | closeAggregate issue | toDone issue => some (.advanceIssueToDone, issue.id)
  | checkStuck issue | reset issue => some (.resetStuck, issue.id)
  | _ => none

/-- The write, where the statement is one. -/
def Phase.write? : Phase → Option (Kind × Issue)
  | closeEpic issue => some (.autoCloseEpic, issue)
  | advance issue => some (.autoAdvanceCompletedIssue, issue)
  | toDone issue => some (.advanceIssueToDone, issue)
  | reset issue => some (.resetStuck, issue)
  | _ => none

/-- A call: what it has still to run, and the maps of `HandleFailedTasks`. -/
structure Writer where
  todo : List Phase
  processedIssues : List UUID := []
  retriedIssues : List UUID := []
deriving DecidableEq, Repr

/-! ## The machine -/

/-- `active` are the issues with an active task. `writes` is the history of the server's writes,
with the status that each of them met. -/
structure State where
  autoAdvance : Bool
  issues : IssueTable
  active : List UUID
  writers : List Writer
  writes : List (Kind × IssueStatus)

/-- The row that `UpdateIssueStatus` finds. -/
def State.target (s : State) (issue : Issue) : Option Issue :=
  (s.issues.get? issue.id).filter fun r => r.workspaceId == issue.workspaceId

def State.write (s : State) (k : Kind) (issue : Issue) : State :=
  match s.target issue with
  | none => s
  | some r =>
    { s with
      issues := s.issues.exec (updateIssueStatusStmt issue.id issue.workspaceId k.status)
      writes := (k, r.status) :: s.writes }

/-- Run the next statement. The answer `yes` stands for the aggregate of the linked pull requests,
and for whether a failed task is retried. -/
def Writer.exec (s : State) (yes : Bool) (w : Writer) : Option (State × Writer) :=
  match w.todo with
  | [] => none
  | .loadParent id :: rest =>
    match s.issues.get? id with
    | none => some (s, { w with todo := rest })
    | some parent =>
      -- the children are listed in any case, but only an epic to be closed is moved
      if parentListens parent && s.autoAdvance && parent.status != .inReview then
        some (s, { w with todo := .listChildren parent :: rest })
      else some (s, { w with todo := rest })
  | .listChildren parent :: rest =>
    if allChildrenTerminal (listChildIssues s.issues parent.id) then
      some (s, { w with todo := .closeEpic parent :: rest })
    else some (s, { w with todo := rest })
  | .closeEpic parent :: rest => some (s.write .autoCloseEpic parent, { w with todo := rest })
  | .loadCompleted id :: rest =>
    match s.issues.get? id with
    | none => some (s, { w with todo := rest })
    | some issue =>
      if issue.status = .inProgress then some (s, { w with todo := .checkActive issue :: rest })
      else some (s, { w with todo := rest })
  | .checkActive issue :: rest =>
    if s.active.contains issue.id then some (s, { w with todo := rest })
    else some (s, { w with todo := .checkChildren issue :: rest })
  | .checkChildren issue :: rest =>
    if (listChildIssues s.issues issue.id).all fun c => c.status.terminal then
      some (s, { w with todo := .advance issue :: rest })
    else some (s, { w with todo := rest })
  | .advance issue :: rest =>
    some (s.write .autoAdvanceCompletedIssue issue, { w with todo := rest })
  | .lookupIssue workspaceId number :: rest =>
    match getIssueByNumber s.issues workspaceId number with
    | none => some (s, { w with todo := rest })
    | some issue =>
      -- all are looked up and linked before the first is evaluated
      if issue.status.terminal then some (s, { w with todo := rest })
      else some (s, { w with todo := rest ++ [.closeAggregate issue] })
  | .closeAggregate issue :: rest =>
    if yes then some (s, { w with todo := .toDone issue :: rest })
    else some (s, { w with todo := rest })
  | .toDone issue :: rest =>
    match (s.target issue).bind Issue.parentIssueId with
    | none => some (s.write .advanceIssueToDone issue, { w with todo := rest })
    | some p => some (s.write .advanceIssueToDone issue, { w with todo := .loadParent p :: rest })
  | .maybeRetry id :: rest =>
    if yes then some (s, { w with todo := rest, retriedIssues := id :: w.retriedIssues })
    else some (s, { w with todo := rest })
  | .loadFailed id :: rest =>
    match s.issues.get? id with
    | none => some (s, { w with todo := rest })
    | some issue =>
      if issue.status = .inProgress ∧ id ∉ w.processedIssues ∧ id ∉ w.retriedIssues then
        some (s, { w with
          todo := .checkStuck issue :: rest
          processedIssues := id :: w.processedIssues })
      else some (s, { w with todo := rest })
  | .checkStuck issue :: rest =>
    if s.active.contains issue.id then some (s, { w with todo := rest })
    else some (s, { w with todo := .reset issue :: rest })
  | .reset issue :: rest => some (s.write .resetStuck issue, { w with todo := rest })

/-- The first five are what users, agents and the queue do at any time, the others start a call of
the server and run its next statement. -/
inductive Act where
  | moveStatus (id : UUID) (status : IssueStatus)
  | edit (id : UUID) (parentIssueId : Option UUID) (assigneeType : Option AssigneeType)
  | createIssue (r : Issue)
  | deleteIssue (id : UUID)
  | tasks (active : List UUID)
  | notifyParents (ids : List UUID)
  | completeTask (issueId : UUID)
  | pullRequest (workspaceId : UUID) (numbers : List Int)
  | handleFailedTasks (issueIds : List UUID)
  | step (i : Nat) (yes : Bool)
deriving DecidableEq, Repr

def moveStmt (id : UUID) (status : IssueStatus) : Update Issue where
  sel r := r.id == id
  set r := { r with status := status }

def editStmt (id : UUID) (parentIssueId : Option UUID) (assigneeType : Option AssigneeType) :
    Update Issue where
  sel r := r.id == id
  set r := { r with parentIssueId := parentIssueId, assigneeType := assigneeType }

def State.start (s : State) (todo : List Phase) : State :=
  { s with writers := s.writers ++ [{ todo := todo }] }

def next (s : State) : Act → Option State
  | .moveStatus id status => some { s with issues := s.issues.exec (moveStmt id status) }
  | .edit id parentIssueId assigneeType =>
    some { s with issues := s.issues.exec (editStmt id parentIssueId assigneeType) }
  | .createIssue r => (s.issues.insert? r).map fun issues => { s with issues := issues }
  | .deleteIssue id => some { s with issues := s.issues.filter fun r => r.id != id }
  | .tasks active => some { s with active := active }
  | .notifyParents ids => some (s.start (ids.map .loadParent))
  | .completeTask issueId =>
    if s.autoAdvance then some (s.start [.loadCompleted issueId]) else some s
  | .pullRequest workspaceId numbers => some (s.start (numbers.map (.lookupIssue workspaceId)))
  | .handleFailedTasks issueIds =>
    some (s.start (issueIds.flatMap fun id => [.maybeRetry id, .loadFailed id]))
  | .step i yes =>
    match s.writers[i]? with
    | none => none
    | some w => (w.exec s yes).map fun (s', w') => { s' with writers := s.writers.set i w' }

def machine : Machine State Act where
  Init s := s.writers = [] ∧ s.writes = []
  next := next

/-! ## The property -/

def State.Justified (s : State) : Prop := ∀ e ∈ s.writes, e.1.guard e.2 = true

/-- The status that the step gives to an issue. -/
def State.moves (s : State) : Act → Option (UUID × IssueStatus)
  | .moveStatus id status => some (id, status)
  | .createIssue r => some (r.id, r.status)
  | .step i _ =>
    (((s.writers[i]?).bind fun w => w.todo.head?).bind Phase.write?).map fun (k, issue) =>
      (issue.id, k.status)
  | _ => none

/-- The statements to come, but for the one that the step runs. -/
def State.others (s : State) : Act → List Phase
  | .step i _ => (s.writers.modify i fun w => { w with todo := w.todo.tail }).flatMap Writer.todo
  | _ => s.writers.flatMap Writer.todo

/-- The step moves no issue to a status that fails a guard which the server has read and not yet
written on. -/
def respectsGuards (s : State) (a : Act) : Bool :=
  (s.moves a).all fun (x, st) =>
    (s.others a).all fun p => p.holds.all fun (k, y) => y != x || k.guard st

/-! ## What a statement does -/

section Steps

variable {s s' : State} {w w' : Writer} {yes : Bool}

/-- What was read of the issue, if it is still there, is true of it. -/
def State.Backs (s : State) (p : Phase) : Prop :=
  ∀ k x, p.holds = some (k, x) → ∀ r, s.issues.get? x = some r → k.guard r.status = true

theorem backs_of_none {p : Phase} (h : p.holds = none) : s.Backs p := by
  intro k x hp
  rw [h] at hp
  cases hp

theorem backs_of_read {p : Phase} {k : Kind} {r : Issue} (hget : s.issues.get? r.id = some r)
    (hp : p.holds = some (k, r.id)) (hguard : k.guard r.status = true) : s.Backs p := by
  intro k' x hp' r' hr'
  rw [hp, Option.some.injEq, Prod.mk.injEq] at hp'
  rcases hp' with ⟨rfl, rfl⟩
  rw [hget, Option.some.injEq] at hr'
  exact hr' ▸ hguard

theorem backs_of_same {p q : Phase} (h : s.Backs q) (hp : p.holds = q.holds) : s.Backs p := by
  intro k x hk
  exact h k x (hp ▸ hk)

/-- A statement reads, and takes hold of what it has seen to be true, or it writes. -/
inductive Ran (s : State) (w : Writer) : State → Writer → Prop where
  | reads (w' : Writer)
      (hp : ∀ p ∈ w'.todo, (∃ q ∈ w.todo, p.holds = q.holds) ∨ s.Backs p) : Ran s w s w'
  | writes (p : Phase) (k : Kind) (issue : Issue) (w' : Writer) (hhead : w.todo.head? = some p)
      (hwrite : p.write? = some (k, issue))
      (hp : ∀ p ∈ w'.todo, p ∈ w.todo.tail ∨ p.holds = none) : Ran s w (s.write k issue) w'

theorem ran_some {r : State × Writer} (hran : Ran s w r.1 r.2) (h : some r = some (s', w')) :
    Ran s w s' w' := by
  obtain rfl := Option.some.inj h
  exact hran

theorem ran_ite {c : Prop} [Decidable c] {r r' : State × Writer} (hpos : c → Ran s w r.1 r.2)
    (hneg : ¬c → Ran s w r'.1 r'.2) (h : (if c then some r else some r') = some (s', w')) :
    Ran s w s' w' := by
  split at h
  · exact ran_some (hpos ‹_›) h
  · exact ran_some (hneg ‹_›) h

variable {p : Phase} {rest : List Phase} {processed retried : List UUID}

theorem ran_skip (htodo : w.todo = p :: rest) : Ran s w s ⟨rest, processed, retried⟩ := by
  refine .reads _ fun q hq => .inl ⟨q, ?_, rfl⟩
  rw [htodo]
  exact List.mem_cons_of_mem _ hq

theorem ran_push (q : Phase) (htodo : w.todo = p :: rest) (hq : q.holds = p.holds ∨ s.Backs q) :
    Ran s w s ⟨q :: rest, processed, retried⟩ := by
  refine .reads _ fun x hx => ?_
  rcases List.mem_cons.1 hx with rfl | hx
  · exact hq.imp_left fun hq => ⟨p, by rw [htodo]; exact List.mem_cons_self, hq⟩
  · exact .inl ⟨x, by rw [htodo]; exact List.mem_cons_of_mem _ hx, rfl⟩

theorem ran_write {k : Kind} {issue : Issue} (htodo : w.todo = p :: rest)
    (hwrite : p.write? = some (k, issue)) :
    Ran s w (s.write k issue) ⟨rest, processed, retried⟩ := by
  refine .writes p k issue _ (by rw [htodo]; rfl) hwrite fun q hq => .inl ?_
  rw [htodo]
  exact hq

theorem exec_ran (h : w.exec s yes = some (s', w')) : Ran s w s' w' := by
  rw [Writer.exec] at h
  split at h
  next => cases h
  next id rest htodo =>
    split at h
    · exact ran_some (ran_skip htodo) h
    · rename_i parent hget
      obtain rfl : parent.id = id := (Table.get?_eq_some.1 hget).2
      refine ran_ite (fun hlistens => ?_) (fun _ => ran_skip htodo) h
      simp only [parentListens, Bool.and_eq_true] at hlistens
      refine ran_push (.listChildren parent) htodo (.inr (backs_of_read hget rfl ?_))
      rw [Kind.guard, Bool.and_eq_true]
      exact hlistens.1.1.1
  next parent rest htodo =>
    exact ran_ite (fun _ => ran_push (.closeEpic parent) htodo (.inl rfl)) (fun _ => ran_skip htodo) h
  next parent rest htodo => exact ran_some (ran_write htodo rfl) h
  next id rest htodo =>
    split at h
    · exact ran_some (ran_skip htodo) h
    · rename_i issue hget
      obtain rfl : issue.id = id := (Table.get?_eq_some.1 hget).2
      refine ran_ite (fun hstatus => ?_) (fun _ => ran_skip htodo) h
      exact ran_push (.checkActive issue) htodo (.inr (backs_of_read hget rfl (by simp [Kind.guard, hstatus])))
  next issue rest htodo =>
    exact ran_ite (fun _ => ran_skip htodo) (fun _ => ran_push (.checkChildren issue) htodo (.inl rfl)) h
  next issue rest htodo =>
    exact ran_ite (fun _ => ran_push (.advance issue) htodo (.inl rfl)) (fun _ => ran_skip htodo) h
  next issue rest htodo => exact ran_some (ran_write htodo rfl) h
  next workspaceId number rest htodo =>
    split at h
    · exact ran_some (ran_skip htodo) h
    · rename_i issue hget
      have hrow : s.issues.get? issue.id = some issue :=
        Table.get?_eq_some.2 ⟨List.mem_of_find?_eq_some hget, rfl⟩
      refine ran_ite (fun _ => ran_skip htodo) (fun hopen => .reads _ fun x hx => ?_) h
      rcases List.mem_append.1 hx with hx | hx
      · exact .inl ⟨x, by rw [htodo]; exact List.mem_cons_of_mem _ hx, rfl⟩
      · obtain rfl := List.mem_singleton.1 hx
        exact .inr (backs_of_read hrow rfl (by simpa [Kind.guard] using hopen))
  next issue rest htodo =>
    exact ran_ite (fun _ => ran_push (.toDone issue) htodo (.inl rfl)) (fun _ => ran_skip htodo) h
  next issue rest htodo =>
    split at h
    · exact ran_some (ran_write htodo rfl) h
    · -- the issue's own parent is notified next
      refine ran_some (.writes _ _ issue _ (by rw [htodo]; rfl) rfl fun q hq => ?_) h
      rw [htodo]
      rcases List.mem_cons.1 hq with rfl | hq
      · exact .inr rfl
      · exact .inl hq
  next id rest htodo =>
    exact ran_ite (fun _ => ran_skip htodo) (fun _ => ran_skip htodo) h
  next id rest htodo =>
    split at h
    · exact ran_some (ran_skip htodo) h
    · rename_i issue hget
      obtain rfl : issue.id = id := (Table.get?_eq_some.1 hget).2
      refine ran_ite (fun hstatus => ?_) (fun _ => ran_skip htodo) h
      exact ran_push (.checkStuck issue) htodo (.inr (backs_of_read hget rfl (by simp [Kind.guard, hstatus.1])))
  next issue rest htodo =>
    exact ran_ite (fun _ => ran_skip htodo) (fun _ => ran_push (.reset issue) htodo (.inl rfl)) h
  next issue rest htodo => exact ran_some (ran_write htodo rfl) h

/-! ## The invariant -/

structure Inv (s : State) : Prop where
  justified : s.Justified
  backed : ∀ w ∈ s.writers, ∀ p ∈ w.todo, s.Backs p

/-- A move of one issue that the guard accepts. -/
theorem backs_exec {u : Update Issue} {x : UUID} {st : IssueStatus} {t : State}
    (ht : t.issues = s.issues.exec u) (hkey : ∀ r, (u.apply r).id = r.id)
    (hset : ∀ r, (u.apply r).status = r.status ∨ r.id = x ∧ (u.apply r).status = st)
    (hguard : p.holds.all (fun (k, y) => y != x || k.guard st) = true) (h : s.Backs p) :
    t.Backs p := by
  intro k y hp r hr
  rw [ht, Table.get?_update? hkey (Table.update?_eq_exec hkey fun _ => rfl),
    Option.map_eq_some_iff] at hr
  rcases hr with ⟨r', hr', rfl⟩
  obtain rfl : r'.id = y := (Table.get?_eq_some.1 hr').2
  rcases hset r' with hst | ⟨hid, hst⟩
  · rw [hst]
    exact h k _ hp r' hr'
  · rw [hst]
    simpa [hp, hid] using hguard

theorem backs_write {k : Kind} {issue : Issue}
    (hguard : p.holds.all (fun (k', y) => y != issue.id || k'.guard k.status) = true)
    (h : s.Backs p) : (s.write k issue).Backs p := by
  rw [State.write]
  split
  · exact h
  · refine backs_exec rfl (fun r => ?_) (fun r => ?_) hguard h
    · unfold Update.apply
      split <;> rfl
    · unfold Update.apply
      split
      · rename_i hsel
        simp only [updateIssueStatusStmt, Bool.and_eq_true, beq_iff_eq] at hsel
        exact .inr ⟨hsel.1, rfl⟩
      · exact .inl rfl

theorem holds_of_write {k : Kind} {issue : Issue} (h : p.write? = some (k, issue)) :
    p.holds = some (k, issue.id) := by
  cases p with
  | closeEpic i => cases h; rfl
  | advance i => cases h; rfl
  | toDone i => cases h; rfl
  | reset i => cases h; rfl
  | _ => cases h

theorem write_justified {k : Kind} {issue : Issue} (hj : s.Justified) (hp : s.Backs p)
    (hwrite : p.write? = some (k, issue)) : (s.write k issue).Justified := by
  rw [State.write]
  split
  · exact hj
  · rename_i r htarget
    intro e he
    rcases List.mem_cons.1 he with rfl | he
    · rcases Option.filter_eq_some_iff.1 htarget with ⟨hget, -⟩
      exact hp k issue.id (holds_of_write hwrite) r hget
    · exact hj e he

theorem mem_others_self {i : Nat} (hi : s.writers[i]? = some w) (hp : p ∈ w.todo.tail) :
    p ∈ s.others (.step i yes) := by
  have hget : (s.writers.modify i fun w => { w with todo := w.todo.tail })[i]? =
      some { w with todo := w.todo.tail } := by
    rw [List.getElem?_modify_eq, hi]
    rfl
  exact List.mem_flatMap.2 ⟨_, List.mem_of_getElem? hget, hp⟩

theorem mem_others_ne {i j : Nat} (hji : j ≠ i) (hj : s.writers[j]? = some w) (hp : p ∈ w.todo) :
    p ∈ s.others (.step i yes) := by
  have hget : (s.writers.modify i fun w => { w with todo := w.todo.tail })[j]? = some w := by
    rw [List.getElem?_modify_ne _ _ (Ne.symm hji), hj]
  exact List.mem_flatMap.2 ⟨_, List.mem_of_getElem? hget, hp⟩

theorem inv_ran {i : Nat} (hinv : Inv s) (hi : s.writers[i]? = some w)
    (hrespects : respectsGuards s (.step i yes) = true) (hran : Ran s w s' w') :
    Inv { s' with writers := s.writers.set i w' } := by
  have hw : w ∈ s.writers := List.mem_of_getElem? hi
  cases hran with
  | reads w' hp =>
    refine ⟨hinv.justified, Parties.forall_set w' (fun p hpw => ?_) hinv.backed⟩
    rcases hp p hpw with ⟨q, hq, hholds⟩ | hbacks
    · exact backs_of_same (hinv.backed w hw q hq) hholds
    · exact hbacks
  | writes p k issue w' hhead hwrite hp =>
    have hpw : p ∈ w.todo := List.mem_of_mem_head? hhead
    refine ⟨write_justified hinv.justified (hinv.backed w hw p hpw) hwrite, ?_⟩
    -- whatever is still to come accepts the status that this statement writes
    have hother : ∀ q ∈ s.others (.step i yes),
        q.holds.all (fun (k', y) => y != issue.id || k'.guard k.status) = true := by
      have hmoves : s.moves (.step i yes) = some (issue.id, k.status) := by
        simp only [State.moves, hi, Option.bind_some, hhead, hwrite, Option.map_some]
      rw [respectsGuards, hmoves, Option.all_some, List.all_eq_true] at hrespects
      exact hrespects
    intro x hx q hq
    rcases List.mem_iff_getElem?.1 hx with ⟨j, hj⟩
    by_cases hji : j = i
    · subst hji
      rw [Parties.getElem?_set hi, Option.some.injEq] at hj
      subst hj
      rcases hp q hq with hq | hnone
      · exact backs_write (hother q (mem_others_self hi hq))
          (hinv.backed w hw q (List.mem_of_mem_tail hq))
      · exact backs_of_none hnone
    · rw [List.getElem?_set_ne (Ne.symm hji)] at hj
      exact backs_write (hother q (mem_others_ne hji hj hq))
        (hinv.backed x (List.mem_of_getElem? hj) q hq)

theorem inv_start (hinv : Inv s) {todo : List Phase} (hnone : ∀ p ∈ todo, p.holds = none) :
    Inv (s.start todo) := by
  refine ⟨hinv.justified, fun x hx p hp => ?_⟩
  rcases List.mem_append.1 hx with hx | hx
  · exact hinv.backed x hx p hp
  · obtain rfl := List.mem_singleton.1 hx
    exact backs_of_none (hnone p hp)

theorem inv_next {a : Act} (hinv : Inv s) (hrespects : respectsGuards s a = true)
    (hn : next s a = some s') : Inv s' := by
  cases a with
  | moveStatus id status =>
    obtain rfl := Option.some.inj hn
    refine ⟨hinv.justified, fun w hw p hp => ?_⟩
    simp only [respectsGuards, State.moves, State.others, Option.all_some, List.all_eq_true]
      at hrespects
    refine backs_exec rfl (fun r => ?_) (fun r => ?_)
      (hrespects p (List.mem_flatMap.2 ⟨w, hw, hp⟩)) (hinv.backed w hw p hp)
    · unfold Update.apply
      split <;> rfl
    · unfold Update.apply
      split
      · rename_i hsel
        exact .inr ⟨by simpa [moveStmt] using hsel, rfl⟩
      · exact .inl rfl
  | edit id parentIssueId assigneeType =>
    obtain rfl := Option.some.inj hn
    refine ⟨hinv.justified, fun w hw p hp k x hk r hr => ?_⟩
    -- the status stays
    have hkey (r : Issue) : ((editStmt id parentIssueId assigneeType).apply r).id = r.id := by
      unfold Update.apply
      split <;> rfl
    have hstatus (r : Issue) :
        ((editStmt id parentIssueId assigneeType).apply r).status = r.status := by
      unfold Update.apply
      split <;> rfl
    rw [Table.get?_update? hkey (Table.update?_eq_exec hkey fun _ => rfl),
      Option.map_eq_some_iff] at hr
    rcases hr with ⟨r', hr', rfl⟩
    rw [hstatus]
    exact hinv.backed w hw p hp k x hk r' hr'
  | createIssue r =>
    rcases Option.map_eq_some_iff.1 hn with ⟨issues, hins, rfl⟩
    refine ⟨hinv.justified, fun w hw p hp k x hk r' hr' => ?_⟩
    simp only [respectsGuards, State.moves, State.others, Option.all_some, List.all_eq_true]
      at hrespects
    rw [Table.get?_insert? hins] at hr'
    split at hr'
    · rename_i hx
      obtain rfl := Option.some.inj hr'
      simpa [hk, hx] using hrespects p (List.mem_flatMap.2 ⟨w, hw, hp⟩)
    · exact hinv.backed w hw p hp k x hk r' hr'
  | deleteIssue id =>
    obtain rfl := Option.some.inj hn
    refine ⟨hinv.justified, fun w hw p hp k x hk r hr => ?_⟩
    rw [Table.get?_filter, Option.filter_eq_some_iff] at hr
    exact hinv.backed w hw p hp k x hk r hr.1
  | tasks active =>
    obtain rfl := Option.some.inj hn
    exact ⟨hinv.justified, hinv.backed⟩
  | notifyParents ids =>
    obtain rfl := Option.some.inj hn
    refine inv_start hinv fun p hp => ?_
    rcases List.mem_map.1 hp with ⟨id, -, rfl⟩
    rfl
  | completeTask issueId =>
    rw [next] at hn
    split at hn
    · obtain rfl := Option.some.inj hn
      refine inv_start hinv fun p hp => ?_
      obtain rfl := List.mem_singleton.1 hp
      rfl
    · obtain rfl := Option.some.inj hn
      exact hinv
  | pullRequest workspaceId numbers =>
    obtain rfl := Option.some.inj hn
    refine inv_start hinv fun p hp => ?_
    rcases List.mem_map.1 hp with ⟨number, -, rfl⟩
    rfl
  | handleFailedTasks issueIds =>
    obtain rfl := Option.some.inj hn
    refine inv_start hinv fun p hp => ?_
    rcases List.mem_flatMap.1 hp with ⟨id, -, hp⟩
    rcases List.mem_pair.1 hp with rfl | rfl <;> rfl
  | step i yes =>
    rw [next] at hn
    cases hi : s.writers[i]? with
    | none => rw [hi] at hn; cases hn
    | some w =>
      rw [hi] at hn
      rcases Option.map_eq_some_iff.1 hn with ⟨⟨t, w'⟩, hx, rfl⟩
      have hnext := inv_ran hinv hi hrespects (exec_ran hx)
      exact hnext

end Steps

/-! ## Runs -/

/-- The server overrides nobody as long as no step moves an issue against a guard that it has read
and not yet written on. -/
theorem moves_justified : ∀ s,
    machine.ReachableUnder (fun s a => respectsGuards s a = true) s → s.Justified := by
  have hinv : ∀ s, machine.ReachableUnder (fun s a => respectsGuards s a = true) s → Inv s := by
    refine Machine.invariant_under ?_ fun s a s' _ hinv hrespects h => inv_next hinv hrespects h
    rintro s ⟨hwriters, hwrites⟩
    refine ⟨fun e he => ?_, fun w hw => ?_⟩
    · rw [hwrites] at he
      cases he
    · rw [hwriters] at hw
      cases hw
  exact fun s hs => (hinv s hs).justified

def emptyState : State := ⟨true, .empty, [], [], []⟩

theorem init_emptyState : machine.Init emptyState := ⟨rfl, rfl⟩

/-- Each of the four writes once: a pull request closes a child and with it the epic, a task
completes and another one fails. -/
def fourWritesRun : List Act :=
  [.createIssue { id := 1, number := 1, status := .inProgress, assigneeType := some .agent },
    .createIssue { id := 2, number := 2, status := .todo, parentIssueId := some 1 },
    .createIssue { id := 3, number := 3, status := .inProgress },
    .createIssue { id := 4, number := 4, status := .inProgress },
    .pullRequest 1 [2], .completeTask 3, .handleFailedTasks [4], .moveStatus 2 .inProgress,
    .step 0 false, .step 0 true, .step 1 false, .step 0 false, .step 0 false, .step 0 false,
    .step 1 false, .step 0 false, .step 1 false, .step 1 false, .step 2 false, .step 2 false,
    .step 2 false, .step 2 false]

theorem moves_justified_fourWritesRun :
    ∃ s : State, (s.writes.length == 4) = true ∧ s.Justified := by
  rcases Machine.reachableUnder_of_run machine respectsGuards init_emptyState fourWritesRun
    (fun s => s.writes.length == 4) (by decide) with ⟨s, hs, hwrites⟩
  exact ⟨s, hwrites, moves_justified s hs⟩

/-- A run completes, the checks pass, a user marks the issue done, and it goes back to review. -/
theorem done_issue_reopened : ¬ ∀ s, machine.Reachable s → s.Justified := by
  intro hclaim
  rcases Machine.reachable_of_run machine init_emptyState
    [.createIssue { id := 1, status := .inProgress }, .completeTask 1, .step 0 false,
      .step 0 false, .step 0 false, .moveStatus 1 .done, .step 0 false]
    (fun s => s.writes.contains (.autoAdvanceCompletedIssue, .done) &&
      (s.issues.get? 1).any fun r => r.status == .inReview) (by decide) with ⟨s, -, hs, hstate⟩
  simp only [Bool.and_eq_true, List.contains_iff_mem] at hstate
  have hguard := hclaim s hs _ hstate.1
  exact absurd hguard (by decide)

end Orynx.ServerMoves
