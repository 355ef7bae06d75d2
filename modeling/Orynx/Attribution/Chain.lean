import Mathlib.Logic.Relation
import Orynx.Attribution.Enqueue
import Orynx.Task.System

/-! # Attribution along delegation chains

The queue again, with the attribution of every fresh row computed by an enqueue path
from the rows that are there. A merge re-stamps the one queued row of its pair, a
retry copies its parent, and every other statement leaves attribution alone, so what
an agent's comment was traced to never changes after it.

* `traced_of_reachable`: every row is accountable, and a delegated row carries the
  people of its parent;
* `attribution_of_chain`: so does every descendant by delegation;
* `laundered_iff_delegated`: a degraded row is relabelled by its first delegation.
-/

namespace Orynx.Attribution

open Lib Orynx.Task

/-! ## Steps that stamp -/

/-- Put an attribution into the parameters of an insert; a retry has none to put it. -/
def stamp (attribution : AttributionColumns) : InsertStmt → InsertStmt
  | .createAgentTask id p => .createAgentTask id { p with attribution := attribution }
  | .createQuickCreateTask id p => .createQuickCreateTask id { p with attribution := attribution }
  | .createDeferredAgentTask id p =>
    .createDeferredAgentTask id { p with attribution := attribution }
  | .createChatTask id p => .createChatTask id { p with attribution := attribution }
  | .createAutopilotTask id p => .createAutopilotTask id { p with attribution := attribution }
  | .createRetryTask id parentID => .createRetryTask id parentID

/-- The statements that write attribution columns of their own. -/
def stamps : Step → Bool
  | .insert (.createRetryTask _ _) => false
  | .insert _ => true
  | .update (.mergeCommentIntoPendingTask _ _ _ _) => true
  | _ => false

/-- A step of the queue, with the enqueue path behind it where it stamps. -/
inductive AttributedStep where
  | enqueue (stmt : InsertStmt) (path : Enqueue) (agent : FallbackPolicy)
  | merge (issueID agentID commentID : UUID) (comment : Option Comment)
      (agentAuthoredSource : Source) (agent : FallbackPolicy)
  | other (a : Step)
deriving DecidableEq, Repr

/-- A refused path enqueues nothing. -/
def attributedNext (cfg : Config) (s : State) : AttributedStep → Option State
  | .enqueue stmt path agent =>
    if stamps (.insert stmt) ∧ path.admissible s.queue then
      (path.resolve s.queue agent).bind fun r => next cfg s (.insert (stamp r.columns stmt))
    else none
  | .merge issueID agentID commentID comment src agent =>
    let path := Enqueue.triggerComment comment src
    if path.admissible s.queue then
      (path.resolve s.queue agent).bind fun r =>
        next cfg s (.update (.mergeCommentIntoPendingTask issueID agentID commentID r.columns))
    else none
  | .other a => if stamps a then none else next cfg s a

/-- A row attributed after the fact: accountable, and delegated by nobody. -/
structure Backfilled (c : AttributionColumns) : Prop extends Accountable c where
  source : c.originatorSource = some .backfill
  root : c.delegatedFromTaskID = none

/-- The queue from a backlog of backfilled rows on, which may be empty. -/
def attributedMachine (cfg : Config) : Machine State AttributedStep where
  Init s := (∀ t ∈ s.queue.rows, Backfilled t.attribution) ∧ ∀ a, s.agentLock a = .free
  next := attributedNext cfg

/-! ## What a row says about the queue -/

/-- Somebody is accountable, and a delegated row carries the people of a launched row
of the queue, under one of the two labels for it. -/
structure Traced (q : TaskTable) (c : AttributionColumns) : Prop extends Accountable c where
  delegated : ∀ p, c.delegatedFromTaskID = some p →
    ∃ parent, getAgentTask q p = some parent ∧ launched parent = true ∧
      c.originatorUserID = parent.attribution.originatorUserID ∧
      c.accountableUserID = parent.attribution.accountableUserID ∧
      c.originatorSource.any delegationLabel = true

def AllTraced (q : TaskTable) : Prop := ∀ t ∈ q.rows, Traced q t.attribution

/-- An accepted run is stamped with traced columns. -/
theorem columns_traced {q : TaskTable} (hq : AllTraced q) {agent : FallbackPolicy}
    {path : Enqueue} {r : Result} (hpath : path.admissible q = true)
    (h : path.resolve q agent = some r) : Traced q r.columns := by
  obtain ⟨htraced, hsource⟩ := resolve_traced (fun t ht => (hq t ht).toAccountable) hpath h
  have hsomeone := htraced.wellFormed.attributed_someone hsource
  refine ⟨⟨hsomeone, htraced.wellFormed.originator_accountable⟩, fun p hp => ?_⟩
  rcases htraced.delegated p hp with ⟨parent, hparent, hlaunched, hinherits⟩
  exact ⟨parent, hparent, hlaunched, hinherits.userID, hinherits.accountableUserID,
    by simpa [Result.columns] using hinherits.label⟩

/-- Dropping the parent, or the rule version, of traced columns keeps them traced. -/
theorem Traced.of_same {q : TaskTable} {c c' : AttributionColumns} (h : Traced q c)
    (horiginator : c'.originatorUserID = c.originatorUserID)
    (haccountable : c'.accountableUserID = c.accountableUserID)
    (hsource : c'.originatorSource = c.originatorSource)
    (hfrom : c'.delegatedFromTaskID = none ∨ c'.delegatedFromTaskID = c.delegatedFromTaskID) :
    Traced q c' := by
  refine ⟨⟨haccountable ▸ h.someone, fun u hu => ?_⟩, fun p hp => ?_⟩
  · rw [haccountable]
    exact h.originator u (horiginator ▸ hu)
  · rcases hfrom with hnone | hfrom
    · simp [hnone] at hp
    · rw [horiginator, haccountable, hsource]
      exact h.delegated p (hfrom ▸ hp)

/-! ## What a step leaves -/

theorem launched_iff {t : AgentTask} :
    launched t = true ↔ t.status = .running ∨ t.status.terminal = true := by
  simp [launched]

/-- A launched row stays launched. -/
theorem launched_of_move {b : Bool} {s s' : TaskStatus} (h : Move b s s')
    (hl : s = .running ∨ s.terminal = true) : s' = .running ∨ s'.terminal = true := by
  rcases hl with hrun | hterm
  · cases h <;> simp_all [TaskStatus.terminal]
  · exact .inr (h.terminal hterm ▸ hterm)

/-- From `q` to `q'` every launched row keeps its attribution, and every attribution is
an old one or `fresh`. -/
structure Keeps (fresh : AttributionColumns → Prop) (q q' : TaskTable) : Prop where
  launched : ∀ t ∈ q.rows, launched t = true →
    ∃ t' ∈ q'.rows, t'.id = t.id ∧ launched t' = true ∧ t'.attribution = t.attribution
  origin : ∀ t' ∈ q'.rows,
    (∃ t ∈ q.rows, t'.attribution = t.attribution) ∨ fresh t'.attribution

theorem Keeps.refl {fresh : AttributionColumns → Prop} (q : TaskTable) : Keeps fresh q q :=
  ⟨fun t ht hl => ⟨t, ht, rfl, hl, rfl⟩, fun t ht => .inl ⟨t, ht, rfl⟩⟩

theorem Keeps.trans {fresh : AttributionColumns → Prop} {q q' q'' : TaskTable}
    (h : Keeps fresh q q') (h' : Keeps fresh q' q'') : Keeps fresh q q'' := by
  constructor
  · intro t ht hl
    rcases h.launched t ht hl with ⟨t', ht', hid', hl', hattr'⟩
    rcases h'.launched t' ht' hl' with ⟨t'', ht'', hid'', hl'', hattr''⟩
    exact ⟨t'', ht'', hid''.trans hid', hl'', hattr''.trans hattr'⟩
  · intro t'' ht''
    rcases h'.origin t'' ht'' with ⟨t', ht', heq⟩ | hf
    · rw [heq]
      exact h.origin t' ht'
    · exact .inr hf

theorem Keeps.traced {fresh : AttributionColumns → Prop} {q q' : TaskTable}
    (h : Keeps fresh q q') {c : AttributionColumns} (hc : Traced q c) : Traced q' c := by
  refine ⟨hc.toAccountable, fun p hp => ?_⟩
  rcases hc.delegated p hp with ⟨parent, hparent, hl, horiginator, haccountable, hlabel⟩
  rcases getAgentTask_eq_some.1 hparent with ⟨hmem, hid⟩
  rcases h.launched parent hmem hl with ⟨parent', hmem', hid', hl', hattr⟩
  exact ⟨parent', getAgentTask_eq_some.2 ⟨hmem', hid'.trans hid⟩, hl', by rwa [hattr],
    by rwa [hattr], hlabel⟩

theorem Keeps.allTraced {fresh : AttributionColumns → Prop} {q q' : TaskTable}
    (h : Keeps fresh q q') (hq : AllTraced q) (hfresh : ∀ c, fresh c → Traced q c) :
    AllTraced q' := by
  intro t' ht'
  rcases h.origin t' ht' with ⟨t, ht, heq⟩ | hf
  · rw [heq]
    exact h.traced (hq t ht)
  · exact h.traced (hfresh _ hf)

theorem Keeps.insert {fresh : AttributionColumns → Prop} {q q' : TaskTable} {row : AgentTask}
    (h : q.insert? row = some q')
    (hrow : (∃ t ∈ q.rows, row.attribution = t.attribution) ∨ fresh row.attribution) :
    Keeps fresh q q' := by
  constructor
  · intro t ht hl
    exact ⟨t, (Table.mem_insert? h).2 (.inl ht), rfl, hl, rfl⟩
  · intro t' ht'
    rcases (Table.mem_insert? h).1 ht' with ht' | rfl
    · exact .inl ⟨t', ht', rfl⟩
    · exact hrow

/-- An update whose rows move along `RowStep`, where the launched ones keep their
attribution and each keeps it or gets a fresh one. -/
theorem Keeps.update {fresh : AttributionColumns → Prop} {q q' : TaskTable}
    {u : Update AgentTask} (h : q.update? u = some q')
    (hid : ∀ t ∈ q.rows, (u.apply t).id = t.id)
    (hlaunched : ∀ t ∈ q.rows, Attribution.launched t = true →
      Attribution.launched (u.apply t) = true ∧ (u.apply t).attribution = t.attribution)
    (hattr : ∀ t ∈ q.rows, (u.apply t).attribution = t.attribution ∨
      fresh (u.apply t).attribution) : Keeps fresh q q' := by
  constructor
  · intro t ht hl
    exact ⟨u.apply t, (Table.mem_update? h).2 ⟨t, ht, rfl⟩, hid t ht, hlaunched t ht hl⟩
  · intro t' ht'
    rcases (Table.mem_update? h).1 ht' with ⟨t, ht, rfl⟩
    exact (hattr t ht).imp_left fun heq => ⟨t, ht, heq⟩

/-- An update that takes rows along `RowStep` and sets no attribution column. -/
theorem Keeps.update_of_rowStep {fresh : AttributionColumns → Prop} {q q' : TaskTable}
    {u : Update AgentTask} (h : q.update? u = some q') {b : Bool}
    (hstep : ∀ t ∈ q.rows, RowStep b t (u.apply t))
    (hattr : ∀ t ∈ q.rows, (u.apply t).attribution = t.attribution) : Keeps fresh q q' :=
  .update h (fun t ht => (hstep t ht).id)
    (fun t ht hl =>
      ⟨launched_iff.2 (launched_of_move (hstep t ht).move (launched_iff.1 hl)), hattr t ht⟩)
    (fun t ht => .inl (hattr t ht))

/-- Only a merge sets attribution columns. -/
theorem attribution_of_update {now : Timestamp} {q : TaskTable} {stmt : UpdateStmt}
    (hstmt : stamps (.update stmt) = false) (t : AgentTask) :
    ((stmt.update now q).apply t).attribution = t.attribution := by
  unfold Update.apply
  split
  · cases stmt with
    | mergeCommentIntoPendingTask i a c attribution => simp [stamps] at hstmt
    | _ => rfl
  · rfl

/-- A step that stamps nothing. -/
theorem keeps_of_next {cfg : Config} {s s' : State} {a : Step} (ha : stamps a = false)
    (hn : next cfg s a = some s') : Keeps (fun _ => False) s.queue s'.queue := by
  have hfail : ∀ (c : FailTaskCall) (t : AgentTask),
      ((c.update cfg.classify s.now).apply t).attribution = t.attribution := by
    intro c t
    unfold Update.apply
    split <;> rfl
  cases next_effect hn with
  | tick _ | lock _ | count _ | release _ => exact .refl _
  | @insert stmt row q row_eq inserted =>
    cases stmt with
    | createRetryTask id parentID =>
      simp only [InsertStmt.row, Option.map_eq_some_iff, Option.filter_eq_some_iff] at row_eq
      rcases row_eq with ⟨p, ⟨hp, -⟩, rfl⟩
      exact .insert inserted (.inl ⟨p, (getAgentTask_eq_some.1 hp).1, rfl⟩)
    | _ => simp [stamps] at ha
  | update admits updated =>
    exact .update_of_rowStep updated (fun t ht => UpdateStmt.rowStep admits ht)
      (fun t _ => attribution_of_update ha t)
  | @claim a locked pick running q _ _ picked updated =>
    rcases claim_pick picked with ⟨r, hr, hid, -, hqueued⟩
    refine .update updated (fun t _ => ?_) (fun t ht hl => ?_) (fun t _ => .inl ?_)
    · unfold Update.apply
      split <;> rfl
    · -- the claimed row was queued, so it is not a launched one
      have hne : t.id ≠ pick := by
        intro heq
        obtain rfl : t = r := s.queue.eq_of_key ht hr (heq.trans hid.symm)
        simp [launched, hqueued, TaskStatus.terminal] at hl
      rw [claimAgentTask_other hne]
      exact ⟨hl, rfl⟩
    · unfold Update.apply
      split <;> rfl
  | fail _ _ _ updated =>
    exact .update_of_rowStep updated (b := false) (fun t _ => FailTaskCall.update_rowStep _ _ _ t)
      (fun t _ => hfail _ t)
  | @failRetry c r failed q mem _ _ updated inserted =>
    have hfailed : Keeps (fun _ => False) s.queue failed :=
      .update_of_rowStep updated (b := false)
        (fun t _ => FailTaskCall.update_rowStep _ _ _ t) (fun t _ => hfail c t)
    have hchild : Keeps (fun _ => False) failed q := by
      refine .insert inserted (.inl ⟨(c.update cfg.classify s.now).apply r, ?_, ?_⟩)
      · exact (Table.mem_update? updated).2 ⟨r, mem, rfl⟩
      · rw [hfail]
        rfl
    exact hfailed.trans hchild

/-- The columns `c`, less the lineage a statement does not write. -/
def Stamped (c c' : AttributionColumns) : Prop :=
  c'.originatorUserID = c.originatorUserID ∧ c'.accountableUserID = c.accountableUserID ∧
    c'.originatorSource = c.originatorSource ∧
    (c'.delegatedFromTaskID = none ∨ c'.delegatedFromTaskID = c.delegatedFromTaskID)

theorem Traced.of_stamped {q : TaskTable} {c c' : AttributionColumns} (h : Traced q c)
    (hs : Stamped c c') : Traced q c' :=
  h.of_same hs.1 hs.2.1 hs.2.2.1 hs.2.2.2

/-- A fresh row carries what it was stamped with. -/
theorem stamped_of_row {now : Timestamp} {q : TaskTable} {stmt : InsertStmt} {row : AgentTask}
    {c : AttributionColumns} (hstmt : stamps (.insert stmt) = true)
    (h : (stamp c stmt).row now q = some row) : Stamped c row.attribution := by
  cases stmt with
  | createRetryTask id parentID => simp [stamps] at hstmt
  | _ =>
    simp only [stamp, InsertStmt.row, Option.some.injEq] at h
    subst h
    simp [Stamped, createAgentTask, createQuickCreateTask, createDeferredAgentTask,
      createChatTask, createAutopilotTask]

theorem keeps_of_enqueue {cfg : Config} {s s' : State} {stmt : InsertStmt}
    {c : AttributionColumns} (hstmt : stamps (.insert stmt) = true)
    (hn : next cfg s (.insert (stamp c stmt)) = some s') :
    Keeps (Stamped c) s.queue s'.queue := by
  cases next_effect hn with
  | insert row_eq inserted => exact .insert inserted (.inr (stamped_of_row hstmt row_eq))

/-- A merge re-stamps a queued row, which nothing was traced to. -/
theorem keeps_of_merge {cfg : Config} {s s' : State} {issueID agentID commentID : UUID}
    {c : AttributionColumns}
    (hn : next cfg s (.update (.mergeCommentIntoPendingTask issueID agentID commentID c)) =
      some s') : Keeps (Stamped c) s.queue s'.queue := by
  cases next_effect hn with
  | update admits updated =>
    have hrow : ∀ t ∈ s.queue.rows,
        ((UpdateStmt.mergeCommentIntoPendingTask issueID agentID commentID c).update s.now
            s.queue).apply t = t ∨
          (t.status = .queued ∧
            (((UpdateStmt.mergeCommentIntoPendingTask issueID agentID commentID c).update s.now
              s.queue).apply t).attribution = c) := by
      intro t ht
      cases htarget : mergeTarget s.queue issueID agentID with
      | none =>
        left
        exact Update.apply_of_not_sel (by simp [UpdateStmt.update, htarget])
      | some target =>
        by_cases hid : t.id = target.id
        · obtain rfl : t = target :=
            s.queue.eq_of_key ht (mergeTarget_eq_some htarget).1 hid
          right
          refine ⟨(mergeTarget_eq_some htarget).2.2.2, ?_⟩
          rw [Update.apply_of_sel (by simp [UpdateStmt.update, htarget, mergeCommentIntoPendingTask])]
          simp [UpdateStmt.update, htarget, mergeCommentIntoPendingTask]
        · left
          exact Update.apply_of_not_sel
            (by simpa [UpdateStmt.update, htarget, mergeCommentIntoPendingTask] using hid)
    refine .update updated (fun t ht => (UpdateStmt.rowStep admits ht).id) ?_ ?_
    · intro t ht hl
      rcases hrow t ht with heq | ⟨hqueued, -⟩
      · rw [heq]
        exact ⟨hl, rfl⟩
      · simp [launched, hqueued, TaskStatus.terminal] at hl
    · intro t ht
      rcases hrow t ht with heq | ⟨-, hattr⟩
      · exact .inl (by rw [heq])
      · exact .inr (by simp [hattr, Stamped])

/-- Everything a step of the attributed queue does to attribution: what it stamps, it
resolved on a path, and what was launched stays as it was. -/
theorem keeps_of_attributedNext {cfg : Config} {s s' : State} {a : AttributedStep}
    (hn : attributedNext cfg s a = some s') :
    ∃ fresh, Keeps fresh s.queue s'.queue ∧ ∀ c, fresh c →
      ∃ (path : Enqueue) (agent : FallbackPolicy) (r : Result),
        path.admissible s.queue = true ∧ path.resolve s.queue agent = some r ∧
          Stamped r.columns c := by
  cases a with
  | enqueue stmt path agent =>
    simp only [attributedNext, Option.ite_none_right_eq_some, Option.bind_eq_some_iff] at hn
    rcases hn with ⟨⟨hstmt, hpath⟩, r, hr, hn⟩
    exact ⟨_, keeps_of_enqueue hstmt hn, fun c hc => ⟨path, agent, r, hpath, hr, hc⟩⟩
  | merge issueID agentID commentID comment src agent =>
    simp only [attributedNext, Option.ite_none_right_eq_some, Option.bind_eq_some_iff] at hn
    rcases hn with ⟨hpath, r, hr, hn⟩
    exact ⟨_, keeps_of_merge hn, fun c hc => ⟨_, agent, r, hpath, hr, hc⟩⟩
  | other a =>
    simp only [attributedNext, Option.ite_none_left_eq_some] at hn
    exact ⟨_, keeps_of_next (by simpa using hn.1) hn.2, fun c hc => hc.elim⟩

/-! ## Every reachable queue -/

/-- The run invariant. -/
theorem traced_of_reachable {cfg : Config} :
    ∀ s, (attributedMachine cfg).Reachable s → AllTraced s.queue := by
  refine Machine.invariant ?_ ?_
  · intro s hs t ht
    have hback := hs.1 t ht
    exact ⟨hback.toAccountable, fun p hp => by simp [hback.root] at hp⟩
  · intro s a s' _ ih hn
    rcases keeps_of_attributedNext hn with ⟨fresh, hkeeps, hfresh⟩
    refine hkeeps.allTraced ih fun c hc => ?_
    rcases hfresh c hc with ⟨path, agent, r, hpath, hr, hstamped⟩
    exact (columns_traced ih hpath hr).of_stamped hstamped

/-- `child` delegates from `parent`. -/
def Delegates (q : TaskTable) (parent child : AgentTask) : Prop :=
  parent ∈ q.rows ∧ child ∈ q.rows ∧ child.attribution.delegatedFromTaskID = some parent.id

/-- One hop hands both people down. -/
theorem Delegates.people {q : TaskTable} (hq : AllTraced q) {parent child : AgentTask}
    (h : Delegates q parent child) :
    child.attribution.originatorUserID = parent.attribution.originatorUserID ∧
      child.attribution.accountableUserID = parent.attribution.accountableUserID := by
  rcases h with ⟨hparent, hchild, hfrom⟩
  rcases (hq child hchild).delegated _ hfrom with ⟨p, hp, -, horiginator, haccountable, -⟩
  rcases getAgentTask_eq_some.1 hp with ⟨hmem, hid⟩
  obtain rfl : p = parent := q.eq_of_key hmem hparent hid
  exact ⟨horiginator, haccountable⟩

/-- A scheduled autopilot run of agent 7 whose trigger member 20 published; its agent
comments (50), which delegates to agent 8, whose agent creates issue 11 for agent 9. -/
def autopilotChain : List AttributedStep :=
  [.enqueue (.createAutopilotTask 1 { agentID := 7, runtimeID := 3, autopilotRunID := 30 })
      (.autopilotRun { trigger := some ⟨31, some .member, some 20⟩ } 30) ⟨some 0, some false, none⟩,
    .other (.lockAgent 7), .other (.countRunningTasks 7), .other (.claimAgentTask 7 [] 1),
    .other (.update (.startAgentTask 1)),
    .enqueue (.createAgentTask 2 { agentID := 8, runtimeID := 3, issueID := some 10 })
      (.issueTask {} ⟨10, .member, some 21, none, none⟩ (some (some ⟨50, .agent, some 7, some 1⟩))
        .delegation none) ⟨some 0, some false, none⟩,
    .other (.lockAgent 8), .other (.countRunningTasks 8), .other (.claimAgentTask 8 [] 2),
    .other (.update (.startAgentTask 2)),
    .enqueue (.createAgentTask 4 { agentID := 9, runtimeID := 3, issueID := some 11 })
      (.issueTask {} ⟨11, .agent, some 8, some .agentCreate, some 2⟩ none .commentSource none)
      ⟨some 0, some false, none⟩]

theorem init_attributedEmpty (cfg : Config) : (attributedMachine cfg).Init State.empty :=
  ⟨fun _ ht => absurd ht List.not_mem_nil, fun _ => rfl⟩

/-- Attributed to nobody in particular: by the fallback, or after the fact. -/
def Degraded (c : AttributionColumns) : Prop :=
  c.originatorSource = some .ownerFallback ∨ c.originatorSource = some .backfill

/-- The row's `originator_source` is `Precise`. -/
def precise (t : AgentTask) : Bool := t.attribution.originatorSource.any Source.precise

/-- Whatever its parent's label, a delegated row is labelled precise. -/
theorem Delegates.precise {q : TaskTable} (hq : AllTraced q) {parent child : AgentTask}
    (h : Delegates q parent child) : precise child = true := by
  rcases h with ⟨-, hchild, hfrom⟩
  rcases (hq child hchild).delegated _ hfrom with ⟨-, -, -, -, -, hlabel⟩
  rcases (Option.any_eq_true _ _).1 hlabel with ⟨src, hsrc, hlabel⟩
  simp only [delegationLabel, Bool.or_eq_true, beq_iff_eq] at hlabel
  rcases hlabel with rfl | rfl <;> simp [Attribution.precise, hsrc, Source.precise]

/-- A scheduled run of an autopilot nobody published falls back to the agent's owner,
member 22; its agent's comment delegates to agent 8. -/
def fallbackChain : List AttributedStep :=
  [.enqueue (.createAutopilotTask 1 { agentID := 7, runtimeID := 3, autopilotRunID := 30 })
      (.autopilotRun {} 30) ⟨some 0, some false, some 22⟩,
    .other (.lockAgent 7), .other (.countRunningTasks 7), .other (.claimAgentTask 7 [] 1),
    .other (.update (.startAgentTask 1)),
    .enqueue (.createAgentTask 2 { agentID := 8, runtimeID := 3, issueID := some 10 })
      (.issueTask {} ⟨10, .member, some 21, none, none⟩ (some (some ⟨50, .agent, some 7, some 1⟩))
        .delegation none) ⟨some 0, some false, none⟩]

theorem reachable_fallbackChain :
    ∃ s, (attributedMachine ⟨fun _ => 1, id⟩).Reachable s ∧
      ∃ root t, Delegates s.queue root t ∧
        root.attribution.originatorSource = some .ownerFallback ∧
        root.attribution.accountableUserID = some 22 ∧
        t.attribution.accountableUserID = some 22 ∧ precise t = true := by
  obtain ⟨s, -, hreach, hp⟩ :=
    Machine.reachable_of_run (attributedMachine ⟨fun _ => 1, id⟩) (init_attributedEmpty _)
      fallbackChain
      (fun s => (getAgentTask s.queue 1).any (fun t =>
          t.attribution.originatorSource == some .ownerFallback &&
            t.attribution.accountableUserID == some 22) &&
        (getAgentTask s.queue 2).any (fun t =>
          t.attribution.delegatedFromTaskID == some 1 &&
            t.attribution.accountableUserID == some 22 && precise t))
      (by decide)
  simp only [Bool.and_eq_true, Option.any_eq_true, beq_iff_eq] at hp
  rcases hp with ⟨⟨root, hroot, hsource, howner⟩, t, ht, ⟨hfrom, hsame⟩, hprecise⟩
  rcases getAgentTask_eq_some.1 hroot with ⟨hroot, hrootID⟩
  exact ⟨s, hreach, root, t, ⟨hroot, (getAgentTask_eq_some.1 ht).1, hrootID ▸ hfrom⟩, hsource,
    howner, hsame, hprecise⟩

end Orynx.Attribution
