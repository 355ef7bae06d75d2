import Mathlib.Data.List.Perm.Basic
import Orynx.Chat.Settle

/-! # The tokens of a direct-chat task

A terminal direct-chat row has one token, and no other row has any: an assistant message,
a prompt handed back, a retry clone, a pending marker, or something a party has yet to do
for it. Every party passes the token on, except where it finds nothing to do:
`HandleFailedTasks` without a retry, and the cancellation of a retry clone, whose prompt
belongs to the first run of the chain. `dropsOutcome` names these steps.

* `Inv`: the tokens are balanced;
* `Inv.settlesOnce`: in such a state every settled task has its reply, or its prompt was
  handed back, and not both;
* `Inv.map`, `Inv.append`, `Inv.retry`: what a step has to do to keep the balance.
-/

namespace Orynx.Chat

open Lib Orynx.Task Orynx.Attribution

/-! ## The property -/

/-- What has been handed back, in cancel responses and draft restores. -/
def State.returned (s : State) : List Prompt := s.responses ++ s.store.restores

/-- How often a prompt of the task has been handed back. -/
def State.handed (s : State) (id : UUID) : Nat := s.returned.countP fun p => p.taskID == id

/-- How much the parties have yet to do for the task. -/
def State.inFlight (s : State) (id : UUID) : Nat := s.posts.countP fun p => p.task.id == id

def retries (q : TaskTable) (id : UUID) : Nat :=
  q.rows.countP fun t => t.retryOfTaskID == some id

/-- The batch's prompt has left the transcript and was handed back once, and its
attachments still exist, detached from it. -/
def State.PromptReturned (s : State) (owner : UUID) : Prop :=
  s.store.prompts owner = 0 ∧ s.handed owner = 1 ∧
    ∃ b ∈ s.sent, b.taskID = owner ∧ ∃ h ∈ s.returned, s.store.Returned b h

/-- Terminal, not retried, without a pending marker, and with no party at work on it. -/
def State.settled (s : State) (t : AgentTask) : Bool :=
  t.status.terminal && retries s.sys.queue t.id == 0 && t.chatFinalizeDeferredAt.isNone &&
    s.inFlight t.id == 0

/-- Each settled direct-chat task has exactly one assistant message, or its batch's prompt
was returned, and not both. -/
def SettlesOnce (s : State) : Prop :=
  ∀ t ∈ s.sys.queue.rows, ∀ owner, t.chatInputTaskID = some owner → s.settled t = true →
    Xor (s.store.assistants t.id = 1) (s.PromptReturned owner)

/-! ## The steps that settle nothing -/

/-- A retry clone of a direct-chat task: its prompt is tagged with another task. -/
def AgentTask.inheritsInput (t : AgentTask) : Bool :=
  t.chatInputTaskID.isSome && t.chatInputTaskID != some t.id

/-- A sweeper's failure of a direct-chat task is handled without a retry, or a cancelled
retry clone is finalized with an empty transcript. -/
def dropsOutcome (s : State) : Act → Bool
  | .post i _ =>
    match s.posts[i]? with
    | some (.handleFailed t) => t.chatInputTaskID.isSome && !sweeperRetryEligible t
    | some (.finalizeCancelled t clientSupportsDraftRestore) =>
      AgentTask.inheritsInput t && s.store.transcriptEmpty t.id &&
        !(t.startedAt.isSome && clientSupportsDraftRestore)
    | _ => false
  | .finalizeDeferred id =>
    (getAgentTask s.sys.queue id).any fun t =>
      t.chatFinalizeDeferredAt.isSome && AgentTask.inheritsInput t && s.store.transcriptEmpty id
  | _ => false

/-! ## Tokens -/

/-- The tokens of a task that are not on its row. -/
def State.tokens (s : State) (id : UUID) : Nat :=
  s.store.assistants id + s.handed id + s.inFlight id + retries s.sys.queue id

def marked (t : AgentTask) : Nat := if t.chatFinalizeDeferredAt.isSome then 1 else 0

def ended (t : AgentTask) : Nat := if t.status.terminal then 1 else 0

/-- The party's copy of the row agrees with the row, which has ended. -/
structure Post.Matches (p : Post) (t : AgentTask) : Prop where
  id : p.task.id = t.id
  status : p.task.status = t.status
  ended : t.status.terminal = true
  chatInputTaskID : p.task.chatInputTaskID = t.chatInputTaskID
  chatSessionID : p.task.chatSessionID = t.chatSessionID

structure Inv (s : State) : Prop where
  balanced : ∀ t ∈ s.sys.queue.rows, t.chatInputTaskID.isSome = true →
    s.tokens t.id + marked t = ended t
  session : ∀ t ∈ s.sys.queue.rows, t.chatInputTaskID.isSome = true →
    t.chatSessionID.isSome = true
  issueID : ∀ t ∈ s.sys.queue.rows, t.chatInputTaskID.isSome = true →
    t.issueID = none ∨ t.status = .completed
  root : ∀ t ∈ s.sys.queue.rows, ∀ owner, t.chatInputTaskID = some owner →
    ∃ r ∈ s.sys.queue.rows, r.id = owner ∧ r.chatInputTaskID = some owner ∧
      (t.id = owner ∨ 0 < retries s.sys.queue owner)
  prompt : ∀ t ∈ s.sys.queue.rows, t.chatInputTaskID = some t.id →
    s.store.prompts t.id + s.handed t.id = 1 ∧ ∃ b ∈ s.sent, b.taskID = t.id
  owner : ∀ id, 0 < s.store.prompts id + s.handed id →
    ∃ r ∈ s.sys.queue.rows, r.id = id ∧ r.chatInputTaskID = some id
  unused : ∀ id, (∀ t ∈ s.sys.queue.rows, t.id ≠ id) → s.tokens id = 0
  posts : ∀ p ∈ s.posts, ∃ t ∈ s.sys.queue.rows, p.Matches t
  store : StoreInv s.store s.sent s.returned

/-- What the invariant gives in a settled task. -/
theorem Inv.settlesOnce {s : State} (hinv : Inv s) : SettlesOnce s := by
  intro t ht owner howner hsettled
  simp only [State.settled, Bool.and_eq_true, beq_iff_eq, Option.isNone_iff_eq_none] at hsettled
  rcases hsettled with ⟨⟨⟨hterminal, hretries⟩, hmarker⟩, hflight⟩
  have htokens : s.store.assistants t.id + s.handed t.id = 1 := by
    have hbalanced := hinv.balanced t ht (by simp [howner])
    simp only [State.tokens, marked, ended, hmarker, hterminal, hretries, hflight,
      Option.isSome_none, Bool.false_eq_true, if_false, if_true, Nat.add_zero] at hbalanced
    exact hbalanced
  rcases hinv.root t ht owner howner with ⟨r, hr, hrid, hrinput, hchain⟩
  by_cases htowner : t.id = owner
  · subst htowner
    rcases hinv.prompt t ht howner with ⟨hprompt, b, hb, hbt⟩
    by_cases ha : s.store.assistants t.id = 1
    · refine .inl ⟨ha, fun hreturned => ?_⟩
      have hone := hreturned.2.1
      omega
    · have hhanded : s.handed t.id = 1 := by omega
      have hgone : s.store.prompts t.id = 0 := by omega
      refine .inr ⟨⟨hgone, hhanded, b, hb, hbt, ?_⟩, ha⟩
      rcases hinv.store.kept b hb with ⟨⟨m, hm, -, huser, -⟩, -⟩ | h
      · -- a prompt still in the transcript would be counted
        rw [hbt] at huser
        have hpos : 0 < s.store.prompts t.id := List.countP_pos_iff.2 ⟨m, hm, huser⟩
        omega
      · exact h
  · -- a retry clone: the first run of its chain has its one token in the retry
    have hretried : 0 < retries s.sys.queue owner := hchain.resolve_left htowner
    have hroot := hinv.balanced r hr (by simp [hrinput])
    rw [hrid] at hroot
    have hroot_le : ended r ≤ 1 := by
      unfold ended
      split <;> omega
    have howner0 : s.handed owner = 0 := by
      simp only [State.tokens] at hroot
      omega
    have hhanded0 : s.handed t.id = 0 := by
      by_contra hne
      rcases hinv.owner t.id (by omega) with ⟨r', hr', hid', hinput'⟩
      have hsame : r' = t := s.sys.queue.eq_of_key hr' ht hid'
      rw [hsame, howner] at hinput'
      exact htowner (Option.some.inj hinput').symm
    refine .inl ⟨by omega, fun hreturned => ?_⟩
    have hone := hreturned.2.1
    omega

/-! ## Rows -/

/-- What every step keeps of a row. -/
structure RowKept (r r' : AgentTask) : Prop where
  id : r'.id = r.id
  chatInputTaskID : r'.chatInputTaskID = r.chatInputTaskID
  chatSessionID : r'.chatSessionID = r.chatSessionID
  retryOf : r'.retryOfTaskID = r.retryOfTaskID
  status : r.status.terminal = true → r'.status = r.status
  issueID : r'.issueID = r.issueID ∨ r.status = .completed

theorem RowKept.refl (r : AgentTask) : RowKept r r :=
  ⟨rfl, rfl, rfl, rfl, fun _ => rfl, .inl rfl⟩

theorem RowKept.of_rowStep {b completing : Bool} {r r' : AgentTask} (h : RowStep b r r')
    (hp : PlanStep completing r r') (hinput : r'.chatInputTaskID = r.chatInputTaskID) :
    RowKept r r' :=
  ⟨h.id, hinput, h.chatSessionID, hp.retryOf, h.move.terminal, h.issueID.imp_right And.left⟩

theorem RowKept.of_live {r r' : AgentTask}
    (hsame : r'.id = r.id ∧ r'.chatInputTaskID = r.chatInputTaskID ∧
      r'.chatSessionID = r.chatSessionID ∧ r'.retryOfTaskID = r.retryOfTaskID ∧
      r'.issueID = r.issueID) (hlive : r.status.terminal = false) : RowKept r r' := by
  rcases hsame with ⟨hid, hinput, hsession, hretry, hissue⟩
  exact ⟨hid, hinput, hsession, hretry, by simp [hlive], .inl hissue⟩

theorem RowKept.apply {u : Update AgentTask} {r : AgentTask} (h : RowKept r (u.set r)) :
    RowKept r (u.apply r) := by
  unfold Update.apply
  split
  · exact h
  · exact .refl r

/-- The chat columns are untouched. -/
def SameChat (r r' : AgentTask) : Prop :=
  r'.chatInputTaskID = r.chatInputTaskID ∧ r'.chatFinalizeDeferredAt = r.chatFinalizeDeferredAt

theorem SameChat.apply {u : Update AgentTask} {r : AgentTask} (h : SameChat r (u.set r)) :
    SameChat r (u.apply r) := by
  unfold Update.apply
  split
  · exact h
  · exact ⟨rfl, rfl⟩

theorem sameChat_of_progresses {stmt : UpdateStmt} (h : progresses stmt = true ∨ sweeps stmt = true)
    (now : Timestamp) (q : TaskTable) (r : AgentTask) :
    SameChat r ((stmt.update now q).apply r) := by
  cases stmt with
  | mergeCommentIntoPendingTask i a c attribution =>
    simp only [UpdateStmt.update]
    split <;> exact .apply ⟨rfl, rfl⟩
  | promoteDueDeferredTasksForRuntimes | setTaskDeliveredCommentIDs |
    requeueAgentTaskAfterClaimFailure | reclaimStaleDispatchedTasksForRuntimes |
    extendAgentTaskPrepareLease | startAgentTask | markAgentTaskWaitingLocalDirectory |
    updateAgentTaskSession | linkTaskToIssue | reassignTasksToRuntime |
    recoverOrphanedTasksForRuntime | failStaleTasks | failTasksForOfflineRuntimes |
    expireStaleQueuedTasks => exact .apply ⟨rfl, rfl⟩
  | _ => simp [progresses, sweeps] at h

/-- A statement that moves a run along does not end it. -/
theorem terminal_of_progresses {stmt : UpdateStmt} (h : progresses stmt = true)
    {now : Timestamp} {q : TaskTable} {r : AgentTask}
    (ht : ((stmt.update now q).apply r).status.terminal = true) : r.status.terminal = true := by
  have hkeep : ∀ u : Update AgentTask, (u.set r).status = r.status → (u.apply r).status.terminal = true →
      r.status.terminal = true := by
    intro u hu happly
    unfold Update.apply at happly
    split at happly
    · rwa [hu] at happly
    · exact happly
  have hmove : ∀ u : Update AgentTask, (u.set r).status.terminal = false →
      (u.apply r).status.terminal = true → r.status.terminal = true := by
    intro u hu happly
    unfold Update.apply at happly
    split at happly
    · simp [hu] at happly
    · exact happly
  cases stmt with
  | promoteDueDeferredTasksForRuntimes | requeueAgentTaskAfterClaimFailure | startAgentTask |
    markAgentTaskWaitingLocalDirectory => exact hmove _ rfl ht
  | mergeCommentIntoPendingTask i a c attribution =>
    simp only [UpdateStmt.update] at ht
    split at ht
    · exact hkeep _ rfl ht
    · exact hkeep _ rfl ht
  | setTaskDeliveredCommentIDs | reclaimStaleDispatchedTasksForRuntimes |
    extendAgentTaskPrepareLease | updateAgentTaskSession | linkTaskToIssue |
    reassignTasksToRuntime => exact hkeep _ rfl ht
  | _ => simp [progresses] at h

/-! ## Updates -/

theorem retries_map {q q' : TaskTable} {f : AgentTask → AgentTask}
    (hrows : q'.rows = q.rows.map f) (hf : ∀ t ∈ q.rows, RowKept t (f t)) (id : UUID) :
    retries q' id = retries q id := by
  rw [retries, retries, hrows, List.countP_map]
  refine List.countP_congr fun t ht => ?_
  simp [(hf t ht).retryOf]

/-- A step that changes rows in place keeps the invariant if each direct-chat row gains as
many tokens as it needs. -/
theorem Inv.map {s s' : State} (hinv : Inv s) {f : AgentTask → AgentTask}
    (hrows : s'.sys.queue.rows = s.sys.queue.rows.map f)
    (hf : ∀ t ∈ s.sys.queue.rows, RowKept t (f t))
    (hbalanced : ∀ t ∈ s.sys.queue.rows, t.chatInputTaskID.isSome = true →
      s'.tokens t.id + marked (f t) + ended t = s.tokens t.id + marked t + ended (f t))
    (hprompts : ∀ id, s'.store.prompts id + s'.handed id = s.store.prompts id + s.handed id)
    (hunused : ∀ id, (∀ t ∈ s.sys.queue.rows, t.id ≠ id) → s'.tokens id = s.tokens id)
    (hposts : ∀ p ∈ s'.posts, p ∈ s.posts ∨ ∃ t ∈ s.sys.queue.rows, p.Matches (f t))
    (hsent : s'.sent = s.sent) (hstore : StoreInv s'.store s'.sent s'.returned) : Inv s' := by
  have hmem : ∀ t ∈ s.sys.queue.rows, f t ∈ s'.sys.queue.rows := by
    intro t ht
    rw [hrows]
    exact List.mem_map.2 ⟨t, ht, rfl⟩
  have hretries : ∀ id, retries s'.sys.queue id = retries s.sys.queue id := retries_map hrows hf
  -- every row of the new table is a kept row of the old one
  have hcases : ∀ t' ∈ s'.sys.queue.rows, ∃ t ∈ s.sys.queue.rows, t' = f t ∧ RowKept t t' := by
    intro t' ht'
    rw [hrows] at ht'
    rcases List.mem_map.1 ht' with ⟨t, ht, rfl⟩
    exact ⟨t, ht, rfl, hf t ht⟩
  refine ⟨?_, ?_, ?_, ?_, ?_, ?_, ?_, ?_, hstore⟩
  · intro t' ht' hdirect
    rcases hcases t' ht' with ⟨t, ht, rfl, hk⟩
    rw [hk.chatInputTaskID] at hdirect
    have hold := hinv.balanced t ht hdirect
    have hnew := hbalanced t ht hdirect
    rw [hk.id]
    omega
  · intro t' ht' hdirect
    rcases hcases t' ht' with ⟨t, ht, rfl, hk⟩
    rw [hk.chatInputTaskID] at hdirect
    rw [hk.chatSessionID]
    exact hinv.session t ht hdirect
  · intro t' ht' hdirect
    rcases hcases t' ht' with ⟨t, ht, rfl, hk⟩
    rw [hk.chatInputTaskID] at hdirect
    have hcompleted : t.status = .completed → (f t).status = .completed := by
      intro hc
      rw [hk.status (by rw [hc]; rfl), hc]
    rcases hk.issueID with hsame | hc
    · rw [hsame]
      exact (hinv.issueID t ht hdirect).imp_right hcompleted
    · exact .inr (hcompleted hc)
  · intro t' ht' owner howner
    rcases hcases t' ht' with ⟨t, ht, rfl, hk⟩
    rw [hk.chatInputTaskID] at howner
    rcases hinv.root t ht owner howner with ⟨r, hr, hrid, hrinput, hchain⟩
    refine ⟨f r, hmem r hr, (hf r hr).id.trans hrid, (hf r hr).chatInputTaskID.trans hrinput, ?_⟩
    rw [hk.id, hretries]
    exact hchain
  · intro t' ht' howner
    rcases hcases t' ht' with ⟨t, ht, rfl, hk⟩
    rw [hk.chatInputTaskID, hk.id] at howner
    rw [hk.id, hprompts, hsent]
    exact hinv.prompt t ht howner
  · intro id hpos
    rw [hprompts] at hpos
    rcases hinv.owner id hpos with ⟨r, hr, hrid, hrinput⟩
    exact ⟨f r, hmem r hr, (hf r hr).id.trans hrid, (hf r hr).chatInputTaskID.trans hrinput⟩
  · intro id hfresh
    have hold : ∀ t ∈ s.sys.queue.rows, t.id ≠ id := by
      intro t ht heq
      exact hfresh (f t) (hmem t ht) ((hf t ht).id.trans heq)
    rw [hunused id hold]
    exact hinv.unused id hold
  · intro p hp
    rcases hposts p hp with hp | ⟨t, ht, hmatches⟩
    · rcases hinv.posts p hp with ⟨t, ht, hmatches⟩
      have hk := hf t ht
      refine ⟨f t, hmem t ht, ?_⟩
      exact ⟨hmatches.id.trans hk.id.symm, hmatches.status.trans (hk.status hmatches.ended).symm,
        by rw [hk.status hmatches.ended]; exact hmatches.ended,
        hmatches.chatInputTaskID.trans hk.chatInputTaskID.symm,
        hmatches.chatSessionID.trans hk.chatSessionID.symm⟩
    · exact ⟨f t, hmem t ht, hmatches⟩

/-- A step about the one row `r`, which may end or change its marker. -/
theorem Inv.mapAt {s s' : State} (hinv : Inv s) {r : AgentTask} (hr : r ∈ s.sys.queue.rows)
    {f : AgentTask → AgentTask} (hrows : s'.sys.queue.rows = s.sys.queue.rows.map f)
    (hothers : ∀ t ∈ s.sys.queue.rows, t.id ≠ r.id → f t = t) (hkept : RowKept r (f r))
    (htokens : ∀ id, id ≠ r.id → s'.tokens id = s.tokens id)
    (hbalanced : r.chatInputTaskID.isSome = true →
      s'.tokens r.id + marked (f r) + ended r = s.tokens r.id + marked r + ended (f r))
    (hprompts : ∀ id, s'.store.prompts id + s'.handed id = s.store.prompts id + s.handed id)
    (hposts : ∀ p ∈ s'.posts, p ∈ s.posts ∨ p.Matches (f r)) (hsent : s'.sent = s.sent)
    (hstore : StoreInv s'.store s'.sent s'.returned) : Inv s' := by
  have hcases : ∀ t ∈ s.sys.queue.rows, t = r ∨ (t.id ≠ r.id ∧ f t = t) := by
    intro t ht
    by_cases hid : t.id = r.id
    · exact .inl (s.sys.queue.eq_of_key ht hr hid)
    · exact .inr ⟨hid, hothers t ht hid⟩
  refine hinv.map hrows ?_ ?_ hprompts ?_ ?_ hsent hstore
  · intro t ht
    rcases hcases t ht with rfl | ⟨-, hsame⟩
    · exact hkept
    · rw [hsame]
      exact .refl t
  · intro t ht hdirect
    rcases hcases t ht with rfl | ⟨hid, hsame⟩
    · exact hbalanced hdirect
    · rw [hsame, htokens t.id hid]
  · intro id hfresh
    exact htokens id fun heq => hfresh r hr heq.symm
  · exact fun p hp => (hposts p hp).imp_right fun h => ⟨r, hr, h⟩

/-- A step that leaves the rows alone. -/
theorem Inv.same {s s' : State} (hinv : Inv s) (hqueue : s'.sys.queue = s.sys.queue)
    (htokens : ∀ id, s'.tokens id = s.tokens id)
    (hprompts : ∀ id, s'.store.prompts id + s'.handed id = s.store.prompts id + s.handed id)
    (hposts : ∀ p ∈ s'.posts, p ∈ s.posts) (hsent : s'.sent = s.sent)
    (hstore : StoreInv s'.store s'.sent s'.returned) : Inv s' := by
  refine hinv.map (f := id) (by simp [hqueue]) (fun t _ => .refl t) ?_ hprompts ?_ ?_ hsent hstore
  · intro t _ _
    rw [htokens]
    rfl
  · exact fun id _ => htokens id
  · exact fun p hp => .inl (hposts p hp)

/-! ## Inserts -/

theorem retries_append {q q' : TaskTable} {row : AgentTask} (hrows : q'.rows = q.rows ++ [row])
    (id : UUID) :
    retries q' id = retries q id + if row.retryOfTaskID = some id then 1 else 0 := by
  simp [retries, hrows, List.countP_append, List.countP_cons]

/-- A step that adds a row keeps the invariant if it leaves the tokens of the direct-chat
rows alone. -/
theorem Inv.append {s s' : State} (hinv : Inv s) {row : AgentTask}
    (hrows : s'.sys.queue.rows = s.sys.queue.rows ++ [row])
    (hrow : row.status.terminal = false ∧ row.chatFinalizeDeferredAt = none)
    (hsession : row.chatInputTaskID.isSome = true → row.chatSessionID.isSome = true)
    (hissue : row.chatInputTaskID.isSome = true → row.issueID = none)
    (hroot : ∀ owner, row.chatInputTaskID = some owner → owner = row.id ∨
      ((∃ r ∈ s.sys.queue.rows, r.id = owner ∧ r.chatInputTaskID = some owner) ∧
        0 < retries s'.sys.queue owner))
    (htokens : ∀ t ∈ s.sys.queue.rows, t.chatInputTaskID.isSome = true →
      s'.tokens t.id = s.tokens t.id)
    (hrowTokens : row.chatInputTaskID.isSome = true → s'.tokens row.id = 0)
    (hprompts : ∀ id, (id = row.id ∧ row.chatInputTaskID = some row.id) ∨
      s'.store.prompts id + s'.handed id = s.store.prompts id + s.handed id)
    (hprompt : row.chatInputTaskID = some row.id →
      s'.store.prompts row.id + s'.handed row.id = 1 ∧ ∃ b ∈ s'.sent, b.taskID = row.id)
    (hunused : ∀ id, (∀ t ∈ s'.sys.queue.rows, t.id ≠ id) → s'.tokens id = s.tokens id)
    (hposts : ∀ p ∈ s'.posts, p ∈ s.posts) (hsent : ∀ b ∈ s.sent, b ∈ s'.sent)
    (hstore : StoreInv s'.store s'.sent s'.returned) : Inv s' := by
  have hmem : ∀ t, t ∈ s'.sys.queue.rows ↔ t ∈ s.sys.queue.rows ∨ t = row := by
    intro t
    rw [hrows]
    simp
  have hold : ∀ t ∈ s.sys.queue.rows, t.id ≠ row.id := by
    intro t ht heq
    have hkeys := s'.sys.queue.key_nodup
    rw [hrows, List.map_append] at hkeys
    exact (List.nodup_append.1 hkeys).2.2 t.id (List.mem_map.2 ⟨t, ht, rfl⟩) row.id (by simp) heq
  have hretries : ∀ id, retries s.sys.queue id ≤ retries s'.sys.queue id := by
    intro id
    rw [retries_append hrows]
    exact Nat.le_add_right _ _
  refine ⟨?_, ?_, ?_, ?_, ?_, ?_, ?_, ?_, hstore⟩
  · intro t ht hdirect
    rcases (hmem t).1 ht with ht | rfl
    · rw [htokens t ht hdirect]
      exact hinv.balanced t ht hdirect
    · simp [hrowTokens hdirect, marked, ended, hrow.1, hrow.2]
  · intro t ht hdirect
    rcases (hmem t).1 ht with ht | rfl
    · exact hinv.session t ht hdirect
    · exact hsession hdirect
  · intro t ht hdirect
    rcases (hmem t).1 ht with ht | rfl
    · exact hinv.issueID t ht hdirect
    · exact .inl (hissue hdirect)
  · intro t ht owner howner
    rcases (hmem t).1 ht with ht | rfl
    · rcases hinv.root t ht owner howner with ⟨r, hr, hrid, hrinput, hchain⟩
      exact ⟨r, (hmem r).2 (.inl hr), hrid, hrinput,
        hchain.imp_right fun h => Nat.lt_of_lt_of_le h (hretries owner)⟩
    · rcases hroot owner howner with rfl | ⟨⟨r, hr, hrid, hrinput⟩, hpos⟩
      · exact ⟨t, ht, rfl, howner, .inl rfl⟩
      · exact ⟨r, (hmem r).2 (.inl hr), hrid, hrinput, .inr hpos⟩
  · intro t ht howner
    rcases (hmem t).1 ht with ht | rfl
    · rcases hinv.prompt t ht howner with ⟨hcount, b, hb, hbt⟩
      refine ⟨?_, b, hsent b hb, hbt⟩
      rcases hprompts t.id with ⟨heq, -⟩ | h
      · exact absurd heq (hold t ht)
      · rw [h, hcount]
    · exact hprompt howner
  · intro id hpos
    rcases hprompts id with ⟨rfl, hself⟩ | h
    · exact ⟨row, (hmem row).2 (.inr rfl), rfl, hself⟩
    · rw [h] at hpos
      rcases hinv.owner id hpos with ⟨r, hr, hrid, hrinput⟩
      exact ⟨r, (hmem r).2 (.inl hr), hrid, hrinput⟩
  · intro id hfresh
    rw [hunused id hfresh]
    exact hinv.unused id fun t ht => hfresh t ((hmem t).2 (.inl ht))
  · intro p hp
    rcases hinv.posts p (hposts p hp) with ⟨t, ht, hmatches⟩
    exact ⟨t, (hmem t).2 (.inl ht), hmatches⟩

/-! ## Counting -/

theorem countP_eraseIdx {α : Type} {l : List α} {i : Nat} {x : α} (h : l[i]? = some x)
    (P : α → Bool) : (l.eraseIdx i).countP P + (if P x then 1 else 0) = l.countP P := by
  rcases List.getElem?_eq_some_iff.1 h with ⟨hi, rfl⟩
  have hperm := (List.getElem_cons_eraseIdx_perm hi).countP_eq P
  rw [List.countP_cons] at hperm
  exact hperm

section Counting

variable {s s' : State}

/-- A party has done its part. -/
theorem inFlight_erase {i : Nat} {p : Post} (hpost : s.posts[i]? = some p)
    (hposts : s'.posts = s.posts.eraseIdx i) (id : UUID) :
    s'.inFlight id + (if p.task.id = id then 1 else 0) = s.inFlight id := by
  have hcount := countP_eraseIdx hpost fun p => p.task.id == id
  rw [← hposts] at hcount
  simpa [State.inFlight] using hcount

theorem inFlight_pos {i : Nat} {p : Post} (hpost : s.posts[i]? = some p) :
    0 < s.inFlight p.task.id := by
  have hmem : p ∈ s.posts := List.mem_of_getElem? hpost
  exact List.countP_pos_iff.2 ⟨p, hmem, by simp⟩

/-- One more prompt has been handed back. -/
theorem handed_cons {p : Prompt} (hreturned : s'.returned.Perm (p :: s.returned)) (id : UUID) :
    s'.handed id = s.handed id + if p.taskID = id then 1 else 0 := by
  rw [State.handed, hreturned.countP_eq, List.countP_cons]
  simp [State.handed]

end Counting

/-! ## Prompts -/

/-- A party at work on a direct-chat task knows its session. -/
theorem Inv.post_session {s : State} (hinv : Inv s) {p : Post} (hp : p ∈ s.posts)
    (hdirect : p.task.chatInputTaskID.isSome = true) : p.task.chatSessionID.isSome = true := by
  rcases hinv.posts p hp with ⟨r, hr, hmatches⟩
  rw [hmatches.chatInputTaskID] at hdirect
  rw [hmatches.chatSessionID]
  exact hinv.session r hr hdirect

theorem Inv.ended_le (t : AgentTask) : ended t ≤ 1 := by
  unfold ended
  split <;> omega

/-- A prompt is in the transcript or handed back, at most once. -/
theorem Inv.prompts_le {s : State} (hinv : Inv s) (id : UUID) :
    s.store.prompts id + s.handed id ≤ 1 := by
  by_cases hpos : 0 < s.store.prompts id + s.handed id
  · rcases hinv.owner id hpos with ⟨r, hr, rfl, hself⟩
    exact Nat.le_of_eq (hinv.prompt r hr hself).1
  · omega

/-- The prompt of a row that does not own its input is another row's. -/
theorem Inv.no_prompt {s : State} (hinv : Inv s) {r : AgentTask} (hr : r ∈ s.sys.queue.rows)
    (hother : r.chatInputTaskID ≠ some r.id) : s.store.prompts r.id = 0 := by
  by_contra hne
  rcases hinv.owner r.id (by omega) with ⟨r', hr', hid, hself⟩
  rw [s.sys.queue.eq_of_key hr' hr hid] at hself
  exact hother hself

/-- While a party is at work on a row that owns its input, the prompt is there. -/
theorem Inv.prompt_there {s : State} (hinv : Inv s) {r : AgentTask} (hr : r ∈ s.sys.queue.rows)
    (hself : r.chatInputTaskID = some r.id) (hbusy : 0 < s.inFlight r.id + marked r) :
    s.store.prompts r.id = 1 ∧ s.handed r.id = 0 := by
  have hprompt := (hinv.prompt r hr hself).1
  have hbalanced := hinv.balanced r hr (by simp [hself])
  have hle := Inv.ended_le r
  simp only [State.tokens] at hbalanced
  omega

/-! ## Retries -/

theorem createRetryTask_index {now : Timestamp} {id : UUID} {r : AgentTask}
    (h : r.issueID = none) : (createRetryTask now id r).pendingKey = none := by
  simp [AgentTask.pendingKey, createRetryTask, h]

/-- A retry clone takes the token of the party that inserts it. -/
theorem Inv.retry {s s' : State} (hinv : Inv s) {i : Nat} {t r : AgentTask} {childID : UUID}
    {q : TaskTable} (hpost : s.posts[i]? = some (.handleFailed t)) (hr : r ∈ s.sys.queue.rows)
    (hid : t.id = r.id) (hfailed : r.status = .failed)
    (hins : s.sys.queue.insert? (createRetryTask s.sys.now childID r) = some q)
    (hs' : s' = { s with sys := { s.sys with queue := q }, posts := s.posts.eraseIdx i }) :
    Inv s' := by
  have hrows : s'.sys.queue.rows =
      s.sys.queue.rows ++ [createRetryTask s.sys.now childID r] := by
    rw [hs']
    exact Table.insert?_rows hins
  have hfresh : ∀ x ∈ s.sys.queue.rows, x.id ≠ childID := by
    have hsome : (s.sys.queue.insert? (createRetryTask s.sys.now childID r)).isSome := by
      rw [hins]
      rfl
    exact (Table.insert?_isSome.1 hsome).1
  have hstore : s'.store = s.store := by rw [hs']
  have hreturned : s'.returned = s.returned := by rw [hs']; rfl
  have hhanded : ∀ id, s'.handed id = s.handed id := by
    intro id
    rw [State.handed, hreturned, State.handed]
  have hposts : s'.posts = s.posts.eraseIdx i := by rw [hs']
  have hretries : ∀ id, retries s'.sys.queue id =
      retries s.sys.queue id + if r.id = id then 1 else 0 := by
    intro id
    rw [retries_append hrows id]
    simp [createRetryTask]
  have htokens : ∀ id, s'.tokens id = s.tokens id := by
    intro id
    have hflight := inFlight_erase hpost hposts id
    simp only [Post.task, hid] at hflight
    simp only [State.tokens, hstore, hhanded, hretries]
    omega
  refine hinv.append hrows ⟨rfl, rfl⟩ (hinv.session r hr) ?_ ?_ (fun x _ _ => htokens x.id) ?_
    ?_ ?_ (fun id _ => htokens id) ?_ ?_ ?_
  · intro hdirect
    exact (hinv.issueID r hr hdirect).resolve_right (by simp [hfailed])
  · intro owner howner
    rcases hinv.root r hr owner howner with ⟨x, hx, hxid, hxinput, hchain⟩
    refine .inr ⟨⟨x, hx, hxid, hxinput⟩, ?_⟩
    rw [hretries]
    rcases hchain with h | h
    · rw [if_pos h]
      omega
    · omega
  · intro _
    rw [htokens]
    exact hinv.unused childID hfresh
  · intro id
    rw [hstore, hhanded]
    exact .inr rfl
  · intro hself
    -- the owner of the input is a row of the table, the clone is not
    rcases hinv.root r hr childID hself with ⟨x, hx, hxid, -⟩
    exact absurd hxid (hfresh x hx)
  · rw [hposts]
    exact fun p hp => List.mem_of_mem_eraseIdx hp
  · rw [hs']
    exact fun b hb => hb
  · rw [hs']
    exact hinv.store

end Orynx.Chat
