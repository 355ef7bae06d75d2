import Orynx.Chat.Store
import Orynx.Task.Plan
import Orynx.Text

/-! # Settling a direct-chat task

The parties that end a chat task of `server/internal/service/task.go`, interleaved with
each other and with the task queue: `CompleteTask`, `FailTask`, the sweepers with
`HandleFailedTasks`, `CancelTaskWithResult` and `FinalizeDeferredCancelledChat`. What a
party does after the commit that ended the task is a step of its own, a `Post`; other
steps come in between. The rows a step inserts take fresh keys, and sessions are not
deleted.
-/

namespace Orynx.Chat

open Lib Orynx.Task Orynx.Attribution

/-- What the chat outcome relies on from elsewhere. -/
structure Config where
  task : Task.Config
  unescapeBackslashEscapes : String → String
  redact : String → String

/-- `chatNoResponseFallback`. -/
def chatNoResponseFallback : String := "The agent finished this turn without a text reply."

/-- `writeChatCompletionOutcome`, for the session of the completed task. -/
def writeChatCompletionOutcome (cfg : Config) (db : Store) (task : AgentTask)
    (chatSessionID : UUID) (output : String) : Store :=
  let body := cfg.unescapeBackslashEscapes output
  let isEmpty := blank body
  let pendingAttachments := db.countUnboundChatAttachmentsForTask task.id
  if isEmpty && pendingAttachments == 0 && task.chatInputTaskID.isNone then db
  else
    let created := db.createChatMessage
      { id := db.nextMessageID, chatSessionID := chatSessionID, role := .assistant,
        taskID := some task.id,
        content :=
          if !isEmpty then cfg.redact body
          else if 0 < pendingAttachments then ""
          else chatNoResponseFallback,
        messageKind := if isEmpty && pendingAttachments == 0 then .noResponse else .message }
    if 0 < pendingAttachments then created.bindChatAttachmentsToMessage task.id db.nextMessageID
    else created

/-- The message that stands for a cancelled run with a transcript. -/
def stoppedMessage (db : Store) (task : AgentTask) (chatSessionID : UUID) : ChatMessage :=
  { id := db.nextMessageID, chatSessionID := chatSessionID, role := .assistant,
    content := "Stopped.", taskID := some task.id }

/-- `finalizeCancelledChatMessage`, with the prompt that the cancel response carries. -/
def finalizeCancelledChatMessage (now : Timestamp) (q : TaskTable) (db : Store)
    (task : AgentTask) (clientSupportsDraftRestore : Bool) : TaskTable × Store × Option Prompt :=
  match task.chatSessionID with
  | none => (q, db, none)
  | some chatSessionID =>
    if db.transcriptEmpty task.id then
      if task.startedAt.isSome && clientSupportsDraftRestore then
        match updateStmt q (markChatFinalizeDeferred now task.id) with
        | .ok q' => (q', db, none)
        | .error _ => (q, db, none)
      else
        let taken := db.takeBack task.id
        (q, taken.1, taken.2)
    else (q, db.createChatMessage (stoppedMessage db task chatSessionID), none)

/-- `FinalizeDeferredCancelledChat`: whoever clears the marker settles the task. -/
def finalizeDeferredCancelledChat (q : TaskTable) (db : Store) (taskID : UUID) :
    TaskTable × Store :=
  match updateOne q (claimChatFinalizeDeferred taskID) with
  | .error _ => (q, db)
  | .ok (q', claimed) =>
    match claimed.chatSessionID with
    | none => (q', db)
    | some chatSessionID =>
      if db.transcriptEmpty claimed.id then
        match db.takeBack claimed.id with
        | (db', none) => (q', db')
        | (db', some p) => (q', { db' with restores := db'.restores ++ [p] })
      else (q', db.createChatMessage (stoppedMessage db claimed chatSessionID))

/-- `MaybeRetryFailedTask`, on the row a sweeper returned. -/
def maybeRetryFailedTask (now : Timestamp) (q : TaskTable) (parent : AgentTask) (childID : UUID) :
    Option TaskTable :=
  if sweeperRetryEligible parent then
    (getAgentTask q parent.id).bind fun p => q.insert? (createRetryTask now childID p)
  else none

/-! ## The machine -/

/-- What a party has yet to do for a task that it has ended. -/
inductive Post where
  | failureMessage (task : AgentTask) (errMsg failureReason : String)
  | finalizeCancelled (task : AgentTask) (clientSupportsDraftRestore : Bool)
  | handleFailed (task : AgentTask)
deriving DecidableEq, Repr

def Post.task : Post → AgentTask
  | .failureMessage t _ _ => t
  | .finalizeCancelled t _ => t
  | .handleFailed t => t

/-- `sent` is the history of direct-chat sends, and `responses` what the cancel responses
have handed back. -/
structure State where
  sys : Task.State
  store : Store
  sent : List Prompt
  responses : List Prompt
  posts : List Post

inductive Act where
  | queue (step : Task.Step)
  | upload (a : Attachment)
  | send (id : UUID) (p : CreateChatTaskParams) (content : String) (attachmentIDs : List UUID)
      (uploaderType : ActorType) (uploaderID : UUID)
  | reportTaskMessage (taskID : UUID)
  | completeTask (id : UUID) (output : String) (sessionID workDir : Option String)
  | failTask (call : FailTaskCall)
  | sweep (stmt : UpdateStmt)
  | cancelTask (id : UUID) (clientSupportsDraftRestore : Bool)
  | finalizeDeferred (id : UUID)
  | post (i : Nat) (childID : UUID)

/-- The statements that move a run along without ending it. -/
def progresses : UpdateStmt → Bool
  | .promoteDueDeferredTasksForRuntimes _ | .setTaskDeliveredCommentIDs _ _ _ _ _ |
    .requeueAgentTaskAfterClaimFailure _ _ _ | .reclaimStaleDispatchedTasksForRuntimes _ _ _ _ |
    .extendAgentTaskPrepareLease _ _ _ | .startAgentTask _ |
    .markAgentTaskWaitingLocalDirectory _ _ | .updateAgentTaskSession _ _ _ |
    .linkTaskToIssue _ _ | .mergeCommentIntoPendingTask _ _ _ _ |
    .reassignTasksToRuntime _ _ => true
  | _ => false

/-- The failing statements whose rows go to `HandleFailedTasks`. -/
def sweeps : UpdateStmt → Bool
  | .recoverOrphanedTasksForRuntime _ | .failStaleTasks _ _ _ |
    .failTasksForOfflineRuntimes _ | .expireStaleQueuedTasks _ _ _ _ => true
  | _ => false

/-- An update that neither touches a direct-chat row nor makes one. -/
def sparesChat (u : Update AgentTask) (t : AgentTask) : Bool :=
  u.apply t == t || (t.chatInputTaskID.isNone && (u.apply t).chatInputTaskID.isNone)

/-- The steps of the queue that are not one of the parties ending a direct-chat task. -/
def foreign (s : Task.State) : Task.Step → Bool
  | .insert stmt => (stmt.row s.now s.queue).all fun t => t.chatInputTaskID.isNone
  | .update stmt =>
    progresses stmt || s.queue.rows.all (sparesChat (stmt.update s.now s.queue))
  | .failTask call =>
    s.queue.rows.all fun t => t.id != call.taskID || t.chatInputTaskID.isNone
  | _ => true

/-- The task part of `SendDirectChatMessage`: insert the row, then make it the owner of
its own input. -/
def createDirectChatTask (now : Timestamp) (q : TaskTable) (id : UUID)
    (p : CreateChatTaskParams) : Option TaskTable :=
  (q.insert? (createChatTask now id p)).bind fun q' => q'.update? (setChatTaskInputOwnerSelf id)

def State.runPost (cfg : Config) (s : State) (childID : UUID) : Post → State
  | .failureMessage t errMsg failureReason =>
    match t.chatSessionID with
    | none => s
    | some chatSessionID =>
      { s with
        store := s.store.createChatMessage
          { id := s.store.nextMessageID, chatSessionID := chatSessionID, role := .assistant,
            content := cfg.redact errMsg, taskID := some t.id,
            failureReason := text failureReason } }
  | .finalizeCancelled t clientSupportsDraftRestore =>
    let r := finalizeCancelledChatMessage s.sys.now s.sys.queue s.store t clientSupportsDraftRestore
    { s with
      sys := { s.sys with queue := r.1 }
      store := r.2.1
      responses := s.responses ++ r.2.2.toList }
  | .handleFailed t =>
    -- without a retry nothing is written
    match maybeRetryFailedTask s.sys.now s.sys.queue t childID with
    | some q => { s with sys := { s.sys with queue := q } }
    | none => s

def next (cfg : Config) (s : State) : Act → Option State
  | .queue step =>
    if foreign s.sys step then
      (Task.next cfg.task s.sys step).map fun sys => { s with sys := sys }
    else none
  | .upload a =>
    if a.chatMessageID = none then
      some { s with store := { s.store with attachments := s.store.attachments ++ [a] } }
    else none
  | .send id p content attachmentIDs uploaderType uploaderID =>
    (createDirectChatTask s.sys.now s.sys.queue id p).map fun q =>
      let messageID := s.store.nextMessageID
      let linked := (s.store.createChatMessage
        { id := messageID, chatSessionID := p.chatSessionID, role := .user, content := content,
          taskID := some id }).linkAttachmentsToChatMessage messageID p.chatSessionID
            uploaderType uploaderID attachmentIDs
      { s with
        sys := { s.sys with queue := q }
        store := linked.1
        sent := ⟨id, messageID, p.chatSessionID, content, linked.2⟩ :: s.sent }
  | .reportTaskMessage taskID => some { s with store := s.store.createTaskMessage taskID }
  | .completeTask id output sessionID workDir =>
    match updateOne s.sys.queue (completeAgentTask s.sys.now id sessionID workDir) with
    | .error _ => some s
    | .ok (q, t) =>
      some { s with
        sys := { s.sys with queue := q }
        store := match t.chatSessionID with
          | none => s.store
          | some chatSessionID => writeChatCompletionOutcome cfg s.store t chatSessionID output }
  | .failTask call =>
    match Task.failTask cfg.task.classify s.sys.now s.sys.queue call with
    | .error _ => some s
    | .ok (q, t, child) =>
      some { s with
        sys := { s.sys with queue := q }
        posts :=
          if t.chatSessionID.isSome && child.isNone then
            s.posts ++ [.failureMessage t call.errMsg (call.reason cfg.task.classify)]
          else s.posts }
  | .sweep stmt =>
    if sweeps stmt && stmt.admits s.sys.now s.sys.queue then
      let u := stmt.update s.sys.now s.sys.queue
      (s.sys.queue.update? u).map fun q =>
        { s with
          sys := { s.sys with queue := q }
          posts := s.posts ++ (s.sys.queue.rows.filter u.sel).map fun t => .handleFailed (u.set t) }
    else none
  | .cancelTask id clientSupportsDraftRestore =>
    match updateOne s.sys.queue (cancelAgentTask s.sys.now id) with
    | .error _ => some s
    | .ok (q, t) =>
      some { s with
        sys := { s.sys with queue := q }
        posts := s.posts ++ [.finalizeCancelled t clientSupportsDraftRestore] }
  | .finalizeDeferred id =>
    let r := finalizeDeferredCancelledChat s.sys.queue s.store id
    some { s with sys := { s.sys with queue := r.1 }, store := r.2 }
  | .post i childID =>
    match s.posts[i]? with
    | none => none
    | some p =>
      if (getAgentTask s.sys.queue childID).isNone then
        some (State.runPost cfg { s with posts := s.posts.eraseIdx i } childID p)
      else none

/-- The chat from its first task on. -/
def machine (cfg : Config) : Machine State Act where
  Init s := (Task.machine cfg.task).Init s.sys ∧ s.store = {} ∧ s.sent = [] ∧
    s.responses = [] ∧ s.posts = []
  next := next cfg

def State.empty : State := ⟨Task.State.empty, {}, [], [], []⟩

theorem init_empty (cfg : Config) : (machine cfg).Init State.empty :=
  ⟨Task.init_empty cfg.task, rfl, rfl, rfl, rfl⟩

/-! ## Rows -/

theorem countP_at (q : TaskTable) {t : AgentTask} (ht : t ∈ q.rows) (P : AgentTask → Bool) :
    (q.rows.countP fun x => P x && x.id == t.id) = if P t then 1 else 0 := by
  have hone : (q.rows.filter fun x => x.id == t.id) = [t] := q.filter_key_eq ht
  rw [← List.countP_filter, hone]
  simp [List.countP_cons]

/-- A sweeper fails runs that have not ended. -/
theorem sweeps_sel {stmt : UpdateStmt} (h : sweeps stmt = true) {now : Timestamp} {q : TaskTable}
    {r : AgentTask} (hsel : (stmt.update now q).sel r = true) :
    r.status.terminal = false ∧ ((stmt.update now q).set r).status = .failed := by
  have hactive : r.status.active = true → r.status.terminal = false := by
    intro ha
    rcases TaskStatus.active_cases.1 ha with h | h | h <;> rw [h] <;> rfl
  cases stmt with
  | recoverOrphanedTasksForRuntime rt =>
    simp only [UpdateStmt.update, recoverOrphanedTasksForRuntime, Bool.and_eq_true] at hsel
    exact ⟨hactive hsel.2, rfl⟩
  | failStaleTasks d rt live =>
    simp only [UpdateStmt.update, failStaleTasks, Bool.or_eq_true, Bool.and_eq_true,
      beq_iff_eq] at hsel
    refine ⟨hactive ?_, rfl⟩
    rcases hsel with h | h <;> rw [h.1.1] <;> rfl
  | failTasksForOfflineRuntimes rs =>
    simp only [UpdateStmt.update, failTasksForOfflineRuntimes, Bool.and_eq_true] at hsel
    exact ⟨hactive hsel.1, rfl⟩
  | expireStaleQueuedTasks ttl n locked victims =>
    simp only [UpdateStmt.update, expireStaleQueuedTasks, expireEligible, Bool.and_eq_true,
      beq_iff_eq] at hsel
    refine ⟨?_, rfl⟩
    rw [hsel.2.1]
    rfl
  | _ => simp [sweeps] at h

theorem createDirectChatTask_rows {now : Timestamp} {q q' : TaskTable} {id : UUID}
    {p : CreateChatTaskParams} (h : createDirectChatTask now q id p = some q') :
    q'.rows = q.rows ++ [{ createChatTask now id p with chatInputTaskID := some id }] ∧
      ∀ t ∈ q.rows, t.id ≠ id := by
  simp only [createDirectChatTask, Option.bind_eq_some_iff] at h
  rcases h with ⟨q₁, hins, hupd⟩
  have hfresh : ∀ t ∈ q.rows, t.id ≠ id := by
    have hsome : (q.insert? (createChatTask now id p)).isSome := by
      rw [hins]
      rfl
    exact (Table.insert?_isSome.1 hsome).1
  have hkeep : q.rows.map (setChatTaskInputOwnerSelf id).apply = q.rows := by
    refine (List.map_congr_left fun t ht => ?_).trans (List.map_id _)
    refine Update.apply_of_not_sel ?_
    simpa [setChatTaskInputOwnerSelf] using hfresh t ht
  refine ⟨?_, hfresh⟩
  rw [Table.update?_rows hupd, Table.insert?_rows hins, List.map_append, hkeep, List.map_singleton,
    Update.apply_of_sel (by simp [setChatTaskInputOwnerSelf, createChatTask])]
  rfl

end Orynx.Chat
