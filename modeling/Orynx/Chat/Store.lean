import Orynx.Task.Queries

/-! # The chat tables

`chat_message`, `attachment`, `task_message` and `chat_draft_restore`, with the queries of
`server/pkg/db/queries/chat.sql` and `attachment.sql` that the settling of a direct-chat
task runs. The rows are those of one workspace. Deleting a message takes the attachments
bound to it along, by the foreign key.

* `StoreInv`: a prompt that was sent is in the transcript with its attachments, or has
  been handed back with them.
-/

namespace Orynx.Chat

open Orynx.Task Orynx.Attribution

/-! ## Rows -/

inductive Role where
  | user
  | assistant
deriving DecidableEq, Repr

inductive MessageKind where
  | message
  | noResponse
deriving DecidableEq, Repr

/-- A row of `chat_message`. -/
structure ChatMessage where
  id : UUID
  chatSessionID : UUID
  role : Role
  content : String
  taskID : Option UUID := none
  failureReason : Option String := none
  messageKind : MessageKind := .message
deriving DecidableEq, Repr

/-- A row of `attachment`. -/
structure Attachment where
  id : UUID
  issueID : Option UUID := none
  commentID : Option UUID := none
  uploaderType : ActorType
  uploaderID : UUID
  chatSessionID : Option UUID := none
  chatMessageID : Option UUID := none
  taskID : Option UUID := none
deriving DecidableEq, Repr

/-- A user's prompt with the attachments bound to it: what a send stores, and what a
cancellation hands back, in its response or as a row of `chat_draft_restore`. -/
structure Prompt where
  taskID : UUID
  messageID : UUID
  chatSessionID : UUID
  content : String
  attachmentIDs : List UUID
deriving DecidableEq, Repr

/-- The tables. `nextMessageID` is a primary key no message has had, and `transcript`
lists the task of every `task_message`. -/
structure Store where
  messages : List ChatMessage := []
  nextMessageID : UUID := 0
  transcript : List UUID := []
  attachments : List Attachment := []
  restores : List Prompt := []

namespace Store

/-! ## Queries -/

/-- `CreateChatMessage`. -/
def createChatMessage (db : Store) (m : ChatMessage) : Store :=
  { db with
    messages := db.messages ++ [{ m with id := db.nextMessageID }]
    nextMessageID := db.nextMessageID + 1 }

def createTaskMessage (db : Store) (taskID : UUID) : Store :=
  { db with transcript := db.transcript ++ [taskID] }

/-- `ListTaskMessages` returns nothing. -/
def transcriptEmpty (db : Store) (taskID : UUID) : Bool := !db.transcript.contains taskID

/-- An attachment that no issue, comment or message owns. -/
def Unowned (a : Attachment) : Bool :=
  a.issueID.isNone && a.commentID.isNone && a.chatMessageID.isNone

/-- The condition of `LinkAttachmentsToChatMessage`. -/
def linkable (chatSessionID : UUID) (uploaderType : ActorType) (uploaderID : UUID)
    (attachmentIDs : List UUID) (a : Attachment) : Bool :=
  Unowned a && (a.chatSessionID.isNone || a.chatSessionID == some chatSessionID) &&
    a.uploaderType == uploaderType && a.uploaderID == uploaderID && attachmentIDs.contains a.id

/-- `LinkAttachmentsToChatMessage`, with the ids it returns. -/
def linkAttachmentsToChatMessage (db : Store) (chatMessageID chatSessionID : UUID)
    (uploaderType : ActorType) (uploaderID : UUID) (attachmentIDs : List UUID) :
    Store × List UUID :=
  let sel := linkable chatSessionID uploaderType uploaderID attachmentIDs
  ({ db with
      attachments := db.attachments.map fun a =>
        if sel a then
          { a with chatMessageID := some chatMessageID, chatSessionID := some chatSessionID }
        else a },
    (db.attachments.filter sel).map fun a => a.id)

/-- `CountUnboundChatAttachmentsForTask`. -/
def countUnboundChatAttachmentsForTask (db : Store) (taskID : UUID) : Nat :=
  db.attachments.countP fun a => Unowned a && a.taskID == some taskID

/-- `BindChatAttachmentsToMessage`. -/
def bindChatAttachmentsToMessage (db : Store) (taskID chatMessageID : UUID) : Store :=
  { db with
    attachments := db.attachments.map fun a =>
      if Unowned a && a.taskID == some taskID then { a with chatMessageID := some chatMessageID }
      else a }

/-- The user messages of a task. -/
def userMessageOf (taskID : UUID) (m : ChatMessage) : Bool :=
  m.role == .user && m.taskID == some taskID

/-- An attachment bound to one of those messages. -/
def boundTo (messages : List ChatMessage) (a : Attachment) : Bool :=
  messages.any fun m => a.chatMessageID == some m.id

/-- `DetachAttachmentsFromUserChatMessageByTask`, with the ids it returns. -/
def detachAttachmentsFromUserChatMessageByTask (db : Store) (taskID : UUID) :
    Store × List UUID :=
  let bound := boundTo (db.messages.filter (userMessageOf taskID))
  ({ db with
      attachments := db.attachments.map fun a =>
        if bound a then { a with chatMessageID := none } else a },
    (db.attachments.filter bound).map fun a => a.id)

/-- `DeleteUserChatMessageByTask` and the cascade to the attachments; without a row it
reports that and changes nothing. -/
def deleteUserChatMessageByTask (db : Store) (taskID : UUID) : Option (Store × ChatMessage) :=
  let deleted := db.messages.filter (userMessageOf taskID)
  deleted.head?.map fun m =>
    ({ db with
        messages := db.messages.filter fun m => !userMessageOf taskID m
        attachments := db.attachments.filter fun a => !boundTo deleted a }, m)

/-- Take the prompt of a task out of the transcript: detach, then delete. -/
def takeBack (db : Store) (taskID : UUID) : Store × Option Prompt :=
  let detached := db.detachAttachmentsFromUserChatMessageByTask taskID
  match detached.1.deleteUserChatMessageByTask taskID with
  | none => (detached.1, none)
  | some (db', m) => (db', some ⟨taskID, m.id, m.chatSessionID, m.content, detached.2⟩)

/-! ## Counts -/

/-- The assistant messages of a task. -/
def assistants (db : Store) (taskID : UUID) : Nat :=
  db.messages.countP fun m => m.role == .assistant && m.taskID == some taskID

/-- The user messages of a task. -/
def prompts (db : Store) (taskID : UUID) : Nat := db.messages.countP (userMessageOf taskID)

theorem assistants_create (db : Store) (m : ChatMessage) (id : UUID) :
    (db.createChatMessage m).assistants id =
      db.assistants id + if m.role = .assistant ∧ m.taskID = some id then 1 else 0 := by
  simp [assistants, createChatMessage, List.countP_append, List.countP_cons]

theorem prompts_create (db : Store) (m : ChatMessage) (id : UUID) :
    (db.createChatMessage m).prompts id =
      db.prompts id + if m.role = .user ∧ m.taskID = some id then 1 else 0 := by
  simp [prompts, userMessageOf, createChatMessage, List.countP_append, List.countP_cons]

theorem messages_of_prompts_eq_zero {db : Store} {taskID : UUID} (h : db.prompts taskID = 0) :
    db.messages.filter (userMessageOf taskID) = [] := by
  rw [prompts, List.countP_eq_length_filter] at h
  exact List.length_eq_zero_iff.1 h

theorem messages_of_prompts_eq_one {db : Store} {taskID : UUID} (h : db.prompts taskID = 1) :
    ∃ m, db.messages.filter (userMessageOf taskID) = [m] := by
  rw [prompts, List.countP_eq_length_filter] at h
  exact List.length_eq_one_iff.1 h

/-! ## Taking a prompt back -/

/-- Without a user message of the task nothing happens. -/
theorem takeBack_none {db : Store} {taskID : UUID} (h : db.prompts taskID = 0) :
    db.takeBack taskID = (db, none) := by
  have hnone := messages_of_prompts_eq_zero h
  have hdetach : db.detachAttachmentsFromUserChatMessageByTask taskID = (db, []) := by
    simp [detachAttachmentsFromUserChatMessageByTask, hnone, boundTo]
  simp [takeBack, hdetach, deleteUserChatMessageByTask, hnone]

/-- What a detached attachment looks like. -/
def detachFrom (m : ChatMessage) (a : Attachment) : Attachment :=
  if a.chatMessageID == some m.id then { a with chatMessageID := none } else a

theorem detachFrom_id (m : ChatMessage) (a : Attachment) : (detachFrom m a).id = a.id := by
  unfold detachFrom
  split <;> rfl

theorem detachFrom_ne (m : ChatMessage) (a : Attachment) :
    (detachFrom m a).chatMessageID ≠ some m.id := by
  unfold detachFrom
  split
  · simp
  · rename_i h
    simpa using h

/-- The one user message of the task goes; its attachments stay, bound to nothing. -/
theorem takeBack_some {db : Store} {taskID : UUID} {m : ChatMessage}
    (h : db.messages.filter (userMessageOf taskID) = [m]) :
    db.takeBack taskID =
      ({ db with
          messages := db.messages.filter fun m => !userMessageOf taskID m
          attachments := db.attachments.map (detachFrom m) },
        some ⟨taskID, m.id, m.chatSessionID, m.content,
          (db.attachments.filter fun a => a.chatMessageID == some m.id).map fun a => a.id⟩) := by
  have hbound : boundTo [m] = fun a => a.chatMessageID == some m.id := by
    funext a
    simp [boundTo]
  have hkeep : (db.attachments.map (detachFrom m)).filter
      (fun a => !(a.chatMessageID == some m.id)) = db.attachments.map (detachFrom m) := by
    refine List.filter_eq_self.2 fun x hx => ?_
    rcases List.mem_map.1 hx with ⟨a, -, rfl⟩
    simpa using detachFrom_ne m a
  -- the cascade finds nothing that is still bound
  simp only [takeBack, detachAttachmentsFromUserChatMessageByTask, deleteUserChatMessageByTask,
    h, hbound, List.head?_cons, Option.map_some]
  exact congrArg (fun l => (Store.mk _ _ _ l _, _)) hkeep

theorem prompts_takeBack {db : Store} {taskID : UUID} {m : ChatMessage}
    (h : db.messages.filter (userMessageOf taskID) = [m]) (id : UUID) :
    (db.takeBack taskID).1.prompts id = if id = taskID then 0 else db.prompts id := by
  rw [takeBack_some h]
  simp only [prompts, List.countP_filter]
  split
  · rename_i hid
    rw [hid, List.countP_eq_zero]
    simp
  · rename_i hid
    refine List.countP_congr fun x _ => ?_
    simp only [userMessageOf, Bool.and_eq_true, beq_iff_eq, Bool.not_eq_true',
      Bool.and_eq_false_iff, beq_eq_false_iff_ne]
    constructor
    · exact fun hx => hx.1
    · intro hx
      refine ⟨hx, .inr fun htask => hid ?_⟩
      exact Option.some.inj (hx.2.symm.trans htask)

theorem assistants_takeBack {db : Store} {taskID : UUID} {m : ChatMessage}
    (h : db.messages.filter (userMessageOf taskID) = [m]) (id : UUID) :
    (db.takeBack taskID).1.assistants id = db.assistants id := by
  rw [takeBack_some h]
  simp only [assistants, List.countP_filter]
  refine List.countP_congr fun x _ => ?_
  simp only [userMessageOf, Bool.and_eq_true, beq_iff_eq, Bool.not_eq_true',
    Bool.and_eq_false_iff, beq_eq_false_iff_ne]
  constructor
  · exact fun hx => hx.1
  · intro hx
    exact ⟨hx, .inl (by simp [hx.1])⟩

/-! ## Sent prompts -/

/-- The prompt is in the transcript, with its attachments. -/
def Present (db : Store) (b : Prompt) : Prop :=
  (∃ m ∈ db.messages, m.id = b.messageID ∧ userMessageOf b.taskID m = true ∧
      m.content = b.content) ∧
    ∀ a ∈ b.attachmentIDs, ∃ x ∈ db.attachments, x.id = a ∧ x.chatMessageID = some b.messageID

/-- The prompt has been handed back as `h`: its attachments are listed, still exist, and
hang on the deleted message no more. -/
def Returned (db : Store) (b h : Prompt) : Prop :=
  h.taskID = b.taskID ∧ h.messageID = b.messageID ∧ h.content = b.content ∧
    (∀ a ∈ b.attachmentIDs, a ∈ h.attachmentIDs ∧ ∃ x ∈ db.attachments, x.id = a) ∧
    ∀ x ∈ db.attachments, x.chatMessageID ≠ some b.messageID

end Store

/-- Message keys are distinct and below the next one, and each prompt in `sent` is in the
transcript or among those `returned`. -/
structure StoreInv (db : Store) (sent returned : List Prompt) : Prop where
  ids : (db.messages.map fun m => m.id).Nodup
  below : ∀ m ∈ db.messages, m.id < db.nextMessageID
  sentBelow : ∀ b ∈ sent, b.messageID < db.nextMessageID
  kept : ∀ b ∈ sent, db.Present b ∨ ∃ h ∈ returned, db.Returned b h

namespace StoreInv

variable {db : Store} {sent returned : List Prompt}

theorem create (h : StoreInv db sent returned) (m : ChatMessage) :
    StoreInv (db.createChatMessage m) sent returned where
  ids := by
    have hfresh : ∀ x ∈ db.messages, x.id ≠ db.nextMessageID :=
      fun x hx => Nat.ne_of_lt (h.below x hx)
    simp only [Store.createChatMessage, List.map_append, List.map_cons, List.map_nil]
    refine List.nodup_append.2 ⟨h.ids, List.nodup_singleton _, ?_⟩
    intro i hi j hj
    rcases List.mem_map.1 hi with ⟨x, hx, rfl⟩
    rw [List.mem_singleton.1 hj]
    exact hfresh x hx
  below := by
    intro x hx
    rcases List.mem_append.1 hx with hx | hx
    · exact Nat.lt_succ_of_lt (h.below x hx)
    · rw [List.mem_singleton.1 hx]
      exact Nat.lt_succ_self _
  sentBelow b hb := Nat.lt_succ_of_lt (h.sentBelow b hb)
  kept b hb := by
    rcases h.kept b hb with ⟨⟨x, hx, hrest⟩, hatt⟩ | hreturned
    · exact .inl ⟨⟨x, List.mem_append_left _ hx, hrest⟩, hatt⟩
    · exact .inr hreturned

/-- An update of attachments that no message owns, binding them to a message that was not
sent, or to none. -/
theorem mapUnowned (h : StoreInv db sent returned) {f : Attachment → Attachment}
    (hid : ∀ a ∈ db.attachments, (f a).id = a.id)
    (howned : ∀ a ∈ db.attachments, a.chatMessageID.isSome → f a = a)
    (hnew : ∀ a ∈ db.attachments, a.chatMessageID = none → ∀ b ∈ sent,
      (f a).chatMessageID ≠ some b.messageID) :
    StoreInv { db with attachments := db.attachments.map f } sent returned where
  ids := h.ids
  below := h.below
  sentBelow := h.sentBelow
  kept b hb := by
    rcases h.kept b hb with ⟨hm, hatt⟩ | ⟨p, hp, htask, hmsg, hcontent, hlisted, hfree⟩
    · refine .inl ⟨hm, fun a ha => ?_⟩
      rcases hatt a ha with ⟨x, hx, hxid, hbound⟩
      have hsame : f x = x := howned x hx (by simp [hbound])
      exact ⟨f x, List.mem_map.2 ⟨x, hx, rfl⟩, by rw [hsame]; exact ⟨hxid, hbound⟩⟩
    · refine .inr ⟨p, hp, htask, hmsg, hcontent, fun a ha => ?_, fun y hy => ?_⟩
      · rcases hlisted a ha with ⟨hmem, x, hx, hxid⟩
        exact ⟨hmem, f x, List.mem_map.2 ⟨x, hx, rfl⟩, (hid x hx).trans hxid⟩
      · rcases List.mem_map.1 hy with ⟨x, hx, rfl⟩
        cases hmsgID : x.chatMessageID with
        | none => exact hnew x hx hmsgID b hb
        | some i =>
          rw [howned x hx (by simp [hmsgID])]
          exact hfree x hx

/-- A prompt that is taken back is handed back, and no other prompt is touched. -/
theorem takeBack (h : StoreInv db sent returned) {taskID : UUID} {m : ChatMessage}
    (hm : db.messages.filter (Store.userMessageOf taskID) = [m]) :
    StoreInv (db.takeBack taskID).1 sent
      (⟨taskID, m.id, m.chatSessionID, m.content,
        (db.attachments.filter fun a => a.chatMessageID == some m.id).map fun a => a.id⟩ ::
          returned) := by
  have hmem : m ∈ db.messages ∧ Store.userMessageOf taskID m = true := by
    have hm' : m ∈ db.messages.filter (Store.userMessageOf taskID) := by simp [hm]
    exact List.mem_filter.1 hm'
  rw [Store.takeBack_some hm]
  refine ⟨?_, ?_, h.sentBelow, ?_⟩
  · exact (List.filter_sublist.map _).nodup h.ids
  · intro x hx
    exact h.below x (List.mem_filter.1 hx).1
  · intro b hb
    rcases h.kept b hb with ⟨⟨x, hx, hxid, huser, hcontent⟩, hatt⟩ | ⟨p, hp, hreturned⟩
    · by_cases htask : b.taskID = taskID
      · -- the prompt of this task
        have hxm : x = m := by
          have hx' : x ∈ db.messages.filter (Store.userMessageOf taskID) :=
            List.mem_filter.2 ⟨hx, htask ▸ huser⟩
          simpa [hm] using hx'
        subst hxm
        refine .inr ⟨_, List.mem_cons_self, htask.symm, hxid, hcontent, fun a ha => ?_, ?_⟩
        · rcases hatt a ha with ⟨y, hy, hya, hbound⟩
          constructor
          · refine List.mem_map.2 ⟨y, List.mem_filter.2 ⟨hy, ?_⟩, hya⟩
            rw [hbound, hxid]
            exact beq_self_eq_true _
          · refine ⟨Store.detachFrom x y, List.mem_map.2 ⟨y, hy, rfl⟩, ?_⟩
            exact (Store.detachFrom_id x y).trans hya
        · intro y hy
          rcases List.mem_map.1 hy with ⟨a, -, rfl⟩
          rw [← hxid]
          exact Store.detachFrom_ne x a
      · have hother : ¬ Store.userMessageOf taskID x = true := by
          intro hx'
          simp only [Store.userMessageOf, Bool.and_eq_true, beq_iff_eq] at huser hx'
          exact htask (Option.some.inj (huser.2.symm.trans hx'.2))
        have hne : b.messageID ≠ m.id := by
          intro heq
          have hxm : x = m := List.inj_on_of_nodup_map h.ids hx hmem.1 (hxid.trans heq)
          exact hother (hxm ▸ hmem.2)
        refine .inl ⟨⟨x, List.mem_filter.2 ⟨hx, by simpa using hother⟩, hxid, huser, hcontent⟩,
          fun a ha => ?_⟩
        rcases hatt a ha with ⟨y, hy, hya, hbound⟩
        have hsame : Store.detachFrom m y = y := by
          simp [Store.detachFrom, hbound, hne]
        exact ⟨Store.detachFrom m y, List.mem_map.2 ⟨y, hy, rfl⟩, by rw [hsame]; exact ⟨hya, hbound⟩⟩
    · rcases hreturned with ⟨htask, hmsg, hcontent, hlisted, hfree⟩
      refine .inr ⟨p, List.mem_cons_of_mem _ hp, htask, hmsg, hcontent, fun a ha => ?_, ?_⟩
      · rcases hlisted a ha with ⟨hin, y, hy, hya⟩
        exact ⟨hin, Store.detachFrom m y, List.mem_map.2 ⟨y, hy, rfl⟩,
          (Store.detachFrom_id m y).trans hya⟩
      · intro y hy
        rcases List.mem_map.1 hy with ⟨a, ha, rfl⟩
        unfold Store.detachFrom
        split
        · simp
        · exact hfree a ha

/-- A new prompt is stored in two steps: its message, then the attachments. -/
theorem send (h : StoreInv db sent returned) (m : ChatMessage) {taskID : UUID}
    (hrole : m.role = .user) (htask : m.taskID = some taskID) (chatSessionID : UUID)
    (uploaderType : ActorType) (uploaderID : UUID) (attachmentIDs : List UUID) :
    let linked := (db.createChatMessage m).linkAttachmentsToChatMessage db.nextMessageID
      chatSessionID uploaderType uploaderID attachmentIDs
    StoreInv linked.1
      (⟨taskID, db.nextMessageID, chatSessionID, m.content, linked.2⟩ :: sent) returned := by
  intro linked
  have hlinked : StoreInv linked.1 sent returned := by
    refine (h.create m).mapUnowned ?_ ?_ ?_
    · intro a _
      split <;> rfl
    · intro a _ howned
      have hunowned : Store.linkable chatSessionID uploaderType uploaderID attachmentIDs a =
          false := by
        rcases Option.isSome_iff_exists.1 howned with ⟨i, hi⟩
        simp [Store.linkable, Store.Unowned, hi]
      simp [hunowned]
    · intro a _ hnone b hb heq
      split at heq
      · have hlt := h.sentBelow b hb
        rw [← Option.some.inj heq] at hlt
        exact Nat.lt_irrefl _ hlt
      · simp [hnone] at heq
  refine ⟨hlinked.ids, hlinked.below, ?_, ?_⟩
  · intro b hb
    rcases List.mem_cons.1 hb with rfl | hb
    · exact Nat.lt_succ_self _
    · exact hlinked.sentBelow b hb
  · intro b hb
    rcases List.mem_cons.1 hb with rfl | hb
    · refine .inl ⟨⟨{ m with id := db.nextMessageID }, ?_, rfl, ?_, rfl⟩, fun a ha => ?_⟩
      · exact List.mem_append_right _ (List.mem_singleton.2 rfl)
      · simp [Store.userMessageOf, hrole, htask]
      · rcases List.mem_map.1 ha with ⟨x, hx, rfl⟩
        rcases List.mem_filter.1 hx with ⟨hxmem, hsel⟩
        exact ⟨_, List.mem_map.2 ⟨x, hxmem, rfl⟩, by simp [hsel]⟩
    · exact hlinked.kept b hb

theorem upload (h : StoreInv db sent returned) {a : Attachment} (ha : a.chatMessageID = none) :
    StoreInv { db with attachments := db.attachments ++ [a] } sent returned where
  ids := h.ids
  below := h.below
  sentBelow := h.sentBelow
  kept b hb := by
    rcases h.kept b hb with ⟨hm, hatt⟩ | ⟨p, hp, htask, hmsg, hcontent, hlisted, hfree⟩
    · refine .inl ⟨hm, fun i hi => ?_⟩
      rcases hatt i hi with ⟨x, hx, hrest⟩
      exact ⟨x, List.mem_append_left _ hx, hrest⟩
    · refine .inr ⟨p, hp, htask, hmsg, hcontent, fun i hi => ?_, fun x hx => ?_⟩
      · rcases hlisted i hi with ⟨hin, x, hx, hxi⟩
        exact ⟨hin, x, List.mem_append_left _ hx, hxi⟩
      · rcases List.mem_append.1 hx with hx | hx
        · exact hfree x hx
        · rw [List.mem_singleton.1 hx, ha]
          simp

/-- Binding an agent's attachments to a reply touches no prompt. -/
theorem bind (h : StoreInv db sent returned) {taskID messageID : UUID}
    (hnew : ∀ b ∈ sent, b.messageID ≠ messageID) :
    StoreInv (db.bindChatAttachmentsToMessage taskID messageID) sent returned := by
  refine h.mapUnowned ?_ ?_ ?_
  · intro a _
    split <;> rfl
  · intro a _ howned
    rcases Option.isSome_iff_exists.1 howned with ⟨i, hi⟩
    simp [Store.Unowned, hi]
  · intro a _ hnone b hb heq
    split at heq
    · exact hnew b hb (Option.some.inj heq).symm
    · simp [hnone] at heq

/-- More may have been handed back. -/
theorem mono (h : StoreInv db sent returned) {returned' : List Prompt}
    (hsub : ∀ p ∈ returned, p ∈ returned') : StoreInv db sent returned' where
  ids := h.ids
  below := h.below
  sentBelow := h.sentBelow
  kept b hb := by
    rcases h.kept b hb with hpresent | ⟨p, hp, hreturned⟩
    · exact .inl hpresent
    · exact .inr ⟨p, hsub p hp, hreturned⟩

end StoreInv

/-! ## What the parties write -/

/-- The write adds `n` assistant messages of the task and touches no prompt. -/
structure Replies (db db' : Store) (taskID : UUID) (n : Nat) : Prop where
  assistants : ∀ id, db'.assistants id = db.assistants id + if taskID = id then n else 0
  prompts : ∀ id, db'.prompts id = db.prompts id
  restores : db'.restores = db.restores
  store : ∀ {sent returned : List Prompt}, StoreInv db sent returned →
    StoreInv db' sent returned

theorem Replies.refl (db : Store) (taskID : UUID) : Replies db db taskID 0 :=
  ⟨fun id => by simp, fun _ => rfl, rfl, id⟩

theorem Replies.create (db : Store) {m : ChatMessage} {taskID : UUID}
    (hrole : m.role = .assistant) (htask : m.taskID = some taskID) :
    Replies db (db.createChatMessage m) taskID 1 where
  assistants id := by
    rw [Store.assistants_create, hrole, htask]
    simp
  prompts id := by
    rw [Store.prompts_create, hrole]
    simp
  restores := rfl
  store h := h.create m

/-- A reply with the attachments the agent uploaded for it. -/
theorem Replies.createBound (db : Store) {m : ChatMessage} {taskID : UUID}
    (hrole : m.role = .assistant) (htask : m.taskID = some taskID) :
    Replies db ((db.createChatMessage m).bindChatAttachmentsToMessage taskID db.nextMessageID)
      taskID 1 where
  assistants := (Replies.create db hrole htask).assistants
  prompts := (Replies.create db hrole htask).prompts
  restores := rfl
  store h := (h.create m).bind fun b hb => Nat.ne_of_lt (h.sentBelow b hb)

/-- What taking back the prompt of a task with at most one does. -/
theorem Store.takeBack_cases {db : Store} {taskID : UUID} (h : db.prompts taskID ≤ 1) :
    (db.prompts taskID = 0 ∧ db.takeBack taskID = (db, none)) ∨
      ∃ db' p, db.takeBack taskID = (db', some p) ∧ db.prompts taskID = 1 ∧ p.taskID = taskID ∧
        (∀ id, db'.prompts id = if id = taskID then 0 else db.prompts id) ∧
        (∀ id, db'.assistants id = db.assistants id) ∧ db'.restores = db.restores ∧
        ∀ {sent returned : List Prompt}, StoreInv db sent returned →
          StoreInv db' sent (p :: returned) := by
  rcases Nat.le_one_iff_eq_zero_or_eq_one.1 h with h0 | h1
  · exact .inl ⟨h0, Store.takeBack_none h0⟩
  · rcases Store.messages_of_prompts_eq_one h1 with ⟨m, hm⟩
    have heq := Store.takeBack_some hm
    have hprompts := Store.prompts_takeBack hm
    have hassistants := Store.assistants_takeBack hm
    have hstore : ∀ {sent returned : List Prompt}, StoreInv db sent returned →
        StoreInv (db.takeBack taskID).1 sent _ := fun hinv => hinv.takeBack hm
    rw [heq] at hprompts hassistants hstore
    exact .inr ⟨_, _, heq, h1, rfl, hprompts, hassistants, rfl, hstore⟩

end Orynx.Chat
