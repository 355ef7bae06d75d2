import Orynx.Chat.Tokens

/-! # Every terminal direct-chat task settles once

Each step of the machine that is not one of `dropsOutcome` keeps the tokens balanced:
the parties that end a task give its row a token, and what they do afterwards passes the
token on.

* `inv_post`: what is left to do after a commit;
* `inv_step`: the steps;
* `settles_once`: the runs.
-/

namespace Orynx.Chat

open Lib Orynx.Task Orynx.Attribution

/-! ## After the commit -/

section Posts

variable {s s' : State} {i : Nat}

/-- A party writes its message, or has none to write for a task that is not a direct-chat
one. -/
theorem Inv.reply (hinv : Inv s) {p : Post} (hpost : s.posts[i]? = some p) {db : Store} {n : Nat}
    (hw : Replies s.store db p.task.id n) (hn : p.task.chatInputTaskID.isSome = true → n = 1)
    (hs' : s' = { s with store := db, posts := s.posts.eraseIdx i }) : Inv s' := by
  rcases hinv.posts p (List.mem_of_getElem? hpost) with ⟨r, hr, hmatches⟩
  have hposts : s'.posts = s.posts.eraseIdx i := by rw [hs']
  have hqueue : s'.sys.queue = s.sys.queue := by rw [hs']
  have hstore : s'.store = db := by rw [hs']
  have hreturned : s'.returned = s.returned := by
    rw [hs', State.returned, hw.restores]
    rfl
  have hhanded : ∀ id, s'.handed id = s.handed id := by
    intro id
    rw [State.handed, hreturned, State.handed]
  have htokens : ∀ id, s'.tokens id + (if r.id = id then 1 else 0) =
      s.tokens id + if r.id = id then n else 0 := by
    intro id
    have hflight := inFlight_erase hpost hposts id
    have hassistants := hw.assistants id
    rw [hmatches.id] at hflight hassistants
    simp only [State.tokens, hstore, hqueue, hhanded]
    omega
  refine hinv.mapAt (f := id) hr (by simp [hqueue]) (fun _ _ _ => rfl) (.refl r) ?_ ?_ ?_ ?_ ?_ ?_
  · intro id hid
    have h := htokens id
    rw [if_neg (Ne.symm hid), if_neg (Ne.symm hid)] at h
    exact h
  · intro hdirect
    have h := htokens r.id
    rw [if_pos rfl, if_pos rfl, hn (hmatches.chatInputTaskID ▸ hdirect)] at h
    have heq : s'.tokens r.id = s.tokens r.id := Nat.add_right_cancel h
    rw [heq]
    rfl
  · intro id
    rw [hstore, hw.prompts, hhanded]
  · intro p hp
    rw [hposts] at hp
    exact .inl (List.mem_of_mem_eraseIdx hp)
  · rw [hs']
  · rw [hstore, hreturned, hs']
    exact hw.store hinv.store

/-- The prompt of a row that owns its input is handed back: the row's token moves from the
party at work, or from the marker, to the prompt. -/
theorem Inv.handBack (hinv : Inv s) {r : AgentTask} (hr : r ∈ s.sys.queue.rows)
    (hself : r.chatInputTaskID = some r.id) {f : AgentTask → AgentTask}
    (hrows : s'.sys.queue.rows = s.sys.queue.rows.map f)
    (hothers : ∀ t ∈ s.sys.queue.rows, t.id ≠ r.id → f t = t) (hkept : RowKept r (f r))
    (hended : ended (f r) = ended r)
    (hflight : ∀ id, id ≠ r.id → s'.inFlight id = s.inFlight id)
    (hmoved : s'.inFlight r.id + marked (f r) + 1 = s.inFlight r.id + marked r)
    {db : Store} {p : Prompt} (htake : s.store.takeBack r.id = (db, some p))
    (hmessages : s'.store = { db with restores := s'.store.restores })
    (hreturned : s'.returned.Perm (p :: s.returned)) (hposts : ∀ p ∈ s'.posts, p ∈ s.posts)
    (hsent : s'.sent = s.sent) : Inv s' := by
  rcases hinv.prompt_there hr hself (by omega) with ⟨hone, hnone⟩
  rcases Store.takeBack_cases (Nat.le_of_eq hone) with ⟨hzero, -⟩ |
    ⟨db', p', htake', -, hpid, hprompts, hassistants, -, hstore⟩
  · omega
  rw [htake] at htake'
  obtain ⟨rfl, rfl⟩ : db = db' ∧ p = p' := by simpa using htake'
  have hhanded : ∀ id, s'.handed id = s.handed id + if r.id = id then 1 else 0 := by
    intro id
    rw [handed_cons hreturned, hpid]
  have hassistants' : ∀ id, s'.store.assistants id = s.store.assistants id := by
    intro id
    rw [hmessages]
    exact hassistants id
  have hprompts' : ∀ id, s'.store.prompts id = if id = r.id then 0 else s.store.prompts id := by
    intro id
    rw [hmessages]
    exact hprompts id
  have hall : ∀ t ∈ s.sys.queue.rows, RowKept t (f t) := by
    intro t ht
    by_cases hid : t.id = r.id
    · rw [s.sys.queue.eq_of_key ht hr hid]
      exact hkept
    · rw [hothers t ht hid]
      exact .refl t
  refine hinv.mapAt hr hrows hothers hkept ?_ ?_ ?_ (fun p hp => .inl (hposts p hp)) hsent ?_
  · intro id hid
    simp only [State.tokens, hassistants', hhanded, hflight id hid, retries_map hrows hall,
      if_neg (Ne.symm hid), Nat.add_zero]
  · intro _
    simp only [State.tokens, hassistants', hhanded, retries_map hrows hall, hended, if_true]
    omega
  · intro id
    rw [hprompts', hhanded]
    by_cases hid : id = r.id
    · subst hid
      rw [if_pos rfl, if_pos rfl, hone, hnone]
    · rw [if_neg hid, if_neg (Ne.symm hid), Nat.add_zero]
  · have hkeep := hstore hinv.store
    have hinv' : StoreInv db s.sent s'.returned :=
      hkeep.mono fun p hp => hreturned.mem_iff.2 hp
    rw [hmessages, hsent]
    exact ⟨hinv'.ids, hinv'.below, hinv'.sentBelow, hinv'.kept⟩

/-- Marking a row for a later judgement violates no constraint. -/
theorem markChatFinalizeDeferred_ok (now : Timestamp) (q : TaskTable) (id : UUID) :
    ∃ q', updateStmt q (markChatFinalizeDeferred now id) = .ok q' ∧
      q'.rows = q.rows.map (markChatFinalizeDeferred now id).apply := by
  have hsome : (q.update? (markChatFinalizeDeferred now id)).isSome := by
    refine Table.update?_isSome_of_shrink (fun r _ => ?_) (fun r _ => .inr ?_)
    · unfold Update.apply
      split <;> rfl
    · unfold Update.apply
      split <;> rfl
  rcases Option.isSome_iff_exists.1 hsome with ⟨q', hq'⟩
  exact ⟨q', updateStmt_ok.2 hq', Table.update?_rows hq'⟩

/-- The token moves from the cancelling party to the marker. -/
theorem Inv.mark (hinv : Inv s) {p : Post} (hpost : s.posts[i]? = some p) {q : TaskTable}
    (hrows : q.rows = s.sys.queue.rows.map (markChatFinalizeDeferred s.sys.now p.task.id).apply)
    (hs' : s' = { s with sys := { s.sys with queue := q }, posts := s.posts.eraseIdx i }) :
    Inv s' := by
  rcases hinv.posts p (List.mem_of_getElem? hpost) with ⟨r, hr, hmatches⟩
  have hposts : s'.posts = s.posts.eraseIdx i := by rw [hs']
  have hstore : s'.store = s.store := by rw [hs']
  have hreturned : s'.returned = s.returned := by rw [hs']; rfl
  have hhanded : ∀ id, s'.handed id = s.handed id := by
    intro id
    rw [State.handed, hreturned, State.handed]
  have hrows' : s'.sys.queue.rows =
      s.sys.queue.rows.map (markChatFinalizeDeferred s.sys.now p.task.id).apply := by
    rw [hs']
    exact hrows
  have hall : ∀ t ∈ s.sys.queue.rows,
      RowKept t ((markChatFinalizeDeferred s.sys.now p.task.id).apply t) :=
    fun t _ => .apply ⟨rfl, rfl, rfl, rfl, fun _ => rfl, .inl rfl⟩
  have htokens : ∀ id, s'.tokens id + (if r.id = id then 1 else 0) = s.tokens id := by
    intro id
    have hflight := inFlight_erase hpost hposts id
    rw [hmatches.id] at hflight
    simp only [State.tokens, hstore, hhanded, retries_map hrows' hall]
    omega
  have hset : (markChatFinalizeDeferred s.sys.now p.task.id).apply r =
      { r with chatFinalizeDeferredAt := some s.sys.now } := by
    refine Update.apply_of_sel ?_
    simp [markChatFinalizeDeferred, hmatches.id]
  refine hinv.mapAt hr hrows' ?_ (hall r hr) ?_ ?_ ?_ ?_ (by rw [hs']) ?_
  · intro t _ hid
    refine Update.apply_of_not_sel ?_
    simpa [markChatFinalizeDeferred, hmatches.id] using hid
  · intro id hid
    have h := htokens id
    rw [if_neg (Ne.symm hid)] at h
    exact h
  · intro hdirect
    have h := htokens r.id
    have hpos := inFlight_pos hpost
    have hbalanced := hinv.balanced r hr hdirect
    have hle := Inv.ended_le r
    rw [hmatches.id] at hpos
    -- the one token of the row is the party's, so the marker was not set
    have hunmarked : marked r = 0 := by
      simp only [State.tokens] at hbalanced
      omega
    rw [hset, hunmarked]
    simp only [if_true] at h
    show s'.tokens r.id + 1 + ended r = s.tokens r.id + 0 + ended r
    omega
  · intro id
    rw [hstore, hhanded]
  · intro p hp
    rw [hposts] at hp
    exact .inl (List.mem_of_mem_eraseIdx hp)
  · rw [hstore, hreturned, hs']
    exact hinv.store

/-- `finalizeCancelledChatMessage` passes the token on, but for a retry clone with an empty
transcript. -/
theorem inv_finalizeCancelled (hinv : Inv s) {t : AgentTask} {restore : Bool}
    (hpost : s.posts[i]? = some (.finalizeCancelled t restore))
    (hkeep : (AgentTask.inheritsInput t && s.store.transcriptEmpty t.id &&
      !(t.startedAt.isSome && restore)) = false)
    {r : TaskTable × Store × Option Prompt}
    (hrun : finalizeCancelledChatMessage s.sys.now s.sys.queue s.store t restore = r)
    (hs' : s' = { s with
      sys := { s.sys with queue := r.1 }
      store := r.2.1
      responses := s.responses ++ r.2.2.toList
      posts := s.posts.eraseIdx i }) : Inv s' := by
  subst hrun
  have hmem := List.mem_of_getElem? hpost
  rcases hinv.posts _ hmem with ⟨x, hx, hmatches⟩
  have hid : t.id = x.id := hmatches.id
  unfold finalizeCancelledChatMessage at hs'
  split at hs'
  · -- no session: not a direct-chat task
    rename_i hnone
    refine hinv.reply hpost (.refl _ _) (fun hdirect => ?_) (by simpa using hs')
    have hsome := hinv.post_session hmem hdirect
    simp [Post.task, hnone] at hsome
  · rename_i chatSessionID hsession
    split at hs'
    · rename_i hempty
      split at hs'
      · -- the judgement is deferred
        rcases markChatFinalizeDeferred_ok s.sys.now s.sys.queue t.id with ⟨q, hok, hrows⟩
        rw [hok] at hs'
        exact hinv.mark hpost hrows (by simpa using hs')
      · rename_i hsync
        have hsync' : (t.startedAt.isSome && restore) = false := by simpa using hsync
        rcases Store.takeBack_cases (Nat.le_trans (Nat.le_add_right _ _) (hinv.prompts_le t.id))
          with ⟨hzero, htake⟩ | ⟨db, p, htake, hone, -, -, -, hrestores, -⟩
        · -- nothing to take back: the row is not a direct-chat one
          rw [htake] at hs'
          refine hinv.reply hpost (.refl _ _) (fun hdirect => ?_) (by simpa using hs')
          have howns : t.chatInputTaskID = some t.id := by
            rw [hempty, hsync'] at hkeep
            simpa [AgentTask.inheritsInput, show t.chatInputTaskID.isSome = true from hdirect]
              using hkeep
          have hself : x.chatInputTaskID = some x.id := by
            rw [← hmatches.chatInputTaskID, ← hid]
            exact howns
          have hpos := inFlight_pos hpost
          have hthere := (hinv.prompt_there hx hself (by
            have hpos' : 0 < s.inFlight x.id := hid ▸ hpos
            omega)).1
          rw [← hid, hzero] at hthere
          simp at hthere
        · rw [htake] at hs'
          have hself : x.chatInputTaskID = some x.id := by
            by_contra hother
            have hzero := hinv.no_prompt hx hother
            rw [← hid, hone] at hzero
            simp at hzero
          have hflight := inFlight_erase hpost (show s'.posts = _ by rw [hs'])
          refine hinv.handBack (f := id) hx hself (by simp [hs']) (fun _ _ _ => rfl) (.refl x) rfl
            ?_ ?_ (hid ▸ htake) (by simp [hs']) ?_ ?_ (by rw [hs'])
          · intro id' hne
            have h := hflight id'
            rw [hmatches.id, if_neg (Ne.symm hne)] at h
            exact h
          · have h := hflight x.id
            rw [hmatches.id, if_pos rfl] at h
            show s'.inFlight x.id + marked x + 1 = _
            omega
          · simp only [State.returned, hs', hrestores, Option.toList_some, List.append_assoc,
              List.singleton_append]
            exact List.perm_middle
          · rw [hs']
            exact fun p hp => List.mem_of_mem_eraseIdx hp
    · -- the transcript stands for the run
      exact hinv.reply hpost (.create _ rfl rfl) (fun _ => rfl) (by simpa using hs')

/-- `HandleFailedTasks` hands the token of a direct-chat task to a retry clone, if the task
is eligible. -/
theorem inv_handleFailed (hinv : Inv s) {t : AgentTask}
    (hpost : s.posts[i]? = some (.handleFailed t))
    (hkeep : (t.chatInputTaskID.isSome && !sweeperRetryEligible t) = false) {childID : UUID}
    (hfresh : ∀ x ∈ s.sys.queue.rows, x.id ≠ childID) (cfg : Config)
    (hs' : s' = State.runPost cfg { s with posts := s.posts.eraseIdx i } childID
      (.handleFailed t)) : Inv s' := by
  have hmem := List.mem_of_getElem? hpost
  rcases hinv.posts _ hmem with ⟨x, hx, hmatches⟩
  have hid : t.id = x.id := hmatches.id
  have hget : getAgentTask s.sys.queue t.id = some x :=
    getAgentTask_eq_some.2 ⟨hx, hid.symm⟩
  cases hrun : maybeRetryFailedTask s.sys.now s.sys.queue t childID with
  | some q =>
    simp only [State.runPost, hrun] at hs'
    simp only [maybeRetryFailedTask, Option.ite_none_right_eq_some, hget, Option.bind_some] at hrun
    rcases hrun with ⟨helig, hins⟩
    have hfailed : x.status = .failed := by
      have hstatus : t.status = x.status := hmatches.status
      simp only [sweeperRetryEligible, Bool.and_eq_true, beq_iff_eq] at helig
      rw [← hstatus, helig.1]
    exact hinv.retry hpost hx hid hfailed hins hs'
  | none =>
    simp only [State.runPost, hrun] at hs'
    refine hinv.reply hpost (.refl _ _) (fun hdirect => ?_) hs'
    -- an eligible direct-chat task is retried: the clone's key is fresh and it has no issue
    have hdirect' : t.chatInputTaskID.isSome = true := hdirect
    have helig : sweeperRetryEligible t = true := by simpa [hdirect'] using hkeep
    have hxdirect : x.chatInputTaskID.isSome = true := by
      rw [← hmatches.chatInputTaskID]
      exact hdirect
    have hfailed : x.status = .failed := by
      have hstatus : t.status = x.status := hmatches.status
      simp only [sweeperRetryEligible, Bool.and_eq_true, beq_iff_eq] at helig
      rw [← hstatus, helig.1]
    have hissue : x.issueID = none :=
      (hinv.issueID x hx hxdirect).resolve_right (by simp [hfailed])
    have hsome : (s.sys.queue.insert? (createRetryTask s.sys.now childID x)).isSome := by
      refine Table.insert?_isSome.2 ⟨hfresh, fun k hk => ?_⟩
      rw [taskSchema_index, createRetryTask_index hissue] at hk
      simp at hk
    simp only [maybeRetryFailedTask, helig, if_true, hget, Option.bind_some] at hrun
    simp [hrun] at hsome

/-- What is left to do after a commit keeps the tokens balanced. -/
theorem inv_post (cfg : Config) (hinv : Inv s) {p : Post} (hpost : s.posts[i]? = some p)
    {childID : UUID} (hfresh : (getAgentTask s.sys.queue childID).isNone = true)
    (hkeep : dropsOutcome s (.post i childID) = false)
    (hs' : s' = State.runPost cfg { s with posts := s.posts.eraseIdx i } childID p) :
    Inv s' := by
  simp only [dropsOutcome, hpost] at hkeep
  cases p with
  | failureMessage t errMsg failureReason =>
    simp only [State.runPost] at hs'
    split at hs'
    · rename_i hnone
      refine hinv.reply hpost (.refl _ _) (fun hdirect => ?_) hs'
      have hsome := hinv.post_session (List.mem_of_getElem? hpost) hdirect
      simp [Post.task, hnone] at hsome
    · exact hinv.reply hpost (.create _ rfl rfl) (fun _ => rfl) hs'
  | finalizeCancelled t restore => exact inv_finalizeCancelled hinv hpost hkeep rfl hs'
  | handleFailed t => exact inv_handleFailed hinv hpost hkeep (getAgentTask_isNone.1 hfresh) cfg hs'

end Posts

/-! ## The deferred judgement -/

section Deferred

variable {s s' : State} {id : UUID}

theorem unmark_kept (t : AgentTask) : RowKept t ((claimChatFinalizeDeferred id).apply t) :=
  .apply ⟨rfl, rfl, rfl, rfl, fun _ => rfl, .inl rfl⟩

theorem unmark_other {t : AgentTask} (h : t.id ≠ id) :
    (claimChatFinalizeDeferred id).apply t = t := by
  refine Update.apply_of_not_sel ?_
  simp [claimChatFinalizeDeferred, h]

theorem marked_unmark {t : AgentTask} (h : (claimChatFinalizeDeferred id).sel t = true) :
    marked t = 1 ∧ marked ((claimChatFinalizeDeferred id).apply t) = 0 := by
  rw [Update.apply_of_sel h]
  simp only [claimChatFinalizeDeferred, Bool.and_eq_true] at h
  constructor
  · exact if_pos h.2
  · rfl

/-- The token moves from the marker to a message. -/
theorem Inv.unmark (hinv : Inv s) {x : AgentTask} (hx : x ∈ s.sys.queue.rows) (hid : x.id = id)
    (hsel : (claimChatFinalizeDeferred id).sel x = true) {q : TaskTable}
    (hrows : q.rows = s.sys.queue.rows.map (claimChatFinalizeDeferred id).apply) {db : Store}
    {n : Nat} (hw : Replies s.store db id n) (hn : x.chatInputTaskID.isSome = true → n = 1)
    (hs' : s' = { s with sys := { s.sys with queue := q }, store := db }) : Inv s' := by
  subst hid
  have hstore : s'.store = db := by rw [hs']
  have hrows' : s'.sys.queue.rows =
      s.sys.queue.rows.map (claimChatFinalizeDeferred x.id).apply := by
    rw [hs']
    exact hrows
  have hreturned : s'.returned = s.returned := by
    rw [hs', State.returned, hw.restores]
    rfl
  have hhanded : ∀ id, s'.handed id = s.handed id := by
    intro id
    rw [State.handed, hreturned, State.handed]
  have htokens : ∀ id, s'.tokens id = s.tokens id + if x.id = id then n else 0 := by
    intro id
    have hassistants := hw.assistants id
    have hflight : s'.inFlight id = s.inFlight id := by rw [hs']; rfl
    simp only [State.tokens, hstore, hhanded, hflight, hassistants,
      retries_map hrows' fun t _ => unmark_kept t]
    omega
  refine hinv.mapAt hx hrows' (fun t _ hne => unmark_other hne) (unmark_kept x) ?_ ?_ ?_ ?_
    (by rw [hs']) ?_
  · intro id hne
    rw [htokens, if_neg (Ne.symm hne), Nat.add_zero]
  · intro hdirect
    rcases marked_unmark hsel with ⟨hmarked, hcleared⟩
    have hended : ended ((claimChatFinalizeDeferred x.id).apply x) = ended x := by
      rw [Update.apply_of_sel hsel]
      rfl
    rw [htokens, if_pos rfl, hn hdirect, hmarked, hcleared, hended]
  · intro id
    rw [hstore, hw.prompts, hhanded]
  · intro p hp
    rw [hs'] at hp
    exact .inl hp
  · rw [hstore, hreturned, hs']
    exact hw.store hinv.store

/-- The daemon's flush ack and the sweeper pass the marker's token on, but for a retry clone
with an empty transcript. -/
theorem inv_finalizeDeferred (hinv : Inv s) (hkeep : dropsOutcome s (.finalizeDeferred id) = false)
    {r : TaskTable × Store} (hrun : finalizeDeferredCancelledChat s.sys.queue s.store id = r)
    (hs' : s' = { s with sys := { s.sys with queue := r.1 }, store := r.2 }) : Inv s' := by
  subst hrun
  unfold finalizeDeferredCancelledChat at hs'
  split at hs'
  · -- somebody else has cleared the marker
    rw [hs']
    exact hinv
  · rename_i q claimed hok
    rcases updateOne_ok hok with ⟨x, hx, hsel, hclaimed, hupd⟩
    have hrows := Table.update?_rows hupd
    have hmarker : x.id = id ∧ x.chatFinalizeDeferredAt.isSome = true := by
      simpa [claimChatFinalizeDeferred] using hsel
    rcases hmarker with ⟨hid, hmarked⟩
    have hcid : claimed.id = id := by
      rw [hclaimed]
      exact hid
    have hsession : claimed.chatSessionID = x.chatSessionID := by
      rw [hclaimed]
      rfl
    split at hs'
    · rename_i hnone
      rw [hsession] at hnone
      refine hinv.unmark hx hid hsel hrows (.refl _ _) (fun hdirect => ?_) hs'
      have hsome := hinv.session x hx hdirect
      simp [hnone] at hsome
    · rename_i chatSessionID _
      rw [hcid] at hs'
      by_cases hempty : s.store.transcriptEmpty id = true
      · rw [if_pos hempty] at hs'
        rcases Store.takeBack_cases (Nat.le_trans (Nat.le_add_right _ _) (hinv.prompts_le id))
          with ⟨hzero, htake⟩ | ⟨db, p, htake, hone, -, -, -, hrestores, -⟩
        · rw [htake] at hs'
          refine hinv.unmark hx hid hsel hrows (.refl _ _) (fun hdirect => ?_) hs'
          have hget : getAgentTask s.sys.queue id = some x := getAgentTask_eq_some.2 ⟨hx, hid⟩
          have hself : x.chatInputTaskID = some x.id := by
            simpa [dropsOutcome, hget, hmarked, hempty, AgentTask.inheritsInput, hdirect]
              using hkeep
          have hthere := (hinv.prompt_there hx hself (by
            rw [(marked_unmark hsel).1]
            exact Nat.succ_pos _)).1
          rw [hid, hzero] at hthere
          simp at hthere
        · rw [htake] at hs'
          have hself : x.chatInputTaskID = some x.id := by
            by_contra hother
            have hzero := hinv.no_prompt hx hother
            rw [hid, hone] at hzero
            simp at hzero
          subst hid
          refine hinv.handBack hx hself (by rw [hs']; exact hrows)
            (fun t _ hne => unmark_other hne) (unmark_kept x) ?_ ?_ ?_ htake (by rw [hs']) ?_ ?_
            (by rw [hs'])
          · rw [Update.apply_of_sel hsel]
            rfl
          · intro id _
            rw [hs']
            rfl
          · rcases marked_unmark hsel with ⟨hmarked, hcleared⟩
            rw [hs', hmarked, hcleared]
            rfl
          · simp only [State.returned, hs', hrestores]
            rw [← List.append_assoc]
            exact List.perm_append_singleton _ _
          · rw [hs']
            exact fun p hp => hp
      · rw [if_neg hempty] at hs'
        exact hinv.unmark hx hid hsel hrows (.create _ rfl (congrArg some hcid)) (fun _ => rfl) hs'

end Deferred

/-! ## Ending a task -/

section Ending

variable {s s' : State}

/-- A completed task gets its one message, whatever the output. -/
theorem writeChatCompletionOutcome_replies (cfg : Config) (db : Store) (task : AgentTask)
    (chatSessionID : UUID) (output : String) :
    ∃ n, Replies db (writeChatCompletionOutcome cfg db task chatSessionID output) task.id n ∧
      (task.chatInputTaskID.isSome = true → n = 1) := by
  unfold writeChatCompletionOutcome
  by_cases hskip : (blank (cfg.unescapeBackslashEscapes output) &&
      db.countUnboundChatAttachmentsForTask task.id == 0 && task.chatInputTaskID.isNone) = true
  · -- a task of a channel or an old client stays silent
    rw [if_pos hskip]
    refine ⟨0, .refl db task.id, fun hdirect => ?_⟩
    rw [Option.isSome_iff_ne_none] at hdirect
    simp only [Bool.and_eq_true, Option.isNone_iff_eq_none] at hskip
    exact absurd hskip.2 hdirect
  · rw [if_neg hskip]
    refine ⟨1, ?_, fun _ => rfl⟩
    by_cases hattached : 0 < db.countUnboundChatAttachmentsForTask task.id
    · simp only [if_pos hattached]
      exact .createBound db rfl rfl
    · simp only [if_neg hattached]
      exact .create db rfl rfl

/-- A party ends the one row `x`: it writes its message at once, or has yet to. -/
theorem Inv.finish (hinv : Inv s) {x : AgentTask} (hx : x ∈ s.sys.queue.rows)
    {u : Update AgentTask} {q : TaskTable} (hupd : s.sys.queue.update? u = some q)
    (hsel : u.sel x = true) (honly : ∀ t, u.sel t = true → t.id = x.id)
    (hkept : RowKept x (u.set x)) (hlive : x.status.terminal = false)
    (hterminal : (u.set x).status.terminal = true)
    (hmarker : (u.set x).chatFinalizeDeferredAt = x.chatFinalizeDeferredAt) {db : Store} {n : Nat}
    (hw : Replies s.store db x.id n) {added : List Post}
    (hadded : ∀ p ∈ added, p.Matches (u.set x))
    (hn : x.chatInputTaskID.isSome = true → n + added.length = 1)
    (hs' : s' = { s with
      sys := { s.sys with queue := q }
      store := db
      posts := s.posts ++ added }) : Inv s' := by
  have hrows : s'.sys.queue.rows = s.sys.queue.rows.map u.apply := by
    rw [hs']
    exact Table.update?_rows hupd
  have hothers : ∀ t ∈ s.sys.queue.rows, t.id ≠ x.id → u.apply t = t := by
    intro t _ hne
    refine Update.apply_of_not_sel ?_
    by_contra hsel'
    exact hne (honly t (by simpa using hsel'))
  have hset : u.apply x = u.set x := Update.apply_of_sel hsel
  have hall : ∀ t ∈ s.sys.queue.rows, RowKept t (u.apply t) := by
    intro t ht
    by_cases hid : t.id = x.id
    · rw [s.sys.queue.eq_of_key ht hx hid, hset]
      exact hkept
    · rw [hothers t ht hid]
      exact .refl t
  have hstore : s'.store = db := by rw [hs']
  have hreturned : s'.returned = s.returned := by
    rw [hs', State.returned, hw.restores]
    rfl
  have hhanded : ∀ id, s'.handed id = s.handed id := by
    intro id
    rw [State.handed, hreturned, State.handed]
  have hflight : ∀ id, s'.inFlight id =
      s.inFlight id + if x.id = id then added.length else 0 := by
    intro id
    simp only [State.inFlight, hs', List.countP_append, Nat.add_left_cancel_iff]
    have htask : ∀ p ∈ added, p.task.id = x.id := fun p hp => (hadded p hp).id.trans hkept.id
    by_cases hid : x.id = id
    · rw [if_pos hid, List.countP_eq_length]
      intro p hp
      simp [htask p hp, hid]
    · rw [if_neg hid, List.countP_eq_zero]
      intro p hp
      simp [htask p hp, hid]
  have htokens : ∀ id, s'.tokens id =
      s.tokens id + if x.id = id then n + added.length else 0 := by
    intro id
    have hassistants := hw.assistants id
    simp only [State.tokens, hstore, hhanded, hflight, hassistants, retries_map hrows hall]
    by_cases hid : x.id = id
    · simp only [if_pos hid]
      omega
    · simp only [if_neg hid, Nat.add_zero]
  refine hinv.mapAt hx hrows hothers (hall x hx) ?_ ?_ ?_ ?_ (by rw [hs']) ?_
  · intro id hne
    rw [htokens, if_neg (Ne.symm hne), Nat.add_zero]
  · intro hdirect
    have hmarked : marked (u.set x) = marked x := by rw [marked, marked, hmarker]
    have hold : ended x = 0 := by simp [ended, hlive]
    have hnew : ended (u.set x) = 1 := by simp [ended, hterminal]
    rw [htokens, if_pos rfl, hn hdirect, hset, hmarked, hold, hnew]
    omega
  · intro id
    rw [hstore, hw.prompts, hhanded]
  · intro p hp
    rw [hs'] at hp
    rw [hset]
    exact (List.mem_append.1 hp).imp_right (hadded p)
  · rw [hstore, hreturned, hs']
    exact hw.store hinv.store

theorem inv_completeTask {cfg : Config} (hinv : Inv s) {id : UUID} {output : String}
    {sessionID workDir : Option String}
    (h : next cfg s (.completeTask id output sessionID workDir) = some s') : Inv s' := by
  simp only [next] at h
  split at h
  · -- already finalized
    obtain rfl : s = s' := by simpa using h
    exact hinv
  · rename_i q t hok
    rcases updateOne_ok hok with ⟨x, hx, hsel, ht, hupd⟩
    obtain ⟨hid, hrunning⟩ : x.id = id ∧ x.status = .running := by
      simpa [completeAgentTask] using hsel
    have hlive : x.status.terminal = false := by rw [hrunning]; rfl
    have hsession : t.chatSessionID = x.chatSessionID := by rw [ht]; rfl
    have htid : t.id = x.id := by rw [ht]; rfl
    have hinput : t.chatInputTaskID = x.chatInputTaskID := by rw [ht]; rfl
    -- the outcome is written in the transaction that completes the row
    have hwrites : ∃ db n, s' = { s with sys := { s.sys with queue := q }, store := db } ∧
        Replies s.store db x.id n ∧ (x.chatInputTaskID.isSome = true → n = 1) := by
      cases hs : t.chatSessionID with
      | none =>
        simp only [hs, Option.some.injEq] at h
        refine ⟨s.store, 0, h.symm, .refl _ _, fun hdirect => ?_⟩
        have hsome := hinv.session x hx hdirect
        rw [← hsession, hs] at hsome
        simp at hsome
      | some chatSessionID =>
        simp only [hs, Option.some.injEq] at h
        rw [← htid, ← hinput]
        rcases writeChatCompletionOutcome_replies cfg s.store t chatSessionID output with ⟨n, hw⟩
        exact ⟨_, n, h.symm, hw⟩
    rcases hwrites with ⟨db, n, hs', hw, hn⟩
    refine hinv.finish hx hupd hsel ?_ (.of_live ⟨rfl, rfl, rfl, rfl, rfl⟩ hlive)
      hlive rfl rfl hw (List.forall_mem_nil _) (by simpa using hn) (by simpa using hs')
    intro y hy
    have hy' : y.id = id ∧ y.status = .running := by simpa [completeAgentTask] using hy
    rw [hy'.1, hid]

theorem inv_cancelTask {cfg : Config} (hinv : Inv s) {id : UUID} {restore : Bool}
    (h : next cfg s (.cancelTask id restore) = some s') : Inv s' := by
  simp only [next] at h
  split at h
  · obtain rfl : s = s' := by simpa using h
    exact hinv
  · rename_i q t hok
    rcases updateOne_ok hok with ⟨x, hx, hsel, rfl, hupd⟩
    obtain ⟨hid, hcancel⟩ : x.id = id ∧ x.status.cancellable = true := by
      simpa [cancelAgentTask, cancelWhere] using hsel
    have hlive : x.status.terminal = false := by
      cases hs : x.status <;> simp_all [TaskStatus.cancellable, TaskStatus.terminal]
    refine hinv.finish hx hupd hsel ?_ (.of_live ⟨rfl, rfl, rfl, rfl, rfl⟩ hlive) hlive rfl rfl
      (.refl _ _) ?_ (fun _ => rfl) (by simpa using h.symm)
    · intro y hy
      have hy' : y.id = id ∧ y.status.cancellable = true := by
        simpa [cancelAgentTask, cancelWhere] using hy
      rw [hy'.1, hid]
    · intro p hp
      rw [List.mem_singleton.1 hp]
      exact ⟨rfl, rfl, rfl, rfl, rfl⟩

/-- `FailTask` fails its row; what it leaves to do is the row's token. -/
theorem Inv.fail (hinv : Inv s) {classify : String → String} {c : FailTaskCall} {x : AgentTask}
    (hx : x ∈ s.sys.queue.rows) (hsel : (c.update classify s.sys.now).sel x = true)
    {failed : TaskTable}
    (hupd : s.sys.queue.update? (c.update classify s.sys.now) = some failed) {added : List Post}
    (hadded : ∀ p ∈ added, p.Matches ((c.update classify s.sys.now).set x))
    (hn : x.chatInputTaskID.isSome = true → added.length = 1)
    (hs' : s' = { s with
      sys := { s.sys with queue := failed }
      posts := s.posts ++ added }) : Inv s' := by
  rcases FailTaskCall.sel_iff.1 hsel with ⟨hid, hactive⟩
  have hlive : x.status.terminal = false := by
    rcases TaskStatus.active_cases.1 hactive with h | h | h <;> rw [h] <;> rfl
  refine hinv.finish hx hupd hsel ?_ (.of_live ⟨rfl, rfl, rfl, rfl, rfl⟩ hlive) hlive rfl rfl
    (.refl _ _) hadded (fun hdirect => ?_) hs'
  · intro y hy
    rw [(FailTaskCall.sel_iff.1 hy).1, hid]
  · rw [Nat.zero_add]
    exact hn hdirect

/-- `FailTask` inserts the retry clone in the transaction that fails the row. -/
theorem Inv.failRetry (hinv : Inv s) {classify : String → String} {c : FailTaskCall}
    {x : AgentTask} (hx : x ∈ s.sys.queue.rows)
    (hsel : (c.update classify s.sys.now).sel x = true) {failed q : TaskTable}
    (hupd : s.sys.queue.update? (c.update classify s.sys.now) = some failed)
    (hins : failed.insert? (createRetryTask s.sys.now c.childID
      ((c.update classify s.sys.now).set x)) = some q)
    (hs' : s' = { s with sys := { s.sys with queue := q } }) : Inv s' := by
  have hmem : (c.update classify s.sys.now).set x ∈ failed.rows :=
    (Table.mem_update? hupd).2 ⟨x, hx, Update.apply_of_sel hsel⟩
  -- fail the row, as if the retry were still to come, and retry it
  have hinv' : Inv { s with
      sys := { s.sys with queue := failed }
      posts := s.posts ++ [.handleFailed ((c.update classify s.sys.now).set x)] } := by
    refine hinv.fail hx hsel hupd ?_ (fun _ => rfl) rfl
    intro p hp
    rw [List.mem_singleton.1 hp]
    exact ⟨rfl, rfl, rfl, rfl, rfl⟩
  refine hinv'.retry (i := s.posts.length) ?_ hmem rfl rfl hins ?_
  · simp
  · rw [hs']
    simp [List.eraseIdx_append_of_length_le]

theorem inv_failTask {cfg : Config} (hinv : Inv s) {call : FailTaskCall}
    (h : next cfg s (.failTask call) = some s') : Inv s' := by
  simp only [next] at h
  split at h
  · obtain rfl : s = s' := by simpa using h
    exact hinv
  · rename_i q t child hok
    rcases failTask_ok hok with ⟨x, hx, failed, hsel, rfl, hupd, hcase⟩
    rcases hcase with ⟨-, rfl, rfl⟩ | ⟨-, rfl, hins⟩
    · -- the failure message is still to be written, if the task has a session
      cases hsession : x.chatSessionID with
      | none =>
        have hsession' : ((call.update cfg.task.classify s.sys.now).set x).chatSessionID = none :=
          hsession
        refine hinv.fail hx hsel hupd (List.forall_mem_nil _) (fun hdirect => ?_) ?_
        · have hsome := hinv.session x hx hdirect
          simp [hsession] at hsome
        · simpa [hsession'] using h.symm
      | some chatSessionID =>
        have hsession' : ((call.update cfg.task.classify s.sys.now).set x).chatSessionID =
            some chatSessionID := hsession
        refine hinv.fail hx hsel hupd ?_ (fun _ => rfl) (by simpa [hsession'] using h.symm)
        intro p hp
        rw [List.mem_singleton.1 hp]
        exact ⟨rfl, rfl, rfl, rfl, rfl⟩
    · exact hinv.failRetry hx hsel hupd hins (by simpa using h.symm)

end Ending

/-! ## Sweeps -/

section Sweeps

variable {s s' : State}

/-- Every row a sweep fails waits for `HandleFailedTasks`. -/
theorem sweep_inFlight {u : Update AgentTask} (hset : ∀ t ∈ s.sys.queue.rows, (u.set t).id = t.id)
    (hposts : s'.posts = s.posts ++
      (s.sys.queue.rows.filter u.sel).map fun t => .handleFailed (u.set t)) (id : UUID) :
    s'.inFlight id = s.inFlight id + s.sys.queue.rows.countP fun t => u.sel t && t.id == id := by
  rw [State.inFlight, hposts, List.countP_append, List.countP_map, List.countP_filter]
  refine congrArg (s.inFlight id + ·) (List.countP_congr fun t ht => ?_)
  simp [Post.task, hset t ht, and_comm]

theorem inv_sweep {cfg : Config} (hinv : Inv s) {stmt : UpdateStmt}
    (h : next cfg s (.sweep stmt) = some s') : Inv s' := by
  simp only [next, Option.ite_none_right_eq_some, Bool.and_eq_true, Option.map_eq_some_iff] at h
  rcases h with ⟨⟨hsweeps, hadm⟩, q, hupd, hs'⟩
  generalize hu : stmt.update s.sys.now s.sys.queue = u at hupd hs'
  have hrows : s'.sys.queue.rows = s.sys.queue.rows.map u.apply := by
    rw [← hs']
    exact Table.update?_rows hupd
  have hsame : ∀ t, SameChat t (u.apply t) := by
    intro t
    rw [← hu]
    exact sameChat_of_progresses (.inr hsweeps) s.sys.now s.sys.queue t
  have hall : ∀ t ∈ s.sys.queue.rows, RowKept t (u.apply t) := by
    intro t ht
    have hstep := stmt.rowStep hadm ht
    have hplan := stmt.planStep s.sys.now s.sys.queue t
    rw [hu] at hstep hplan
    exact .of_rowStep hstep hplan (hsame t).1
  have hsel : ∀ t, u.sel t = true → t.status.terminal = false ∧ (u.set t).status = .failed := by
    intro t
    rw [← hu]
    exact sweeps_sel hsweeps
  have hset : ∀ t ∈ s.sys.queue.rows, (u.set t).id = t.id := by
    intro t _
    rw [← hu]
    cases stmt with
    | recoverOrphanedTasksForRuntime | failStaleTasks | failTasksForOfflineRuntimes |
      expireStaleQueuedTasks => rfl
    | _ => simp [sweeps] at hsweeps
  have hposts : s'.posts = s.posts ++
      (s.sys.queue.rows.filter u.sel).map fun t => .handleFailed (u.set t) := by rw [← hs']
  have hflight := sweep_inFlight hset hposts
  have hstore : s'.store = s.store := by rw [← hs']
  have hhanded : ∀ id, s'.handed id = s.handed id := by
    intro id
    rw [← hs']
    rfl
  have htokens : ∀ id, s'.tokens id =
      s.tokens id + s.sys.queue.rows.countP fun t => u.sel t && t.id == id := by
    intro id
    simp only [State.tokens, hflight, hstore, hhanded, retries_map hrows hall]
    omega
  refine hinv.map hrows hall ?_ ?_ ?_ ?_ (by rw [← hs']) (by rw [← hs']; exact hinv.store)
  · intro t ht _
    have hmarked : marked (u.apply t) = marked t := by rw [marked, marked, (hsame t).2]
    rw [htokens, countP_at s.sys.queue ht, hmarked]
    cases hst : u.sel t with
    | false => simp [Update.apply_of_not_sel hst]
    | true =>
      rcases hsel t hst with ⟨hlive, hfailed⟩
      have hold : ended t = 0 := by simp [ended, hlive]
      have hnew : ended (u.apply t) = 1 := by
        rw [Update.apply_of_sel hst, ended, hfailed]
        rfl
      simp only [hold, hnew, if_true]
      omega
  · intro id
    rw [hstore, hhanded]
  · intro id hfresh
    have hzero : (s.sys.queue.rows.countP fun t => u.sel t && t.id == id) = 0 := by
      rw [List.countP_eq_zero]
      intro t ht
      simp [hfresh t ht]
    rw [htokens, hzero, Nat.add_zero]
  · intro p hp
    rw [hposts] at hp
    rcases List.mem_append.1 hp with hp | hp
    · exact .inl hp
    · rcases List.mem_map.1 hp with ⟨t, ht, rfl⟩
      rcases List.mem_filter.1 ht with ⟨ht, hst⟩
      refine .inr ⟨t, ht, ?_⟩
      rw [Update.apply_of_sel hst]
      exact ⟨rfl, rfl, by rw [(hsel t hst).2]; rfl, rfl, rfl⟩

end Sweeps

/-! ## A new prompt -/

section Send

variable {s s' : State}

/-- A direct-chat row enters the table as the owner of its own input. -/
theorem inv_send {cfg : Config} (hinv : Inv s) {id : UUID} {p : CreateChatTaskParams}
    {content : String} {attachmentIDs : List UUID} {uploaderType : ActorType} {uploaderID : UUID}
    (h : next cfg s (.send id p content attachmentIDs uploaderType uploaderID) = some s') :
    Inv s' := by
  simp only [next, Option.map_eq_some_iff] at h
  rcases h with ⟨q, hcreate, hs'⟩
  rcases createDirectChatTask_rows hcreate with ⟨hqrows, hfresh⟩
  have hrows : s'.sys.queue.rows = s.sys.queue.rows ++
      [{ createChatTask s.sys.now id p with chatInputTaskID := some id }] := by
    rw [← hs']
    exact hqrows
  have hhanded : ∀ id, s'.handed id = s.handed id := by
    intro id
    rw [← hs']
    rfl
  have hassistants : ∀ i, s'.store.assistants i = s.store.assistants i := by
    intro i
    rw [← hs']
    exact (Store.assistants_create s.store _ i).trans (by simp)
  have hprompts : ∀ i, s'.store.prompts i = s.store.prompts i + if id = i then 1 else 0 := by
    intro i
    rw [← hs']
    exact (Store.prompts_create s.store _ i).trans (by simp)
  have htokens : ∀ i, s'.tokens i = s.tokens i := by
    intro i
    have hflight : s'.inFlight i = s.inFlight i := by rw [← hs']; rfl
    have hretries : retries s'.sys.queue i = retries s.sys.queue i := by
      rw [retries_append hrows]
      simp [createChatTask]
    simp only [State.tokens, hhanded, hassistants, hflight, hretries]
  have hnew : s.store.prompts id + s.handed id = 0 := by
    by_contra hne
    rcases hinv.owner id (by omega) with ⟨r, hr, hid, -⟩
    exact hfresh r hr hid
  have hsent : s'.sent = ⟨id, s.store.nextMessageID, p.chatSessionID, content,
      ((s.store.createChatMessage
        { id := s.store.nextMessageID, chatSessionID := p.chatSessionID, role := .user,
          content := content, taskID := some id }).linkAttachmentsToChatMessage
            s.store.nextMessageID p.chatSessionID uploaderType uploaderID attachmentIDs).2⟩ ::
      s.sent := by
    rw [← hs']
  refine hinv.append hrows ⟨rfl, rfl⟩ (fun _ => rfl) (fun _ => rfl) ?_ (fun t _ _ => htokens t.id)
    ?_ ?_ ?_ (fun i _ => htokens i) ?_ ?_ ?_
  · intro owner howner
    exact .inl (Option.some.inj howner).symm
  · intro _
    rw [htokens]
    exact hinv.unused id hfresh
  · intro i
    by_cases hi : id = i
    · exact .inl ⟨hi.symm, rfl⟩
    · right
      rw [hprompts, if_neg hi, hhanded, Nat.add_zero]
  · intro _
    refine ⟨?_, ?_⟩
    · show s'.store.prompts id + s'.handed id = 1
      rw [hprompts, if_pos rfl, hhanded]
      omega
    · rw [hsent]
      exact ⟨_, List.mem_cons_self, rfl⟩
  · rw [← hs']
    exact fun p hp => hp
  · rw [hsent]
    exact fun b hb => List.mem_cons_of_mem _ hb
  · rw [← hs']
    exact hinv.store.send _ rfl rfl _ _ _ _

end Send

/-! ## The rest of the queue -/

section Queue

variable {s s' : State} {sys : Task.State}

/-- A step of the queue that keeps every direct-chat row as it is, or moves it along without
ending it. -/
theorem Inv.queueMap (hinv : Inv s) {f : AgentTask → AgentTask}
    (hrows : sys.queue.rows = s.sys.queue.rows.map f)
    (hall : ∀ t ∈ s.sys.queue.rows, RowKept t (f t))
    (hkeep : ∀ t ∈ s.sys.queue.rows, t.chatInputTaskID.isSome = true →
      marked (f t) = marked t ∧ ended (f t) = ended t) : Inv { s with sys := sys } := by
  have htokens : ∀ id, State.tokens { s with sys := sys } id = s.tokens id := by
    intro id
    simp only [State.tokens, retries_map hrows hall]
    rfl
  refine hinv.map hrows hall ?_ (fun _ => rfl) (fun id _ => htokens id) (fun p hp => .inl hp) rfl
    hinv.store
  intro t ht hdirect
  rcases hkeep t ht hdirect with ⟨hmarked, hended⟩
  rw [htokens, hmarked, hended]

/-- A row that is no direct-chat row enters the table. -/
theorem Inv.queueInsert (hinv : Inv s) {row : AgentTask}
    (hrows : sys.queue.rows = s.sys.queue.rows ++ [row])
    (hrow : row.status.terminal = false ∧ row.chatFinalizeDeferredAt = none)
    (hinput : row.chatInputTaskID = none)
    (hretry : ∀ id, row.retryOfTaskID = some id →
      ∃ r ∈ s.sys.queue.rows, r.id = id ∧ r.chatInputTaskID = none) :
    Inv { s with sys := sys } := by
  have htokens : ∀ id, row.retryOfTaskID ≠ some id →
      State.tokens { s with sys := sys } id = s.tokens id := by
    intro id hid
    simp only [State.tokens, retries_append hrows, if_neg hid]
    rfl
  refine hinv.append hrows hrow (by simp [hinput]) (by simp [hinput]) (by simp [hinput]) ?_
    (by simp [hinput]) (fun _ => .inr rfl) (by simp [hinput]) ?_ (fun p hp => hp)
    (fun b hb => hb) hinv.store
  · intro t ht hdirect
    refine htokens t.id fun hid => ?_
    rcases hretry t.id hid with ⟨r, hr, hrid, hnone⟩
    rw [s.sys.queue.eq_of_key hr ht hrid] at hnone
    simp [hnone] at hdirect
  · intro id hfresh
    refine htokens id fun hid => ?_
    rcases hretry id hid with ⟨r, hr, hrid, -⟩
    refine hfresh r ?_ hrid
    show r ∈ sys.queue.rows
    rw [hrows]
    exact List.mem_append_left _ hr

/-- A row a statement inserts is live and unmarked; a retry clone has its parent's input. -/
theorem insertStmt_row {now : Timestamp} {q : TaskTable} {stmt : InsertStmt} {row : AgentTask}
    (h : stmt.row now q = some row) :
    (row.status.terminal = false ∧ row.chatFinalizeDeferredAt = none) ∧
      ∀ id, row.retryOfTaskID = some id →
        ∃ r ∈ q.rows, r.id = id ∧ r.chatInputTaskID = row.chatInputTaskID := by
  cases stmt with
  | createRetryTask id parentID =>
    simp only [InsertStmt.row, Option.map_eq_some_iff, Option.filter_eq_some_iff] at h
    rcases h with ⟨r, ⟨hget, -⟩, rfl⟩
    refine ⟨⟨rfl, rfl⟩, fun id hid => ?_⟩
    exact ⟨r, (getAgentTask_eq_some.1 hget).1, Option.some.inj hid, rfl⟩
  | _ =>
    simp only [InsertStmt.row, Option.some.injEq] at h
    rw [← h]
    refine ⟨⟨rfl, rfl⟩, fun id hid => ?_⟩
    exact absurd hid (by simp [createAgentTask, createQuickCreateTask, createDeferredAgentTask,
      createChatTask, createAutopilotTask])

theorem inv_update (hinv : Inv s) {stmt : UpdateStmt} {q : TaskTable}
    (hforeign : foreign s.sys (.update stmt) = true)
    (hadm : stmt.admits s.sys.now s.sys.queue = true)
    (hupd : s.sys.queue.update? (stmt.update s.sys.now s.sys.queue) = some q) :
    Inv { s with sys := { s.sys with queue := q } } := by
  have hrows := Table.update?_rows hupd
  simp only [foreign, Bool.or_eq_true, List.all_eq_true] at hforeign
  rcases hforeign with hprogress | hspares
  · have hsame := sameChat_of_progresses (.inl hprogress) s.sys.now s.sys.queue
    refine hinv.queueMap hrows ?_ ?_
    · intro t ht
      exact .of_rowStep (stmt.rowStep hadm ht) (stmt.planStep _ _ t) (hsame t).1
    · intro t ht _
      have hkept := RowKept.of_rowStep (stmt.rowStep hadm ht) (stmt.planStep _ _ t) (hsame t).1
      refine ⟨by rw [marked, marked, (hsame t).2], ?_⟩
      -- the row has ended after the step exactly when it had before
      by_cases hend : t.status.terminal = true
      · simp only [ended, hkept.status hend]
      · have hlive : ((stmt.update s.sys.now s.sys.queue).apply t).status.terminal ≠ true :=
          fun h => hend (terminal_of_progresses hprogress h)
        simp only [ended, if_neg hend, if_neg hlive]
  · refine hinv.queueMap hrows ?_ ?_
    · intro t ht
      have hspare := hspares t ht
      simp only [sparesChat, Bool.or_eq_true, beq_iff_eq, Bool.and_eq_true,
        Option.isNone_iff_eq_none] at hspare
      rcases hspare with heq | ⟨hnone, hnone'⟩
      · rw [heq]
        exact .refl t
      · exact .of_rowStep (stmt.rowStep hadm ht) (stmt.planStep _ _ t) (hnone'.trans hnone.symm)
    · intro t ht hdirect
      have hspare := hspares t ht
      simp only [sparesChat, Bool.or_eq_true, beq_iff_eq, Bool.and_eq_true,
        Option.isNone_iff_eq_none] at hspare
      rcases hspare with heq | ⟨hnone, -⟩
      · rw [heq]
        exact ⟨rfl, rfl⟩
      · simp [hnone] at hdirect

theorem inv_claim (hinv : Inv s) {a pick : UUID} {locked : List UUID} {q : TaskTable}
    (hpick : admissiblePicks AgentTask.id s.sys.queue.rows (claimEligible s.sys.queue a)
      claimBefore 1 locked [pick] = true)
    (hupd : s.sys.queue.update? (claimAgentTask s.sys.now prepareLeaseDuration pick) = some q)
    (hqueue : sys.queue = q) : Inv { s with sys := sys } := by
  rcases claim_pick hpick with ⟨x, hx, hid, -, hqueued⟩
  have hset : (claimAgentTask s.sys.now prepareLeaseDuration pick).apply x =
      (claimAgentTask s.sys.now prepareLeaseDuration pick).set x :=
    Update.apply_of_sel (by simpa [claimAgentTask] using hid)
  -- the picked row goes from queued to dispatched, and no other row changes
  have hcases : ∀ t ∈ s.sys.queue.rows, t = x ∨
      (claimAgentTask s.sys.now prepareLeaseDuration pick).apply t = t := by
    intro t ht
    by_cases htid : t.id = pick
    · exact .inl (s.sys.queue.eq_of_key ht hx (htid.trans hid.symm))
    · exact .inr (claimAgentTask_other htid)
  refine hinv.queueMap (by rw [hqueue]; exact Table.update?_rows hupd) ?_ ?_
  · intro t ht
    rcases hcases t ht with rfl | hsame
    · rw [hset]
      exact .of_live ⟨rfl, rfl, rfl, rfl, rfl⟩ (by rw [hqueued]; rfl)
    · rw [hsame]
      exact .refl t
  · intro t ht _
    rcases hcases t ht with rfl | hsame
    · rw [hset, ended, ended, hqueued]
      exact ⟨rfl, rfl⟩
    · rw [hsame]
      exact ⟨rfl, rfl⟩

theorem inv_queue {cfg : Config} (hinv : Inv s) {step : Task.Step}
    (h : next cfg s (.queue step) = some s') : Inv s' := by
  simp only [next, Option.ite_none_right_eq_some, Option.map_eq_some_iff] at h
  rcases h with ⟨hforeign, sys, hn, rfl⟩
  have hidle : sys.queue = s.sys.queue → Inv { s with sys := sys } := by
    intro hqueue
    refine hinv.queueMap (f := id) (by rw [hqueue, List.map_id]) (fun t _ => .refl t) ?_
    exact fun _ _ _ => ⟨rfl, rfl⟩
  cases next_effect hn with
  | tick _ => exact hidle rfl
  | lock _ => exact hidle rfl
  | count _ => exact hidle rfl
  | release _ => exact hidle rfl
  | insert hrow hins =>
    rcases insertStmt_row hrow with ⟨hlive, hretry⟩
    have hnone := hforeign
    simp only [foreign, hrow, Option.all_some, Option.isNone_iff_eq_none] at hnone
    refine hinv.queueInsert (Table.insert?_rows hins) hlive hnone fun id hid => ?_
    rcases hretry id hid with ⟨r, hr, hrid, hinput⟩
    exact ⟨r, hr, hrid, hinput.trans hnone⟩
  | update hadm hupd => exact inv_update hinv hforeign hadm hupd
  | claim _ _ hpick hupd => exact inv_claim hinv hpick hupd rfl
  | @fail c x failed hx hsel _ hupd =>
    refine hinv.fail hx hsel hupd (List.forall_mem_nil _) (fun hdirect => ?_) (by simp)
    simp only [foreign, List.all_eq_true, Bool.or_eq_true, bne_iff_ne, ne_eq,
      Option.isNone_iff_eq_none] at hforeign
    have hnone := (hforeign x hx).resolve_left fun h => h (FailTaskCall.sel_iff.1 hsel).1
    simp [hnone] at hdirect
  | failRetry hx hsel _ hupd hins => exact hinv.failRetry hx hsel hupd hins rfl

end Queue

/-! ## Steps and runs -/

theorem inv_init {cfg : Config} {s : State} (h : (machine cfg).Init s) : Inv s := by
  rcases h with ⟨⟨hqueue, -⟩, hstore, hsent, hresponses, hposts⟩
  have hrows : s.sys.queue.rows = [] := by rw [hqueue]; rfl
  have hreturned : s.returned = [] := by simp [State.returned, hresponses, hstore]
  refine ⟨?_, ?_, ?_, ?_, ?_, ?_, ?_, ?_, ?_⟩
  · simp [hrows]
  · simp [hrows]
  · simp [hrows]
  · simp [hrows]
  · simp [hrows]
  · intro id hpos
    simp [Store.prompts, hstore, State.handed, hreturned] at hpos
  · intro id _
    simp [State.tokens, Store.assistants, hstore, State.handed, hreturned, State.inFlight, hposts,
      retries, hrows]
  · simp [hposts]
  · rw [hstore, hsent, hreturned]
    exact ⟨by simp, by simp, by simp, by simp⟩

/-- The steps that settle what they handle keep the tokens balanced. -/
theorem inv_step {cfg : Config} {s s' : State} {a : Act} (hinv : Inv s)
    (hkeep : dropsOutcome s a = false) (h : next cfg s a = some s') : Inv s' := by
  cases a with
  | queue step => exact inv_queue hinv h
  | upload a =>
    simp only [next, Option.ite_none_right_eq_some, Option.some.injEq] at h
    rcases h with ⟨hunbound, rfl⟩
    exact hinv.same rfl (fun _ => rfl) (fun _ => rfl) (fun _ hp => hp) rfl
      (hinv.store.upload hunbound)
  | send => exact inv_send hinv h
  | reportTaskMessage taskID =>
    simp only [next, Option.some.injEq] at h
    subst h
    refine hinv.same rfl (fun _ => rfl) (fun _ => rfl) (fun _ hp => hp) rfl ?_
    exact ⟨hinv.store.ids, hinv.store.below, hinv.store.sentBelow, hinv.store.kept⟩
  | completeTask => exact inv_completeTask hinv h
  | failTask => exact inv_failTask hinv h
  | sweep => exact inv_sweep hinv h
  | cancelTask => exact inv_cancelTask hinv h
  | finalizeDeferred id =>
    simp only [next, Option.some.injEq] at h
    exact inv_finalizeDeferred hinv hkeep rfl h.symm
  | post i childID =>
    simp only [next] at h
    split at h
    · simp at h
    · rename_i p hpost
      simp only [Option.ite_none_right_eq_some, Option.some.injEq] at h
      exact inv_post cfg hinv hpost h.1 hkeep h.2.symm

/-- In a run without a step that drops an outcome, every settled direct-chat task has its
one assistant message, or its batch's prompt was handed back once, and not both. -/
theorem settles_once (cfg : Config) (s : State)
    (hs : (machine cfg).ReachableUnder (fun s a => (!dropsOutcome s a) = true) s) :
    SettlesOnce s := by
  refine (Machine.invariant_under (fun _ h => inv_init h) ?_ s hs).settlesOnce
  intro s a s' _ hinv hkeep hn
  exact inv_step hinv (by simpa using hkeep) hn

/-! ## Two runs -/

def plainConfig : Config := ⟨⟨fun _ => 1, id⟩, id, id⟩

def helloSend : Act :=
  .send 1 { agentID := 7, runtimeID := 3, chatSessionID := 9 } "hello" [5] .member 20

/-- A run is cancelled by a client that can restore drafts; the daemon's ack and the sweeper
both try to finalize it. -/
def cancelledRun : List Act :=
  [.upload { id := 5, uploaderType := .member, uploaderID := 20 }, helloSend,
    .queue (.lockAgent 7), .queue (.countRunningTasks 7), .queue (.claimAgentTask 7 [] 1),
    .queue (.update (.startAgentTask 1)), .cancelTask 1 true, .post 0 3, .finalizeDeferred 1,
    .finalizeDeferred 1]

theorem settles_once_cancelledRun :
    ∃ s, (machine plainConfig).ReachableUnder (fun s a => (!dropsOutcome s a) = true) s ∧
      SettlesOnce s ∧ (s.sys.queue.rows.any fun t => t.chatInputTaskID == some 1 && s.settled t) ∧
      s.handed 1 = 1 := by
  obtain ⟨s, hs, hp⟩ := Machine.reachableUnder_of_run (machine plainConfig)
    (fun s a => !dropsOutcome s a) (init_empty _) cancelledRun
    (fun s => (s.sys.queue.rows.any fun t => t.chatInputTaskID == some 1 && s.settled t) &&
      s.handed 1 == 1) (by decide)
  simp only [Bool.and_eq_true, beq_iff_eq] at hp
  exact ⟨s, hs, settles_once plainConfig s hs, hp.1, hp.2⟩

/-- The task expires in the queue. Its reason is not a retryable one, and the sweeper's side
effects write nothing to the chat. -/
theorem expired_prompt_unanswered :
    ¬∀ (cfg : Config) (s : State), (machine cfg).Reachable s → SettlesOnce s := by
  intro hclaim
  obtain ⟨s, -, hreach, hp⟩ :=
    Machine.reachable_of_run (machine plainConfig) (init_empty _)
      [helloSend, .queue (.tick 100), .sweep (.expireStaleQueuedTasks 10 100 [] [1]), .post 0 2]
      (fun s => (s.sys.queue.rows.any fun t =>
        t.id == 1 && t.chatInputTaskID == some 1 && s.settled t) &&
        s.store.assistants 1 == 0 && s.store.prompts 1 == 1) (by decide)
  simp only [Bool.and_eq_true, List.any_eq_true, beq_iff_eq] at hp
  rcases hp with ⟨⟨⟨t, ht, ⟨hid, hinput⟩, hsettled⟩, hsilent⟩, hprompt⟩
  rcases hclaim plainConfig s hreach t ht 1 hinput hsettled with ⟨hone, -⟩ | ⟨hreturned, -⟩
  · rw [hid, hsilent] at hone
    simp at hone
  · have hgone := hreturned.1
    rw [hprompt] at hgone
    simp at hgone

end Orynx.Chat
