import Mathlib.Data.List.MinMax
import Mathlib.Data.Prod.Lex
import Mathlib.Order.Nat
import Orynx.Comment.Thread
import Orynx.Lib.Keyset

/-! # Reading comments page by page

The two paged reads of `fetchCommentsForList` in `server/internal/handler/comment.go`, with their
queries in `comment.sql`: the replies of one thread, and the most recently active threads. Both
walk back by a composite key and drop what is not newer than `since` after the page is cut.

* `threadTail_serves`, `recent_serves`: both are pages by key;
* `pages_complete`: what the pages show together, and what a page without a cursor leaves out.
-/

namespace Orynx.Comment

open Lib Lib.Keyset

/-! ## Rows -/

def commentHardCap : Nat := 2000

/-- The handler bounds the number that a reader asks for. -/
def pageSize (n : Nat) : Nat := min n commentHardCap

/-- A comment with the column that the reads order by. -/
structure StampedComment extends Comment where
  created_at : Nat
deriving DecidableEq, Repr

/-- `(created_at, id)`, compared from the left. -/
abbrev Key := Nat ×ₗ UUID

def StampedComment.key (c : StampedComment) : Key := toLex (c.created_at, c.id)

def table (rows : List StampedComment) : Rows := rows.map StampedComment.toComment

/-- Comments that reply to comments of their issue. -/
structure CommentForest where
  rows : List StampedComment
  grown : (table rows).Grown

/-! ## One thread -/

/-- The `descendants` of a root, itself among them. -/
def threadComments (rows : List StampedComment) (issue_id workspace_id root : UUID) :
    List StampedComment :=
  let thread := (table rows).descendants issue_id workspace_id root
  rows.filter fun c => thread.contains c.id

/-- `thread_root`: the anchor has to be on the issue. -/
def threadRoot (rows : List StampedComment) (issue_id workspace_id anchor : UUID) :
    Option UUID :=
  ((table rows).find anchor).bind fun c =>
    if c.issue_id = issue_id ∧ c.workspace_id = workspace_id then
      (table rows).thread_root anchor
    else none

def listThreadCommentsForIssuePaged (rows : List StampedComment)
    (issue_id workspace_id anchor : UUID) (cursor : Option Key) (reply_limit : Nat) :
    List StampedComment :=
  match threadRoot rows issue_id workspace_id anchor with
  | none => []
  | some root =>
    let descendants := threadComments rows issue_id workspace_id root
    let reply_page := newest StampedComment.key reply_limit
      (below StampedComment.key cursor (descendants.filter fun c => c.id != root))
    ascending StampedComment.key (descendants.filter (fun c => c.id == root) ++ reply_page)

/-- Not dropped by `since`. -/
def newer (since : Option Nat) (c : StampedComment) : Bool :=
  since.all fun s => decide (s < c.created_at)

def StampedComment.isReply (c : StampedComment) : Bool := c.parent_id.isSome

/-- The cursor of a page of replies: its oldest, if an older reply exists and can be newer
than `since`. -/
def tailCursor (since : Option Nat) (hasMore : Bool) : List StampedComment → Option Key
  | [] => none
  | oldest :: _ => if hasMore && newer since oldest then some oldest.key else none

/-- `fetchCommentsForList` with a thread and a tail; `none` if the anchor is not found. -/
def fetchThreadTail (rows : List StampedComment) (issue_id workspace_id anchor : UUID)
    (threadTail : Nat) (since : Option Nat) (cursor : Option Key) :
    Option (Page StampedComment Key) :=
  let fetched := listThreadCommentsForIssuePaged rows issue_id workspace_id anchor cursor
    (threadTail + 1)
  if fetched.isEmpty then none
  else
    let rootComment := (fetched.filter fun c => !c.isReply).getLast?
    let replies := fetched.filter StampedComment.isReply
    let hasMore := decide (threadTail < replies.length)
    -- the probe row is the oldest
    let replies := if hasMore then replies.drop 1 else replies
    some ⟨rootComment.toList ++ replies.filter (newer since), tailCursor since hasMore replies⟩

/-! ## Recent threads -/

/-- A row of `thread_stats`. -/
structure ThreadStats where
  root_id : UUID
  last_activity_at : Nat
deriving DecidableEq, Repr

def ThreadStats.key (t : ThreadStats) : Key := toLex (t.last_activity_at, t.root_id)

/-- The roots of `membership`. -/
def issueRoots (rows : List StampedComment) (issue_id workspace_id : UUID) :
    List StampedComment :=
  rows.filter fun c => c.issue_id == issue_id && c.workspace_id == workspace_id && !c.isReply

/-- `MAX(comment_created_at)`. -/
def lastActivity (comments : List StampedComment) : Nat :=
  (comments.map fun c => c.created_at).foldr max 0

def threadStats (rows : List StampedComment) (issue_id workspace_id : UUID) : List ThreadStats :=
  (issueRoots rows issue_id workspace_id).map fun c =>
    ⟨c.id, lastActivity (threadComments rows issue_id workspace_id c.id)⟩

structure RecentRow where
  comment : StampedComment
  thread_root_id : UUID
  thread_last_activity_at : Nat
deriving DecidableEq, Repr

def listRecentThreadCommentsForIssue (rows : List StampedComment) (issue_id workspace_id : UUID)
    (cursor : Option Key) (thread_limit : Nat) : List RecentRow :=
  let picked := newest ThreadStats.key thread_limit
    (below ThreadStats.key cursor (threadStats rows issue_id workspace_id))
  (ascending ThreadStats.key picked).flatMap fun t =>
    (ascending StampedComment.key (threadComments rows issue_id workspace_id t.root_id)).map
      fun c => ⟨c, t.root_id, t.last_activity_at⟩

/-- The cursor of a page of threads: its head, if the page is full and an older thread can have
something newer than `since`. -/
def recentCursor (since : Option Nat) (full : Bool) : Option RecentRow → Option Key
  | none => none
  | some head =>
    if full && since.all fun s => decide (s < head.thread_last_activity_at) then
      some (toLex (head.thread_last_activity_at, head.thread_root_id))
    else none

/-- `fetchCommentsForList` with a number of recent threads. -/
def fetchRecent (rows : List StampedComment) (issue_id workspace_id : UUID) (recentN : Nat)
    (since : Option Nat) (cursor : Option Key) : Option (Page StampedComment Key) :=
  let fetched := listRecentThreadCommentsForIssue rows issue_id workspace_id cursor recentN
  let seenRoot := (fetched.map RecentRow.thread_root_id).dedup
  let comments := (fetched.map RecentRow.comment).filter (newer since)
  some ⟨comments, recentCursor since (decide (recentN ≤ seenRoot.length)) fetched.head?⟩

/-! ## The forest -/

section Rows

variable {rows : List StampedComment}

theorem map_id_table (rows : List StampedComment) :
    (table rows).map (·.id) = rows.map fun c => c.id := by
  rw [table, List.map_map]
  rfl

theorem mem_table {c : StampedComment} (hc : c ∈ rows) : c.toComment ∈ table rows :=
  List.mem_map_of_mem hc

/-- The id is part of the key. -/
theorem keyed_rows (h : (table rows).Grown) : Keyed StampedComment.key rows := by
  refine List.Nodup.of_map (fun k => (ofLex k).2) ?_
  rw [List.map_map]
  exact map_id_table rows ▸ h.nodup

theorem key_lt_iff {c d : StampedComment} :
    c.key < d.key ↔ c.created_at < d.created_at ∨ c.created_at = d.created_at ∧ c.id < d.id :=
  Prod.Lex.toLex_lt_toLex

/-- What is not newer than `since` has nothing newer before it. -/
theorem newer_of_key_lt {since : Option Nat} {c d : StampedComment} (h : c.key < d.key)
    (hd : newer since d = false) : newer since c = false := by
  have hle : c.created_at ≤ d.created_at := by
    rcases key_lt_iff.1 h with hlt | heq
    · exact hlt.le
    · exact heq.1.le
  cases since with
  | none => cases hd
  | some s =>
    simp only [newer, Option.all_some, decide_eq_false_iff_not, not_lt] at hd ⊢
    exact hle.trans hd

/-- What a comment adds to a page. -/
def shown (since : Option Nat) (c : StampedComment) : List StampedComment :=
  if newer since c then [c] else []

theorem flatMap_shown (since : Option Nat) (l : List StampedComment) :
    l.flatMap (shown since) = l.filter (newer since) := by
  induction l with
  | nil => rfl
  | cons c l ih =>
    rw [List.flatMap_cons, ih, shown, List.filter_cons]
    split <;> rfl

/-- Without its probe row the page is the newest `n`. -/
theorem fetchThreadTail_eq {issue_id workspace_id anchor : UUID} {n : Nat} {since : Option Nat}
    {cursor : Option Key} {older : List StampedComment}
    (hfound : (listThreadCommentsForIssuePaged rows issue_id workspace_id anchor cursor
      (n + 1)).isEmpty = false)
    (hreplies : (listThreadCommentsForIssuePaged rows issue_id workspace_id anchor cursor
      (n + 1)).filter StampedComment.isReply = older.rtake (n + 1)) :
    ((fetchThreadTail rows issue_id workspace_id anchor n since cursor).map fun p =>
      (⟨p.rows.filter StampedComment.isReply, p.next⟩ : Page StampedComment Key)) =
      some ⟨(older.rtake n).filter (newer since),
        tailCursor since (decide (n < older.length)) (older.rtake n)⟩ := by
  have hmore : decide (n < (older.rtake (n + 1)).length) = decide (n < older.length) :=
    decide_eq_decide.2 (length_probe _ _)
  have htrim : (if decide (n < older.length) = true then (older.rtake (n + 1)).drop 1
      else older.rtake (n + 1)) = older.rtake n := by
    by_cases hlen : n < older.length
    · rw [if_pos (by simpa using hlen), drop_probe hlen]
    · have hle : older.length ≤ n := Nat.le_of_not_lt hlen
      rw [if_neg (by simpa using hlen), rtake_of_length_le (hle.trans (Nat.le_succ n)),
        rtake_of_length_le hle]
  have hall : ∀ c ∈ older.rtake n, c.isReply = true := by
    intro c hc
    have hmem : c ∈ older.rtake (n + 1) := by
      rw [← htrim] at hc
      split at hc
      · exact List.mem_of_mem_drop hc
      · exact hc
    rw [← hreplies] at hmem
    exact (List.mem_filter.1 hmem).2
  -- the root is no reply
  have hroot : ∀ l : List StampedComment,
      (l.filter fun c => !c.isReply).getLast?.toList.filter StampedComment.isReply = [] := by
    intro l
    refine List.filter_eq_nil_iff.2 fun c hc => ?_
    have hmem := List.mem_of_getLast? (Option.mem_toList.1 hc)
    simpa using (List.mem_filter.1 hmem).2
  have hkept : ((older.rtake n).filter (newer since)).filter StampedComment.isReply =
      (older.rtake n).filter (newer since) :=
    List.filter_eq_self.2 fun c hc => hall c (List.mem_filter.1 hc).1
  rw [fetchThreadTail]
  simp only [hfound, hreplies, hmore, htrim, Bool.false_eq_true, if_false, Option.map_some,
    List.filter_append, hroot, hkept, List.nil_append]

end Rows

namespace CommentForest

variable (f : CommentForest) {c : StampedComment}

theorem find (hc : c ∈ f.rows) : (table f.rows).find c.id = some c.toComment :=
  f.grown.find (mem_table hc)

theorem keyed {l : List StampedComment} (hl : l.Sublist f.rows) : Keyed StampedComment.key l :=
  (keyed_rows f.grown).sublist hl

/-- The comments of the thread of a comment. -/
theorem mem_threadComments {anchor : StampedComment} {root : UUID} (hanchor : anchor ∈ f.rows)
    (hroot : Rows.InThread (table f.rows) root anchor.id) :
    c ∈ threadComments f.rows anchor.issue_id anchor.workspace_id root ↔
      c ∈ f.rows ∧ Rows.InThread (table f.rows) root c.id := by
  rw [threadComments, List.mem_filter, List.contains_iff_mem]
  exact and_congr_right fun _ => Rows.mem_descendants_iff f.grown (mem_table hanchor) hroot

/-- The root is the one comment of a thread that is no reply. -/
theorem isReply_iff {root : UUID} (hc : c ∈ f.rows)
    (hin : Rows.InThread (table f.rows) root c.id) : c.isReply = true ↔ c.id ≠ root := by
  have hfind := f.find hc
  generalize hid : c.id = id at hin hfind
  cases hin with
  | root hfind' hp =>
    obtain rfl := Option.some.inj (hfind.symm.trans hfind')
    simp [StampedComment.isReply, hp]
  | @reply d p hfind' hp hin =>
    obtain rfl := Option.some.inj (hfind.symm.trans hfind')
    have hne : c.id ≠ root := by
      intro hroot
      -- a root has no parent
      rcases f.grown.origin hin with ⟨r, -, hr, hnone, -⟩
      rw [← hroot, hid] at hr
      obtain rfl := Option.some.inj (hfind'.symm.trans hr)
      rw [hnone] at hp
      cases hp
    simp [StampedComment.isReply, hp, hne]

theorem threadRoot_eq {anchor : StampedComment} {root : UUID} (hanchor : anchor ∈ f.rows)
    (hroot : Rows.InThread (table f.rows) root anchor.id) :
    threadRoot f.rows anchor.issue_id anchor.workspace_id anchor.id = some root := by
  rw [threadRoot, f.find hanchor, Option.bind_some, if_pos ⟨rfl, rfl⟩]
  exact (f.grown.thread_root_iff (mem_table hanchor)).2 hroot

/-- The replies of a thread. -/
def threadReplies (anchor : StampedComment) (root : UUID) : List StampedComment :=
  (threadComments f.rows anchor.issue_id anchor.workspace_id root).filter fun c => c.id != root

theorem threadReplies_sublist (anchor : StampedComment) (root : UUID) :
    (f.threadReplies anchor root).Sublist f.rows :=
  List.filter_sublist.trans List.filter_sublist

section Tail

variable {anchor : StampedComment} {root : UUID} (hanchor : anchor ∈ f.rows)
  (hroot : Rows.InThread (table f.rows) root anchor.id)

include hanchor hroot

theorem mem_threadReplies :
    c ∈ f.threadReplies anchor root ↔
      c ∈ f.rows ∧ c.isReply = true ∧ Rows.SameThread (table f.rows) anchor.id c.id := by
  rw [threadReplies, List.mem_filter, bne_iff_ne, f.mem_threadComments hanchor hroot]
  constructor
  · rintro ⟨⟨hc, hin⟩, hne⟩
    exact ⟨hc, (f.isReply_iff hc hin).2 hne, root, hroot, hin⟩
  · rintro ⟨hc, hreply, root', hroot', hin⟩
    obtain rfl := hroot.unique hroot'
    exact ⟨⟨hc, hin⟩, (f.isReply_iff hc hin).1 hreply⟩

/-- The query finds a row, and its replies are the newest below the cursor. -/
theorem paged_replies (cursor : Option Key) (limit : Nat) :
    let fetched := listThreadCommentsForIssuePaged f.rows anchor.issue_id anchor.workspace_id
      anchor.id cursor limit
    fetched.isEmpty = false ∧
      fetched.filter StampedComment.isReply =
        (below StampedComment.key cursor
          (ascending StampedComment.key (f.threadReplies anchor root))).rtake limit := by
  intro fetched
  let thread := threadComments f.rows anchor.issue_id anchor.workspace_id root
  let page := newest StampedComment.key limit
    (below StampedComment.key cursor (f.threadReplies anchor root))
  have hfetched : fetched =
      ascending StampedComment.key ((thread.filter fun c => c.id == root) ++ page) := by
    simp only [fetched, listThreadCommentsForIssuePaged, f.threadRoot_eq hanchor hroot]
    rfl
  have hpage : ∀ c ∈ page, c ∈ f.threadReplies anchor root := fun c hc =>
    (List.mem_filter.1 ((List.mem_insertionSort _).1 (List.mem_of_mem_take hc))).1
  have hsplit : ((thread.filter fun c => c.id == root) ++ page).filter StampedComment.isReply =
      page := by
    have hnone : (thread.filter fun c => c.id == root).filter StampedComment.isReply = [] := by
      refine List.filter_eq_nil_iff.2 fun c hc hreply => ?_
      rcases List.mem_filter.1 hc with ⟨hc, hid⟩
      rcases (f.mem_threadComments hanchor hroot).1 hc with ⟨hc, hin⟩
      exact (f.isReply_iff hc hin).1 hreply (by simpa using hid)
    have hall : page.filter StampedComment.isReply = page :=
      List.filter_eq_self.2 fun c hc => ((f.mem_threadReplies hanchor hroot).1 (hpage c hc)).2.1
    rw [List.filter_append, hnone, hall, List.nil_append]
  have hreplies : Keyed StampedComment.key (f.threadReplies anchor root) :=
    f.keyed (f.threadReplies_sublist anchor root)
  have hkeyed : Keyed StampedComment.key page :=
    ((hreplies.sublist List.filter_sublist).perm (List.perm_insertionSort _ _)).sublist
      (List.take_sublist _ _)
  constructor
  · -- the root is there whatever the cursor is
    rcases f.grown.origin hroot with ⟨r, -, hr, hp, -⟩
    rcases List.mem_map.1 (Rows.mem_of_find hr).1 with ⟨c, hc, rfl⟩
    have hid : c.id = root := (Rows.mem_of_find hr).2
    have hmem : c ∈ fetched := by
      rw [hfetched, mem_ascending, List.mem_append, List.mem_filter,
        f.mem_threadComments hanchor hroot]
      exact .inl ⟨⟨hc, hid ▸ .root (f.find hc) hp⟩, by simpa using hid⟩
    cases hempty : fetched with
    | nil => exact absurd hmem (by rw [hempty]; exact List.not_mem_nil)
    | cons _ _ => rfl
  · have hfiltered : Keyed StampedComment.key
        (((thread.filter fun c => c.id == root) ++ page).filter StampedComment.isReply) := by
      rwa [hsplit]
    rw [hfetched, ← ascending_filter hfiltered, hsplit]
    exact ascending_newest_below hreplies limit cursor

/-- The replies on the pages of a thread are pages of its replies by key. -/
theorem threadTail_serves {n : Nat} (hn : 0 < n) (since : Option Nat) :
    Serves StampedComment.key (ascending StampedComment.key (f.threadReplies anchor root)) n
      (shown since) fun cursor =>
        (fetchThreadTail f.rows anchor.issue_id anchor.workspace_id anchor.id n since cursor).map
          fun p => ⟨p.rows.filter StampedComment.isReply, p.next⟩ := by
  constructor
  intro cursor
  rcases f.paged_replies hanchor hroot cursor (n + 1) with ⟨hfound, hreplies⟩
  let older := below StampedComment.key cursor
    (ascending StampedComment.key (f.threadReplies anchor root))
  have hrising : Rising StampedComment.key older :=
    (f.keyed (f.threadReplies_sublist anchor root)).ascending_rising.filter _
  refine ⟨tailCursor since (decide (n < older.length)) (older.rtake n), ?_, ?_, ?_⟩
  · rw [flatMap_shown]
    exact fetchThreadTail_eq hfound hreplies
  · intro k hk
    cases hpage : older.rtake n with
    | nil =>
      rw [hpage] at hk
      cases hk
    | cons oldest rest =>
      rw [hpage, tailCursor] at hk
      exact ⟨oldest, rest, rfl, Option.some.inj (Option.ite_none_right_eq_some.1 hk).2⟩
  · intro hnone a ha
    by_cases hlen : n < older.length
    · cases hpage : older.rtake n with
      | nil => exact absurd (rtake_eq_nil hn hpage) (by intro h; rw [h] at hlen; cases hlen)
      | cons oldest rest =>
        -- the cursor was suppressed, and all that is left out is older still
        rw [hpage, tailCursor, decide_eq_true hlen, Bool.true_and] at hnone
        have hold : newer since oldest = false := by
          cases hnewer : newer since oldest with
          | false => rfl
          | true =>
            rw [hnewer] at hnone
            cases hnone
        rw [shown, newer_of_key_lt (hrising.rdrop_lt hpage ha) hold]
        rfl
    · rw [rdrop_of_length_le (Nat.le_of_not_lt hlen)] at ha
      cases ha

end Tail

/-! ## The threads of an issue -/

section Recent

variable {issue_id workspace_id : UUID} {t : ThreadStats}

/-- Every thread starts at a root on the issue. -/
theorem mem_threadStats :
    t ∈ threadStats f.rows issue_id workspace_id ↔
      ∃ r ∈ f.rows, r.issue_id = issue_id ∧ r.workspace_id = workspace_id ∧ r.parent_id = none ∧
        ⟨r.id, lastActivity (threadComments f.rows issue_id workspace_id r.id)⟩ = t := by
  simp only [threadStats, issueRoots, List.mem_map, List.mem_filter, Bool.and_eq_true,
    beq_iff_eq, StampedComment.isReply, Bool.not_eq_true', Option.isSome_eq_false_iff,
    Option.isNone_iff_eq_none, and_assoc]

theorem nodup_roots (issue_id workspace_id : UUID) :
    ((threadStats f.rows issue_id workspace_id).map ThreadStats.root_id).Nodup := by
  have hids : (f.rows.map fun c => c.id).Nodup := map_id_table f.rows ▸ f.grown.nodup
  rw [threadStats, List.map_map]
  exact (List.filter_sublist.map _).nodup hids

theorem keyed_threadStats (issue_id workspace_id : UUID) :
    Keyed ThreadStats.key (threadStats f.rows issue_id workspace_id) := by
  refine List.Nodup.of_map (fun k => (ofLex k).2) ?_
  rw [List.map_map]
  exact f.nodup_roots issue_id workspace_id

theorem mem_thread (ht : t ∈ threadStats f.rows issue_id workspace_id) :
    c ∈ threadComments f.rows issue_id workspace_id t.root_id ↔
      c ∈ f.rows ∧ Rows.InThread (table f.rows) t.root_id c.id := by
  rcases f.mem_threadStats.1 ht with ⟨r, hr, rfl, rfl, hp, rfl⟩
  exact f.mem_threadComments hr (.root (f.find hr) hp)

theorem exists_mem_thread (ht : t ∈ threadStats f.rows issue_id workspace_id) :
    ∃ c, c ∈ threadComments f.rows issue_id workspace_id t.root_id := by
  rcases f.mem_threadStats.1 ht with ⟨r, hr, -, -, hp, rfl⟩
  exact ⟨r, (f.mem_thread ht).2 ⟨hr, .root (f.find hr) hp⟩⟩

theorem created_le_lastActivity (ht : t ∈ threadStats f.rows issue_id workspace_id)
    (hc : c ∈ threadComments f.rows issue_id workspace_id t.root_id) :
    c.created_at ≤ t.last_activity_at := by
  rcases f.mem_threadStats.1 ht with ⟨r, -, -, -, -, rfl⟩
  exact List.le_max_of_le (List.mem_map_of_mem hc) le_rfl

/-- Every comment of the issue is in one of its threads. -/
theorem exists_thread (hc : c ∈ f.rows) :
    (∃ t ∈ threadStats f.rows issue_id workspace_id,
      c ∈ threadComments f.rows issue_id workspace_id t.root_id) ↔
        c.issue_id = issue_id ∧ c.workspace_id = workspace_id := by
  constructor
  · rintro ⟨t, ht, hmem⟩
    rcases f.grown.origin ((f.mem_thread ht).1 hmem).2 with ⟨r, d, hr, -, hd, hissue, hws⟩
    obtain rfl := Option.some.inj ((f.find hc).symm.trans hd)
    rcases f.mem_threadStats.1 ht with ⟨r', hr', rfl, rfl, -, rfl⟩
    obtain rfl := Option.some.inj ((f.find hr').symm.trans hr)
    exact ⟨hissue, hws⟩
  · rintro ⟨rfl, rfl⟩
    rcases f.grown.exists_root (mem_table hc) with ⟨root, hin⟩
    rcases f.grown.origin hin with ⟨r, d, hr, hp, hd, hissue, hws⟩
    obtain rfl := Option.some.inj ((f.find hc).symm.trans hd)
    rcases List.mem_map.1 (Rows.mem_of_find hr).1 with ⟨r', hr', rfl⟩
    obtain rfl : r'.id = root := (Rows.mem_of_find hr).2
    have ht := f.mem_threadStats.2 ⟨r', hr', hissue.symm, hws.symm, hp, rfl⟩
    exact ⟨_, ht, (f.mem_thread ht).2 ⟨hc, hin⟩⟩

/-- What a thread adds to a page. -/
def threadShown (issue_id workspace_id : UUID) (since : Option Nat) (t : ThreadStats) :
    List StampedComment :=
  (ascending StampedComment.key (threadComments f.rows issue_id workspace_id t.root_id)).filter
    (newer since)

/-- The rows of a thread. -/
def recentRows (issue_id workspace_id : UUID) (t : ThreadStats) : List RecentRow :=
  (ascending StampedComment.key (threadComments f.rows issue_id workspace_id t.root_id)).map
    fun c => ⟨c, t.root_id, t.last_activity_at⟩

theorem recentRows_ne_nil (ht : t ∈ threadStats f.rows issue_id workspace_id) :
    f.recentRows issue_id workspace_id t ≠ [] := by
  rcases f.exists_mem_thread ht with ⟨c, hc⟩
  intro hnil
  rw [recentRows, List.map_eq_nil_iff] at hnil
  have hmem := (mem_ascending StampedComment.key).2 hc
  rw [hnil] at hmem
  cases hmem

/-- The head of the rows is of the first thread. -/
theorem head_recentRows (ht : t ∈ threadStats f.rows issue_id workspace_id)
    (rest : List ThreadStats) :
    ∃ c, ((t :: rest).flatMap (f.recentRows issue_id workspace_id)).head? =
      some ⟨c, t.root_id, t.last_activity_at⟩ := by
  rw [List.flatMap_cons]
  cases hrows : f.recentRows issue_id workspace_id t with
  | nil => exact absurd hrows (f.recentRows_ne_nil ht)
  | cons row rows =>
    have hrow : row ∈ f.recentRows issue_id workspace_id t := hrows ▸ List.mem_cons_self
    rcases List.mem_map.1 hrow with ⟨c, -, rfl⟩
    exact ⟨c, rfl⟩

/-- The loop counts the threads of the page. -/
theorem length_seenRoot {page : List ThreadStats}
    (hpage : ∀ t ∈ page, t ∈ threadStats f.rows issue_id workspace_id)
    (hnodup : (page.map ThreadStats.root_id).Nodup) :
    (((page.flatMap (f.recentRows issue_id workspace_id)).map
      RecentRow.thread_root_id).dedup).length = page.length := by
  have hperm : (((page.flatMap (f.recentRows issue_id workspace_id)).map
      RecentRow.thread_root_id).dedup).Perm (page.map ThreadStats.root_id) := by
    refine (List.perm_ext_iff_of_nodup (List.nodup_dedup _) hnodup).2 fun id => ?_
    simp only [List.mem_dedup, List.mem_map, List.mem_flatMap]
    constructor
    · rintro ⟨row, ⟨t, ht, hrow⟩, rfl⟩
      rcases List.mem_map.1 hrow with ⟨c, -, rfl⟩
      exact ⟨t, ht, rfl⟩
    · rintro ⟨t, ht, rfl⟩
      rcases f.exists_mem_thread (hpage t ht) with ⟨c, hc⟩
      exact ⟨⟨c, t.root_id, t.last_activity_at⟩,
        ⟨t, ht, List.mem_map.2 ⟨c, (mem_ascending _).2 hc, rfl⟩⟩, rfl⟩
  rw [hperm.length_eq, List.length_map]

/-- The pages of recent threads are pages of the threads by key. -/
theorem recent_serves (issue_id workspace_id : UUID) {n : Nat} (hn : 0 < n) (since : Option Nat) :
    Serves ThreadStats.key
      (ascending ThreadStats.key (threadStats f.rows issue_id workspace_id)) n
      (f.threadShown issue_id workspace_id since)
      (fetchRecent f.rows issue_id workspace_id n since) := by
  constructor
  intro cursor
  let older := below ThreadStats.key cursor
    (ascending ThreadStats.key (threadStats f.rows issue_id workspace_id))
  have hkeyed := f.keyed_threadStats issue_id workspace_id
  have hrising : Rising ThreadStats.key older := hkeyed.ascending_rising.filter _
  have holder : ∀ t ∈ older, t ∈ threadStats f.rows issue_id workspace_id := fun t ht =>
    (mem_ascending _).1 (List.mem_filter.1 ht).1
  have hpage : ∀ t ∈ older.rtake n, t ∈ threadStats f.rows issue_id workspace_id := fun t ht =>
    holder t ((List.drop_sublist _ _).subset ht)
  have hfetched : listRecentThreadCommentsForIssue f.rows issue_id workspace_id cursor n =
      (older.rtake n).flatMap (f.recentRows issue_id workspace_id) := by
    rw [listRecentThreadCommentsForIssue, ascending_newest_below hkeyed]
    rfl
  have hcomments : (((older.rtake n).flatMap (f.recentRows issue_id workspace_id)).map
      RecentRow.comment).filter (newer since) =
        (older.rtake n).flatMap (f.threadShown issue_id workspace_id since) := by
    rw [List.map_flatMap, List.filter_flatMap]
    refine List.flatMap_congr fun t _ => ?_
    rw [recentRows, List.map_map, threadShown]
    congr 1
    exact List.map_id _
  have hnodup : ((older.rtake n).map ThreadStats.root_id).Nodup := by
    have hall := ((ascending_perm ThreadStats.key).map ThreadStats.root_id).nodup_iff.2
      (f.nodup_roots issue_id workspace_id)
    exact (((List.drop_sublist _ _).trans List.filter_sublist).map _).nodup hall
  have hcount : n ≤ (older.rtake n).length ↔ n ≤ older.length := by
    rw [List.rtake, List.length_drop]
    omega
  refine ⟨recentCursor since (decide (n ≤ older.length))
    ((older.rtake n).flatMap (f.recentRows issue_id workspace_id)).head?, ?_, ?_, ?_⟩
  · rw [fetchRecent, hfetched]
    simp only [hcomments, f.length_seenRoot hpage hnodup, hcount]
    rfl
  · intro k hk
    cases hthreads : older.rtake n with
    | nil =>
      rw [hthreads] at hk
      cases hk
    | cons t rest =>
      rcases f.head_recentRows (hpage t (hthreads ▸ List.mem_cons_self)) rest with
        ⟨c, hhead⟩
      rw [hthreads, hhead, recentCursor] at hk
      exact ⟨t, rest, rfl, Option.some.inj (Option.ite_none_right_eq_some.1 hk).2⟩
  · intro hnone a ha
    by_cases hlen : n ≤ older.length
    · cases hthreads : older.rtake n with
      | nil =>
        rw [rtake_eq_nil hn hthreads] at hlen
        exact absurd hn (Nat.not_lt_of_le hlen)
      | cons t rest =>
        rcases f.head_recentRows (hpage t (hthreads ▸ List.mem_cons_self)) rest with
          ⟨c, hhead⟩
        rw [hthreads, hhead, recentCursor, decide_eq_true hlen, Bool.true_and] at hnone
        -- no comment of a thread that is left out is newer than the head's activity
        refine List.filter_eq_nil_iff.2 fun d hd hnewer => ?_
        have haold : a ∈ threadStats f.rows issue_id workspace_id :=
          holder a ((List.take_sublist _ _).subset ha)
        have hd' := f.created_le_lastActivity haold ((mem_ascending _).1 hd)
        have hle : a.last_activity_at ≤ t.last_activity_at := by
          rcases Prod.Lex.toLex_lt_toLex.1 (hrising.rdrop_lt hthreads ha) with hlt | heq
          · exact hlt.le
          · exact heq.1.le
        cases since with
        | none => cases hnone
        | some s =>
          have hs : s < t.last_activity_at :=
            lt_of_lt_of_le (of_decide_eq_true hnewer) (hd'.trans hle)
          simp [hs] at hnone
    · rw [rdrop_of_length_le (Nat.le_of_not_le hlen)] at ha
      cases ha

end Recent

/-! ## All pages -/

/-- What is below a cursor, if there is one. -/
def Below (cursor : Option Key) (k : Key) : Prop := ∀ b, cursor = some b → k < b

/-- Read to the end, the pages of a thread show its replies newer than `since`, every one once and
in order from the last page to the first; a page without a cursor leaves none of them behind. -/
structure TailComplete (anchor : StampedComment) (n : Nat) (since : Option Nat) : Prop where
  pages : ∀ fuel, f.rows.length < fuel → ∃ pages,
    follow (fetchThreadTail f.rows anchor.issue_id anchor.workspace_id anchor.id n since) fuel
      none = some pages ∧
    Rising StampedComment.key
      (pages.reverse.flatMap fun page => page.filter StampedComment.isReply) ∧
    ∀ c, c ∈ (pages.flatMap fun page => page.filter StampedComment.isReply) ↔
      c ∈ f.rows ∧ c.isReply = true ∧ Rows.SameThread (table f.rows) anchor.id c.id ∧
        newer since c = true
  last : ∀ cursor page,
    fetchThreadTail f.rows anchor.issue_id anchor.workspace_id anchor.id n since cursor =
      some page → page.next = none →
    ∀ c ∈ f.rows, c.isReply = true → Rows.SameThread (table f.rows) anchor.id c.id →
      Below cursor c.key → newer since c = true → c ∈ page.rows

/-- Read to the end, the pages of recent threads show the comments of the issue newer than
`since`, every one once; a page without a cursor leaves no thread behind that has one. -/
structure RecentComplete (issue_id workspace_id : UUID) (n : Nat) (since : Option Nat) : Prop where
  pages : ∀ fuel, f.rows.length < fuel → ∃ pages,
    follow (fetchRecent f.rows issue_id workspace_id n since) fuel none = some pages ∧
    pages.flatten.Nodup ∧
    ∀ c, c ∈ pages.flatten ↔
      c ∈ f.rows ∧ c.issue_id = issue_id ∧ c.workspace_id = workspace_id ∧ newer since c = true
  last : ∀ cursor page, fetchRecent f.rows issue_id workspace_id n since cursor = some page →
    page.next = none → ∀ t ∈ threadStats f.rows issue_id workspace_id, Below cursor t.key →
      ∀ c ∈ threadComments f.rows issue_id workspace_id t.root_id, newer since c = true →
        c ∈ page.rows

theorem mem_below {α : Type} {key : α → Key} {cursor : Option Key} {l : List α} {a : α} :
    a ∈ below key cursor l ↔ a ∈ l ∧ Below cursor (key a) := by
  rw [below, List.mem_filter]
  cases cursor <;> simp [Below]

theorem tailComplete {anchor : StampedComment} (hanchor : anchor ∈ f.rows) {n : Nat}
    (hn : 0 < n) (since : Option Nat) : f.TailComplete anchor n since := by
  rcases f.grown.exists_root (mem_table hanchor) with ⟨root, hroot⟩
  have hserves := f.threadTail_serves hanchor hroot hn since
  have hrising : Rising StampedComment.key
      (ascending StampedComment.key (f.threadReplies anchor root)) :=
    (f.keyed (f.threadReplies_sublist anchor root)).ascending_rising
  constructor
  · intro fuel hfuel
    have hlen : (below StampedComment.key none
        (ascending StampedComment.key (f.threadReplies anchor root))).length < fuel := by
      rw [below_none, (ascending_perm _).length_eq]
      exact lt_of_le_of_lt (f.threadReplies_sublist anchor root).length_le hfuel
    rcases hserves.follow hrising hlen with ⟨shownPages, hfollow, hflat⟩
    rw [follow_map, Option.map_eq_some_iff] at hfollow
    rcases hfollow with ⟨pages, hpages, rfl⟩
    have hall : (pages.reverse.flatMap fun page => page.filter StampedComment.isReply) =
        (ascending StampedComment.key (f.threadReplies anchor root)).filter (newer since) := by
      rw [← flatMap_shown, ← below_none StampedComment.key
        (ascending StampedComment.key (f.threadReplies anchor root)), ← hflat, ← List.map_reverse]
      rfl
    refine ⟨pages, hpages, ?_, fun c => ?_⟩
    · rw [hall]
      exact hrising.filter _
    · have hmem : c ∈ (pages.flatMap fun page => page.filter StampedComment.isReply) ↔
          c ∈ (pages.reverse.flatMap fun page => page.filter StampedComment.isReply) := by
        simp only [List.mem_flatMap, List.mem_reverse]
      rw [hmem, hall, List.mem_filter, mem_ascending, f.mem_threadReplies hanchor hroot]
      simp only [and_assoc]
  · intro cursor page hpage hnext c hc hreply hthread hbelow hnewer
    have hshown : ((fetchThreadTail f.rows anchor.issue_id anchor.workspace_id anchor.id n since
        cursor).map fun p =>
          (⟨p.rows.filter StampedComment.isReply, p.next⟩ : Page StampedComment Key)) =
        some ⟨page.rows.filter StampedComment.isReply, page.next⟩ := by
      rw [hpage]
      rfl
    have hlast : page.rows.filter StampedComment.isReply = _ := hserves.last hshown hnext
    have hmem : c ∈ page.rows.filter StampedComment.isReply := by
      rw [hlast, flatMap_shown]
      refine List.mem_filter.2 ⟨mem_below.2 ⟨(mem_ascending _).2 ?_, hbelow⟩, hnewer⟩
      exact (f.mem_threadReplies hanchor hroot).2 ⟨hc, hreply, hthread⟩
    exact (List.mem_filter.1 hmem).1

/-- The threads of an issue have no comment in common. -/
theorem threadShown_nodup (issue_id workspace_id : UUID) (since : Option Nat) :
    ((ascending ThreadStats.key (threadStats f.rows issue_id workspace_id)).flatMap
      (f.threadShown issue_id workspace_id since)).Nodup := by
  refine List.nodup_flatMap.2 ⟨fun t _ => ?_, ?_⟩
  · have hthread : Keyed StampedComment.key
        (threadComments f.rows issue_id workspace_id t.root_id) := f.keyed List.filter_sublist
    exact (hthread.ascending_rising.filter _).nodup
  · have hroots : (ascending ThreadStats.key (threadStats f.rows issue_id workspace_id)).Pairwise
        fun t t' => t.root_id ≠ t'.root_id :=
      List.pairwise_map.1 (((ascending_perm _).map _).nodup_iff.2
        (f.nodup_roots issue_id workspace_id))
    refine hroots.imp_of_mem fun ht ht' hne c hc hc' => hne ?_
    have hmem := (mem_ascending _).1 (List.mem_filter.1 hc).1
    have hmem' := (mem_ascending _).1 (List.mem_filter.1 hc').1
    exact ((f.mem_thread ((mem_ascending _).1 ht)).1 hmem).2.unique
      ((f.mem_thread ((mem_ascending _).1 ht')).1 hmem').2

theorem recentComplete (issue_id workspace_id : UUID) {n : Nat} (hn : 0 < n)
    (since : Option Nat) : f.RecentComplete issue_id workspace_id n since := by
  have hserves := f.recent_serves issue_id workspace_id hn since
  have hrising := (f.keyed_threadStats issue_id workspace_id).ascending_rising
  constructor
  · intro fuel hfuel
    have hlen : (below ThreadStats.key none
        (ascending ThreadStats.key (threadStats f.rows issue_id workspace_id))).length < fuel := by
      rw [below_none, (ascending_perm _).length_eq, threadStats, List.length_map]
      exact lt_of_le_of_lt (List.length_filter_le _ _) hfuel
    rcases hserves.follow hrising hlen with ⟨pages, hpages, hflat⟩
    rw [below_none] at hflat
    have hperm : pages.flatten.Perm pages.reverse.flatten :=
      (List.reverse_perm pages).symm.flatten
    refine ⟨pages, hpages, ?_, fun c => ?_⟩
    · rw [hperm.nodup_iff, hflat]
      exact f.threadShown_nodup issue_id workspace_id since
    · rw [hperm.mem_iff, hflat, List.mem_flatMap]
      simp only [threadShown, List.mem_filter, mem_ascending]
      constructor
      · rintro ⟨t, ht, hmem, hnewer⟩
        have hc := ((f.mem_thread ht).1 hmem).1
        rcases (f.exists_thread hc).1 ⟨t, ht, hmem⟩ with ⟨hissue, hworkspace⟩
        exact ⟨hc, hissue, hworkspace, hnewer⟩
      · rintro ⟨hc, hissue, hworkspace, hnewer⟩
        rcases (f.exists_thread hc).2 ⟨hissue, hworkspace⟩ with ⟨t, ht, hmem⟩
        exact ⟨t, ht, hmem, hnewer⟩
  · intro cursor page hpage hnext t ht hbelow c hc hnewer
    rw [hserves.last hpage hnext, List.mem_flatMap]
    exact ⟨t, mem_below.2 ⟨(mem_ascending _).2 ht, hbelow⟩,
      List.mem_filter.2 ⟨(mem_ascending _).2 hc, hnewer⟩⟩

end CommentForest

/-- Comment pagination loses and repeats nothing: in a thread, over the recent threads, and where
`since` ends the reading early. -/
theorem pages_complete (f : CommentForest) (issue_id workspace_id : UUID) {n : Nat} (hn : 1 ≤ n)
    (since : Option Nat) :
    (∀ anchor ∈ f.rows, anchor.issue_id = issue_id → anchor.workspace_id = workspace_id →
      f.TailComplete anchor (pageSize n) since) ∧
    f.RecentComplete issue_id workspace_id (pageSize n) since := by
  have hsize : 0 < pageSize n := Nat.lt_min.2 ⟨hn, by decide⟩
  refine ⟨fun anchor hanchor _ _ => f.tailComplete hanchor hsize since, ?_⟩
  exact f.recentComplete issue_id workspace_id hsize since

/-- A root and two replies of one instant. -/
def tiedReplies : CommentForest where
  rows :=
    [{ id := 3, issue_id := 10, workspace_id := 20, parent_id := some 1, created_at := 5 },
      { id := 2, issue_id := 10, workspace_id := 20, parent_id := some 1, created_at := 5 },
      { id := 1, issue_id := 10, workspace_id := 20, created_at := 4 }]
  grown := by simp [table, Rows.Grown]

example : (follow (fetchThreadTail tiedReplies.rows 10 20 1 (pageSize 1) none) 4 none).map
    (List.map (List.map fun c => c.id)) = some [[1, 3], [1, 2]] := by decide +kernel

theorem pages_complete_tied :
    (∀ anchor ∈ tiedReplies.rows, anchor.issue_id = 10 → anchor.workspace_id = 20 →
      tiedReplies.TailComplete anchor (pageSize 1) (some 4)) ∧
    tiedReplies.RecentComplete 10 20 (pageSize 1) (some 4) :=
  pages_complete tiedReplies 10 20 (Nat.le_refl 1) (some 4)

end Orynx.Comment
