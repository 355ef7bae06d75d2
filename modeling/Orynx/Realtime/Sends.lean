import Orynx.Lib.Machine
import Orynx.Realtime.Fanout

/-! # Sends and closes

The hub loop, broadcasters and the read loop of every client, from one lock section to the next:
a broadcast sends under the read lock and evicts later, and a read loop sends its replies without
a lock. `close` comes with the end of a client, from the hub loop or an eviction. The callbacks
to the relay, metrics and the writing to the socket are left out.

* `Sound`: nothing is sent on a closed channel and none is closed twice, the channels that are
  closed are those of the clients that have left, and the rooms are consistent;
* `answersOpen`: no read loop answers after its client has left;
* `hub_sound`: then it is so in every run;
* `answer_crashes`: a ping of an evicted client breaks it.
-/

namespace Orynx.Realtime.Sends

open Lib

/-! ## The machine -/

/-- A frame of a client as `handleFrame` reads it; a payload is `none` where it does not
decode. -/
inductive Inbound where
  | malformed
  | unknown
  | ping
  | subscribe (payload : Option (String × String))
  | unsubscribe (payload : Option (String × String))
deriving DecidableEq, Repr

/-- What `AuthorizeScope` answers. -/
inductive Verdict where
  | allowed
  | denied
  | failed
deriving DecidableEq, Repr

/-- A read loop: between two frames, with a reply to send, with `unregister` to send. -/
inductive ReadLoop where
  | unconnected
  | reading
  | replying (reply : Frame)
  | leaving
  | left
deriving DecidableEq, Repr

/-- `Run`, after it has taken something off a channel. -/
inductive HubLoop where
  | selecting
  | registering (c : ClientId)
  | joining (c : ClientId) (keys : List ScopeKey)
  | removing (c : ClientId)
  | fanning (frame : Frame)
  | evicting (slow : List ClientId)
deriving DecidableEq, Repr

/-- `evictions` are those that broadcasters have still to make; `registered` is the history of the
clients that the hub has taken in, and `crashed` tells that the process is down. -/
structure State where
  hub : Hub := {}
  conns : ClientId → Conn := fun _ => {}
  readLoops : ClientId → ReadLoop := fun _ => .unconnected
  hubLoop : HubLoop := .selecting
  evictions : List (List ClientId) := []
  registered : List ClientId := []
  crashed : Bool := false

/-- The steps of `HandleWebSocket`, of the hub loop, of broadcasters, and of the two loops of a
client. -/
inductive Act where
  | connect (c : ClientId)
  | hubLoop
  | broadcastAll (frame : Frame)
  | broadcast (target : Target) (frame : Frame) (eventID : String)
  | evict (i : Nat)
  | handleFrame (c : ClientId) (inbound : Inbound) (verdict : Verdict)
  | reply (c : ClientId)
  | hangUp (c : ClientId)
  | unregister (c : ClientId)
  | write (c : ClientId)
deriving DecidableEq, Repr

namespace State

def crash (s : State) : State := { s with crashed := true }

/-- `close(client.send)` of one client after the other. -/
def close (s : State) : List ClientId → State
  | [] => s
  | c :: cs =>
    if (s.conns c).closed then s.crash
    else
      close { s with conns := Function.update s.conns c { s.conns c with closed := true } } cs

def setRead (s : State) (c : ClientId) (loop : ReadLoop) : State :=
  { s with readLoops := Function.update s.readLoops c loop }

/-- `evictSlow`. -/
def evictSlow (s : State) (slow : List ClientId) : State :=
  let evicted := s.hub.evictSlow slow
  { s with hub := evicted.1 }.close evicted.2.1

/-- `removeClient`. -/
def removeClient (s : State) (c : ClientId) : State :=
  match s.hub.removeClient c with
  | none => s
  | some (hub, _) => { s with hub := hub }.close [c]

/-- `sendJSON`. -/
def sendJSON (s : State) (c : ClientId) (reply : Frame) : State :=
  match (s.conns c).trySend reply with
  | .crash => s.crash
  | .full => s
  | .queued conn => { s with conns := Function.update s.conns c conn }

/-- The section of a subscription, if it counts. -/
def subscribe (s : State) (c : ClientId) (key : ScopeKey) : State :=
  match s.hub.subscribe c key with
  | none => s
  | some (hub, _) => { s with hub := hub }

def unsubscribe (s : State) (c : ClientId) (key : ScopeKey) : State :=
  match s.hub.unsubscribe c key with
  | none => s
  | some (hub, _) => { s with hub := hub }

end State

section Steps

variable (identity : ClientId → Identity)

/-- `handleSubscribe`, up to its reply. -/
def handleSubscribe (s : State) (c : ClientId) (scope id : String) (verdict : Verdict) : State :=
  let deny (reason : String) := s.setRead c (.replying (.error "subscribe_error" scope id reason))
  let accept := (s.subscribe c ⟨scope, id⟩).setRead c (.replying (.ack "subscribe_ack" scope id))
  if scope = scopeWorkspace ∨ scope = scopeUser then
    if scope = scopeWorkspace ∧ id ≠ (identity c).workspaceID ∨
        scope = scopeUser ∧ id ≠ (identity c).userID then
      deny "forbidden"
    else accept
  else if scope = scopeTask ∨ scope = scopeChat then
    match verdict with
    | .allowed => accept
    | .denied => deny "forbidden"
    | .failed => deny "lookup_failed"
  else deny "unknown_scope"

def handleUnsubscribe (s : State) (c : ClientId) (scope id : String) : State :=
  (s.unsubscribe c ⟨scope, id⟩).setRead c (.replying (.ack "unsubscribe_ack" scope id))

/-- A payload that decodes and has both fields. -/
def validPayload (payload : Option (String × String)) : Option (String × String) :=
  payload.filter fun p => p.1 != "" && p.2 != ""

def invalidPayload (type : String) (payload : Option (String × String)) : Frame :=
  let p := payload.getD ("", "")
  .error (type ++ "_error") p.1 p.2 "invalid payload"

def handleFrame (s : State) (c : ClientId) (verdict : Verdict) : Inbound → State
  | .malformed | .unknown => s
  | .ping => s.setRead c (.replying .pong)
  | .subscribe payload =>
    match validPayload payload with
    | none => s.setRead c (.replying (invalidPayload "subscribe" payload))
    | some (scope, id) => handleSubscribe identity s c scope id verdict
  | .unsubscribe payload =>
    match validPayload payload with
    | none => s.setRead c (.replying (invalidPayload "unsubscribe" payload))
    | some (scope, id) => handleUnsubscribe s c scope id

/-- The scopes that a client is subscribed to when it connects. -/
def ownScopes (c : ClientId) : List ScopeKey :=
  ⟨scopeWorkspace, (identity c).workspaceID⟩ ::
    if (identity c).userID ≠ "" then [⟨scopeUser, (identity c).userID⟩] else []

/-- A broadcast under the read lock, with those that it finds full. -/
def State.fan (s : State) (target : Target) (frame : Frame) (eventID : String) :
    Option (State × List ClientId) :=
  (fanout frame eventID (recipients identity s.hub target) s.conns).map fun r =>
    ({ s with conns := r.1 }, r.2)

/-- The hub loop goes on with what it has taken. -/
def State.runHub (s : State) : State :=
  match s.hubLoop with
  | .selecting => s
  | .registering c =>
    { s with
      hub := s.hub.register c
      registered := c :: s.registered
      hubLoop := .joining c (ownScopes identity c) }
  | .joining _ [] => { s with hubLoop := .selecting }
  | .joining c (key :: keys) => { s.subscribe c key with hubLoop := .joining c keys }
  | .removing c => { s.removeClient c with hubLoop := .selecting }
  | .fanning frame =>
    match s.fan identity (.all "") frame "" with
    | none => s.crash
    | some (s, slow) => { s with hubLoop := .evicting slow }
  | .evicting slow => { s.evictSlow slow with hubLoop := .selecting }

/-- A process that is down takes no step. -/
def next (s : State) (a : Act) : Option State :=
  if s.crashed then none
  else
    match a with
    | .connect c =>
      if s.readLoops c = .unconnected ∧ s.hubLoop = .selecting then
        some { s.setRead c .reading with hubLoop := .registering c }
      else none
    | .hubLoop => some (s.runHub identity)
    | .broadcastAll frame =>
      if s.hubLoop = .selecting then some { s with hubLoop := .fanning frame } else none
    | .broadcast target frame eventID =>
      match s.fan identity target frame eventID with
      | none => some s.crash
      | some (s, slow) =>
        some (if slow.isEmpty then s else { s with evictions := s.evictions ++ [slow] })
    | .evict i =>
      (s.evictions[i]?).map fun slow =>
        { s with evictions := s.evictions.eraseIdx i }.evictSlow slow
    | .handleFrame c inbound verdict =>
      if s.readLoops c = .reading then some (handleFrame identity s c verdict inbound) else none
    | .reply c =>
      match s.readLoops c with
      | .replying reply => some ((s.sendJSON c reply).setRead c .reading)
      | _ => none
    | .hangUp c => if s.readLoops c = .reading then some (s.setRead c .leaving) else none
    | .unregister c =>
      if s.readLoops c = .leaving ∧ s.hubLoop = .selecting then
        some { s.setRead c .left with hubLoop := .removing c }
      else none
    | .write c =>
      match (s.conns c).queue with
      | [] => none
      | _ :: queue =>
        some { s with conns := Function.update s.conns c { s.conns c with queue := queue } }

def machine : Machine State Act where
  Init s := s = {}
  next := next identity

end Steps

/-! ## The property -/

structure Sound (s : State) : Prop where
  alive : s.crashed = false
  closed : ∀ c, (s.conns c).closed = true ↔ c ∈ s.registered ∧ c ∉ s.hub.clients
  member : ∀ c key, c ∈ (s.hub.rooms.lookup key).getD [] ↔
    c ∈ s.hub.clients ∧ key ∈ s.hub.subscriptions c
  inhabited : ∀ key, s.hub.rooms.lookup key ≠ some []

/-- No read loop has a reply to send when its client has left. -/
def answersOpen (s : State) : Act → Bool
  | .reply c => decide (c ∈ s.registered → c ∈ s.hub.clients)
  | _ => true

/-! ## The invariant -/

structure Inv (s : State) : Prop where
  consistent : s.hub.Consistent
  alive : s.crashed = false
  closed : ∀ c, (s.conns c).closed = true ↔ c ∈ s.registered ∧ c ∉ s.hub.clients
  clients : ∀ c ∈ s.hub.clients, c ∈ s.registered
  unconnected : ∀ c, s.readLoops c = .unconnected → c ∉ s.registered
  unsent : ∀ c, s.readLoops c = .unconnected → s.hubLoop ≠ .registering c
  registering : ∀ c, s.hubLoop = .registering c → c ∉ s.registered

section Inv

variable {s s' : State} {c : ClientId} {cs : List ClientId}

theorem Inv.sound (h : Inv s) : Sound s :=
  ⟨h.alive, h.closed, h.consistent.member, h.consistent.inhabited⟩

/-- The channel of a client that has not left is open. -/
theorem Inv.open (h : Inv s) (hc : c ∈ s.registered → c ∈ s.hub.clients) :
    (s.conns c).closed = false := by
  by_contra hclosed
  have hgone := (h.closed c).1 (by simpa using hclosed)
  exact hgone.2 (hc hgone.1)

theorem Inv.conns (h : Inv s) {conns : ClientId → Conn}
    (hsame : ∀ c, (conns c).closed = (s.conns c).closed) : Inv { s with conns := conns } :=
  { h with closed := fun c => by rw [hsame]; exact h.closed c }

theorem Inv.hub (h : Inv s) {hub : Hub} (hc : hub.Consistent)
    (hclients : hub.clients = s.hub.clients) : Inv { s with hub := hub } :=
  { h with
    consistent := hc
    closed := fun c => by rw [hclients]; exact h.closed c
    clients := fun c hmem => h.clients c (hclients ▸ hmem) }

theorem Inv.setRead (h : Inv s) (c : ClientId) {loop : ReadLoop} (hloop : loop ≠ .unconnected) :
    Inv (s.setRead c loop) := by
  have hold : ∀ c', (s.setRead c loop).readLoops c' = .unconnected →
      s.readLoops c' = .unconnected := by
    intro c' hc'
    have hread : Function.update s.readLoops c loop c' = .unconnected := hc'
    by_cases hcc : c' = c
    · rw [hcc, Function.update_self] at hread
      exact absurd hread hloop
    · rwa [Function.update_of_ne hcc] at hread
  exact { h with
    unconnected := fun c' hc' => h.unconnected c' (hold c' hc')
    unsent := fun c' hc' => h.unsent c' (hold c' hc') }

theorem Inv.setHubLoop (h : Inv s) {loop : HubLoop} (hloop : ∀ c, loop ≠ .registering c) :
    Inv { s with hubLoop := loop } :=
  { h with
    unsent := fun c _ => hloop c
    registering := fun c hc => absurd hc (hloop c) }

/-! ## Closing -/

/-- Channels are closed, and nothing else happens. -/
structure Closes (s s' : State) (cs : List ClientId) : Prop where
  hub : s'.hub = s.hub
  readLoops : s'.readLoops = s.readLoops
  hubLoop : s'.hubLoop = s.hubLoop
  registered : s'.registered = s.registered
  crashed : s'.crashed = s.crashed
  closed : ∀ c, (s'.conns c).closed = true ↔ (s.conns c).closed = true ∨ c ∈ cs

theorem closes_close (hnodup : cs.Nodup) (hopen : ∀ c ∈ cs, (s.conns c).closed = false) :
    Closes s (s.close cs) cs := by
  induction cs generalizing s with
  | nil => exact ⟨rfl, rfl, rfl, rfl, rfl, by simp [State.close]⟩
  | cons d cs ih =>
    rw [List.nodup_cons] at hnodup
    rw [State.close, hopen d List.mem_cons_self]
    simp only [Bool.false_eq_true, if_false]
    have hclosed : ∀ c, (Function.update s.conns d { s.conns d with closed := true } c).closed =
        ((s.conns c).closed || c == d) := by
      intro c
      by_cases hcd : c = d
      · subst hcd
        simp
      · simp [hcd]
    -- the others are other channels, and still open
    have hrest := ih (s := { s with
      conns := Function.update s.conns d { s.conns d with closed := true } }) hnodup.2 fun c hc => by
        have hcd : c ≠ d := fun heq => hnodup.1 (heq ▸ hc)
        show (Function.update s.conns d { s.conns d with closed := true } c).closed = false
        rw [hclosed, hopen c (List.mem_cons_of_mem d hc)]
        simp [hcd]
    refine ⟨hrest.hub, hrest.readLoops, hrest.hubLoop, hrest.registered, hrest.crashed, fun c => ?_⟩
    rw [hrest.closed, List.mem_cons]
    show (Function.update s.conns d { s.conns d with closed := true } c).closed = true ∨ c ∈ cs ↔ _
    rw [hclosed, Bool.or_eq_true, beq_iff_eq, or_assoc]

/-- Clients leave, and their channels are closed. -/
theorem Inv.leave (h : Inv s) {hub : Hub} (hc : hub.Consistent) (hnodup : cs.Nodup)
    (hmem : ∀ c ∈ cs, c ∈ s.hub.clients)
    (hleft : ∀ c, c ∈ hub.clients ↔ c ∈ s.hub.clients ∧ c ∉ cs) :
    Inv ({ s with hub := hub }.close cs) := by
  have hcloses : Closes { s with hub := hub } ({ s with hub := hub }.close cs) cs :=
    closes_close hnodup fun c hc => h.open fun _ => hmem c hc
  constructor
  · rw [hcloses.hub]
    exact hc
  · rw [hcloses.crashed]
    exact h.alive
  · intro c
    rw [hcloses.closed, hcloses.registered, hcloses.hub]
    show (s.conns c).closed = true ∨ c ∈ cs ↔ c ∈ s.registered ∧ c ∉ hub.clients
    rw [h.closed, hleft]
    constructor
    · rintro (⟨hreg, hgone⟩ | hin)
      · exact ⟨hreg, fun hboth => hgone hboth.1⟩
      · exact ⟨h.clients c (hmem c hin), fun hboth => hboth.2 hin⟩
    · rintro ⟨hreg, hgone⟩
      by_cases hin : c ∈ cs
      · exact .inr hin
      · exact .inl ⟨hreg, fun hclient => hgone ⟨hclient, hin⟩⟩
  · intro c hclient
    rw [hcloses.hub] at hclient
    rw [hcloses.registered]
    exact h.clients c ((hleft c).1 hclient).1
  · intro c hloop
    rw [hcloses.readLoops] at hloop
    rw [hcloses.registered]
    exact h.unconnected c hloop
  · intro c hloop
    rw [hcloses.readLoops] at hloop
    rw [hcloses.hubLoop]
    exact h.unsent c hloop
  · intro c hloop
    rw [hcloses.hubLoop] at hloop
    rw [hcloses.registered]
    exact h.registering c hloop

theorem Inv.evictSlow (h : Inv s) (slow : List ClientId) : Inv (s.evictSlow slow) := by
  rcases Hub.evictSlow_spec s.hub slow with ⟨hnodup, hevicted, hleft⟩
  refine h.leave (h.consistent.evictSlow slow) hnodup (fun c hc => ((hevicted c).1 hc).2) fun c => ?_
  rw [hleft, hevicted]
  constructor
  · exact fun hc => ⟨hc.1, fun hslow => hc.2 hslow.1⟩
  · exact fun hc => ⟨hc.1, fun hslow => hc.2 ⟨hslow, hc.1⟩⟩

theorem Inv.removeClient (h : Inv s) (c : ClientId) : Inv (s.removeClient c) := by
  unfold State.removeClient Hub.removeClient
  split
  · exact h
  · rename_i hub emptied hr
    split at hr
    · simp at hr
    · rename_i hmem
      obtain rfl : (s.hub.drop c).1 = hub := congrArg Prod.fst (Option.some.inj hr)
      refine h.leave (h.consistent.drop c) (List.nodup_singleton c) ?_ fun c' => ?_
      · intro c' hc'
        rw [List.mem_singleton.1 hc']
        simpa using hmem
      · rw [Hub.mem_drop_clients, List.mem_singleton]

/-! ## The steps -/

theorem Inv.subscribe (h : Inv s) (c : ClientId) (key : ScopeKey) : Inv (s.subscribe c key) := by
  unfold State.subscribe
  split
  · exact h
  · rename_i hub first hs
    exact h.hub (h.consistent.subscribe hs) (Hub.subscribe_spec hs).2.2.1

theorem Inv.unsubscribe (h : Inv s) (c : ClientId) (key : ScopeKey) :
    Inv (s.unsubscribe c key) := by
  unfold State.unsubscribe
  split
  · exact h
  · rename_i hub last hs
    exact h.hub (h.consistent.unsubscribe hs) (Hub.unsubscribe_spec hs).2.1

variable (identity : ClientId → Identity)

/-- All recipients of a broadcast are connected, so their channels are open. -/
theorem Inv.fan (h : Inv s) (target : Target) (frame : Frame) (eventID : String) :
    ∃ conns slow, s.fan identity target frame eventID = some ({ s with conns := conns }, slow) ∧
      Inv { s with conns := conns } := by
  have hopen : ∀ c ∈ recipients identity s.hub target, (s.conns c).closed = false :=
    fun c hc => h.open fun _ => mem_clients_of_recipients identity h.consistent hc
  rcases @fanout_of_open frame eventID s.conns _ hopen with ⟨conns, slow, hfan, hsame, -⟩
  exact ⟨conns, slow, by rw [State.fan, hfan]; rfl, h.conns hsame⟩

theorem Inv.handleFrame (h : Inv s) (c : ClientId) (verdict : Verdict) (inbound : Inbound) :
    Inv (handleFrame identity s c verdict inbound) := by
  have hreply : ∀ {s : State} (reply : Frame), Inv s → Inv (s.setRead c (.replying reply)) :=
    fun reply h => h.setRead c (by simp)
  have hsubscribe : ∀ scope id, Inv (handleSubscribe identity s c scope id verdict) := by
    intro scope id
    unfold handleSubscribe
    dsimp only
    split
    · split
      · exact hreply _ h
      · exact hreply _ (h.subscribe c _)
    · split
      · split
        · exact hreply _ (h.subscribe c _)
        · exact hreply _ h
        · exact hreply _ h
      · exact hreply _ h
  cases inbound with
  | malformed | unknown => exact h
  | ping => exact hreply _ h
  | subscribe payload =>
    unfold Sends.handleFrame
    dsimp only
    split
    · exact hreply _ h
    · exact hsubscribe _ _
  | unsubscribe payload =>
    unfold Sends.handleFrame
    dsimp only
    split
    · exact hreply _ h
    · exact hreply _ (h.unsubscribe c _)

theorem Inv.runHub (h : Inv s) : Inv (s.runHub identity) := by
  unfold State.runHub
  split
  · exact h
  · rename_i c hloop
    have hnew := h.registering c hloop
    -- the channel of a client that is new is open
    constructor
    · exact h.consistent.register c
    · exact h.alive
    · intro c'
      show (s.conns c').closed = true ↔ c' ∈ c :: s.registered ∧ c' ∉ s.hub.clients.insert c
      rw [h.closed, List.mem_cons, List.mem_insert_iff, not_or]
      constructor
      · rintro ⟨hreg, hgone⟩
        exact ⟨.inr hreg, fun heq => hnew (heq ▸ hreg), hgone⟩
      · rintro ⟨heq | hreg, hne, hgone⟩
        · exact absurd heq hne
        · exact ⟨hreg, hgone⟩
    · intro c' hc'
      rcases List.mem_insert_iff.1 hc' with rfl | hc'
      · exact List.mem_cons_self
      · exact List.mem_cons_of_mem c (h.clients c' hc')
    · intro c' hc'
      have hne : c' ≠ c := fun heq => h.unsent c' hc' (heq ▸ hloop)
      exact fun hreg => (List.mem_cons.1 hreg).elim hne (h.unconnected c' hc')
    · intro c' _
      simp
    · intro c' hc'
      simp at hc'
  · exact h.setHubLoop (by simp)
  · exact (h.subscribe _ _).setHubLoop (by simp)
  · exact (h.removeClient _).setHubLoop (by simp)
  · rcases h.fan identity (.all "") _ "" with ⟨conns, slow, hfan, hinv⟩
    rw [hfan]
    exact hinv.setHubLoop (by simp)
  · exact (h.evictSlow _).setHubLoop (by simp)

theorem inv_step {a : Act} (h : Inv s) (hopen : answersOpen s a = true)
    (hn : next identity s a = some s') : Inv s' := by
  unfold next at hn
  rw [if_neg (by simp [h.alive])] at hn
  cases a with
  | connect c =>
    simp only [Option.ite_none_right_eq_some, Option.some.injEq] at hn
    rcases hn with ⟨⟨hnew, -⟩, rfl⟩
    have hinv : Inv (s.setRead c .reading) := h.setRead c (by simp)
    refine { hinv with unsent := fun c' hc' heq => ?_, registering := fun c' heq => ?_ }
    · obtain rfl : c = c' := HubLoop.registering.inj heq
      simp [State.setRead] at hc'
    · obtain rfl : c = c' := HubLoop.registering.inj heq
      exact h.unconnected c hnew
  | hubLoop =>
    rw [← Option.some.inj hn]
    exact h.runHub identity
  | broadcastAll frame =>
    simp only [Option.ite_none_right_eq_some, Option.some.injEq] at hn
    rw [← hn.2]
    exact h.setHubLoop (by simp)
  | broadcast target frame eventID =>
    rcases h.fan identity target frame eventID with ⟨conns, slow, hfan, hinv⟩
    simp only [hfan, Option.some.injEq] at hn
    rw [← hn]
    split
    · exact hinv
    · exact { hinv with }
  | evict i =>
    simp only [Option.map_eq_some_iff] at hn
    rcases hn with ⟨slow, -, rfl⟩
    have hinv : Inv { s with evictions := s.evictions.eraseIdx i } := { h with }
    exact hinv.evictSlow slow
  | handleFrame c inbound verdict =>
    simp only [Option.ite_none_right_eq_some, Option.some.injEq] at hn
    rw [← hn.2]
    exact h.handleFrame identity c verdict inbound
  | reply c =>
    dsimp only at hn
    split at hn
    · rename_i reply hloop
      rw [← Option.some.inj hn]
      refine Inv.setRead ?_ c (by simp)
      -- the client has not left, so the channel is open
      have hchan : (s.conns c).closed = false := h.open (of_decide_eq_true hopen)
      unfold State.sendJSON
      split
      · rename_i hcrash
        exact absurd hcrash (trySend_of_open reply hchan)
      · exact h
      · rename_i conn hqueued
        refine h.conns fun c' => ?_
        by_cases hcc : c' = c
        · subst hcc
          rw [Function.update_self, (trySend_queued hqueued).2.2]
        · rw [Function.update_of_ne hcc]
    · simp at hn
  | hangUp c =>
    simp only [Option.ite_none_right_eq_some, Option.some.injEq] at hn
    rw [← hn.2]
    exact h.setRead c (by simp)
  | unregister c =>
    simp only [Option.ite_none_right_eq_some, Option.some.injEq] at hn
    rw [← hn.2]
    exact (h.setRead c (by simp)).setHubLoop (by simp)
  | write c =>
    dsimp only at hn
    split at hn
    · simp at hn
    · rw [← Option.some.inj hn]
      refine h.conns fun c' => ?_
      by_cases hcc : c' = c
      · subst hcc
        rw [Function.update_self]
      · rw [Function.update_of_ne hcc]

/-- In every run in which no read loop answers for a client that has left, no send or close
meets a closed channel, and the rooms are consistent. -/
theorem hub_sound (s : State)
    (hs : (machine identity).ReachableUnder (fun s a => answersOpen s a = true) s) : Sound s := by
  have hinv : ∀ s, (machine identity).ReachableUnder (fun s a => answersOpen s a = true) s →
      Inv s := by
    refine Machine.invariant_under ?_ fun s a s' _ h hopen hn => inv_step identity h hopen hn
    rintro s rfl
    exact ⟨Hub.consistent_empty, rfl, by simp, by simp, by simp, by simp, by simp⟩
  exact (hinv s hs).sound

end Inv

/-! ## A slow client -/

def somebody : ClientId → Identity := fun _ => ⟨"u", "w"⟩

/-- Client 1 connects, sends a ping and has its answer. -/
def joined : List Act :=
  [.connect 1, .hubLoop, .hubLoop, .hubLoop, .hubLoop, .handleFrame 1 .ping .allowed, .reply 1]

/-- The workspace has more news than fit into the channel; a ping comes in, and then the client is
evicted. -/
def evicted : List Act :=
  joined ++ List.replicate 256 (.broadcast (.scope ⟨scopeWorkspace, "w"⟩) (.event "" "news") "") ++
    [.handleFrame 1 .ping .allowed, .evict 0]

theorem hub_sound_evicted :
    ∃ s, (machine somebody).ReachableUnder (fun s a => answersOpen s a = true) s ∧
      (s.conns 1).closed = true ∧ Sound s := by
  rcases Machine.reachableUnder_of_run (machine somebody) answersOpen rfl evicted
    (fun s => (s.conns 1).closed) (by decide +kernel) with ⟨s, hs, hp⟩
  exact ⟨s, hs, hp, hub_sound somebody s hs⟩

/-- The answer to the ping is sent on the closed channel. -/
theorem answer_crashes : ¬∀ s, (machine somebody).Reachable s → Sound s := by
  intro hclaim
  rcases Machine.reachable_of_run (machine somebody) rfl (evicted ++ [.reply 1]) State.crashed
    (by decide +kernel) with ⟨s, -, hs, hp⟩
  rw [(hclaim s hs).alive] at hp
  simp at hp

end Orynx.Realtime.Sends
