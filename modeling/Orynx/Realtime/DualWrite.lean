import Mathlib.Algebra.Group.Nat.Defs
import Orynx.Lib.Machine
import Orynx.Lib.Parties
import Orynx.Realtime.Fanout

/-! # Local fan-out and loopback

`DualWriteBroadcaster` on many nodes: a broadcast goes to the clients of its node, then through
the relay to every node, its own included; the mirror of the relay may bring another copy. A
fan-out goes from client to client under the read lock, next to others, and evicts after it.
Clients know a copy by the last ids that they have seen.

* `ExactlyOnce`: a client that has been a recipient from the publication of an event to its
  delivery by the sharded relay has it once in what was put into its channel, and nobody has an
  event twice;
* `remembered`: no id is marked again when the client has been sent it and has forgotten it;
* `delivered_once`: then it is so in every run;
* `loopback_repeats`: after 128 other events a copy is put there again.
-/

namespace Orynx.Realtime.DualWrite

open Lib

/-! ## Envelopes -/

/-- What `DualWriteBroadcaster` is asked for: `BroadcastToScope`, `SendToUser`, `Broadcast`. -/
inductive Broadcast where
  | toScope (key : ScopeKey)
  | toUser (userID exclude : String)
  | toAll
deriving DecidableEq, Repr

namespace Broadcast

/-- `BroadcastToWorkspace`. -/
def toWorkspace (workspaceID : String) : Broadcast := .toScope ⟨scopeWorkspace, workspaceID⟩

/-- The local fan-out. -/
def target : Broadcast → Target
  | .toScope key => .scope key
  | .toUser userID exclude => .user userID exclude
  | .toAll => .all ""

end Broadcast

/-- A broadcast with the id that it is given. -/
structure Post where
  id : String
  broadcast : Broadcast
  message : String
deriving DecidableEq, Repr

structure Envelope where
  eventID : String
  scope : String
  scopeID : String
  workspaceID : String
  payloadJSON : String
deriving DecidableEq, Repr

def scopeDaemonRuntime : String := "daemon_runtime"

def scopeGlobal : String := "global"

/-- `newEnvelope` of what `PublishWithID` is called with. -/
def Post.envelope (post : Post) : Envelope :=
  match post.broadcast with
  | .toScope key => ⟨post.id, key.type, key.id, "", post.message⟩
  | .toUser userID exclude => ⟨post.id, scopeUser, userID, exclude, post.message⟩
  | .toAll => ⟨post.id, scopeGlobal, "all", "", post.message⟩

/-- `deliverEnvelope`, as far as the hub is concerned. -/
def deliverEnvelope (env : Envelope) : Option Target :=
  if env.payloadJSON = "" then none
  else if env.scope = scopeDaemonRuntime then none
  else if env.scope = scopeGlobal then some (.all "")
  else if env.scope = scopeUser then some (.user env.scopeID env.workspaceID)
  else some (.scope ⟨env.scope, env.scopeID⟩)

/-- `deliverMessage` of the sharded relay. -/
def deliverMessage (env : Envelope) : Option Target :=
  if env.payloadJSON = "" ∨ env.scope = "" ∨ env.scopeID = "" then none else deliverEnvelope env

/-- FNV-1a on 32 bits. -/
def fnv32a (bytes : List UInt8) : Nat :=
  bytes.foldl (fun h b => ((h ^^^ b.toNat) * 16777619) % 2 ^ 32) 2166136261

def shardFor (shards : Nat) (scopeType scopeID : String) : Nat :=
  fnv32a (scopeType.toUTF8.toList ++ [0] ++ scopeID.toUTF8.toList) % shards

/-! ## The machine -/

/-- Who makes a fan-out: the broadcaster, the reader of a shard, the mirror. -/
inductive Route where
  | own (post : Post)
  | shard (k : Nat)
  | mirror
deriving DecidableEq, Repr

/-- `fanning` holds the read lock of the hub. -/
inductive Phase where
  | fanning
  | evicting
  | publishing
  | over
deriving DecidableEq, Repr

/-- After a fan-out the broadcaster publishes; a relay is done. -/
def Route.after : Route → Phase
  | .own _ => .publishing
  | _ => .over

/-- A call of `BroadcastToScopeDedup`, `fanoutUser` or `fanoutAllDedup`: the clients that its loop
has still to visit, the one between `markSeen` and the send, and those it has found full. -/
structure Fan where
  id : String
  payload : String
  route : Route
  todo : List ClientId
  sending : Option ClientId := none
  slow : List ClientId := []
  phase : Phase := .fanning
deriving DecidableEq, Repr

abbrev NodeId := Nat

/-- A node: `read` counts what its readers have taken off the streams of the shards, `mirror` is
what may come through the other relay, and `fans` keeps the fan-outs that are over. `accepted` is
the history of the ids put into the channel of a client, `awaiting` the history of what was
published with those who have been its recipients since. -/
structure Node where
  hub : Hub := {}
  conns : ClientId → Conn := fun _ => {}
  registered : List ClientId := []
  fans : List Fan := []
  read : Nat → Nat := fun _ => 0
  mirror : List Envelope := []
  accepted : ClientId → List String := fun _ => []
  awaiting : List (Post × List ClientId) := []
  crashed : Bool := false

structure State where
  nodes : NodeId → Node := fun _ => {}
  streams : Nat → List Envelope := fun _ => []
  ids : List String := []

inductive Act where
  | register (n : NodeId) (c : ClientId)
  | subscribe (n : NodeId) (c : ClientId) (key : ScopeKey)
  | unsubscribe (n : NodeId) (c : ClientId) (key : ScopeKey)
  | remove (n : NodeId) (c : ClientId)
  | write (n : NodeId) (c : ClientId)
  | broadcast (n : NodeId) (post : Post)
  | deliver (n : NodeId) (k : Nat)
  | mirror (n : NodeId) (j : Nat)
  | mark (n : NodeId) (i : Nat) (c : ClientId)
  | send (n : NodeId) (i : Nat)
  | unlock (n : NodeId) (i : Nat)
  | evict (n : NodeId) (i : Nat)
  | publish (n : NodeId) (i : Nat)
deriving DecidableEq, Repr

/-- The scopes that clients can subscribe to. -/
def clientScopes : List String := [scopeWorkspace, scopeUser, scopeTask, scopeChat]

namespace Node

/-- No fan-out holds the read lock. -/
def unlocked (node : Node) : Bool := node.fans.all fun fan => fan.phase != .fanning

/-- The reader of the shard is between two messages. -/
def idle (node : Node) (k : Nat) : Bool :=
  node.fans.all fun fan => fan.route != .shard k || fan.phase == .over

def setFan (node : Node) (i : Nat) (fan : Fan) : Node := { node with fans := node.fans.set i fan }

/-- `close` of the channels of those who are taken out. -/
def close (node : Node) (cs : List ClientId) : Node :=
  { node with
    conns := fun c => if c ∈ cs then { node.conns c with closed := true } else node.conns c }

section Steps

variable (identity : ClientId → Identity)

/-- The hub changes; those who are recipients no more await nothing. -/
def setHub (node : Node) (hub : Hub) : Node :=
  { node with
    hub := hub
    awaiting := node.awaiting.map fun p =>
      (p.1, p.2.filter (· ∈ recipients identity hub p.1.broadcast.target)) }

/-- The read lock is taken for a fan-out. -/
def fanOut (node : Node) (id payload : String) (route : Route) (target : Target) : Node :=
  { node with
    fans := node.fans ++ [{
      id := id
      payload := payload
      route := route
      todo := recipients identity node.hub target }] }

/-- What a relay does with an envelope that it has read. -/
def relayed (node : Node) (env : Envelope) (route : Route) : Option Target → Node
  | none => node
  | some target => node.fanOut identity env.eventID env.payloadJSON route target

end Steps

/-- `markSeen` of a client that a loop comes to. -/
def mark (node : Node) (i : Nat) (c : ClientId) : Option Node := do
  let fan ← node.fans[i]?
  if fan.phase = .fanning ∧ fan.sending = none ∧ c ∈ fan.todo then
    let todo := fan.todo.filter (· != c)
    match (node.conns c).markSeen fan.id with
    | none => some (node.setFan i { fan with todo := todo })
    | some conn =>
      some { node.setFan i { fan with todo := todo, sending := some c } with
        conns := Function.update node.conns c conn }
  else none

/-- The `select` of the client that is marked. -/
def send (node : Node) (i : Nat) : Option Node := do
  let fan ← node.fans[i]?
  let c ← fan.sending
  match (node.conns c).trySend (.event fan.id fan.payload) with
  | .crash => some { node with crashed := true }
  | .full => some (node.setFan i { fan with sending := none, slow := c :: fan.slow })
  | .queued conn =>
    some { node.setFan i { fan with sending := none } with
      conns := Function.update node.conns c conn
      accepted := Function.update node.accepted c (node.accepted c ++ [fan.id]) }

/-- `RUnlock` after the loop. -/
def unlock (node : Node) (i : Nat) : Option Node := do
  let fan ← node.fans[i]?
  if fan.phase = .fanning ∧ fan.sending = none ∧ fan.todo = [] then
    some (node.setFan i { fan with phase := .evicting })
  else none

/-- `evictSlow` of those that a fan-out has found full, if any. -/
def evict (identity : ClientId → Identity) (node : Node) (i : Nat) : Option Node := do
  let fan ← node.fans[i]?
  let fan' := { fan with slow := [], phase := Route.after fan.route }
  if fan.phase = .evicting then
    if fan.slow = [] then some (node.setFan i fan')
    else if node.unlocked then
      let evicted := node.hub.evictSlow fan.slow
      some (((node.setFan i fan').close evicted.2.1).setHub identity evicted.1)
    else none
  else none

end Node

section Steps

variable (shards : Nat) (mirrored : Bool) (identity : ClientId → Identity)

namespace State

def set (s : State) (n : NodeId) (node : Node) : State :=
  { s with nodes := Function.update s.nodes n node }

/-- Both relays have the event. -/
def post (s : State) (post : Post) : State :=
  let env := post.envelope
  let k := shardFor shards env.scope env.scopeID
  { s with
    streams := Function.update s.streams k (s.streams k ++ [env])
    nodes := fun n =>
      let node := s.nodes n
      { node with
        mirror :=
          if mirrored ∧ env.scope ≠ scopeDaemonRuntime then node.mirror ++ [env] else node.mirror
        awaiting := node.awaiting ++
          [(post, recipients identity node.hub post.broadcast.target)] } }

end State

/-- Sections that take the write lock wait for those that hold the read lock. A client is
registered once, and an id is new. -/
def next (s : State) : Act → Option State
  | .register n c =>
    let node := s.nodes n
    if c ∉ node.registered ∧ node.unlocked then
      some (s.set n
        { node.setHub identity (node.hub.register c) with registered := c :: node.registered })
    else none
  | .subscribe n c key =>
    let node := s.nodes n
    if key.type ∈ clientScopes ∧ node.unlocked then
      (node.hub.subscribe c key).map fun r => s.set n (node.setHub identity r.1)
    else none
  | .unsubscribe n c key =>
    let node := s.nodes n
    if node.unlocked then
      (node.hub.unsubscribe c key).map fun r => s.set n (node.setHub identity r.1)
    else none
  | .remove n c =>
    let node := s.nodes n
    if node.unlocked then
      (node.hub.removeClient c).map fun r => s.set n ((node.close [c]).setHub identity r.1)
    else none
  | .write n c =>
    let node := s.nodes n
    match (node.conns c).queue with
    | [] => none
    | _ :: queue =>
      some (s.set n { node with
        conns := Function.update node.conns c { node.conns c with queue := queue } })
  | .broadcast n post =>
    if post.id ≠ "" ∧ post.id ∉ s.ids then
      some { s.set n ((s.nodes n).fanOut identity post.id post.message (.own post)
        post.broadcast.target) with ids := post.id :: s.ids }
    else none
  | .deliver n k =>
    let node := s.nodes n
    if node.idle k then
      ((s.streams k)[node.read k]?).map fun env =>
        s.set n ({ node with read := Function.update node.read k (node.read k + 1) }.relayed
          identity env (.shard k) (deliverMessage env))
    else none
  | .mirror n j =>
    let node := s.nodes n
    (node.mirror[j]?).map fun env =>
      s.set n ({ node with mirror := node.mirror.eraseIdx j }.relayed identity env .mirror
        (deliverEnvelope env))
  | .mark n i c => ((s.nodes n).mark i c).map (s.set n)
  | .send n i => ((s.nodes n).send i).map (s.set n)
  | .unlock n i => ((s.nodes n).unlock i).map (s.set n)
  | .evict n i => ((s.nodes n).evict identity i).map (s.set n)
  | .publish n i => do
    let fan ← (s.nodes n).fans[i]?
    match fan.route, fan.phase with
    | .own post, .publishing =>
      some ((s.set n ((s.nodes n).setFan i { fan with phase := .over })).post shards mirrored
        identity post)
    | _, _ => none

def machine : Machine State Act where
  Init s := s = {}
  next := next shards mirrored identity

end Steps

/-! ## The property -/

/-- The reader of the shard has delivered the event there, and no fan-out of it goes on. -/
def Finished (s : State) (n : NodeId) (id : String) : Prop :=
  (∀ fan ∈ (s.nodes n).fans, fan.id = id → fan.phase = .over) ∧
    ∀ k, ∀ env ∈ (s.streams k).drop ((s.nodes n).read k), env.eventID ≠ id

structure ExactlyOnce (s : State) : Prop where
  delivered : ∀ n, ∀ p ∈ (s.nodes n).awaiting, ∀ c ∈ p.2, Finished s n p.1.id →
    ((s.nodes n).accepted c).count p.1.id = 1
  atMostOnce : ∀ n c id, ((s.nodes n).accepted c).count id ≤ 1

/-- The client has been sent the event, or is about to be. -/
def Node.given (node : Node) (c : ClientId) (id : String) : Bool :=
  (node.accepted c).contains id || node.fans.any fun fan => fan.id == id && fan.sending == some c

/-- Messages are not empty, and an id that a client has been sent is among its last when it is
marked. -/
def remembered (s : State) : Act → Bool
  | .broadcast _ post => post.message != ""
  | .mark n i c =>
    match (s.nodes n).fans[i]? with
    | none => true
    | some fan =>
      !(s.nodes n).given c fan.id || ((s.nodes n).conns c).seen.contains fan.id
  | _ => true

/-! ## Relays and recipients -/

section Recipients

variable {identity : ClientId → Identity} {hub : Hub} {c : ClientId} {post : Post}

/-- Whoever is in a room has been let into it. -/
def Scoped (hub : Hub) : Prop :=
  ∀ c, ∀ key ∈ hub.subscriptions c, key.type ∈ clientScopes ∧ key.incomplete = false

theorem included_all (c : ClientId) : included identity "" c = true := by
  simp [included]

/-- The relay reaches all who are recipients of the broadcast. -/
theorem deliverMessage_reaches (hc : hub.Consistent) (hs : Scoped hub) (hm : post.message ≠ "")
    (hmem : c ∈ recipients identity hub post.broadcast.target) :
    ∃ target, deliverMessage post.envelope = some target ∧
      c ∈ recipients identity hub target := by
  have hroom : ∀ key, c ∈ (hub.rooms.lookup key).getD [] →
      key.type ∈ clientScopes ∧ key.incomplete = false :=
    fun key hin => hs c key ((hc.member c key).1 hin).2
  rcases post with ⟨id, broadcast, message⟩
  cases broadcast with
  | toScope key =>
    have hin : c ∈ (hub.rooms.lookup key).getD [] := by
      simp only [Broadcast.target, recipients] at hmem
      split at hmem
      · simp at hmem
      · exact hmem
    rcases hroom key hin with ⟨htype, hfull⟩
    rcases key with ⟨type, id⟩
    have hne : type ≠ "" ∧ id ≠ "" := by simpa [ScopeKey.incomplete] using hfull
    have hdaemon : type ≠ scopeDaemonRuntime := fun heq => by
      subst heq
      simp [clientScopes, scopeDaemonRuntime, scopeWorkspace, scopeUser, scopeTask, scopeChat]
        at htype
    have hglobal : type ≠ scopeGlobal := fun heq => by
      subst heq
      simp [clientScopes, scopeGlobal, scopeWorkspace, scopeUser, scopeTask, scopeChat] at htype
    by_cases huser : type = scopeUser
    · subst huser
      refine ⟨.user id "", ?_, ?_⟩
      · simp [deliverMessage, deliverEnvelope, Post.envelope, hne, hdaemon, hglobal, hm]
      · exact List.mem_filter.2 ⟨hin, included_all c⟩
    · refine ⟨.scope ⟨type, id⟩, ?_, ?_⟩
      · simp [deliverMessage, deliverEnvelope, Post.envelope, hne, hdaemon, hglobal, huser, hm]
      · rw [recipients, hfull]
        exact hin
  | toUser userID exclude =>
    have hin : c ∈ (hub.rooms.lookup ⟨scopeUser, userID⟩).getD [] := (List.mem_filter.1 hmem).1
    have hne : userID ≠ "" := by
      have hfull := (hroom _ hin).2
      simp [ScopeKey.incomplete] at hfull
      exact hfull.2
    refine ⟨.user userID exclude, ?_, hmem⟩
    simp [deliverMessage, deliverEnvelope, Post.envelope, hne, hm, scopeUser, scopeDaemonRuntime,
      scopeGlobal]
  | toAll =>
    refine ⟨.all "", ?_, hmem⟩
    simp [deliverMessage, deliverEnvelope, Post.envelope, hm, scopeDaemonRuntime, scopeGlobal]

end Recipients

/-! ## The invariant of a node -/

/-- The client is the fan-out's now: to be sent the event or to be evicted. -/
def Fan.Holds (fan : Fan) (c : ClientId) : Prop := fan.sending = some c ∨ c ∈ fan.slow

def Fan.Owes (fan : Fan) (c : ClientId) : Prop := fan.Holds c ∨ c ∈ fan.todo

/-- Some fan-out of the event does `p`. -/
def SomeFan (node : Node) (id : String) (p : Fan → Prop) : Prop :=
  ∃ fan ∈ node.fans, fan.id = id ∧ p fan

/-- No two fan-outs send a client the same event. -/
def Disjoint (f g : Fan) : Prop := ∀ c, f.sending = some c → g.sending = some c → f.id ≠ g.id

/-- A client of a fan-out under the read lock is connected, and after it the loop is over. -/
structure Fan.Held (fan : Fan) (hub : Hub) : Prop where
  todo : ∀ c ∈ fan.todo, c ∈ hub.clients
  sending : ∀ c, fan.sending = some c → c ∈ hub.clients
  ended : fan.phase ≠ .fanning → fan.todo = [] ∧ fan.sending = none
  evicted : fan.phase ≠ .fanning → fan.phase ≠ .evicting → fan.slow = []
  message : ∀ post, fan.route = .own post → post.message ≠ ""

/-- What the node owes to the recipients of an event: it has been sent, is being sent, or has
still to be read. -/
def Node.Due (streams : Nat → List Envelope) (node : Node) (post : Post) (c : ClientId) : Prop :=
  post.id ∈ node.accepted c ∨ SomeFan node post.id (Fan.Owes · c) ∨
    ∃ k, post.envelope ∈ (streams k).drop (node.read k)

structure Inv (identity : ClientId → Identity) (streams : Nat → List Envelope)
    (node : Node) : Prop where
  consistent : node.hub.Consistent
  scopes : Scoped node.hub
  alive : node.crashed = false
  clients : ∀ c ∈ node.hub.clients, c ∈ node.registered
  fresh : ∀ c, c ∉ node.registered → node.conns c = {}
  opened : ∀ c ∈ node.hub.clients, (node.conns c).closed = false
  read : ∀ k, node.read k ≤ (streams k).length
  held : ∀ fan ∈ node.fans, fan.Held node.hub
  once : ∀ c, (node.accepted c).Nodup
  unsent : ∀ fan ∈ node.fans, ∀ c, fan.sending = some c → fan.id ∉ node.accepted c
  disjoint : Parties.Apart Disjoint node.fans
  seen : ∀ c ∈ node.hub.clients, ∀ id ∈ (node.conns c).seen,
    id ∈ node.accepted c ∨ SomeFan node id (Fan.Holds · c)
  named : ∀ c ∈ node.hub.clients, "" ∉ (node.conns c).seen
  message : ∀ p ∈ node.awaiting, p.1.message ≠ ""
  recipient : ∀ p ∈ node.awaiting, ∀ c ∈ p.2,
    c ∈ recipients identity node.hub p.1.broadcast.target
  due : ∀ p ∈ node.awaiting, ∀ c ∈ p.2, node.Due streams p.1 c

section Inv

variable {identity : ClientId → Identity} {streams : Nat → List Envelope} {node node' : Node}
  {fan fan' : Fan} {i : Nat} {c : ClientId} {id : String}

theorem inv_empty : Inv identity streams {} := by
  constructor
  · exact Hub.consistent_empty
  · intro c key hkey
    simp at hkey
  · rfl
  · intro c hc
    simp at hc
  · exact fun _ _ => rfl
  · exact fun _ _ => rfl
  · exact fun _ => Nat.zero_le _
  · simp
  · simp
  · simp
  · exact Parties.apart_nil
  · simp
  · simp
  · simp
  · simp
  · simp

theorem SomeFan.mono {p q : Fan → Prop} (h : SomeFan node id p) (hpq : ∀ fan, p fan → q fan) :
    SomeFan node id q := by
  rcases h with ⟨fan, hfan, hid, hp⟩
  exact ⟨fan, hfan, hid, hpq fan hp⟩

/-! ### Changes of the hub -/

/-- Those who await an event after a change have awaited it before, and are recipients still. -/
theorem mem_setHub_awaiting {hub : Hub} {p : Post × List ClientId}
    (hp : p ∈ (node.setHub identity hub).awaiting) :
    ∃ q ∈ node.awaiting, p.1 = q.1 ∧
      ∀ c ∈ p.2, c ∈ q.2 ∧ c ∈ recipients identity hub p.1.broadcast.target := by
  rcases List.mem_map.1 hp with ⟨q, hq, rfl⟩
  refine ⟨q, hq, rfl, fun c hc => ?_⟩
  rcases List.mem_filter.1 hc with ⟨hold, hin⟩
  exact ⟨hold, of_decide_eq_true hin⟩

/-- Without a fan-out under the read lock the hub may change in any way that keeps it in order, if
the clients it keeps stay as they are and those it takes in are new. -/
theorem Inv.setHub (h : Inv identity streams node) (hfree : node.unlocked = true) {hub : Hub}
    {conns : ClientId → Conn} {registered : List ClientId} (hc : hub.Consistent)
    (hs : Scoped hub)
    (hreg : ∀ c, c ∉ registered → c ∉ node.registered ∧ conns c = node.conns c)
    (hclients : ∀ c ∈ hub.clients, c ∈ registered ∧ conns c = node.conns c ∧
      (c ∈ node.hub.clients ∨ c ∉ node.registered)) :
    Inv identity streams
      { node.setHub identity hub with conns := conns, registered := registered } := by
  constructor
  · exact hc
  · exact hs
  · exact h.alive
  · exact fun c hmem => (hclients c hmem).1
  · intro c hnew
    rcases hreg c hnew with ⟨hnew', hsame⟩
    exact hsame.trans (h.fresh c hnew')
  · intro c hmem
    rcases hclients c hmem with ⟨-, hsame, hold | hnew⟩
    · exact (congrArg Conn.closed hsame).trans (h.opened c hold)
    · exact congrArg Conn.closed (hsame.trans (h.fresh c hnew))
  · exact h.read
  · intro fan hfan
    -- no loop is on its way
    have hphase : fan.phase ≠ .fanning := by simpa using List.all_eq_true.1 hfree fan hfan
    have hheld := h.held fan hfan
    rcases hheld.ended hphase with ⟨htodo, hsending⟩
    exact { hheld with
      todo := by simp [htodo]
      sending := by simp [hsending] }
  · exact h.once
  · exact h.unsent
  · exact h.disjoint
  · intro c hmem id hid
    rcases hclients c hmem with ⟨-, hsame, hold | hnew⟩
    · have hid' : id ∈ (conns c).seen := hid
      rw [hsame] at hid'
      exact h.seen c hold id hid'
    · have hid' : id ∈ (conns c).seen := hid
      rw [hsame, h.fresh c hnew] at hid'
      simp at hid'
  · intro c hmem
    show "" ∉ (conns c).seen
    rcases hclients c hmem with ⟨-, hsame, hold | hnew⟩
    · rw [hsame]
      exact h.named c hold
    · rw [hsame, h.fresh c hnew]
      simp
  · intro p hp
    rcases mem_setHub_awaiting hp with ⟨q, hq, heq, -⟩
    rw [heq]
    exact h.message q hq
  · intro p hp c hin
    rcases mem_setHub_awaiting hp with ⟨q, hq, heq, hkept⟩
    exact (hkept c hin).2
  · intro p hp c hin
    rcases mem_setHub_awaiting hp with ⟨q, hq, heq, hkept⟩
    rw [heq]
    exact h.due q hq c (hkept c hin).1

theorem Scoped.subscribe {hub hub' : Hub} {key : ScopeKey} {first : Bool} (hs : Scoped hub)
    (hkey : key.type ∈ clientScopes) (hsub : hub.subscribe c key = some (hub', first)) :
    Scoped hub' := by
  unfold Hub.subscribe at hsub
  simp only [Option.ite_none_left_eq_some, Option.some.injEq, Prod.mk.injEq] at hsub
  rcases hsub with ⟨hfull, -, -, rfl, -⟩
  intro c' key' hkey'
  by_cases hcc : c' = c
  · subst hcc
    have hkey'' : key' ∈ key :: hub.subscriptions c' := by simpa using hkey'
    rcases List.mem_cons.1 hkey'' with rfl | hold
    · exact ⟨hkey, by simpa using hfull⟩
    · exact hs c' key' hold
  · have hkey'' : key' ∈ hub.subscriptions c' := by simpa [hcc] using hkey'
    exact hs c' key' hkey''

theorem Scoped.shrink {hub hub' : Hub} (hs : Scoped hub)
    (hsub : ∀ c, ∀ key ∈ hub'.subscriptions c, key ∈ hub.subscriptions c) : Scoped hub' :=
  fun c key hkey => hs c key (hsub c key hkey)

theorem Scoped.unsubscribe {hub hub' : Hub} {key : ScopeKey} {last : Bool} (hs : Scoped hub)
    (hun : hub.unsubscribe c key = some (hub', last)) : Scoped hub' := by
  refine hs.shrink fun c' key' hkey' => ?_
  rw [(Hub.unsubscribe_spec hun).2.2.1] at hkey'
  by_cases hcc : c' = c
  · subst hcc
    rw [Function.update_self] at hkey'
    exact (List.mem_filter.1 hkey').1
  · rwa [Function.update_of_ne hcc] at hkey'

theorem Scoped.drop {hub : Hub} (hs : Scoped hub) (c : ClientId) : Scoped (hub.drop c).1 := by
  refine hs.shrink fun c' key' hkey' => ?_
  rw [Hub.drop_subscriptions] at hkey'
  by_cases hcc : c' = c
  · subst hcc
    simp at hkey'
  · rwa [Function.update_of_ne hcc] at hkey'

theorem Scoped.evictSlow {hub : Hub} (hs : Scoped hub) (slow : List ClientId) :
    Scoped (hub.evictSlow slow).1 := by
  induction slow generalizing hub with
  | nil => exact hs
  | cons c slow ih =>
    rw [Hub.evictSlow]
    split
    · exact ih hs
    · exact ih (hs.drop c)

/-! ### Moves of a fan-out -/

theorem not_given (h : node.given c id = false) :
    id ∉ node.accepted c ∧ ∀ f ∈ node.fans, f.sending = some c → f.id ≠ id := by
  simp only [Node.given, Bool.or_eq_false_iff, List.any_eq_false, Bool.and_eq_true,
    beq_iff_eq, not_and, List.contains_eq_mem, decide_eq_false_iff_not] at h
  exact ⟨h.1, fun f hf hsend hid => h.2 f hf hid hsend⟩

/-- A fan-out moves on. It may send to a client that has not been given the event; it lets go of
those who have got it, and drops only such. -/
theorem Inv.move (h : Inv identity streams node) (hi : node.fans[i]? = some fan)
    (hheld : fan'.Held node.hub) (hid : fan'.id = fan.id) {conns : ClientId → Conn}
    {accepted : ClientId → List String}
    (hclosed : ∀ c, (conns c).closed = (node.conns c).closed)
    (hfresh : ∀ c, c ∉ node.registered → conns c = node.conns c)
    (hseen : ∀ c ∈ node.hub.clients, ∀ x ∈ (conns c).seen,
      x ∈ (node.conns c).seen ∨ x = fan.id ∧ x ≠ "" ∧ fan'.Holds c)
    (hsub : ∀ c, ∀ x ∈ node.accepted c, x ∈ accepted c)
    (honce : ∀ c, (accepted c).Nodup)
    (hsent : ∀ c, ∀ x ∈ accepted c,
      x ∈ node.accepted c ∨ x = fan.id ∧ fan.sending = some c ∧ fan'.sending = none)
    (hsending : ∀ c, fan'.sending = some c →
      fan.sending = some c ∨ node.given c fan.id = false)
    (hholds : ∀ c ∈ node.hub.clients, fan.Holds c → fan'.Holds c ∨ fan.id ∈ accepted c)
    (howes : ∀ c ∈ node.hub.clients, c ∈ fan.todo → fan'.Owes c ∨ fan.id ∈ node.accepted c ∨
      SomeFan node fan.id (Fan.Holds · c)) :
    Inv identity streams { node.setFan i fan' with conns := conns, accepted := accepted } := by
  have hmem := List.mem_of_getElem? hi
  -- who has the client keeps it until it has got the event
  have hset : ∀ c ∈ node.hub.clients, ∀ {id}, SomeFan node id (Fan.Holds · c) →
      id ∈ accepted c ∨ SomeFan (node.setFan i fan') id (Fan.Holds · c) := by
    intro c hc id hsome
    rcases (Parties.exists_iff hi).1 hsome with ⟨heq, hfan⟩ | hother
    · rcases hholds c hc hfan with hkept | hgot
      · exact .inr ((Parties.exists_set_iff hi fan').2 (.inl ⟨hid.trans heq, hkept⟩))
      · exact .inl (heq ▸ hgot)
    · exact .inr ((Parties.exists_set_iff hi fan').2 (.inr hother))
  have hnobody : ∀ {c}, fan'.sending = some c → fan.id ∉ node.accepted c ∧
      ∀ g ∈ node.fans, Disjoint fan g → g.sending = some c → fan.id ≠ g.id := by
    intro c hc
    rcases hsending c hc with hold | hgiven
    · exact ⟨h.unsent fan hmem c hold, fun g _ hfg hg => hfg c hold hg⟩
    · rcases not_given hgiven with ⟨hunsent, hothers⟩
      exact ⟨hunsent, fun g hg _ hsend heq => hothers g hg hsend heq.symm⟩
  refine { h with
    fresh := fun c hc => (hfresh c hc).trans (h.fresh c hc)
    opened := fun c hc => (hclosed c).trans (h.opened c hc)
    held := Parties.forall_set fan' hheld h.held
    once := honce
    unsent := ?_, disjoint := ?_, seen := ?_, named := ?_, due := ?_ }
  · intro f hf c hc hacc
    rcases List.mem_iff_getElem?.1 hf with ⟨j, hj⟩
    have hj' : (node.fans.set i fan')[j]? = some f := hj
    by_cases hji : j = i
    · subst hji
      obtain rfl : fan' = f := Option.some.inj ((Parties.getElem?_set hi fan').symm.trans hj')
      rw [hid] at hacc
      rcases hsent c _ hacc with hacc' | ⟨-, -, hnone⟩
      · exact (hnobody hc).1 hacc'
      · rw [hnone] at hc
        simp at hc
    · rw [List.getElem?_set_ne (Ne.symm hji)] at hj'
      rcases hsent c f.id hacc with hacc' | ⟨heq, hsend, -⟩
      · exact h.unsent f (List.mem_of_getElem? hj') c hc hacc'
      · -- two of them would send the same event
        exact h.disjoint i j fan f (Ne.symm hji) hi hj' c hsend hc heq.symm
  · refine h.disjoint.set hi fun g hg hfg hgf => ⟨fun c hc hsend => ?_, fun c hsend hc => ?_⟩
    · rw [hid]
      exact (hnobody hc).2 g hg hfg hsend
    · rw [hid]
      exact fun heq => (hnobody hc).2 g hg hfg hsend heq.symm
  · intro c hc id hin
    rcases hseen c hc id hin with hold | ⟨rfl, -, hkept⟩
    · rcases h.seen c hc id hold with hacc | hsome
      · exact .inl (hsub c id hacc)
      · exact hset c hc hsome
    · exact .inr ((Parties.exists_set_iff hi fan').2 (.inl ⟨hid, hkept⟩))
  · intro c hc hin
    rcases hseen c hc "" hin with hold | ⟨-, hne, -⟩
    · exact h.named c hc hold
    · exact hne rfl
  · intro p hp c hc
    have hclient : c ∈ node.hub.clients :=
      mem_clients_of_recipients identity h.consistent (h.recipient p hp c hc)
    have hholder : SomeFan node p.1.id (Fan.Holds · c) → Node.Due streams
        { node.setFan i fan' with conns := conns, accepted := accepted } p.1 c := by
      intro hsome
      rcases hset c hclient hsome with hacc | hsome'
      · exact .inl hacc
      · exact .inr (.inl (hsome'.mono fun _ => .inl))
    rcases h.due p hp c hc with hacc | hsome | hread
    · exact .inl (hsub c _ hacc)
    · -- the fan-out that owes the client may be the one that moves
      have hcases : (fan.id = p.1.id ∧ fan.Owes c) ∨
          Parties.Other node.fans i (fun f => f.id = p.1.id ∧ f.Owes c) :=
        (Parties.exists_iff hi).1 hsome
      rcases hcases with ⟨heq, hfan | htodo⟩ | hother
      · exact hholder ⟨fan, hmem, heq, hfan⟩
      · rcases howes c hclient htodo with hown | hacc | hsome'
        · exact .inr (.inl ((Parties.exists_set_iff hi fan').2 (.inl ⟨hid.trans heq, hown⟩)))
        · exact .inl (hsub c _ (heq ▸ hacc))
        · exact hholder (heq ▸ hsome')
      · exact .inr (.inl ((Parties.exists_set_iff hi fan').2 (.inr hother)))
    · exact .inr (.inr hread)

/-- A fan-out that sends nothing as it moves. -/
theorem Inv.setFan (h : Inv identity streams node) (hi : node.fans[i]? = some fan)
    (hid : fan'.id = fan.id) (hheld : fan'.Held node.hub)
    (hsending : ∀ c, fan'.sending = some c → fan.sending = some c)
    (hholds : ∀ c ∈ node.hub.clients, fan.Holds c → fan'.Holds c)
    (howes : ∀ c ∈ node.hub.clients, c ∈ fan.todo → fan'.Owes c ∨ fan.id ∈ node.accepted c ∨
      SomeFan node fan.id (Fan.Holds · c)) :
    Inv identity streams (node.setFan i fan') :=
  h.move hi hheld hid (fun _ => rfl) (fun _ _ => rfl) (fun _ _ _ => .inl) (fun _ _ => id) h.once
    (fun _ _ => .inl) (fun c hc => .inl (hsending c hc))
    (fun c hc hfan => .inl (hholds c hc hfan)) howes

theorem Inv.unlock (h : Inv identity streams node) (hn : node.unlock i = some node') :
    Inv identity streams node' := by
  unfold Node.unlock at hn
  simp only [Option.bind_eq_bind, Option.bind_eq_some_iff, Option.ite_none_right_eq_some,
    Option.some.injEq] at hn
  rcases hn with ⟨fan, hi, ⟨hphase, hsending, htodo⟩, rfl⟩
  have hheld := h.held fan (List.mem_of_getElem? hi)
  refine h.setFan hi rfl ?_ (fun _ => id) (fun _ _ => id) fun _ _ hc => .inl (.inr hc)
  exact { hheld with
    ended := fun _ => ⟨htodo, hsending⟩
    evicted := fun _ hne => absurd rfl hne }

theorem mem_markSeen {conn conn' : Conn} (h : conn.markSeen id = some conn') :
    ∀ x ∈ conn'.seen, x ∈ conn.seen ∨ x = id ∧ x ≠ "" := by
  unfold Conn.markSeen at h
  split at h
  · rw [← Option.some.inj h]
    exact fun _ => .inl
  · rename_i hid
    simp only [Option.ite_none_left_eq_some, Option.some.injEq] at h
    rw [← h.2]
    intro x hx
    have hx' : x ∈ conn.seen ++ [id] := by
      split at hx
      · exact List.mem_of_mem_tail hx
      · exact hx
    rcases List.mem_append.1 hx' with hold | hnew
    · exact .inl hold
    · obtain rfl := List.mem_singleton.1 hnew
      exact .inr ⟨rfl, hid⟩

theorem markSeen_none {conn : Conn} (h : conn.markSeen id = none) : id ∈ conn.seen := by
  unfold Conn.markSeen at h
  split at h
  · simp at h
  · split at h
    · assumption
    · simp at h

/-- An inversion: `mark` finds a duplicate, or chooses the client for the event. -/
theorem mark_cases (hn : node.mark i c = some node') :
    ∃ fan, node.fans[i]? = some fan ∧ fan.phase = .fanning ∧ fan.sending = none ∧
      c ∈ fan.todo ∧
      ((fan.id ∈ (node.conns c).seen ∧
          node' = node.setFan i { fan with todo := fan.todo.filter (· != c) }) ∨
        ∃ conn, (node.conns c).markSeen fan.id = some conn ∧
          node' = { node.setFan i
              { fan with todo := fan.todo.filter (· != c), sending := some c } with
            conns := Function.update node.conns c conn }) := by
  unfold Node.mark at hn
  simp only [Option.bind_eq_bind, Option.bind_eq_some_iff, Option.ite_none_right_eq_some] at hn
  rcases hn with ⟨fan, hi, ⟨hphase, hsending, hc⟩, hn⟩
  refine ⟨fan, hi, hphase, hsending, hc, ?_⟩
  split at hn
  · rename_i hdup
    exact .inl ⟨markSeen_none hdup, (Option.some.inj hn).symm⟩
  · rename_i conn hnew
    exact .inr ⟨conn, hnew, (Option.some.inj hn).symm⟩

theorem Inv.mark (h : Inv identity streams node)
    (hnew : ∀ fan, node.fans[i]? = some fan → node.given c fan.id = true →
      fan.id ∈ (node.conns c).seen) (hn : node.mark i c = some node') :
    Inv identity streams node' := by
  rcases mark_cases hn with ⟨fan, hi, hphase, hsending, hc, hn⟩
  have hheld := h.held fan (List.mem_of_getElem? hi)
  have hclient := hheld.todo c hc
  have hleft : ∀ c' ∈ fan.todo, c' ≠ c → c' ∈ fan.todo.filter (· != c) :=
    fun c' htodo hcc => List.mem_filter.2 ⟨htodo, by simpa using hcc⟩
  have hmarked : ∀ sending, (∀ c', sending = some c' → c' = c) →
      Fan.Held { fan with todo := fan.todo.filter (· != c), sending := sending } node.hub := by
    intro sending hs
    exact { hheld with
      todo := fun c' hc' => hheld.todo c' (List.mem_filter.1 hc').1
      sending := fun c' hc' => hs c' hc' ▸ hclient
      ended := fun hne => absurd hphase hne }
  rcases hn with ⟨hdup, rfl⟩ | ⟨conn, hconn, rfl⟩
  · -- a duplicate has been sent, or some fan-out has the client
    refine h.setFan hi rfl ?_ (fun _ => id) (fun _ _ => id) fun c' hc' htodo => ?_
    · have hheld' := hmarked fan.sending (by simp [hsending])
      exact hheld'
    · by_cases hcc : c' = c
      · subst hcc
        exact .inr (h.seen c' hc' fan.id hdup)
      · exact .inl (.inr (hleft c' htodo hcc))
  · -- nobody has sent the client the event, and nobody is about to
    have hungiven : node.given c fan.id = false := by
      by_contra hgiven
      have hin := hnew fan hi (by simpa using hgiven)
      have hne : fan.id ≠ "" := fun heq => h.named c hclient (heq ▸ hin)
      unfold Conn.markSeen at hconn
      rw [if_neg hne, if_pos hin] at hconn
      simp at hconn
    refine h.move hi (hmarked (some c) fun c' hc' => (Option.some.inj hc').symm) rfl
      (fun c' => ?_) (fun c' hc' => ?_) (fun c' _ x hx => ?_) (fun _ _ => id) h.once
      (fun _ _ => .inl) (fun c' hc' => ?_) (fun c' _ hhas => ?_) fun c' _ htodo => .inl ?_
    · by_cases hcc : c' = c
      · subst hcc
        simpa using (markSeen_kept hconn).1
      · simp [hcc]
    · have hcc : c' ≠ c := fun heq => hc' (heq ▸ h.clients c hclient)
      simp [hcc]
    · by_cases hcc : c' = c
      · subst hcc
        rw [Function.update_self] at hx
        exact (mem_markSeen hconn x hx).imp_right fun hnew => ⟨hnew.1, hnew.2, .inl rfl⟩
      · rw [Function.update_of_ne hcc] at hx
        exact .inl hx
    · exact .inr (Option.some.inj hc' ▸ hungiven)
    · rcases hhas with hsend | hslow
      · rw [hsending] at hsend
        simp at hsend
      · exact .inl (.inr hslow)
    · by_cases hcc : c' = c
      · exact .inl (.inl (congrArg some hcc.symm))
      · exact .inr (hleft c' htodo hcc)

/-- An inversion: an open channel has room for the event, or the client is slow. -/
theorem send_cases (hn : node.send i = some node') :
    ∃ fan c, node.fans[i]? = some fan ∧ fan.sending = some c ∧
      (((node.conns c).trySend (.event fan.id fan.payload) = .crash ∧
          node' = { node with crashed := true }) ∨
        node' = node.setFan i { fan with sending := none, slow := c :: fan.slow } ∨
        ∃ conn, (node.conns c).trySend (.event fan.id fan.payload) = .queued conn ∧
          node' = { node.setFan i { fan with sending := none } with
            conns := Function.update node.conns c conn
            accepted := Function.update node.accepted c (node.accepted c ++ [fan.id]) }) := by
  unfold Node.send at hn
  simp only [Option.bind_eq_bind, Option.bind_eq_some_iff] at hn
  rcases hn with ⟨fan, hi, c, hsending, hn⟩
  refine ⟨fan, c, hi, hsending, ?_⟩
  split at hn
  · rename_i hcrash
    exact .inl ⟨hcrash, (Option.some.inj hn).symm⟩
  · exact .inr (.inl (Option.some.inj hn).symm)
  · rename_i conn hqueued
    exact .inr (.inr ⟨conn, hqueued, (Option.some.inj hn).symm⟩)

theorem Inv.send (h : Inv identity streams node) (hn : node.send i = some node') :
    Inv identity streams node' := by
  rcases send_cases hn with ⟨fan, c, hi, hsending, hn⟩
  have hmem := List.mem_of_getElem? hi
  have hheld := h.held fan hmem
  have hclient := hheld.sending c hsending
  have hphase : fan.phase = .fanning := by
    by_contra hne
    rw [(hheld.ended hne).2] at hsending
    simp at hsending
  have hsent : ∀ slow, Fan.Held { fan with sending := none, slow := slow } node.hub := by
    intro slow
    exact { hheld with
      sending := by simp
      ended := fun hne => absurd hphase hne
      evicted := fun hne => absurd hphase hne }
  rcases hn with ⟨hcrash, -⟩ | rfl | ⟨conn, hqueued, rfl⟩
  · -- a client of the fan-out is connected, so its channel is open
    exact absurd hcrash (trySend_of_open _ (h.opened c hclient))
  · refine h.setFan hi rfl (hsent _) (by simp) (fun c' _ hhas => ?_)
      fun c' _ htodo => .inl (.inr htodo)
    rcases hhas with hsend | hslow
    · obtain rfl : c = c' := Option.some.inj (hsending.symm.trans hsend)
      exact .inr List.mem_cons_self
    · exact .inr (List.mem_cons_of_mem c hslow)
  · have hconn := (trySend_queued hqueued).2.2
    have haccepted : ∀ c', ∀ x ∈ Function.update node.accepted c (node.accepted c ++ [fan.id]) c',
        x ∈ node.accepted c' ∨ x = fan.id ∧ c' = c := by
      intro c' x hx
      by_cases hcc : c' = c
      · subst hcc
        rw [Function.update_self] at hx
        exact (List.mem_append.1 hx).imp_right fun hnew => ⟨List.mem_singleton.1 hnew, rfl⟩
      · rw [Function.update_of_ne hcc] at hx
        exact .inl hx
    have hkept : ∀ c', ∀ x ∈ node.accepted c',
        x ∈ Function.update node.accepted c (node.accepted c ++ [fan.id]) c' := by
      intro c' x hx
      by_cases hcc : c' = c
      · subst hcc
        rw [Function.update_self]
        exact List.mem_append_left _ hx
      · rwa [Function.update_of_ne hcc]
    refine h.move hi (hsent fan.slow) rfl (fun c' => ?_) (fun c' hc' => ?_)
      (fun c' _ x hx => .inl ?_) hkept (fun c' => ?_) (fun c' x hx => ?_) (by simp)
      (fun c' _ hhas => ?_) fun c' _ htodo => .inl (.inr htodo)
    · by_cases hcc : c' = c
      · subst hcc
        simp [hconn]
      · simp [hcc]
    · have hcc : c' ≠ c := fun heq => hc' (heq ▸ h.clients c hclient)
      simp [hcc]
    · by_cases hcc : c' = c
      · subst hcc
        rwa [Function.update_self, hconn] at hx
      · rwa [Function.update_of_ne hcc] at hx
    · by_cases hcc : c' = c
      · subst hcc
        rw [Function.update_self, List.nodup_append]
        refine ⟨h.once c', List.nodup_singleton _, fun x hx y hy heq => ?_⟩
        obtain rfl := List.mem_singleton.1 hy
        exact h.unsent fan hmem c' hsending (heq ▸ hx)
      · rw [Function.update_of_ne hcc]
        exact h.once c'
    · rcases haccepted c' x hx with hold | ⟨heq, rfl⟩
      · exact .inl hold
      · exact .inr ⟨heq, hsending, rfl⟩
    · rcases hhas with hsend | hslow
      · obtain rfl : c = c' := Option.some.inj (hsending.symm.trans hsend)
        exact .inr (by simp)
      · exact .inl (.inr hslow)

theorem Inv.evict (h : Inv identity streams node) (hn : node.evict identity i = some node') :
    Inv identity streams node' := by
  unfold Node.evict at hn
  simp only [Option.bind_eq_bind, Option.bind_eq_some_iff, Option.ite_none_right_eq_some] at hn
  rcases hn with ⟨fan, hi, hphase, hn⟩
  have hheld := h.held fan (List.mem_of_getElem? hi)
  rcases hheld.ended (by simp [hphase]) with ⟨htodo, hsending⟩
  have hheld' : ∀ hub : Hub,
      Fan.Held { fan with slow := [], phase := Route.after fan.route } hub := by
    intro hub
    exact { hheld with
      todo := by simp [htodo]
      sending := by simp [hsending]
      ended := fun _ => ⟨htodo, hsending⟩
      evicted := fun _ _ => rfl }
  split at hn
  · rename_i hslow
    rw [← Option.some.inj hn]
    refine h.setFan hi rfl (hheld' _) (fun _ => id) (fun c _ hhas => ?_) (by simp [htodo])
    rcases hhas with hsend | hmem
    · exact .inl hsend
    · rw [hslow] at hmem
      simp at hmem
  · split at hn
    · rename_i hslow hfree
      rw [← Option.some.inj hn]
      rcases Hub.evictSlow_spec node.hub fan.slow with ⟨-, hevicted, hleft⟩
      have hconns : ∀ c, c ∉ (node.hub.evictSlow fan.slow).2.1 →
          (node.close (node.hub.evictSlow fan.slow).2.1).conns c = node.conns c :=
        fun c hc => if_neg hc
      -- the slow clients leave first, then the fan-out lets go of them
      have hout : Inv identity streams { node.setHub identity (node.hub.evictSlow fan.slow).1 with
          conns := (node.close (node.hub.evictSlow fan.slow).2.1).conns } :=
        h.setHub hfree (h.consistent.evictSlow fan.slow) (h.scopes.evictSlow fan.slow)
        (fun c hc => ⟨hc, hconns c fun hin => hc (h.clients c ((hevicted c).1 hin).2)⟩)
        (fun c hc => ⟨h.clients c ((hleft c).1 hc).1,
          hconns c fun hin => ((hleft c).1 hc).2 ((hevicted c).1 hin).1,
          .inl ((hleft c).1 hc).1⟩)
      refine hout.setFan hi rfl (hheld' _) (fun _ => id) (fun c hc hhas => ?_) (by simp [htodo])
      rcases hhas with hsend | hmem
      · exact .inl hsend
      · exact absurd hmem ((hleft c).1 hc).2
    · simp at hn

theorem Inv.remove (h : Inv identity streams node) (hfree : node.unlocked = true) {hub : Hub}
    {emptied : List ScopeKey} (hrem : node.hub.removeClient c = some (hub, emptied)) :
    Inv identity streams ((node.close [c]).setHub identity hub) := by
  simp only [Hub.removeClient, Option.ite_none_left_eq_some, Decidable.not_not,
    Option.some.injEq] at hrem
  rcases hrem with ⟨hmem, hdrop⟩
  obtain rfl : (node.hub.drop c).1 = hub := congrArg Prod.fst hdrop
  have hconns : ∀ c', c' ≠ c → (node.close [c]).conns c' = node.conns c' :=
    fun c' hne => if_neg (by simpa using hne)
  refine h.setHub hfree (h.consistent.drop c) (h.scopes.drop c) (fun c' hc' => ⟨hc', ?_⟩)
    fun c' hc' => ?_
  · exact hconns c' fun heq => hc' (heq ▸ h.clients c hmem)
  · rcases Hub.mem_drop_clients.1 hc' with ⟨hold, hne⟩
    exact ⟨h.clients c' hold, hconns c' hne, .inl hold⟩

/-! ### New fan-outs -/

/-- A fan-out to the recipients of now. What a reader takes off a stream may go if it owes it to
nobody but them. -/
theorem Inv.fanOut (h : Inv identity streams node) {payload : String} {route : Route}
    {target : Target} {read : Nat → Nat} {mirror : List Envelope}
    (hroute : ∀ post, route = .own post → post.message ≠ "")
    (hread : ∀ k, read k ≤ (streams k).length)
    (hdue : ∀ p ∈ node.awaiting, ∀ c ∈ p.2, ∀ k,
      p.1.envelope ∈ (streams k).drop (node.read k) →
      p.1.envelope ∈ (streams k).drop (read k) ∨
        p.1.id = id ∧ c ∈ recipients identity node.hub target) :
    Inv identity streams
      (Node.fanOut identity { node with read := read, mirror := mirror } id payload route
        target) := by
  have hold : ∀ {id' p}, SomeFan node id' p →
      SomeFan (Node.fanOut identity { node with read := read, mirror := mirror } id payload route
        target) id' p := by
    rintro id' p ⟨fan, hfan, hid, hp⟩
    exact ⟨fan, List.mem_append_left _ hfan, hid, hp⟩
  refine { h with
    read := hread, held := ?_, unsent := ?_, disjoint := ?_, seen := ?_, due := ?_ }
  · intro fan hfan
    rcases List.mem_append.1 hfan with hfan | hfan
    · exact h.held fan hfan
    · obtain rfl := List.mem_singleton.1 hfan
      constructor
      · exact fun c hc => mem_clients_of_recipients identity h.consistent hc
      · simp
      · simp
      · simp
      · exact hroute
  · intro fan hfan
    rcases List.mem_append.1 hfan with hfan | hfan
    · exact h.unsent fan hfan
    · obtain rfl := List.mem_singleton.1 hfan
      simp
  · refine h.disjoint.concat fun f _ => ⟨fun c _ hc => ?_, fun c hc => ?_⟩
    · simp at hc
    · simp at hc
  · intro c hc id' hid
    exact (h.seen c hc id' hid).imp_right hold
  · intro p hp c hc
    rcases h.due p hp c hc with hacc | hsome | ⟨k, hk⟩
    · exact .inl hacc
    · exact .inr (.inl (hold hsome))
    · rcases hdue p hp c hc k hk with hkept | ⟨heq, htodo⟩
      · exact .inr (.inr ⟨k, hkept⟩)
      · -- the new fan-out owes it to the client
        exact .inr (.inl ⟨_, List.mem_append_right _ (List.mem_singleton.2 rfl), heq.symm,
          .inr htodo⟩)

theorem Inv.broadcast (h : Inv identity streams node) {post : Post} (hm : post.message ≠ "") :
    Inv identity streams
      (node.fanOut identity post.id post.message (.own post) post.broadcast.target) :=
  h.fanOut (fun _ heq => Route.own.inj heq ▸ hm) h.read fun _ _ _ _ _ hk => .inl hk

theorem Inv.mirror (h : Inv identity streams node) {mirror : List Envelope} (env : Envelope) :
    Inv identity streams
      (Node.relayed identity { node with mirror := mirror } env .mirror (deliverEnvelope env)) := by
  cases deliverEnvelope env with
  | none => exact { h with }
  | some target => exact h.fanOut (by simp) h.read fun _ _ _ _ _ hk => .inl hk

/-- The reader of a shard goes on by one message: its recipients are in the fan-out. -/
theorem Inv.deliver (h : Inv identity streams node) {k : Nat} {env : Envelope}
    (hk : (streams k)[node.read k]? = some env) :
    Inv identity streams
      (Node.relayed identity { node with read := Function.update node.read k (node.read k + 1) }
        env (.shard k) (deliverMessage env)) := by
  have hlt : node.read k < (streams k).length := (List.getElem?_eq_some_iff.1 hk).1
  have hread : ∀ j, Function.update node.read k (node.read k + 1) j ≤ (streams j).length := by
    intro j
    by_cases hjk : j = k
    · subst hjk
      rw [Function.update_self]
      exact hlt
    · rw [Function.update_of_ne hjk]
      exact h.read j
  have hnext : ∀ j x, x ∈ (streams j).drop (node.read j) →
      x ∈ (streams j).drop (Function.update node.read k (node.read k + 1) j) ∨ x = env := by
    intro j x hx
    by_cases hjk : j = k
    · subst hjk
      rw [Function.update_self]
      rw [List.drop_eq_getElem_cons hlt, List.mem_cons] at hx
      rcases hx with rfl | hx
      · exact .inr (Option.some.inj ((List.getElem?_eq_getElem hlt).symm.trans hk))
      · exact .inl hx
    · rw [Function.update_of_ne hjk]
      exact .inl hx
  have hreach : ∀ p ∈ node.awaiting, ∀ c ∈ p.2, p.1.envelope = env →
      ∃ target, deliverMessage env = some target ∧ c ∈ recipients identity node.hub target :=
    fun p hp c hc heq => heq ▸ deliverMessage_reaches h.consistent h.scopes (h.message p hp)
      (h.recipient p hp c hc)
  cases htarget : deliverMessage env with
  | none =>
    refine { h with read := hread, due := fun p hp c hc => ?_ }
    rcases h.due p hp c hc with hacc | hsome | ⟨j, hj⟩
    · exact .inl hacc
    · exact .inr (.inl hsome)
    · rcases hnext j _ hj with hkept | heq
      · exact .inr (.inr ⟨j, hkept⟩)
      · rcases hreach p hp c hc heq with ⟨target, hsome, -⟩
        rw [htarget] at hsome
        simp at hsome
  | some target =>
    refine h.fanOut (by simp) hread fun p hp c hc j hj => ?_
    refine (hnext j _ hj).imp_right fun heq => ?_
    rcases hreach p hp c hc heq with ⟨target', hsome, hmem⟩
    obtain rfl : target = target' := Option.some.inj (htarget.symm.trans hsome)
    refine ⟨?_, hmem⟩
    rw [← heq]
    unfold Post.envelope
    split <;> rfl

/-- What is published, the reader of its shard has still to read. -/
theorem Inv.post (h : Inv identity streams node) {post : Post} (hm : post.message ≠ "")
    {k : Nat} {mirror : List Envelope} :
    Inv identity (Function.update streams k (streams k ++ [post.envelope]))
      { node with
        mirror := mirror
        awaiting := node.awaiting ++
          [(post, recipients identity node.hub post.broadcast.target)] } := by
  have hgrow : ∀ j x, x ∈ (streams j).drop (node.read j) → x ∈ (Function.update streams k
      (streams k ++ [post.envelope]) j).drop (node.read j) := by
    intro j x hx
    by_cases hjk : j = k
    · subst hjk
      rw [Function.update_self, List.drop_append_of_le_length (h.read j)]
      exact List.mem_append_left _ hx
    · rwa [Function.update_of_ne hjk]
  have hlast : post.envelope ∈ (Function.update streams k
      (streams k ++ [post.envelope]) k).drop (node.read k) := by
    rw [Function.update_self, List.drop_append_of_le_length (h.read k)]
    exact List.mem_append_right _ (List.mem_singleton.2 rfl)
  have hcases : ∀ p ∈ node.awaiting ++
      [(post, recipients identity node.hub post.broadcast.target)],
      p ∈ node.awaiting ∨ p = (post, recipients identity node.hub post.broadcast.target) :=
    fun p hp => (List.mem_append.1 hp).imp_right List.mem_singleton.1
  refine { h with read := fun j => ?_, message := ?_, recipient := ?_, due := ?_ }
  · by_cases hjk : j = k
    · subst hjk
      rw [Function.update_self, List.length_append]
      exact Nat.le_trans (h.read j) (Nat.le_add_right _ _)
    · rw [Function.update_of_ne hjk]
      exact h.read j
  · intro p hp
    rcases hcases p hp with hold | rfl
    · exact h.message p hold
    · exact hm
  · intro p hp c hc
    rcases hcases p hp with hold | rfl
    · exact h.recipient p hold c hc
    · exact hc
  · intro p hp c hc
    rcases hcases p hp with hold | rfl
    · rcases h.due p hold c hc with hacc | hsome | ⟨j, hj⟩
      · exact .inl hacc
      · exact .inr (.inl hsome)
      · exact .inr (.inr ⟨j, hgrow j _ hj⟩)
    · exact .inr (.inr ⟨k, hlast⟩)

/-- The socket takes a frame. -/
theorem Inv.write (h : Inv identity streams node) {frame : Frame} {queue : List Frame}
    (hq : (node.conns c).queue = frame :: queue) :
    Inv identity streams { node with
      conns := Function.update node.conns c { node.conns c with queue := queue } } := by
  have hsame : ∀ c', (Function.update node.conns c { node.conns c with queue := queue } c').closed =
        (node.conns c').closed ∧
      (Function.update node.conns c { node.conns c with queue := queue } c').seen =
        (node.conns c').seen := by
    intro c'
    by_cases hcc : c' = c
    · subst hcc
      simp
    · simp [hcc]
  refine { h with fresh := fun c' hc' => ?_, opened := fun c' hc' => ?_, seen := ?_, named := ?_ }
  · by_cases hcc : c' = c
    · subst hcc
      rw [h.fresh c' hc'] at hq
      simp at hq
    · exact (Function.update_of_ne hcc _ _).trans (h.fresh c' hc')
  · exact (hsame c').1.trans (h.opened c' hc')
  · intro c' hc' id hid
    rw [(hsame c').2] at hid
    exact h.seen c' hc' id hid
  · intro c' hc' hid
    rw [(hsame c').2] at hid
    exact h.named c' hc' hid

end Inv

/-! ## Steps and runs -/

section Steps

variable {shards : Nat} {mirrored : Bool} {identity : ClientId → Identity} {s s' : State}
  {n : NodeId} {a : Act}

/-- Every node is in order. -/
def InvAll (identity : ClientId → Identity) (s : State) : Prop :=
  ∀ n, Inv identity s.streams (s.nodes n)

theorem InvAll.set (h : InvAll identity s) {node : Node} (hnode : Inv identity s.streams node) :
    InvAll identity (s.set n node) := by
  intro m
  have hm : Inv identity s.streams (Function.update s.nodes n node m) := by
    by_cases hmn : m = n
    · subst hmn
      rwa [Function.update_self]
    · rw [Function.update_of_ne hmn]
      exact h m
  exact hm

theorem inv_step (h : InvAll identity s) (hr : remembered s a = true)
    (hn : next shards mirrored identity s a = some s') : InvAll identity s' := by
  cases a with
  | register n c =>
    simp only [next, Option.ite_none_right_eq_some, Option.some.injEq] at hn
    rcases hn with ⟨⟨hnew, hfree⟩, rfl⟩
    refine h.set ((h n).setHub hfree ((h n).consistent.register c) (h n).scopes
      (fun c' hc' => ⟨fun hold => hc' (List.mem_cons_of_mem c hold), rfl⟩) fun c' hc' => ?_)
    rcases List.mem_insert_iff.1 hc' with rfl | hold
    · exact ⟨List.mem_cons_self, rfl, .inr hnew⟩
    · exact ⟨List.mem_cons_of_mem c ((h n).clients c' hold), rfl, .inl hold⟩
  | subscribe n c key =>
    simp only [next, Option.ite_none_right_eq_some, Option.map_eq_some_iff] at hn
    rcases hn with ⟨⟨hkey, hfree⟩, ⟨hub, first⟩, hsub, rfl⟩
    refine h.set ((h n).setHub hfree ((h n).consistent.subscribe hsub)
      ((h n).scopes.subscribe hkey hsub) (fun c' hc' => ⟨hc', rfl⟩) fun c' hc' => ?_)
    have hold : c' ∈ (s.nodes n).hub.clients := (Hub.subscribe_spec hsub).2.2.1 ▸ hc'
    exact ⟨(h n).clients c' hold, rfl, .inl hold⟩
  | unsubscribe n c key =>
    simp only [next, Option.ite_none_right_eq_some, Option.map_eq_some_iff] at hn
    rcases hn with ⟨hfree, ⟨hub, last⟩, hun, rfl⟩
    refine h.set ((h n).setHub hfree ((h n).consistent.unsubscribe hun)
      ((h n).scopes.unsubscribe hun) (fun c' hc' => ⟨hc', rfl⟩) fun c' hc' => ?_)
    have hold : c' ∈ (s.nodes n).hub.clients := (Hub.unsubscribe_spec hun).2.1 ▸ hc'
    exact ⟨(h n).clients c' hold, rfl, .inl hold⟩
  | remove n c =>
    simp only [next, Option.ite_none_right_eq_some, Option.map_eq_some_iff] at hn
    rcases hn with ⟨hfree, ⟨hub, emptied⟩, hrem, rfl⟩
    refine h.set ((h n).remove hfree hrem)
  | write n c =>
    simp only [next] at hn
    split at hn
    · simp at hn
    · rename_i frame queue hq
      rw [← Option.some.inj hn]
      exact h.set ((h n).write hq)
  | broadcast n post =>
    simp only [next, Option.ite_none_right_eq_some, Option.some.injEq] at hn
    rcases hn with ⟨-, rfl⟩
    have hm : post.message ≠ "" := by simpa [remembered] using hr
    exact h.set ((h n).broadcast hm)
  | deliver n k =>
    simp only [next, Option.ite_none_right_eq_some, Option.map_eq_some_iff] at hn
    rcases hn with ⟨-, env, hk, rfl⟩
    exact h.set ((h n).deliver hk)
  | mirror n j =>
    simp only [next, Option.map_eq_some_iff] at hn
    rcases hn with ⟨env, -, rfl⟩
    exact h.set ((h n).mirror env)
  | mark n i c =>
    simp only [next, Option.map_eq_some_iff] at hn
    rcases hn with ⟨node, hmark, rfl⟩
    refine h.set ((h n).mark (fun fan hi hgiven => ?_) hmark)
    simp only [remembered, hi, hgiven, Bool.not_true, Bool.false_or] at hr
    simpa using hr
  | send n i =>
    simp only [next, Option.map_eq_some_iff] at hn
    rcases hn with ⟨node, hsend, rfl⟩
    exact h.set ((h n).send hsend)
  | unlock n i =>
    simp only [next, Option.map_eq_some_iff] at hn
    rcases hn with ⟨node, hunlock, rfl⟩
    exact h.set ((h n).unlock hunlock)
  | evict n i =>
    simp only [next, Option.map_eq_some_iff] at hn
    rcases hn with ⟨node, hevict, rfl⟩
    exact h.set ((h n).evict hevict)
  | publish n i =>
    simp only [next, Option.bind_eq_bind, Option.bind_eq_some_iff] at hn
    rcases hn with ⟨fan, hi, hn⟩
    split at hn
    · rename_i post hroute hphase
      rw [← Option.some.inj hn]
      have hheld := (h n).held fan (List.mem_of_getElem? hi)
      rcases hheld.ended (by simp [hphase]) with ⟨htodo, hsending⟩
      have hover : InvAll identity (s.set n ((s.nodes n).setFan i { fan with phase := .over })) := by
        refine h.set ((h n).setFan hi rfl ?_ (fun _ => id) (fun _ _ => id) (by simp [htodo]))
        exact { hheld with
          ended := fun _ => ⟨htodo, hsending⟩
          evicted := fun _ _ => hheld.evicted (by simp [hphase]) (by simp [hphase]) }
      exact fun m => (hover m).post (hheld.message post hroute)
    · simp at hn

theorem InvAll.exactlyOnce (h : InvAll identity s) : ExactlyOnce s := by
  constructor
  · rintro n p hp c hc ⟨hover, hread⟩
    have hacc : p.1.id ∈ (s.nodes n).accepted c := by
      rcases (h n).due p hp c hc with hacc | ⟨fan, hfan, hid, howes⟩ | ⟨k, hk⟩
      · exact hacc
      · -- a fan-out that is over owes nothing
        have hphase := hover fan hfan hid
        have hheld := (h n).held fan hfan
        rcases hheld.ended (by simp [hphase]) with ⟨htodo, hsending⟩
        have hslow := hheld.evicted (by simp [hphase]) (by simp [hphase])
        rcases howes with (hsend | hmem) | hmem
        · simp [hsending] at hsend
        · simp [hslow] at hmem
        · simp [htodo] at hmem
      · refine absurd ?_ (hread k _ hk)
        unfold Post.envelope
        split <;> rfl
    exact List.count_eq_one_of_mem ((h n).once c) hacc
  · exact fun n c id => List.nodup_iff_count_le_one.1 ((h n).once c) id

/-- While no client is marked again for an event that it has been sent and has forgotten, events
are delivered exactly once. -/
theorem delivered_once : ∀ s, (machine shards mirrored identity).ReachableUnder
    (fun s a => remembered s a = true) s → ExactlyOnce s := by
  have hinv : ∀ s, (machine shards mirrored identity).ReachableUnder
      (fun s a => remembered s a = true) s → InvAll identity s := by
    refine Machine.invariant_under ?_ fun s a s' _ h hr hn => inv_step h hr hn
    rintro s rfl n
    exact inv_empty
  exact fun s hs => (hinv s hs).exactlyOnce

/-- A client of the node of the broadcast and one of another node; the loopback comes to both. -/
theorem delivered_once_looped :
    ∃ s, (((s.nodes 0).accepted 1 = ["e"] ∧ (s.nodes 1).accepted 2 = ["e"]) ∧
      (s.nodes 0).awaiting.length = 1) ∧ ExactlyOnce s := by
  have hrun := Machine.reachableUnder_of_run (machine 8 true fun _ => ⟨"u", "w"⟩) remembered
    (s := {}) rfl
    [.register 0 1, .subscribe 0 1 ⟨scopeWorkspace, "w"⟩, .register 1 2,
      .subscribe 1 2 ⟨scopeWorkspace, "w"⟩, .broadcast 0 ⟨"e", .toWorkspace "w", "m"⟩, .mark 0 0 1,
      .send 0 0, .unlock 0 0, .evict 0 0, .publish 0 0,
      .deliver 1 (shardFor 8 scopeWorkspace "w"), .mark 1 0 2, .send 1 0, .unlock 1 0, .evict 1 0,
      .deliver 0 (shardFor 8 scopeWorkspace "w"), .mark 0 1 1, .unlock 0 1, .evict 0 1]
    (fun s => ((s.nodes 0).accepted 1 = ["e"] ∧ (s.nodes 1).accepted 2 = ["e"]) ∧
      (s.nodes 0).awaiting.length = 1) (by decide +kernel)
  rcases hrun with ⟨s, hs, hp⟩
  exact ⟨s, of_decide_eq_true hp, delivered_once s hs⟩

end Steps

/-! ## A copy that comes late -/

section Late

/-- Ids of different lengths. -/
def lateID (n : Nat) : String := String.ofList (List.replicate (n + 1) 'e')

theorem lateID_inj {m n : Nat} (h : lateID m = lateID n) : m = n := by
  have hlen := congrArg String.length h
  simpa [lateID] using hlen

theorem lateID_ne (n : Nat) : lateID n ≠ "" := by
  intro h
  have hlen := congrArg String.length h
  simp [lateID] at hlen

def lateIdentity : ClientId → Identity := fun _ => ⟨"u", "w"⟩

def latePost (n : Nat) : Post := ⟨lateID n, .toWorkspace "w", "\x7b\x7d"⟩

/-- The shard of the workspace, of eight. -/
def lateShard : Nat := shardFor 8 scopeWorkspace "w"

/-- What a client keeps of the ids up to `n`. -/
def window (n : Nat) : List String :=
  ((List.range (n + 1)).map lateID).drop (n + 1 - dedupCapacity)

structure Flooded (n : Nat) (s : State) : Prop where
  room : (s.nodes 0).hub.rooms.lookup ⟨scopeWorkspace, "w"⟩ = some [1]
  fans : (s.nodes 0).fans.length = n + 1
  routes : ∀ fan ∈ (s.nodes 0).fans, fan.route ≠ .shard lateShard
  closed : ((s.nodes 0).conns 1).closed = false
  queue : ((s.nodes 0).conns 1).queue.length = n + 1
  seen : ((s.nodes 0).conns 1).seen = window n
  accepted : (s.nodes 0).accepted 1 = (List.range (n + 1)).map lateID
  ids : s.ids = ((List.range (n + 1)).map lateID).reverse
  stream : s.streams lateShard = [(latePost 0).envelope]
  read : (s.nodes 0).read lateShard = 0
  awaiting : (s.nodes 0).awaiting = [(latePost 0, [1])]

theorem window_succ {n : Nat} :
    window (n + 1) = if dedupCapacity < (window n ++ [lateID (n + 1)]).length then
      (window n ++ [lateID (n + 1)]).tail else window n ++ [lateID (n + 1)] := by
  have happ : window n ++ [lateID (n + 1)] =
      ((List.range (n + 2)).map lateID).drop (n + 1 - dedupCapacity) := by
    rw [List.range_succ (n := n + 1), List.map_append, List.drop_append_of_le_length (by simp)]
    rfl
  have hlen : (window n ++ [lateID (n + 1)]).length = n + 2 - (n + 1 - dedupCapacity) := by
    rw [happ]
    simp
  rw [hlen, happ, List.tail_drop, window]
  split
  · have hdrop : n + 1 - dedupCapacity + 1 = n + 1 + 1 - dedupCapacity := by omega
    rw [hdrop]
  · have hdrop : n + 1 + 1 - dedupCapacity = n + 1 - dedupCapacity := by omega
    rw [hdrop]

theorem mem_window {n m : Nat} (h : lateID m ∈ window n) :
    n + 1 - dedupCapacity ≤ m ∧ m ≤ n := by
  rcases List.mem_drop_iff_getElem.1 h with ⟨i, hi, heq⟩
  rw [List.getElem_map, List.getElem_range] at heq
  rw [List.length_map, List.length_range] at hi
  have hm := lateID_inj heq
  omega

theorem State.set_nodes (s : State) (n : NodeId) (node : Node) :
    (s.set n node).nodes n = node := by
  show Function.update s.nodes n node n = node
  rw [Function.update_self]

/-- The node after its last fan-out has sent to the client. -/
def Node.told (node : Node) (fans : List Fan) (fan : Fan) (conn : Conn) : Node :=
  { node with
    fans := fans ++ [{ fan with todo := [], sending := none }]
    conns := Function.update node.conns 1
      { conn with queue := conn.queue ++ [.event fan.id fan.payload] }
    accepted := Function.update node.accepted 1 (node.accepted 1 ++ [fan.id]) }

theorem told_conns (node : Node) (fans : List Fan) (fan : Fan) (conn : Conn) :
    (node.told fans fan conn).conns 1 =
      { conn with queue := conn.queue ++ [.event fan.id fan.payload] } := by
  show Function.update node.conns 1 _ 1 = _
  exact Function.update_self 1 _ node.conns

theorem told_accepted (node : Node) (fans : List Fan) (fan : Fan) (conn : Conn) :
    (node.told fans fan conn).accepted 1 = node.accepted 1 ++ [fan.id] := by
  show Function.update node.accepted 1 _ 1 = _
  exact Function.update_self 1 _ node.accepted

theorem reachable_told {s : State} {fan : Fan} {fans : List Fan} {conn : Conn}
    (hs : (machine 8 false lateIdentity).Reachable s) (hfans : (s.nodes 0).fans = fans ++ [fan])
    (hphase : fan.phase = .fanning) (hsending : fan.sending = none) (htodo : fan.todo = [1])
    (hmark : ((s.nodes 0).conns 1).markSeen fan.id = some conn) (hopen : conn.closed = false)
    (hroom : conn.queue.length < sendCapacity) :
    (machine 8 false lateIdentity).Reachable (s.set 0 ((s.nodes 0).told fans fan conn)) := by
  have hget : ∀ f : Fan, (fans ++ [f])[fans.length]? = some f := by simp
  let node := { s.nodes 0 with
    fans := fans ++ [{ fan with todo := [], sending := some 1 }]
    conns := Function.update (s.nodes 0).conns 1 conn }
  have hmarked : (s.nodes 0).mark fans.length 1 = some node := by
    simp only [Node.mark, hfans, hget, Option.bind_eq_bind, Option.bind_some]
    simp [hphase, hsending, htodo, hmark, node, Node.setFan, hfans]
  have hsent : node.send fans.length = some ((s.nodes 0).told fans fan conn) := by
    simp only [Node.send, node, hget, Option.bind_eq_bind, Option.bind_some]
    simp [Conn.trySend, hopen, Nat.not_le.2 hroom, Node.setFan, Node.told]
  have h₁ : (machine 8 false lateIdentity).next s (.mark 0 fans.length 1) = some (s.set 0 node) :=
    congrArg (Option.map (s.set 0)) hmarked
  have h₂ : (machine 8 false lateIdentity).next (s.set 0 node) (.send 0 fans.length) =
      some ((s.set 0 node).set 0 ((s.nodes 0).told fans fan conn)) := by
    have hnode : (s.set 0 node).nodes 0 = node := s.set_nodes 0 node
    show (((s.set 0 node).nodes 0).send fans.length).map _ = _
    rw [hnode, hsent]
    rfl
  have hreach := (hs.step _ h₁).step _ h₂
  rwa [State.set, State.set, Function.update_idem] at hreach

/-- One event more goes to the client. -/
theorem Flooded.next {n : Nat} {s : State} (h : Flooded n s) (hn : n + 1 < sendCapacity)
    (hs : (machine 8 false lateIdentity).Reachable s) :
    ∃ s', (machine 8 false lateIdentity).Reachable s' ∧ Flooded (n + 1) s' := by
  have hnew : lateID (n + 1) ∉ s.ids := by
    rw [h.ids, List.mem_reverse]
    intro hin
    rcases List.mem_map.1 hin with ⟨j, hj, heq⟩
    have hjn := lateID_inj heq
    rw [List.mem_range] at hj
    omega
  have htodo : recipients lateIdentity (s.nodes 0).hub (latePost (n + 1)).broadcast.target =
      [1] := by
    have hfull : ScopeKey.incomplete ⟨scopeWorkspace, "w"⟩ = false := by decide
    simp [latePost, Broadcast.toWorkspace, Broadcast.target, recipients, hfull, h.room]
  have hfresh : lateID (n + 1) ∉ window n := fun hin =>
    Nat.not_succ_le_self n (mem_window hin).2
  have hmark : ((s.nodes 0).conns 1).markSeen (lateID (n + 1)) =
      some { (s.nodes 0).conns 1 with seen := window (n + 1) } := by
    rw [Conn.markSeen, if_neg (lateID_ne _), h.seen, if_neg hfresh, window_succ]
  let fan : Fan := ⟨lateID (n + 1), "\x7b\x7d", .own (latePost (n + 1)), [1], none, [], .fanning⟩
  let s₁ : State := { s.set 0 { s.nodes 0 with fans := (s.nodes 0).fans ++ [fan] } with
    ids := lateID (n + 1) :: s.ids }
  have h₁ : (machine 8 false lateIdentity).next s (.broadcast 0 (latePost (n + 1))) = some s₁ := by
    have hfan : (s.nodes 0).fanOut lateIdentity (latePost (n + 1)).id (latePost (n + 1)).message
        (.own (latePost (n + 1))) (latePost (n + 1)).broadcast.target =
        { s.nodes 0 with fans := (s.nodes 0).fans ++ [fan] } := by
      rw [Node.fanOut, htodo]
      rfl
    refine (if_pos ⟨lateID_ne _, hnew⟩).trans ?_
    rw [hfan]
    rfl
  have hnode : s₁.nodes 0 = { s.nodes 0 with fans := (s.nodes 0).fans ++ [fan] } :=
    s.set_nodes 0 _
  have hmark' : ((s₁.nodes 0).conns 1).markSeen fan.id =
      some { (s.nodes 0).conns 1 with seen := window (n + 1) } := by
    rw [hnode]
    exact hmark
  have hroom : ((s.nodes 0).conns 1).queue.length < sendCapacity := by
    rw [h.queue]
    exact hn
  have hreach := reachable_told (hs.step _ h₁) (congrArg Node.fans hnode) rfl rfl rfl hmark'
    h.closed hroom
  refine ⟨_, hreach, ?_⟩
  have hnode' : ∀ node, (s₁.set 0 node).nodes 0 = node := fun node => s₁.set_nodes 0 node
  constructor
  · rw [hnode', hnode]
    exact h.room
  · rw [hnode']
    simp [Node.told, h.fans]
  · rw [hnode']
    intro f hf
    rcases List.mem_append.1 hf with hold | hlast
    · exact h.routes f hold
    · rw [List.mem_singleton.1 hlast]
      simp [fan]
  · rw [hnode', told_conns]
    exact h.closed
  · rw [hnode', told_conns, List.length_append]
    exact congrArg (· + 1) h.queue
  · rw [hnode', told_conns]
  · rw [hnode', told_accepted, hnode, List.range_succ (n := n + 1),
      List.map_append]
    exact congrArg (· ++ _) h.accepted
  · rw [List.range_succ (n := n + 1), List.map_append, List.reverse_append]
    exact congrArg (lateID (n + 1) :: ·) h.ids
  · exact h.stream
  · rw [hnode', hnode]
    exact h.read
  · rw [hnode', hnode]
    exact h.awaiting

/-- Event 0 is published, and `n` others are fanned out to the client. -/
theorem flooded (n : Nat) (hn : n < sendCapacity) :
    ∃ s, (machine 8 false lateIdentity).Reachable s ∧ Flooded n s := by
  induction n with
  | zero =>
    let p (s : State) : Bool :=
      let node := s.nodes 0
      let conn := node.conns 1
      node.hub.rooms.lookup ⟨scopeWorkspace, "w"⟩ = some [1] ∧ node.fans.length = 1 ∧
        (∀ fan ∈ node.fans, fan.route ≠ .shard lateShard) ∧ conn.closed = false ∧
        conn.queue.length = 1 ∧ conn.seen = window 0 ∧ node.accepted 1 = [lateID 0] ∧
        s.ids = [lateID 0] ∧ s.streams lateShard = [(latePost 0).envelope] ∧
        node.read lateShard = 0 ∧ node.awaiting = [(latePost 0, [1])]
    rcases Machine.reachable_of_run (machine 8 false lateIdentity) (s := {}) rfl
      [.register 0 1, .subscribe 0 1 ⟨scopeWorkspace, "w"⟩, .broadcast 0 (latePost 0), .mark 0 0 1,
        .send 0 0, .unlock 0 0, .evict 0 0, .publish 0 0] p (by decide +kernel) with
      ⟨s, -, hs, hp⟩
    rcases of_decide_eq_true hp with
      ⟨hroom, hfans, hroutes, hclosed, hqueue, hseen, hacc, hids, hstream, hread,
        hawait⟩
    exact ⟨s, hs, hroom, hfans, hroutes, hclosed, hqueue, hseen, hacc, hids, hstream, hread,
      hawait⟩
  | succ n ih =>
    rcases ih (by omega) with ⟨s, hs, h⟩
    exact h.next hn hs

/-- After 128 others the loopback of an event goes into the channel once more. -/
theorem loopback_repeats : ∃ s, (machine 8 false lateIdentity).Reachable s ∧
    (∃ p ∈ (s.nodes 0).awaiting, 1 ∈ p.2 ∧ 1 < ((s.nodes 0).accepted 1).count p.1.id) ∧
    ¬ ExactlyOnce s := by
  rcases flooded 128 (by decide) with ⟨s, hs, h⟩
  let fan : Fan := ⟨lateID 0, "\x7b\x7d", .shard lateShard, [1], none, [], .fanning⟩
  have hidle : (s.nodes 0).idle lateShard = true :=
    List.all_eq_true.2 fun f hf => by simp [h.routes f hf]
  have htodo : recipients lateIdentity (s.nodes 0).hub (.scope ⟨scopeWorkspace, "w"⟩) = [1] := by
    have hfull : ScopeKey.incomplete ⟨scopeWorkspace, "w"⟩ = false := by decide
    simp [recipients, hfull, h.room]
  have hdeliver : deliverMessage (latePost 0).envelope =
      some (.scope ⟨scopeWorkspace, "w"⟩) := by decide
  let s₁ := s.set 0 { s.nodes 0 with
    read := Function.update (s.nodes 0).read lateShard 1
    fans := (s.nodes 0).fans ++ [fan] }
  have h₁ : (machine 8 false lateIdentity).next s (.deliver 0 lateShard) = some s₁ := by
    have hnext : (s.streams lateShard)[(s.nodes 0).read lateShard]? =
        some (latePost 0).envelope := by
      rw [h.stream, h.read]
      rfl
    refine (if_pos hidle).trans ?_
    rw [hnext, Option.map_some, hdeliver, Node.relayed, Node.fanOut, htodo, h.read]
    rfl
  have hnode : s₁.nodes 0 = { s.nodes 0 with
      read := Function.update (s.nodes 0).read lateShard 1
      fans := (s.nodes 0).fans ++ [fan] } := s.set_nodes 0 _
  cases hmark : ((s.nodes 0).conns 1).markSeen fan.id with
  | none =>
    -- the client does not know the event any more
    have hin := markSeen_none hmark
    rw [h.seen] at hin
    exact absurd (mem_window hin).1 (by decide)
  | some conn =>
    have hkept := markSeen_kept hmark
    have hroom : conn.queue.length < sendCapacity := by
      rw [hkept.2, h.queue]
      decide
    have hmark' : ((s₁.nodes 0).conns 1).markSeen fan.id = some conn := by
      rw [hnode]
      exact hmark
    have hreach := reachable_told (hs.step _ h₁) (congrArg Node.fans hnode) rfl rfl rfl hmark'
      (hkept.1.trans h.closed) hroom
    have hacc : (s₁.nodes 0).accepted 1 = (List.range 129).map lateID := by
      rw [hnode]
      exact h.accepted
    have hfirst : lateID 0 ∈ (List.range 129).map lateID :=
      List.mem_map_of_mem (List.mem_range.2 (by decide))
    have htwice : 1 < (((s₁.nodes 0).told (s.nodes 0).fans fan conn).accepted 1).count
        (lateID 0) := by
      rw [told_accepted, hacc, List.count_append, List.count_singleton_self]
      exact Nat.lt_add_of_pos_left (List.count_pos_iff.2 hfirst)
    refine ⟨_, hreach, ⟨(latePost 0, [1]), ?_, List.mem_singleton.2 rfl, ?_⟩, fun honce => ?_⟩
    · rw [s₁.set_nodes, hnode]
      have hawait : (latePost 0, [1]) ∈ (s.nodes 0).awaiting := by
        rw [h.awaiting]
        exact List.mem_singleton.2 rfl
      exact hawait
    · rw [s₁.set_nodes]
      exact htwice
    · have hcount := honce.atMostOnce 0 1 (lateID 0)
      rw [s₁.set_nodes] at hcount
      omega

end Late

end Orynx.Realtime.DualWrite
