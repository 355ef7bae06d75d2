import Orynx.Lib.Deferred
import Orynx.Lib.Machine
import Orynx.Realtime.Hub

/-! # Consumers of the scopes

`RedisRelay` of `server/internal/realtime/redis_relay.go` reads the stream of a scope as long as
the hub has a subscriber to it. The hub finds out under its lock that a room is opened or
emptied, and calls the relay when it has let go of the lock. A goroutine takes no step in the hub
while one of its calls is outstanding. Reading, and what is kept in Redis, is left out.

* `Heard`: when no call is outstanding, the scopes with subscribers have one consumer each and
  the others none;
* `inTurn`: no call for a scope overtakes an earlier one that asks for the contrary;
* `scopes_heard`: then it is so in every run;
* `overtaken_deaf`: a stop that comes late leaves a subscriber without a consumer.
-/

namespace Orynx.Realtime.Consumers

open Lib

/-! ## The machine -/

/-- `onFirstSubscriber` and `onLastSubscriber`, as the relay sets them. -/
inductive CallKind where
  | startConsumer
  | stopConsumer
deriving DecidableEq, Repr

/-- A call that a goroutine has still to make. -/
structure Call where
  goroutine : Nat
  kind : CallKind
  scope : ScopeKey
deriving DecidableEq, Repr

/-- `scopeConsumer`, with the scope that it reads. -/
structure Consumer where
  id : Nat
  scope : ScopeKey
deriving DecidableEq, Repr

/-- How far `Start` has come: the callbacks are set, the scopes there are have been listed. -/
inductive StartPhase where
  | unstarted
  | wired
  | started
deriving DecidableEq, Repr

/-- How far `Stop` has come. -/
inductive StopPhase where
  | running
  | unwired
  | stopping
deriving DecidableEq, Repr

/-- `wired` tells whether the callbacks are set, `live` are the consumers that were started and not
cancelled, and `made` tells how many there were. -/
structure State where
  hub : Hub := {}
  wired : Bool := false
  start : StartPhase := .unstarted
  stop : StopPhase := .running
  calls : List Call := []
  consumers : AList fun _ : ScopeKey => Consumer := ∅
  live : List Consumer := []
  made : Nat := 0

/-- The sections of the goroutines under the hub's lock, the steps of `Start` and `Stop`, and the
calls. -/
inductive Act where
  | register (g : Nat) (c : ClientId)
  | subscribe (g : Nat) (c : ClientId) (key : ScopeKey)
  | unsubscribe (g : Nat) (c : ClientId) (key : ScopeKey)
  | removeClient (g : Nat) (c : ClientId)
  | evictSlow (g : Nat) (slow : List ClientId)
  | wire
  | localScopes (g : Nat)
  | call (i : Nat)
  | unwire
  | stop
deriving DecidableEq, Repr

namespace State

def idle (s : State) (g : Nat) : Bool := s.calls.all fun call => call.goroutine != g

/-- Let go of the lock, with the rooms that were opened or emptied. -/
def release (s : State) (hub : Hub) (g : Nat) (kind : CallKind) (scopes : List ScopeKey) : State :=
  { s with
    hub := hub
    calls := if s.wired then s.calls ++ scopes.map fun scope => ⟨g, kind, scope⟩ else s.calls }

def startConsumer (s : State) (scope : ScopeKey) : State :=
  if s.stop = .stopping then s
  else
    match s.consumers.lookup scope with
    | some _ => s
    | none =>
      { s with
        consumers := s.consumers.insert scope ⟨s.made, scope⟩
        live := ⟨s.made, scope⟩ :: s.live
        made := s.made + 1 }

def stopConsumer (s : State) (scope : ScopeKey) : State :=
  match s.consumers.lookup scope with
  | none => s
  | some consumer =>
    { s with
      consumers := s.consumers.erase scope
      live := s.live.filter (· != consumer) }

end State

def next (s : State) : Act → Option State
  | .register g c => if s.idle g then some (s.release (s.hub.register c) g .startConsumer []) else none
  | .subscribe g c key =>
    if s.idle g then
      match s.hub.subscribe c key with
      | none => some s
      | some (hub, first) => some (s.release hub g .startConsumer (if first then [key] else []))
    else none
  | .unsubscribe g c key =>
    if s.idle g then
      match s.hub.unsubscribe c key with
      | none => some s
      | some (hub, emptied) => some (s.release hub g .stopConsumer (if emptied then [key] else []))
    else none
  | .removeClient g c =>
    if s.idle g then
      match s.hub.removeClient c with
      | none => some s
      | some (hub, emptied) => some (s.release hub g .stopConsumer emptied)
    else none
  | .evictSlow g slow =>
    if s.idle g then
      let evicted := s.hub.evictSlow slow
      some (s.release evicted.1 g .stopConsumer evicted.2.2)
    else none
  | .wire => if s.start = .unstarted then some { s with wired := true, start := .wired } else none
  | .localScopes g =>
    -- `Start` goes on to its own calls
    if s.idle g ∧ s.start = .wired then
      some { s with
        start := .started
        calls := s.calls ++ s.hub.localScopes.map fun scope => ⟨g, .startConsumer, scope⟩ }
    else none
  | .call i =>
    (s.calls[i]?).map fun call =>
      let s := { s with calls := s.calls.eraseIdx i }
      match call.kind with
      | .startConsumer => s.startConsumer call.scope
      | .stopConsumer => s.stopConsumer call.scope
  | .unwire => if s.stop = .running then some { s with wired := false, stop := .unwired } else none
  | .stop => if s.stop = .unwired then some { s with stop := .stopping, live := [] } else none

/-- `Start` is not called yet. -/
def machine : Machine State Act where
  Init s := s.hub.Consistent ∧ s.wired = false ∧ s.start = .unstarted ∧ s.stop = .running ∧ s.calls = [] ∧
    s.consumers = ∅ ∧ s.live = []
  next := next

/-! ## The property -/

/-- The consumers that read a scope. -/
def State.readers (s : State) (scope : ScopeKey) : Nat := s.live.countP fun c => c.scope == scope

/-- The scope has a local subscriber. -/
def State.Subscribed (s : State) (scope : ScopeKey) : Prop :=
  ∃ c ∈ s.hub.clients, scope ∈ s.hub.subscriptions c

def Heard (s : State) : Prop :=
  s.start = .started → s.stop = .running → s.calls = [] → ∀ scope,
    (s.Subscribed scope → s.readers scope = 1) ∧ (¬s.Subscribed scope → s.readers scope = 0)

/-- No call is made before an earlier one for its scope that asks for the contrary. -/
def inTurn (s : State) : Act → Bool
  | .call i =>
    (s.calls[i]?).all fun call =>
      (s.calls.take i).all fun earlier => earlier.scope != call.scope || earlier.kind == call.kind
  | _ => true

/-! ## What a section tells -/

/-- The scopes that are told have the rooms that the kind of call asks for, and the others have
those they had. -/
structure Tells (h h' : Hub) (kind : CallKind) (scopes : List ScopeKey) : Prop where
  told : ∀ k ∈ scopes, h'.hasLocalSubscribers k = (kind == .startConsumer)
  quiet : ∀ k, k ∉ scopes → h'.hasLocalSubscribers k = h.hasLocalSubscribers k

section Tells

variable {h h' : Hub} {c : ClientId} {key : ScopeKey} {emptied : List ScopeKey}

theorem tells_subscribe {first : Bool} (hs : h.subscribe c key = some (h', first)) :
    Tells h h' .startConsumer (if first then [key] else []) := by
  rcases Hub.subscribe_spec hs with ⟨-, -, -, -, hrooms, hfirst⟩
  have hhere : h'.hasLocalSubscribers key = true := by
    rw [Hub.hasLocalSubscribers, hrooms, AList.lookup_insert]
    rfl
  constructor
  · intro k hk
    split at hk
    · rw [List.mem_singleton.1 hk, hhere]
      rfl
    · simp at hk
  · intro k hk
    by_cases hkey : k = key
    · subst hkey
      have hold : first = false := by
        cases first with
        | true => simp at hk
        | false => rfl
      rw [hold] at hfirst
      rw [hhere, Hub.hasLocalSubscribers]
      cases hroom : h.rooms.lookup k with
      | none => simp [hroom] at hfirst
      | some room => rfl
    · rw [Hub.hasLocalSubscribers, hrooms, AList.lookup_insert_ne hkey]
      rfl

theorem tells_unsubscribe {last : Bool} (hs : h.unsubscribe c key = some (h', last)) :
    Tells h h' .stopConsumer (if last then [key] else []) := by
  rcases Hub.unsubscribe_spec hs with ⟨-, -, -, hrooms, hlast⟩
  have hhere : h'.hasLocalSubscribers key = (Hub.without c (h.rooms.lookup key)).isSome := by
    rw [Hub.hasLocalSubscribers, hrooms, if_pos rfl]
  constructor
  · intro k hk
    split at hk
    · rename_i hempty
      rw [List.mem_singleton.1 hk, hhere]
      rw [hempty, eq_comm, Bool.and_eq_true, Option.isNone_iff_eq_none] at hlast
      rw [hlast.2]
      rfl
    · simp at hk
  · intro k hk
    by_cases hkey : k = key
    · subst hkey
      have hold : last = false := by
        cases last with
        | true => simp at hk
        | false => rfl
      rw [hold, Hub.hasLocalSubscribers] at hlast
      rw [hhere, Hub.hasLocalSubscribers]
      cases hroom : h.rooms.lookup k with
      | none => rfl
      | some room =>
        rw [hroom] at hlast
        cases hleft : Hub.without c (some room) with
        | none => simp [hleft] at hlast
        | some _ => rfl
    · rw [Hub.hasLocalSubscribers, hrooms, if_neg hkey]
      rfl

/-- Rooms are emptied and none is opened. -/
theorem tells_of_emptied
    (hemptied : ∀ k, k ∈ emptied ↔
      h.hasLocalSubscribers k = true ∧ h'.hasLocalSubscribers k = false)
    (hopens : ∀ k, h'.hasLocalSubscribers k = true → h.hasLocalSubscribers k = true) :
    Tells h h' .stopConsumer emptied := by
  constructor
  · exact fun k hk => ((hemptied k).1 hk).2
  · intro k hk
    cases hroom : h.hasLocalSubscribers k with
    | true =>
      by_contra hgone
      exact hk ((hemptied k).2 ⟨hroom, by simpa using hgone⟩)
    | false =>
      by_contra hnew
      rw [hopens k (by simpa using hnew)] at hroom
      simp at hroom

theorem tells_removeClient (hr : h.removeClient c = some (h', emptied)) :
    Tells h h' .stopConsumer emptied := by
  unfold Hub.removeClient at hr
  split at hr
  · simp at hr
  · have hdrop : h.drop c = (h', emptied) := Option.some.inj hr
    obtain ⟨rfl, rfl⟩ : (h.drop c).1 = h' ∧ (h.drop c).2 = emptied :=
      ⟨congrArg Prod.fst hdrop, congrArg Prod.snd hdrop⟩
    exact tells_of_emptied (Hub.mem_drop_emptied h c) (Hub.drop_opens h c)

theorem tells_evictSlow (h : Hub) (slow : List ClientId) :
    Tells h (h.evictSlow slow).1 .stopConsumer (h.evictSlow slow).2.2 :=
  tells_of_emptied (Hub.mem_evictSlow_emptied h slow) (Hub.evictSlow_opens h slow)

end Tells

/-! ## The invariant -/

/-- Whether a scope will have a consumer when the outstanding calls are made. -/
def State.settled (s : State) (scope : ScopeKey) : Bool :=
  Deferred.settled Call.scope (fun call => call.kind == .startConsumer)
    (fun k => (s.consumers.lookup k).isSome) s.calls scope

/-- The consumers that are registered are those that are live. -/
structure Registry (s : State) : Prop where
  scope : ∀ k c, s.consumers.lookup k = some c → c.scope = k
  live : ∀ c, c ∈ s.live ↔ s.consumers.lookup c.scope = some c
  nodup : s.live.Nodup

/-- Before `Stop`. -/
structure Running (s : State) : Prop where
  wired : s.wired = true ↔ s.start ≠ .unstarted
  registry : Registry s
  unstarted : s.start = .unstarted → ∀ k, s.settled k = false
  opened : ∀ k, s.settled k = true → s.hub.hasLocalSubscribers k = true
  kept : s.start = .started → ∀ k, s.hub.hasLocalSubscribers k = true → s.settled k = true

structure Inv (s : State) : Prop where
  consistent : s.hub.Consistent
  running : s.stop = .running → Running s

section Steps

variable {s s' : State} {g : Nat} {kind : CallKind} {scopes : List ScopeKey} {hub : Hub}

theorem readers_eq (h : Registry s) (k : ScopeKey) :
    s.readers k = if (s.consumers.lookup k).isSome then 1 else 0 := by
  cases hlook : s.consumers.lookup k with
  | none =>
    rw [Option.isSome_none, if_neg (by simp), State.readers, List.countP_eq_zero]
    intro c hc hk
    have hmem := (h.live c).1 hc
    rw [show c.scope = k by simpa using hk, hlook] at hmem
    simp at hmem
  | some c =>
    have hscope := h.scope k c hlook
    have hmem : c ∈ s.live := (h.live c).2 (by rw [hscope, hlook])
    -- whoever reads the scope is the one that is registered for it
    have hone : ∀ c' ∈ s.live, (c'.scope == k) = (c' == c) := by
      intro c' hc'
      have hc'' := (h.live c').1 hc'
      by_cases hk : c'.scope = k
      · rw [hk, hlook, Option.some.injEq] at hc''
        simp [← hc'', hscope]
      · have hne : c' ≠ c := fun heq => hk (by rw [heq, hscope])
        simp [hk, hne]
    rw [Option.isSome_some, if_pos rfl, State.readers,
      List.countP_congr fun c' hc' => by rw [hone c' hc']]
    exact List.count_eq_one_of_mem h.nodup hmem

theorem Inv.heard (h : Inv s) : Heard s := by
  intro hstart hstop hcalls k
  have hrun := h.running hstop
  have hsettled : s.settled k = (s.consumers.lookup k).isSome := by
    rw [State.settled, hcalls]
    rfl
  have hiff : s.Subscribed k ↔ s.hub.hasLocalSubscribers k = true :=
    h.consistent.hasLocalSubscribers_iff.symm
  rw [readers_eq hrun.registry, ← hsettled, hiff]
  constructor
  · intro hroom
    rw [hrun.kept hstart k hroom, if_pos rfl]
  · intro hroom
    rw [if_neg fun hs => hroom (hrun.opened k hs)]

theorem settled_release (s : State) (hub : Hub) (g : Nat) (kind : CallKind)
    (scopes : List ScopeKey) (k : ScopeKey) (hwired : s.wired = true) :
    (k ∈ scopes → (s.release hub g kind scopes).settled k = (kind == .startConsumer)) ∧
      (k ∉ scopes → (s.release hub g kind scopes).settled k = s.settled k) := by
  have happend := @Deferred.settled_append _ _ _ _ Call.scope
    (fun call => call.kind == .startConsumer) (fun k => (s.consumers.lookup k).isSome) s.calls k
    (scopes.map fun scope => (⟨g, kind, scope⟩ : Call)) (kind == .startConsumer) (by simp)
  have hcalls : (s.release hub g kind scopes).settled k =
      Deferred.settled Call.scope (fun call => call.kind == .startConsumer)
        (fun k => (s.consumers.lookup k).isSome)
        (s.calls ++ scopes.map fun scope => ⟨g, kind, scope⟩) k := by
    simp [State.settled, State.release, hwired]
  rw [hcalls]
  constructor
  · intro hk
    exact happend.1 ⟨⟨g, kind, k⟩, List.mem_map.2 ⟨k, hk, rfl⟩, rfl⟩
  · intro hk
    refine happend.2 fun x hx heq => ?_
    rcases List.mem_map.1 hx with ⟨scope, hscope, rfl⟩
    exact hk (heq ▸ hscope)

/-- A section under the lock. -/
theorem Inv.release (h : Inv s) (hc : hub.Consistent) (htells : Tells s.hub hub kind scopes) :
    Inv (s.release hub g kind scopes) := by
  refine ⟨hc, fun hstop => ?_⟩
  have hrun := h.running hstop
  cases hwired : s.wired with
  | false =>
    -- nobody is told, and no consumer is there or to come
    have hstart : s.start = .unstarted := by
      by_contra hne
      rw [hrun.wired.2 hne] at hwired
      simp at hwired
    have hsame : ∀ k, (s.release hub g kind scopes).settled k = s.settled k := by
      intro k
      simp [State.settled, State.release, hwired]
    have hregistry : Registry (s.release hub g kind scopes) :=
      ⟨hrun.registry.scope, hrun.registry.live, hrun.registry.nodup⟩
    refine ⟨hrun.wired, hregistry, fun _ k => ?_, fun k hk => ?_, fun hs => ?_⟩
    · rw [hsame]
      exact hrun.unstarted hstart k
    · rw [hsame, hrun.unstarted hstart k] at hk
      simp at hk
    · exact absurd (hstart.symm.trans hs) (by decide)
  | true =>
    have hsettled := fun k => settled_release s hub g kind scopes k hwired
    have hregistry : Registry (s.release hub g kind scopes) :=
      ⟨hrun.registry.scope, hrun.registry.live, hrun.registry.nodup⟩
    refine ⟨hrun.wired, hregistry, fun hs => ?_, fun k hk => ?_, fun hs k hk => ?_⟩
    · exact absurd hs (hrun.wired.1 hwired)
    · show hub.hasLocalSubscribers k = true
      by_cases hmem : k ∈ scopes
      · rw [(hsettled k).1 hmem] at hk
        rw [htells.told k hmem, hk]
      · rw [(hsettled k).2 hmem] at hk
        rw [htells.quiet k hmem, hrun.opened k hk]
    · have hroom : hub.hasLocalSubscribers k = true := hk
      by_cases hmem : k ∈ scopes
      · rw [(hsettled k).1 hmem, ← htells.told k hmem, hroom]
      · rw [(hsettled k).2 hmem]
        exact hrun.kept hs k ((htells.quiet k hmem).symm.trans hroom)

/-- What a call leaves as it is. -/
structure Calls (s s' : State) : Prop where
  hub : s'.hub = s.hub
  wired : s'.wired = s.wired
  start : s'.start = s.start
  stop : s'.stop = s.stop
  calls : s'.calls = s.calls

theorem startConsumer_calls (s : State) (k : ScopeKey) : Calls s (s.startConsumer k) := by
  unfold State.startConsumer
  split
  · exact ⟨rfl, rfl, rfl, rfl, rfl⟩
  · split
    · exact ⟨rfl, rfl, rfl, rfl, rfl⟩
    · exact ⟨rfl, rfl, rfl, rfl, rfl⟩

theorem stopConsumer_calls (s : State) (k : ScopeKey) : Calls s (s.stopConsumer k) := by
  unfold State.stopConsumer
  split
  · exact ⟨rfl, rfl, rfl, rfl, rfl⟩
  · exact ⟨rfl, rfl, rfl, rfl, rfl⟩

/-- The scope has a consumer afterwards, the others have what they had. -/
theorem startConsumer_spec (h : Registry s) (hstop : s.stop ≠ .stopping) (k : ScopeKey) :
    Registry (s.startConsumer k) ∧
      ∀ k', ((s.startConsumer k).consumers.lookup k').isSome =
        Function.update (fun k => (s.consumers.lookup k).isSome) k true k' := by
  rw [State.startConsumer, if_neg hstop]
  split
  · rename_i c hlook
    refine ⟨h, fun k' => ?_⟩
    by_cases hk : k' = k
    · subst hk
      rw [Function.update_self, hlook]
      rfl
    · rw [Function.update_of_ne hk]
  · rename_i hlook
    have hfresh : (⟨s.made, k⟩ : Consumer) ∉ s.live := by
      intro hmem
      have hmem' := (h.live _).1 hmem
      rw [hlook] at hmem'
      simp at hmem'
    refine ⟨⟨fun k' c hc => ?_, fun c => ?_, List.nodup_cons.2 ⟨hfresh, h.nodup⟩⟩, fun k' => ?_⟩
    · by_cases hk : k' = k
      · rw [hk, AList.lookup_insert] at hc
        rw [hk, ← Option.some.inj hc]
      · rw [AList.lookup_insert_ne hk] at hc
        exact h.scope k' c hc
    · rw [List.mem_cons]
      by_cases hk : c.scope = k
      · rw [hk, AList.lookup_insert, Option.some.injEq]
        constructor
        · rintro (rfl | hc)
          · rfl
          · have hc' := (h.live c).1 hc
            rw [hk, hlook] at hc'
            simp at hc'
        · exact fun hc => .inl hc.symm
      · rw [AList.lookup_insert_ne hk, ← h.live]
        constructor
        · rintro (rfl | hc)
          · exact absurd rfl hk
          · exact hc
        · exact .inr
    · by_cases hk : k' = k
      · rw [hk, AList.lookup_insert, Function.update_self]
        rfl
      · rw [AList.lookup_insert_ne hk, Function.update_of_ne hk]

/-- The scope has no consumer afterwards, the others have what they had. -/
theorem stopConsumer_spec (h : Registry s) (k : ScopeKey) :
    Registry (s.stopConsumer k) ∧
      ∀ k', ((s.stopConsumer k).consumers.lookup k').isSome =
        Function.update (fun k => (s.consumers.lookup k).isSome) k false k' := by
  unfold State.stopConsumer
  split
  · rename_i hlook
    refine ⟨h, fun k' => ?_⟩
    by_cases hk : k' = k
    · subst hk
      rw [Function.update_self, hlook]
      rfl
    · rw [Function.update_of_ne hk]
  · rename_i consumer hlook
    refine ⟨⟨fun k' c hc => ?_, fun c => ?_, h.nodup.filter _⟩, fun k' => ?_⟩
    · by_cases hk : k' = k
      · rw [hk, AList.lookup_erase] at hc
        simp at hc
      · rw [AList.lookup_erase_ne hk] at hc
        exact h.scope k' c hc
    · rw [List.mem_filter, h.live]
      by_cases hk : c.scope = k
      · -- the consumer of the scope is cancelled
        rw [hk, hlook, AList.lookup_erase, Option.some.injEq]
        constructor
        · rintro ⟨rfl, hne⟩
          simp at hne
        · intro hnone
          simp at hnone
      · have hne : c ≠ consumer := fun heq => hk (heq ▸ h.scope k consumer hlook)
        rw [AList.lookup_erase_ne hk]
        simp [hne]
    · by_cases hk : k' = k
      · rw [hk, AList.lookup_erase, Function.update_self]
        rfl
      · rw [AList.lookup_erase_ne hk, Function.update_of_ne hk]

/-- A call that is made in its turn. -/
theorem Inv.call (h : Inv s) {i : Nat} {call : Call} (hi : s.calls[i]? = some call)
    (hturn : inTurn s (.call i) = true) (hcalls : Calls { s with calls := s.calls.eraseIdx i } s')
    (hspec : s.stop = .running → Registry s' ∧ ∀ k', (s'.consumers.lookup k').isSome =
      Function.update (fun k => (s.consumers.lookup k).isSome) call.scope
        (call.kind == .startConsumer) k') : Inv s' := by
  refine ⟨by rw [hcalls.hub]; exact h.consistent, fun hstop => ?_⟩
  have hstop' : s.stop = .running := hcalls.stop.symm.trans hstop
  have hrun := h.running hstop'
  rcases hspec hstop' with ⟨hregistry, hcell⟩
  have horder : ∀ y ∈ s.calls.take i, y.scope = call.scope →
      (y.kind == .startConsumer) = (call.kind == .startConsumer) := by
    intro y hy hscope
    simp only [inTurn, hi, Option.all_some, List.all_eq_true, Bool.or_eq_true, bne_iff_ne,
      beq_iff_eq] at hturn
    rcases hturn y hy with hne | hkind
    · exact absurd hscope hne
    · rw [hkind]
  -- what the scopes will come to is as before
  have hsame : ∀ k, s'.settled k = s.settled k := by
    intro k
    rw [State.settled, hcalls.calls, show (fun k => (s'.consumers.lookup k).isSome) = _ from
      funext hcell]
    exact Deferred.settled_eraseIdx hi horder
  refine ⟨?_, hregistry, fun hs k => ?_, fun k hk => ?_, fun hs k hk => ?_⟩
  · rw [hcalls.wired, hcalls.start]
    exact hrun.wired
  · rw [hsame]
    exact hrun.unstarted (hcalls.start.symm.trans hs) k
  · rw [hcalls.hub]
    exact hrun.opened k (hsame k ▸ hk)
  · rw [hsame]
    rw [hcalls.hub] at hk
    exact hrun.kept (hcalls.start.symm.trans hs) k hk

/-- `Start` lists the scopes that have subscribers. -/
theorem Inv.localScopes (h : Inv s) (g : Nat) (hstart : s.start = .wired) :
    Inv { s with
      start := .started
      calls := s.calls ++ s.hub.localScopes.map fun scope => ⟨g, .startConsumer, scope⟩ } := by
  refine ⟨h.consistent, fun hstop => ?_⟩
  have hrun := h.running hstop
  have happend := fun k => @Deferred.settled_append _ _ _ _ Call.scope
    (fun call => call.kind == .startConsumer) (fun k => (s.consumers.lookup k).isSome) s.calls k
    (s.hub.localScopes.map fun scope => (⟨g, .startConsumer, scope⟩ : Call)) true (by simp)
  have hlisted : ∀ k, s.hub.hasLocalSubscribers k = true →
      ∃ x ∈ s.hub.localScopes.map fun scope => (⟨g, .startConsumer, scope⟩ : Call), x.scope = k :=
    fun k hk => ⟨_, List.mem_map.2 ⟨k, Hub.mem_localScopes.2 hk, rfl⟩, rfl⟩
  refine ⟨?_, ⟨hrun.registry.scope, hrun.registry.live, hrun.registry.nodup⟩, fun hs => ?_,
    fun k hk => ?_, fun _ k hk => (happend k).1 (hlisted k hk)⟩
  · have hne : s.start ≠ .unstarted := by rw [hstart]; decide
    simp [hrun.wired.2 hne]
  · exact absurd hs (by simp)
  · show s.hub.hasLocalSubscribers k = true
    by_contra hroom
    have hquiet := (happend k).2 fun x hx heq => by
      rcases List.mem_map.1 hx with ⟨scope, hscope, rfl⟩
      exact hroom (heq ▸ Hub.mem_localScopes.1 hscope)
    exact hroom (hrun.opened k (hquiet.symm.trans hk))

theorem inv_step {a : Act} (h : Inv s) (hturn : inTurn s a = true) (hn : next s a = some s') :
    Inv s' := by
  cases a with
  | register g c =>
    simp only [next, Option.ite_none_right_eq_some, Option.some.injEq] at hn
    rw [← hn.2]
    exact h.release (h.consistent.register c) ⟨by simp, fun _ _ => rfl⟩
  | subscribe g c key =>
    simp only [next, Option.ite_none_right_eq_some] at hn
    rcases hn with ⟨-, hn⟩
    split at hn
    · rw [← Option.some.inj hn]
      exact h
    · rename_i hub first hs
      rw [← Option.some.inj hn]
      exact h.release (h.consistent.subscribe hs) (tells_subscribe hs)
  | unsubscribe g c key =>
    simp only [next, Option.ite_none_right_eq_some] at hn
    rcases hn with ⟨-, hn⟩
    split at hn
    · rw [← Option.some.inj hn]
      exact h
    · rename_i hub last hs
      rw [← Option.some.inj hn]
      exact h.release (h.consistent.unsubscribe hs) (tells_unsubscribe hs)
  | removeClient g c =>
    simp only [next, Option.ite_none_right_eq_some] at hn
    rcases hn with ⟨-, hn⟩
    split at hn
    · rw [← Option.some.inj hn]
      exact h
    · rename_i hub emptied hr
      rw [← Option.some.inj hn]
      exact h.release (h.consistent.removeClient hr) (tells_removeClient hr)
  | evictSlow g slow =>
    simp only [next, Option.ite_none_right_eq_some, Option.some.injEq] at hn
    rw [← hn.2]
    exact h.release (h.consistent.evictSlow slow) (tells_evictSlow s.hub slow)
  | wire =>
    simp only [next, Option.ite_none_right_eq_some, Option.some.injEq] at hn
    rcases hn with ⟨hstart, rfl⟩
    refine ⟨h.consistent, fun hstop => ?_⟩
    have hrun := h.running hstop
    -- no room was opened since the callbacks are set
    exact ⟨by simp, ⟨hrun.registry.scope, hrun.registry.live, hrun.registry.nodup⟩,
      fun hs => absurd hs (by simp), hrun.opened, fun hs => absurd hs (by simp)⟩
  | localScopes g =>
    simp only [next, Option.ite_none_right_eq_some, Option.some.injEq] at hn
    rcases hn with ⟨⟨-, hstart⟩, rfl⟩
    exact h.localScopes g hstart
  | call i =>
    simp only [next, Option.map_eq_some_iff] at hn
    rcases hn with ⟨call, hi, hn⟩
    cases hkind : call.kind with
    | startConsumer =>
      rw [hkind] at hn
      subst hn
      refine h.call hi hturn (startConsumer_calls _ _) fun hstop => ?_
      have hrun := h.running hstop
      rw [hkind]
      exact startConsumer_spec (s := { s with calls := s.calls.eraseIdx i })
        ⟨hrun.registry.scope, hrun.registry.live, hrun.registry.nodup⟩
        (by show s.stop ≠ .stopping; rw [hstop]; decide) call.scope
    | stopConsumer =>
      rw [hkind] at hn
      subst hn
      refine h.call hi hturn (stopConsumer_calls _ _) fun hstop => ?_
      have hrun := h.running hstop
      rw [hkind]
      exact stopConsumer_spec (s := { s with calls := s.calls.eraseIdx i })
        ⟨hrun.registry.scope, hrun.registry.live, hrun.registry.nodup⟩ call.scope
  | unwire =>
    simp only [next, Option.ite_none_right_eq_some, Option.some.injEq] at hn
    rcases hn with ⟨-, rfl⟩
    exact ⟨h.consistent, fun hs => absurd hs (by simp)⟩
  | stop =>
    simp only [next, Option.ite_none_right_eq_some, Option.some.injEq] at hn
    rcases hn with ⟨-, rfl⟩
    exact ⟨h.consistent, fun hs => absurd hs (by simp)⟩

/-- In every run whose calls are made in their turn, no subscribed scope is without its
consumer when no call is outstanding. -/
theorem scopes_heard (s : State)
    (hs : machine.ReachableUnder (fun s a => inTurn s a = true) s) : Heard s := by
  have hinv : ∀ s, machine.ReachableUnder (fun s a => inTurn s a = true) s → Inv s := by
    refine Machine.invariant_under ?_ fun s a s' _ h hturn hn => inv_step h hturn hn
    rintro s ⟨hc, hwired, hstart, -, hcalls, hconsumers, hlive⟩
    have hnone : ∀ k, s.settled k = false := by
      intro k
      rw [State.settled, hcalls, hconsumers]
      rfl
    refine ⟨hc, fun _ => ⟨by simp [hwired, hstart], ?_, fun _ => hnone, fun k hk => ?_, fun hs => ?_⟩⟩
    · exact ⟨by simp [hconsumers], by simp [hlive, hconsumers], by simp [hlive]⟩
    · rw [hnone k] at hk
      simp at hk
    · exact absurd (hstart.symm.trans hs) (by decide)
  exact (hinv s hs).heard

end Steps

/-! ## Two clients and a task -/

theorem init_start : machine.Init {} :=
  ⟨Hub.consistent_empty, rfl, rfl, rfl, rfl, rfl, rfl⟩

def taskScope : ScopeKey := ⟨"task", "7"⟩

/-- Client 1 leaves the task when client 2 joins it: the stop and the start are outstanding. -/
def handover : List Act :=
  [.wire, .localScopes 9, .register 0 1, .register 0 2, .subscribe 1 1 taskScope, .call 0,
    .unsubscribe 1 1 taskScope, .subscribe 2 2 taskScope]

theorem scopes_heard_handover :
    ∃ s, machine.ReachableUnder (fun s a => inTurn s a = true) s ∧ s.readers taskScope = 1 ∧
      Heard s := by
  rcases Machine.reachableUnder_of_run machine inTurn init_start (handover ++ [.call 0, .call 0])
    (fun s => s.readers taskScope == 1) (by decide +kernel) with ⟨s, hs, hp⟩
  exact ⟨s, hs, by simpa using hp, scopes_heard s hs⟩

/-- Client 2 is in the room, all calls are made, and nobody reads the scope. -/
def deaf (s : State) : Bool :=
  s.start == .started && s.stop == .running && s.calls.isEmpty && s.hub.clients.contains 2 &&
    (s.hub.subscriptions 2).contains taskScope && s.readers taskScope == 0

/-- The start finds the consumer that the stop then cancels. -/
theorem overtaken_deaf : ¬∀ s, machine.Reachable s → Heard s := by
  intro hclaim
  rcases Machine.reachable_of_run machine init_start (handover ++ [.call 1, .call 0]) deaf
    (by decide +kernel) with ⟨s, -, hs, hp⟩
  simp only [deaf, Bool.and_eq_true, beq_iff_eq, List.isEmpty_iff, List.contains_eq_mem,
    decide_eq_true_eq] at hp
  rcases hp with ⟨⟨⟨⟨⟨hstart, hstop⟩, hcalls⟩, hclient⟩, hsub⟩, hreaders⟩
  have hone := (hclaim s hs hstart hstop hcalls taskScope).1 ⟨2, hclient, hsub⟩
  rw [hreaders] at hone
  exact absurd hone (by decide)

end Orynx.Realtime.Consumers
