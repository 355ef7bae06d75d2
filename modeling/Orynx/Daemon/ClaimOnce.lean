import Mathlib.Data.List.Nodup
import Orynx.Lib.Parties
import Orynx.Daemon.WsRpc

/-! # A claim is made once

* `ClaimedOnce`: a cycle that asks over HTTP has no request that was or will be written, or one
  that the server has refused; a request that needs `rpc-v1` is written on a connection that has
  negotiated it; every call returns once and leaves no entry, and no channel is sent to after it was
  closed;
* `claim_once`: it is so in every run in which the body of a 2xx answer can be decoded, and no
  context ends under a frame that the writer has begun;
* `undecodable_claimed_twice`: a claim that was answered with a body that cannot be decoded is made
  again over HTTP.
-/

namespace Orynx.Daemon

open Lib

variable {α : Type} {decode : String → Option α}

/-! ## The property -/

/-- The call that takes the step. -/
def Act.caller : Act α → Option Nat
  | .register id | .send id | .receive id | .timeout id | .cancelContext id | .unregister id =>
    some id
  | _ => none

structure ClaimedOnce (decode : String → Option α) (s : State α) : Prop where
  once : ∀ cycle ∈ s.cycles, cycle.http = true → ∀ id, cycle.call = some id →
    (∀ k, (k, id) ∉ s.written) ∨ ∃ resp ∈ s.answers, resp.requestId = id ∧ resp.ok = false
  negotiated : ∀ (k id : Nat) (call : Call α), (k, id) ∈ s.written → s.calls[id]? = some call →
    call.requireRPCV1 = true → k ∈ s.negotiated
  cleared : ∀ (id : Nat) (call : Call α) (r : Result α), s.calls[id]? = some call →
    call.phase = .done r → id ∉ s.client.pending
  delivers : ∀ (id : Nat) (call : Call α), s.calls[id]? = some call → id ∈ s.client.pending →
    call.closed = false
  returnsOnce : ∀ (a : Act α) (s' : State α), next decode s a = some s' →
    ∀ (id : Nat) (call : Call α) (r : Result α), s.calls[id]? = some call →
      call.phase = .done r → ∃ call', s'.calls[id]? = some call' ∧ call'.phase = .done r
  returns : ∀ (id : Nat) (call : Call α), s.calls[id]? = some call → ∃ acts : List (Act α),
    (∀ a ∈ acts, a.caller = some id) ∧ ∃ s', (machine decode).run s acts = some s' ∧
      ∃ call' r, s'.calls[id]? = some call' ∧ call'.phase = .done r

/-! ## The condition -/

/-- The body of a 2xx answer can be decoded. -/
def decodable (decode : String → Option α) (resp : Response) : Bool :=
  !resp.ok || resp.body == "" || (decode resp.body).isSome

/-- A claim that is answered with a 2xx status takes a body that can be decoded, and its context
does not end under a frame that the writer has begun. -/
def safe (decode : String → Option α) (s : State α) : Act α → Bool
  | .receive id => s.calls[id]?.all fun call =>
    !call.requireRPCV1 || call.chan.all (decodable decode)
  | .cancelContext id => s.calls[id]?.all fun call =>
    !call.requireRPCV1 || call.item.all (!·.sent)
  | _ => true

/-! ## What only grows -/

section Grows

variable {s s' : State α} {k id : Nat} {a b : Call α}

/-- What a call keeps through every step. -/
structure Call.Keeps (a b : Call α) : Prop where
  require : b.requireRPCV1 = a.requireRPCV1
  item : ∀ o, a.item = some o → ∃ o', b.item = some o' ∧ (o.sent = true → o'.sent = true)
  done : ∀ r, a.phase = .done r → b.phase = .done r

theorem Call.Keeps.refl (a : Call α) : a.Keeps a := ⟨rfl, fun o h => ⟨o, h, id⟩, fun _ h => h⟩

structure Grows (s s' : State α) : Prop where
  calls : ∀ (id : Nat) (a : Call α), s.calls[id]? = some a →
    ∃ b, s'.calls[id]? = some b ∧ a.Keeps b
  negotiated : s.negotiated ⊆ s'.negotiated
  answers : s.answers ⊆ s'.answers

/-- The calls and the logs are as before. -/
theorem Grows.of_eq (hcalls : s'.calls = s.calls) (hnegotiated : s'.negotiated = s.negotiated)
    (hanswers : s'.answers = s.answers) : Grows s s' where
  calls := fun id a ha => ⟨a, by rw [hcalls, ha], .refl a⟩
  negotiated := hnegotiated ▸ List.Subset.refl _
  answers := hanswers ▸ List.Subset.refl _

/-- One call changes. -/
theorem Grows.setCall (ha : s.calls[id]? = some a) (h : a.Keeps b) : Grows s (s.setCall id b) where
  calls := by
    intro i x hx
    by_cases hi : i = id
    · subst hi
      obtain rfl : a = x := Option.some.inj (ha.symm.trans hx)
      exact ⟨b, List.getElem?_set_self (List.getElem?_eq_some_iff.1 ha).1, h⟩
    · exact ⟨x, by rw [← hx]; exact List.getElem?_set_ne (Ne.symm hi), .refl x⟩
  negotiated := List.Subset.refl _
  answers := List.Subset.refl _

theorem Grows.trans {t : State α} (h : Grows s s') (h' : Grows s' t) : Grows s t where
  calls := by
    intro i x hx
    rcases h.calls i x hx with ⟨y, hy, hxy⟩
    rcases h'.calls i y hy with ⟨z, hz, hyz⟩
    refine ⟨z, hz, hyz.require.trans hxy.require, fun o ho => ?_, fun r hr => ?_⟩
    · rcases hxy.item o ho with ⟨o', ho', hsent⟩
      rcases hyz.item o' ho' with ⟨o'', ho'', hsent'⟩
      exact ⟨o'', ho'', fun hs => hsent' (hsent hs)⟩
    · exact hyz.done r (hxy.done r hr)
  negotiated := List.Subset.trans h.negotiated h'.negotiated
  answers := List.Subset.trans h.answers h'.answers

/-- The frame of the call was queued, on a connection that it may use. -/
def Queued (s : State α) (k id : Nat) : Prop :=
  ∃ call, s.calls[id]? = some call ∧ call.item ≠ none ∧
    (call.requireRPCV1 = true → k ∈ s.negotiated)

theorem Queued.mono (h : Grows s s') (hq : Queued s k id) : Queued s' k id := by
  rcases hq with ⟨a, ha, hitem, hrequire⟩
  rcases h.calls id a ha with ⟨b, hb, hkeeps⟩
  refine ⟨b, hb, fun hnone => ?_, fun hb => h.negotiated (hrequire (hkeeps.require ▸ hb))⟩
  rcases Option.ne_none_iff_exists'.1 hitem with ⟨o, ho⟩
  rcases hkeeps.item o ho with ⟨o', ho', -⟩
  rw [hnone] at ho'
  exact Option.some_ne_none o' ho'.symm

/-- The writer has begun with the frame of the call. -/
def Begun (s : State α) (id : Nat) : Prop :=
  ∃ call o, s.calls[id]? = some call ∧ call.item = some o ∧ o.sent = true

theorem Begun.mono (h : Grows s s') (hb : Begun s id) : Begun s' id := by
  rcases hb with ⟨a, o, ha, ho, hsent⟩
  rcases h.calls id a ha with ⟨b, hb, hkeeps⟩
  rcases hkeeps.item o ho with ⟨o', ho', hsent'⟩
  exact ⟨b, o', hb, ho', hsent' hsent⟩

/-- A cycle has a request that needs `rpc-v1`; it uses HTTP after the request has failed. -/
structure CycleOk (s : State α) (cycle : Cycle α) : Prop where
  claims : ∀ id, cycle.call = some id → ∃ call, s.calls[id]? = some call ∧
    call.requireRPCV1 = true
  fresh : cycle.stage = .begun ∨ cycle.stage = .checking →
    cycle.call = none ∧ cycle.http = false
  calling : ∀ id, cycle.stage = .calling id → cycle.call = some id
  http : cycle.http = true → ∀ id, cycle.call = some id → ∃ call r,
    s.calls[id]? = some call ∧ call.phase = .done r ∧ afterCall r = .http

theorem CycleOk.mono (h : Grows s s') {cycle : Cycle α} (hc : CycleOk s cycle) :
    CycleOk s' cycle where
  claims := by
    intro id hid
    rcases hc.claims id hid with ⟨a, ha, hrequire⟩
    rcases h.calls id a ha with ⟨b, hb, hkeeps⟩
    exact ⟨b, hb, hkeeps.require.trans hrequire⟩
  fresh := hc.fresh
  calling := hc.calling
  http := by
    intro hhttp id hid
    rcases hc.http hhttp id hid with ⟨a, r, ha, hdone, hafter⟩
    rcases h.calls id a ha with ⟨b, hb, hkeeps⟩
    exact ⟨b, r, hb, hkeeps.done r hdone, hafter⟩

end Grows

/-! ## The invariant -/

section Invariant

variable {s s' : State α} {k id : Nat} {a b : Call α}

/-- The call has its entry, or has had it. -/
def Phase.isOpen : Phase α → Bool
  | .registered _ | .waiting | .returned _ => true
  | .started | .done _ => false

def Phase.result : Phase α → Option (Result α)
  | .returned r | .done r => some r
  | _ => none

/-- After this result HTTP may be asked. -/
def Accounted (s : State α) (id : Nat) (a : Call α) (r : Result α) : Prop :=
  a.requireRPCV1 = true → afterCall r = .http → a.item = none ∨
    (∃ o, a.item = some o ∧ o.canceled = true) ∨
    ∃ resp ∈ s.answers, resp.requestId = id ∧ resp.ok = false

structure CallOk (s : State α) (id : Nat) (a : Call α) : Prop where
  early : a.phase = .started ∨ (∃ k, a.phase = .registered k) → a.item = none
  unclosed : a.phase = .started → a.closed = false
  sender : ∀ k, a.phase = .registered k →
    k < s.conns.length ∧ (a.requireRPCV1 = true → k ∈ s.negotiated)
  waiting : a.phase = .waiting → ∃ o, a.item = some o ∧ o.canceled = false
  exclusive : ∀ o, a.item = some o → o.canceled = true → o.sent = false
  answered : ∀ resp, a.chan = some resp → resp.requestId = id ∧ resp ∈ s.answers
  accounted : ∀ r, a.phase.result = some r → Accounted s id a r

theorem CallOk.mono (h : Grows s s') (hconns : s.conns.length ≤ s'.conns.length)
    (hok : CallOk s id a) : CallOk s' id a where
  early := hok.early
  unclosed := hok.unclosed
  sender := fun k hk => ⟨Nat.lt_of_lt_of_le (hok.sender k hk).1 hconns,
    fun hr => h.negotiated ((hok.sender k hk).2 hr)⟩
  waiting := hok.waiting
  exclusive := hok.exclusive
  answered := fun resp hresp => ⟨(hok.answered resp hresp).1, h.answers (hok.answered resp hresp).2⟩
  accounted := by
    intro r hr hrequire hafter
    rcases hok.accounted r hr hrequire hafter with hnone | hcanceled | ⟨resp, hresp, href⟩
    · exact .inl hnone
    · exact .inr (.inl hcanceled)
    · exact .inr (.inr ⟨resp, h.answers hresp, href⟩)

/-- The frames that a connection has taken and not done with. -/
def Conn.frames (conn : Conn) : List Frame :=
  match conn.writer with
  | .pulled frame | .writing frame => frame :: conn.writes
  | _ => conn.writes

structure ConnOk (s : State α) (k : Nat) (conn : Conn) : Prop where
  queued : ∀ id, .request id ∈ conn.frames → Queued s k id
  begun : ∀ id, conn.writer = .writing (.request id) → Begun s id

theorem ConnOk.mono (h : Grows s s') {conn : Conn} (hok : ConnOk s k conn) : ConnOk s' k conn where
  queued := fun id hid => (hok.queued id hid).mono h
  begun := fun id hid => (hok.begun id hid).mono h

/-- The capability is that of the connection that is attached. -/
structure ClientOk (client : Client) (generations negotiated : List Nat) : Prop where
  supported : client.rpcV1Supported = true → ∀ k, client.sendFrame = some k → k ∈ negotiated
  attached : ∀ k, client.sendFrame = some k → generations[k]? = some client.generation
  bounded : ∀ g ∈ generations, g ≤ client.generation
  distinct : generations.Nodup

def State.generations (s : State α) : List Nat := s.conns.map (·.generation)

structure Inv (s : State α) : Prop where
  client : ClientOk s.client s.generations s.negotiated
  pending : ∀ id ∈ s.client.pending, ∃ a, s.calls[id]? = some a ∧ a.phase.isOpen = true ∧
    a.closed = false
  calls : ∀ (id : Nat) (a : Call α), s.calls[id]? = some a → CallOk s id a
  conns : ∀ (k : Nat) (conn : Conn), s.conns[k]? = some conn → ConnOk s k conn
  written : ∀ k id, (k, id) ∈ s.written → Queued s k id ∧ Begun s id
  cycles : ∀ cycle ∈ s.cycles, CycleOk s cycle

theorem Inv.init : Inv ({} : State α) where
  client := ⟨fun h => absurd h Bool.false_ne_true, fun k h => absurd h.symm (Option.some_ne_none k),
    fun _ h => absurd h List.not_mem_nil, List.nodup_nil⟩
  pending := fun _ h => absurd h List.not_mem_nil
  calls := fun id a h => absurd h (by simp)
  conns := fun id a h => absurd h (by simp)
  written := fun k id h => absurd h List.not_mem_nil
  cycles := fun _ h => absurd h List.not_mem_nil

/-! ### What one thing after another does to it -/

theorem Inv.open_of_pending (h : Inv s) (ha : s.calls[id]? = some a)
    (hp : id ∈ s.client.pending) : a.phase.isOpen = true ∧ a.closed = false := by
  rcases h.pending id hp with ⟨x, hx, hopen⟩
  obtain rfl : a = x := Option.some.inj (ha.symm.trans hx)
  exact hopen

/-- A call takes a step. -/
theorem Inv.setCall (h : Inv s) (ha : s.calls[id]? = some a) (hkeeps : a.Keeps b)
    (hok : CallOk s id b) (hpending : id ∈ s.client.pending → b.phase.isOpen = true ∧
      b.closed = false) : Inv (s.setCall id b) := by
  have hgrows : Grows s (s.setCall id b) := .setCall ha hkeeps
  have hnew : (s.setCall id b).calls[id]? = some b :=
    List.getElem?_set_self (List.getElem?_eq_some_iff.1 ha).1
  have hold : ∀ i, i ≠ id → (s.setCall id b).calls[i]? = s.calls[i]? := fun i hi =>
    List.getElem?_set_ne (Ne.symm hi)
  refine ⟨h.client, fun i hi => ?_, fun i x hx => ?_,
    fun j conn hj => (h.conns j conn hj).mono hgrows, fun j i hj => ?_,
    fun cycle hc => (h.cycles cycle hc).mono hgrows⟩
  · by_cases hid : i = id
    · subst hid
      exact ⟨b, hnew, hpending hi⟩
    · rcases h.pending i hi with ⟨x, hx, hopen⟩
      exact ⟨x, (hold i hid).trans hx, hopen⟩
  · by_cases hid : i = id
    · subst hid
      obtain rfl : b = x := Option.some.inj (hnew.symm.trans hx)
      exact hok.mono hgrows (Nat.le_refl _)
    · rw [hold i hid] at hx
      exact (h.calls i x hx).mono hgrows (Nat.le_refl _)
  · rcases h.written j i hj with ⟨hqueued, hbegun⟩
    exact ⟨hqueued.mono hgrows, hbegun.mono hgrows⟩

/-- A connection takes a step. -/
theorem Inv.setConn (h : Inv s) {conn conn' : Conn} (hk : s.conns[k]? = some conn)
    (hgeneration : conn'.generation = conn.generation) (hok : ConnOk s k conn') :
    Inv (s.setConn k conn') := by
  have hgrows : Grows s (s.setConn k conn') := .of_eq rfl rfl rfl
  have hlen : s.conns.length ≤ (s.setConn k conn').conns.length := by
    simp [State.setConn]
  have hnew : (s.setConn k conn').conns[k]? = some conn' :=
    List.getElem?_set_self (List.getElem?_eq_some_iff.1 hk).1
  have hold : ∀ i, i ≠ k → (s.setConn k conn').conns[i]? = s.conns[i]? := fun i hi =>
    List.getElem?_set_ne (Ne.symm hi)
  have hsame : (s.setConn k conn').generations = s.generations := Parties.map_set hk hgeneration
  refine ⟨hsame ▸ h.client, h.pending, fun i x hx => (h.calls i x hx).mono hgrows hlen,
    fun j c hj => ?_, fun j i hj => ?_, fun cycle hc => (h.cycles cycle hc).mono hgrows⟩
  · by_cases hid : j = k
    · subst hid
      obtain rfl : conn' = c := Option.some.inj (hnew.symm.trans hj)
      exact hok.mono hgrows
    · rw [hold j hid] at hj
      exact (h.conns j c hj).mono hgrows
  · rcases h.written j i hj with ⟨hqueued, hbegun⟩
    exact ⟨hqueued.mono hgrows, hbegun.mono hgrows⟩

/-- Nothing but the client, the flag and the logs differ. -/
theorem Inv.frame (h : Inv s) (hgrows : Grows s s') (hcalls : s'.calls = s.calls)
    (hconns : s'.conns = s.conns) (hcycles : s'.cycles = s.cycles)
    (hclient : ClientOk s'.client s'.generations s'.negotiated)
    (hpending : ∀ id ∈ s'.client.pending, ∃ a, s.calls[id]? = some a ∧ a.phase.isOpen = true ∧
      a.closed = false)
    (hwritten : ∀ k id, (k, id) ∈ s'.written → Queued s k id ∧ Begun s id) : Inv s' where
  client := hclient
  pending := hcalls ▸ hpending
  calls := fun id a ha => (h.calls id a (hcalls ▸ ha)).mono hgrows (Nat.le_of_eq (by rw [hconns]))
  conns := fun k conn hk => (h.conns k conn (hconns ▸ hk)).mono hgrows
  written := fun k id hid =>
    ⟨(hwritten k id hid).1.mono hgrows, (hwritten k id hid).2.mono hgrows⟩
  cycles := fun cycle hc => (h.cycles cycle (hcycles ▸ hc)).mono hgrows

/-- A call is made. -/
theorem Inv.addCall (h : Inv s) (call : Call α) (hphase : call.phase.isOpen = false)
    (hitem : call.item = none) (hchan : call.chan = none) (hclosed : call.closed = false) :
    Inv { s with calls := s.calls ++ [call] } := by
  have hgrows : Grows s { s with calls := s.calls ++ [call] } := by
    refine ⟨fun id a ha => ⟨a, ?_, .refl a⟩, List.Subset.refl _, List.Subset.refl _⟩
    exact (List.getElem?_append_left (List.getElem?_eq_some_iff.1 ha).1).trans ha
  refine ⟨h.client, fun id hid => ?_, fun id a ha => ?_,
    fun k conn hk => (h.conns k conn hk).mono hgrows, fun k id hid => ?_,
    fun cycle hc => (h.cycles cycle hc).mono hgrows⟩
  · rcases h.pending id hid with ⟨a, ha, hopen⟩
    exact ⟨a, (List.getElem?_append_left (List.getElem?_eq_some_iff.1 ha).1).trans ha, hopen⟩
  · rcases Parties.getElem?_concat ha with ha | rfl
    · exact (h.calls id a ha).mono hgrows (Nat.le_refl _)
    · refine ⟨fun _ => hitem, fun _ => hclosed, fun k hk => ?_, fun hw => ?_, fun o ho => ?_,
        fun resp hresp => ?_, fun r _ _ _ => .inl hitem⟩
      · simp [hk, Phase.isOpen] at hphase
      · simp [hw, Phase.isOpen] at hphase
      · simp [hitem] at ho
      · simp [hchan] at hresp
  · rcases h.written k id hid with ⟨hqueued, hbegun⟩
    exact ⟨hqueued.mono hgrows, hbegun.mono hgrows⟩

/-- Cycles begin or take a step. -/
theorem Inv.setCycles (h : Inv s) {cycles : List (Cycle α)}
    (hok : ∀ cycle ∈ cycles, CycleOk s cycle) : Inv { s with cycles := cycles } :=
  have hgrows : Grows s { s with cycles := cycles } := .of_eq rfl rfl rfl
  { client := h.client
    pending := h.pending
    calls := fun id a ha => (h.calls id a ha).mono hgrows (Nat.le_refl _)
    conns := fun k conn hk => (h.conns k conn hk).mono hgrows
    written := fun k id hid =>
      ⟨(h.written k id hid).1.mono hgrows, (h.written k id hid).2.mono hgrows⟩
    cycles := fun x hx => (hok x hx).mono hgrows }

theorem Inv.setCycle (h : Inv s) {c : Nat} {cycle : Cycle α} (hok : CycleOk s cycle) :
    Inv (s.setCycle c cycle) := h.setCycles (Parties.forall_set cycle hok h.cycles)

theorem getElem?_attach {sendFrame : Option Nat} (ha : s.calls[id]? = some a) :
    (s.attach sendFrame).calls[id]? =
      some (if s.client.pending.contains id then { a with closed := true } else a) := by
  show (s.calls.mapIdx _)[id]? = _
  rw [List.getElem?_mapIdx, ha]
  rfl

/-- A call whose channel may have been closed. -/
theorem of_getElem?_attach (sendFrame : Option Nat)
    (hb : (s.attach sendFrame).calls[id]? = some b) :
    ∃ a, s.calls[id]? = some a ∧
      b = if s.client.pending.contains id then { a with closed := true } else a := by
  have hb' : (s.calls.mapIdx fun id call =>
      if s.client.pending.contains id then { call with closed := true } else call)[id]? =
      some b := hb
  rw [List.getElem?_mapIdx] at hb'
  rcases Option.map_eq_some_iff.1 hb' with ⟨a, ha, rfl⟩
  exact ⟨a, ha, rfl⟩

theorem grows_attach (s : State α) (sendFrame : Option Nat) : Grows s (s.attach sendFrame) where
  calls := by
    intro i x hx
    refine ⟨_, getElem?_attach hx, ?_⟩
    split
    · exact ⟨rfl, fun o ho => ⟨o, ho, id⟩, fun _ hr => hr⟩
    · exact .refl x
  negotiated := List.Subset.refl _
  answers := List.Subset.refl _

/-- A connection is detached, or others are added and the last is attached. -/
theorem Inv.attach (h : Inv s) {sendFrame : Option Nat} {conns : List Conn}
    (hsame : ∀ (k : Nat) (conn : Conn), conns[k]? = some conn →
      s.conns[k]? = some conn ∨ conn.frames = [] ∧ conn.writer = .idle)
    (hlen : s.conns.length ≤ conns.length)
    (hclient : ClientOk (s.attach sendFrame).client (conns.map (·.generation)) s.negotiated) :
    Inv { s.attach sendFrame with conns := conns } := by
  have hgrows : Grows s { s.attach sendFrame with conns := conns } :=
    (grows_attach s sendFrame).trans (.of_eq rfl rfl rfl)
  refine ⟨hclient, fun _ hid => absurd hid List.not_mem_nil, fun i b hb => ?_,
    fun k conn hk => ?_, fun k i hi => ?_, fun cycle hc => (h.cycles cycle hc).mono hgrows⟩
  · rcases of_getElem?_attach sendFrame hb with ⟨a, ha, rfl⟩
    have hok := (h.calls i a ha).mono hgrows hlen
    split
    · rename_i hpending
      have hopen := (h.open_of_pending ha (List.contains_iff_mem.1 hpending)).1
      refine ⟨hok.early, fun hstarted => ?_, hok.sender, hok.waiting, hok.exclusive,
        hok.answered, hok.accounted⟩
      rw [show a.phase = .started from hstarted] at hopen
      exact absurd hopen Bool.false_ne_true
    · exact hok
  · rcases hsame k conn hk with hold | ⟨hframes, hidle⟩
    · exact (h.conns k conn hold).mono hgrows
    · refine ⟨fun i hi => ?_, fun i hi => ?_⟩
      · simp [hframes] at hi
      · simp [hidle] at hi
  · rcases h.written k i hi with ⟨hqueued, hbegun⟩
    exact ⟨hqueued.mono hgrows, hbegun.mono hgrows⟩

end Invariant

/-! ## One lemma for each step -/

section Steps

variable {s s' : State α} {k id c : Nat}

/-! ### Connections -/

theorem Inv.connect (h : Inv s) (runtimes : Nat) : Inv (s.connect runtimes) := by
  refine Inv.attach h (fun k conn hk => ?_) (by simp) ?_
  · rcases Parties.getElem?_concat hk with hold | rfl
    · exact .inl hold
    · exact .inr ⟨rfl, rfl⟩
  · rw [List.map_append]
    refine ⟨fun hs => absurd hs Bool.false_ne_true, fun k hk => ?_, fun g hg => ?_, ?_⟩
    · obtain rfl : s.conns.length = k := Option.some.inj hk
      rw [List.getElem?_append_right (by simp), List.length_map, Nat.sub_self]
      rfl
    · rcases List.mem_append.1 hg with hold | hnew
      · exact Nat.le_succ_of_le (h.client.bounded g hold)
      · exact Nat.le_of_eq (List.mem_singleton.1 hnew)
    · rw [List.nodup_append]
      refine ⟨h.client.distinct, List.nodup_singleton _, fun g hg g' hg' heq => ?_⟩
      have hle := h.client.bounded g hg
      rw [heq, List.mem_singleton.1 hg'] at hle
      exact Nat.not_succ_le_self _ hle

theorem Inv.heartbeat (h : Inv s) (hn : s.heartbeat k = some s') : Inv s' := by
  rcases Option.bind_eq_some_iff.1 hn with ⟨conn, hk, hn⟩
  split at hn
  · simp at hn
  · rcases Option.map_eq_some_iff.1 hn with ⟨conn', hpush, rfl⟩
    have hok := h.conns k conn hk
    unfold Conn.push at hpush
    split at hpush
    · obtain rfl := Option.some.inj hpush
      refine h.setConn hk rfl ⟨fun i hi => hok.queued i ?_, hok.begun⟩
      -- a heartbeat is no request
      revert hi
      unfold Conn.frames
      cases conn.writer <;> simp
    · simp at hpush

theorem Inv.pull (h : Inv s) (hn : s.pull k = some s') : Inv s' := by
  rcases Option.bind_eq_some_iff.1 hn with ⟨conn, hk, hn⟩
  have hok := h.conns k conn hk
  split at hn
  · rename_i frame rest hwriter hwrites
    obtain rfl := Option.some.inj hn
    refine h.setConn hk rfl ⟨fun i hi => hok.queued i ?_, fun i hi => ?_⟩
    · simpa [Conn.frames, hwriter, hwrites] using hi
    · simp at hi
  · simp at hn

theorem Inv.beginWrite (h : Inv s) (hn : s.beginWrite k = some s') : Inv s' := by
  rcases Option.bind_eq_some_iff.1 hn with ⟨conn, hk, hn⟩
  have hok := h.conns k conn hk
  split at hn
  · rename_i hwriter
    obtain rfl := Option.some.inj hn
    refine h.setConn hk rfl ⟨fun i hi => hok.queued i ?_, fun i hi => ?_⟩
    · simpa [Conn.frames, hwriter] using hi
    · simp at hi
  · rename_i i hwriter
    rcases Option.bind_eq_some_iff.1 hn with ⟨call, hcall, hn⟩
    rcases Option.bind_eq_some_iff.1 hn with ⟨item, hitem, hn⟩
    have hcallOk := h.calls i call hcall
    have hlater : ¬ (call.phase = .started ∨ ∃ k, call.phase = .registered k) := fun hearly =>
      Option.some_ne_none item (hitem.symm.trans (hcallOk.early hearly))
    by_cases hcanceled : item.canceled = true
    · -- the frame is dropped
      have hskip : item.beginWrite = (item, false) := if_pos hcanceled
      rw [hskip] at hn
      obtain rfl := Option.some.inj hn
      have hsame : { call with item := some item } = call := by rw [← hitem]
      rw [hsame]
      have hcalls := h.setCall hcall (.refl call) hcallOk (h.open_of_pending hcall)
      have hconn := hcalls.conns k conn hk
      refine hcalls.setConn hk rfl ⟨fun j hj => hconn.queued j ?_, fun j hj => ?_⟩
      · simpa [Conn.frames, hwriter] using .inr hj
      · simp at hj
    · have hgo : item.beginWrite = ({ item with sent := true }, true) := if_neg hcanceled
      rw [hgo] at hn
      obtain rfl := Option.some.inj hn
      have hopen := h.open_of_pending hcall
      have hkeeps : call.Keeps { call with item := some { item with sent := true } } := by
        refine ⟨rfl, fun o ho => ⟨_, rfl, fun _ => rfl⟩, fun _ hr => hr⟩
      have hcalls := h.setCall hcall hkeeps
        ⟨fun hearly => absurd hearly hlater, hcallOk.unclosed, hcallOk.sender,
          fun _ => ⟨_, rfl, by simpa using hcanceled⟩,
          fun o ho hc => ?_, hcallOk.answered, fun r hr hrequire hafter => ?_⟩
        hopen
      · have hconn := hcalls.conns k conn hk
        refine hcalls.setConn hk rfl ⟨fun j hj => hconn.queued j ?_, fun j hj => ?_⟩
        · simpa [Conn.frames, hwriter] using hj
        · obtain rfl : i = j := by simpa using hj
          exact ⟨_, _, List.getElem?_set_self (List.getElem?_eq_some_iff.1 hcall).1, rfl, rfl⟩
      · obtain rfl : { item with sent := true } = o := Option.some.inj ho
        exact absurd hc hcanceled
      · rcases hcallOk.accounted r hr hrequire hafter with hnone | ⟨o, ho, hc⟩ | hanswer
        · exact absurd (hitem.symm.trans hnone) (Option.some_ne_none item)
        · obtain rfl : item = o := Option.some.inj (hitem.symm.trans ho)
          exact absurd hc hcanceled
        · exact .inr (.inr hanswer)
  · simp at hn

theorem Inv.writeMessage (h : Inv s) {ok : Bool} (hn : s.writeMessage k ok = some s') :
    Inv s' := by
  rcases Option.bind_eq_some_iff.1 hn with ⟨conn, hk, hn⟩
  have hok := h.conns k conn hk
  split at hn
  · rename_i frame hwriter
    obtain rfl := Option.some.inj hn
    have hconn : ∀ conn' : Conn, conn'.generation = conn.generation →
        conn'.writes = conn.writes → conn'.writer = .idle ∨ conn'.writer = .draining →
        Inv (s.setConn k conn') := by
      intro conn' hgeneration hwrites hwriter'
      refine h.setConn hk hgeneration ⟨fun i hi => hok.queued i ?_, fun i hi => ?_⟩
      · rcases hwriter' with hidle | hdraining
        · simpa [Conn.frames, hwriter, hidle, hwrites] using .inr (by
            simpa [Conn.frames, hidle, hwrites] using hi)
        · simpa [Conn.frames, hwriter, hdraining, hwrites] using .inr (by
            simpa [Conn.frames, hdraining, hwrites] using hi)
      · rcases hwriter' with hidle | hdraining <;> simp_all
    have hset : Inv (s.setConn k (if ok && conn.socketOpen then { conn with writer := .idle }
        else { conn with writer := .draining, socketOpen := false })) := by
      split
      · exact hconn _ rfl rfl (.inl rfl)
      · exact hconn _ rfl rfl (.inr rfl)
    cases frame with
    | heartbeat => exact hset
    | request i =>
      refine hset.frame (.of_eq rfl rfl rfl) rfl rfl rfl hset.client hset.pending ?_
      intro j i' hmem
      rcases List.mem_cons.1 hmem with heq | hold
      · obtain ⟨rfl, rfl⟩ := Prod.mk.inj heq
        have hgrows : Grows s (s.setConn j (if ok && conn.socketOpen then
            { conn with writer := .idle } else
            { conn with writer := .draining, socketOpen := false })) := .of_eq rfl rfl rfl
        refine ⟨(hok.queued i' ?_).mono hgrows, (hok.begun i' hwriter).mono hgrows⟩
        simp [Conn.frames, hwriter]
      · exact hset.written j i' hold
  · simp at hn

theorem Inv.drain (h : Inv s) (hn : s.drain k = some s') : Inv s' := by
  rcases Option.bind_eq_some_iff.1 hn with ⟨conn, hk, hn⟩
  have hok := h.conns k conn hk
  split at hn
  · rename_i frame rest hwriter hwrites
    obtain rfl := Option.some.inj hn
    refine h.setConn hk rfl ⟨fun i hi => hok.queued i ?_, fun i hi => ?_⟩
    · have hrest : .request i ∈ rest := by simpa [Conn.frames, hwriter] using hi
      simpa [Conn.frames, hwriter, hwrites] using .inr hrest
    · simp [hwriter] at hi
  · simp at hn

theorem Inv.writerDone (h : Inv s) (hn : s.writerDone k = some s') : Inv s' := by
  rcases Option.bind_eq_some_iff.1 hn with ⟨conn, hk, hn⟩
  obtain ⟨⟨-, hwrites, -⟩, hn⟩ := Option.ite_none_right_eq_some.1 hn
  obtain rfl := Option.some.inj hn
  refine h.setConn hk rfl ⟨fun i hi => ?_, fun i hi => ?_⟩
  · simp [Conn.frames, hwrites] at hi
  · simp at hi

theorem Inv.tearDown (h : Inv s) (hn : s.tearDown k = some s') : Inv s' := by
  rcases Option.bind_eq_some_iff.1 hn with ⟨conn, hk, hn⟩
  have hok := h.conns k conn hk
  split at hn
  · obtain rfl := Option.some.inj hn
    exact h.setConn hk rfl ⟨hok.queued, hok.begun⟩
  · obtain rfl := Option.some.inj hn
    have hdetached : Inv (s.attach none) := by
      refine Inv.attach h (fun k conn hk => .inl hk) (Nat.le_refl _)
        ⟨fun hs => absurd hs Bool.false_ne_true, fun k hk => absurd hk.symm (Option.some_ne_none k),
          fun g hg => Nat.le_succ_of_le (h.client.bounded g hg), h.client.distinct⟩
    have hconn := hdetached.conns k conn hk
    exact hdetached.setConn hk rfl ⟨hconn.queued, hconn.begun⟩
  · obtain rfl := Option.some.inj hn
    exact h.setConn hk rfl ⟨hok.queued, hok.begun⟩
  · obtain rfl := Option.some.inj hn
    exact h.setConn hk rfl ⟨hok.queued, hok.begun⟩
  · simp at hn

theorem Inv.ack (h : Inv s) (hn : s.ack k = some s') : Inv s' := by
  rcases Option.bind_eq_some_iff.1 hn with ⟨conn, hk, hn⟩
  obtain rfl := Option.some.inj hn
  have hclient : ClientOk s.client s.generations (k :: s.negotiated) :=
    { h.client with supported := fun hs j hj =>
        List.mem_cons_of_mem k (h.client.supported hs j hj) }
  unfold State.markRPCV1Supported
  split
  · rename_i hmark
    refine h.frame ⟨fun id a ha => ⟨a, ha, .refl a⟩, List.subset_cons_self _ _,
      List.Subset.refl _⟩ rfl rfl rfl { hclient with supported := fun _ j hj => ?_ } h.pending
      h.written
    -- the connection that is attached is the one that has this generation
    have hattached := h.client.attached j hj
    have hown : s.generations[k]? = some s.client.generation := by
      rw [State.generations, List.getElem?_map, hk, hmark.2]
      rfl
    have hjk : j = k := (List.getElem?_inj (List.getElem?_eq_some_iff.1 hattached).1
      h.client.distinct).1 (hattached.trans hown.symm)
    exact hjk ▸ List.mem_cons_self
  · exact h.frame ⟨fun id a ha => ⟨a, ha, .refl a⟩, List.subset_cons_self _ _,
      List.Subset.refl _⟩ rfl rfl rfl hclient h.pending h.written

/-! ### Calls -/

theorem Inv.deliver (h : Inv s) (resp : Response) : Inv (s.deliver resp) := by
  have hgrows : Grows s { s with answers := resp :: s.answers } :=
    ⟨fun id a ha => ⟨a, ha, .refl a⟩, List.Subset.refl _, List.subset_cons_self _ _⟩
  have hanswered : Inv { s with answers := resp :: s.answers } :=
    h.frame hgrows rfl rfl rfl h.client h.pending h.written
  unfold State.deliver
  split
  · exact hanswered
  · rename_i call hcall
    split
    · have hok := hanswered.calls _ call hcall
      have hopen := hanswered.open_of_pending hcall
      refine hanswered.setCall hcall ⟨rfl, fun o ho => ⟨o, ho, id⟩, fun _ hr => hr⟩
        { hok with answered := fun r hr => ?_ } hopen
      obtain rfl : resp = r := Option.some.inj hr
      exact ⟨rfl, List.mem_cons_self⟩
    · exact hanswered

/-- A call that has not queued its frame returns an error. -/
theorem Inv.fail (h : Inv s) {call : Call α} (hcall : s.calls[id]? = some call) {phase : Phase α}
    (hearly : call.phase = .started ∨ ∃ k, call.phase = .registered k)
    (hphase : call.phase = .started ∧ (∃ r, phase = .done r) ∨ ∃ r, phase = .returned r) :
    Inv (s.setCall id { call with phase := phase }) := by
  have hok := h.calls id call hcall
  have hitem := hok.early hearly
  refine h.setCall hcall ⟨rfl, fun o ho => ⟨o, ho, fun hs => hs⟩, fun r hr => ?_⟩
    ⟨fun _ => hitem, fun hs => ?_, fun k hk => ?_, fun hw => ?_, hok.exclusive, hok.answered,
      fun r _ _ _ => .inl hitem⟩ fun hp => ?_
  · rcases hearly with hstarted | ⟨k, hregistered⟩ <;> simp_all
  · rcases hphase with ⟨-, r, rfl⟩ | ⟨r, rfl⟩ <;> simp at hs
  · rcases hphase with ⟨-, r, rfl⟩ | ⟨r, rfl⟩ <;> simp at hk
  · rcases hphase with ⟨-, r, rfl⟩ | ⟨r, rfl⟩ <;> simp at hw
  · have hopen := h.open_of_pending hcall hp
    rcases hphase with ⟨hstarted, -⟩ | ⟨r, rfl⟩
    · simp [hstarted, Phase.isOpen] at hopen
    · exact ⟨rfl, hopen.2⟩

theorem Inv.register (h : Inv s) (hn : s.register id = some s') : Inv s' := by
  rcases Option.bind_eq_some_iff.1 hn with ⟨call, hcall, hn⟩
  split at hn
  · rename_i hstarted
    have hok := h.calls id call hcall
    split at hn
    · obtain rfl := Option.some.inj hn
      exact h.fail hcall (.inl hstarted) (.inl ⟨hstarted, _, rfl⟩)
    · rename_i k hsender
      split at hn
      · obtain rfl := Option.some.inj hn
        exact h.fail hcall (.inl hstarted) (.inl ⟨hstarted, _, rfl⟩)
      · rename_i hcapable
        obtain rfl := Option.some.inj hn
        have hitem := hok.early (.inl hstarted)
        have hlt : k < s.conns.length := by
          have hattached := h.client.attached k hsender
          simpa [State.generations] using (List.getElem?_eq_some_iff.1 hattached).1
        have hset : Inv (s.setCall id { call with phase := .registered k }) := by
          refine h.setCall hcall ⟨rfl, fun o ho => ⟨o, ho, fun hs => hs⟩, fun r hr => ?_⟩
            ⟨fun _ => hitem, fun hs => ?_, fun j hj => ?_, fun hw => ?_, hok.exclusive,
              hok.answered, fun r hr => ?_⟩ fun _ => ⟨rfl, hok.unclosed hstarted⟩
          · simp [hstarted] at hr
          · simp at hs
          · -- the capability is that of the sender that is taken
            obtain rfl : k = j := by simpa using hj
            refine ⟨hlt, fun hrequire => h.client.supported ?_ k hsender⟩
            simpa [show call.requireRPCV1 = true from hrequire] using hcapable
          · simp at hw
          · simp [Phase.result] at hr
        refine hset.frame (.of_eq rfl rfl rfl) rfl rfl rfl
          ⟨h.client.supported, h.client.attached, h.client.bounded, h.client.distinct⟩
          (fun i hi => ?_) hset.written
        rcases List.mem_cons.1 hi with rfl | hi
        · exact ⟨_, List.getElem?_set_self (List.getElem?_eq_some_iff.1 hcall).1, rfl,
            hok.unclosed hstarted⟩
        · exact hset.pending i hi
  · simp at hn

theorem Inv.send (h : Inv s) (hn : s.send id = some s') : Inv s' := by
  rcases Option.bind_eq_some_iff.1 hn with ⟨call, hcall, hn⟩
  split at hn
  · rename_i k hregistered
    have hok := h.calls id call hcall
    rcases Option.bind_eq_some_iff.1 hn with ⟨conn, hk, hn⟩
    split at hn
    · obtain rfl := Option.some.inj hn
      exact h.fail hcall (.inr ⟨k, hregistered⟩) (.inr ⟨_, rfl⟩)
    · split at hn
      · obtain rfl := Option.some.inj hn
        exact h.fail hcall (.inr ⟨k, hregistered⟩) (.inr ⟨_, rfl⟩)
      · rename_i conn' hpush
        obtain rfl := Option.some.inj hn
        have hitem := hok.early (.inr ⟨k, hregistered⟩)
        have hset : Inv (s.setCall id { call with phase := .waiting, item := some {} }) := by
          refine h.setCall hcall ⟨rfl, fun o ho => ?_, fun r hr => ?_⟩
            ⟨fun he => ?_, fun hs => ?_, fun j hj => ?_, fun _ => ⟨_, rfl, rfl⟩, fun o ho hc => ?_,
              hok.answered, fun r hr => ?_⟩ fun hp => ⟨rfl, (h.open_of_pending hcall hp).2⟩
          · simp [hitem] at ho
          · simp [hregistered] at hr
          · rcases he with he | ⟨j, he⟩ <;> simp at he
          · simp at hs
          · simp at hj
          · obtain rfl : ({} : Outbound) = o := Option.some.inj ho
            rfl
          · simp [Phase.result] at hr
        have hqueued :
            Queued (s.setCall id { call with phase := .waiting, item := some {} }) k id :=
          ⟨_, List.getElem?_set_self (List.getElem?_eq_some_iff.1 hcall).1, by simp,
            (hok.sender k hregistered).2⟩
        have hconn := hset.conns k conn hk
        unfold Conn.push at hpush
        split at hpush
        · obtain rfl := Option.some.inj hpush
          refine hset.setConn hk rfl ⟨fun i hi => ?_, hconn.begun⟩
          by_cases hid : i = id
          · exact hid ▸ hqueued
          · refine hconn.queued i ?_
            revert hi
            unfold Conn.frames
            cases conn.writer <;> simp [hid]
        · simp at hpush
  · simp at hn

/-- A call that waits gives its frame up. -/
theorem Inv.leave (h : Inv s) {errOf : Bool → CallError} (hn : s.leave id errOf = some s')
    (herr : ∀ call item, s.calls[id]? = some call → call.item = some item → item.sent = true →
      call.requireRPCV1 = true → errOf false = .uncertain) : Inv s' := by
  rcases Option.bind_eq_some_iff.1 hn with ⟨call, hcall, hn⟩
  split at hn
  · rename_i item hwaiting hitem
    have hok := h.calls id call hcall
    by_cases hsent : item.sent = true
    · have hcancel : item.cancel = (item, false) := if_pos hsent
      rw [hcancel] at hn
      obtain rfl := Option.some.inj hn
      refine h.setCall hcall
        ⟨rfl, fun o ho => ⟨o, by rw [← ho, hitem], fun hs => hs⟩, fun r hr => ?_⟩
        ⟨fun he => ?_, fun hs => ?_, fun j hj => ?_, fun hw => ?_, fun o ho => ?_, hok.answered,
          fun r hr hrequire hafter => ?_⟩ fun hp => ⟨rfl, (h.open_of_pending hcall hp).2⟩
      · simp [hwaiting] at hr
      · rcases he with he | ⟨j, he⟩ <;> simp at he
      · simp at hs
      · simp at hj
      · simp at hw
      · exact hok.exclusive o (hitem.trans ho)
      · -- the outcome is uncertain: HTTP is not asked
        obtain rfl : ({ err := some (errOf false) } : Result α) = r := by
          simpa [Phase.result] using hr
        rw [herr call item hcall hitem hsent hrequire] at hafter
        simp [afterCall] at hafter
    · have hcancel : item.cancel = ({ item with canceled := true }, true) := if_neg hsent
      rw [hcancel] at hn
      obtain rfl := Option.some.inj hn
      refine h.setCall hcall ⟨rfl, fun o ho => ⟨_, rfl, fun hs => ?_⟩, fun r hr => ?_⟩
        ⟨fun he => ?_, fun hs => ?_, fun j hj => ?_, fun hw => ?_, fun o ho _ => ?_, hok.answered,
          fun r _ _ _ => .inr (.inl ⟨_, rfl, rfl⟩)⟩ fun hp =>
            ⟨rfl, (h.open_of_pending hcall hp).2⟩
      · obtain rfl : item = o := Option.some.inj (hitem.symm.trans ho)
        exact hs
      · simp [hwaiting] at hr
      · rcases he with he | ⟨j, he⟩ <;> simp at he
      · simp at hs
      · simp at hj
      · simp at hw
      · obtain rfl : { item with canceled := true } = o := Option.some.inj ho
        simpa using hsent
  · simp at hn

/-- A call that was answered so that its body can be decoded asks HTTP only if it was refused. -/
theorem refused_of_afterCall {resp : Response} (hdecodable : decodable decode resp = true)
    (hafter : afterCall (State.resultOf decode resp) = .http) : resp.ok = false := by
  cases hstatus : resp.ok with
  | false => rfl
  | true =>
    unfold State.resultOf at hafter
    rw [if_pos hstatus] at hafter
    split at hafter
    · simp [afterCall] at hafter
    · rename_i hbody
      split at hafter
      · simp [afterCall] at hafter
      · rename_i hdecode
        simp [decodable, hstatus, hbody, hdecode] at hdecodable

theorem Inv.receive (h : Inv s) (hn : s.receive decode id = some s')
    (hsafe : safe decode s (.receive id) = true) : Inv s' := by
  rcases Option.bind_eq_some_iff.1 hn with ⟨call, hcall, hn⟩
  have hok := h.calls id call hcall
  split at hn
  · rename_i resp hwaiting hchan
    obtain rfl := Option.some.inj hn
    refine h.setCall hcall ⟨rfl, fun o ho => ⟨o, ho, fun hs => hs⟩, fun r hr => ?_⟩
      ⟨fun he => ?_, fun hs => ?_, fun j hj => ?_, fun hw => ?_, hok.exclusive, fun r hr => ?_,
        fun r hr hrequire hafter => ?_⟩ fun hp => ⟨rfl, (h.open_of_pending hcall hp).2⟩
    · simp [hwaiting] at hr
    · rcases he with he | ⟨j, he⟩ <;> simp at he
    · simp at hs
    · simp at hj
    · simp at hw
    · simp at hr
    · have hdecodable : decodable decode resp = true := by
        simpa [safe, hcall, hchan, show call.requireRPCV1 = true from hrequire] using hsafe
      obtain rfl : State.resultOf decode resp = r := by simpa [Phase.result] using hr
      obtain ⟨hid, hmem⟩ := hok.answered resp hchan
      exact .inr (.inr ⟨resp, hmem, hid, refused_of_afterCall hdecodable hafter⟩)
  · split at hn
    · exact h.leave hn fun _ _ _ _ _ _ => rfl
    · simp at hn
  · simp at hn

theorem Inv.timeout (h : Inv s) (hn : s.timeout id = some s') : Inv s' :=
  h.leave hn fun _ _ _ _ _ _ => rfl

theorem Inv.cancelContext (h : Inv s) (hn : s.cancelContext id = some s')
    (hsafe : safe decode s (.cancelContext id) = true) : Inv s' := by
  refine h.leave hn fun call item hcall hitem hsent hrequire => ?_
  simp [safe, hcall, hitem, hsent, hrequire] at hsafe

theorem Inv.unregister (h : Inv s) (hn : s.unregister id = some s') : Inv s' := by
  rcases Option.bind_eq_some_iff.1 hn with ⟨call, hcall, hn⟩
  split at hn
  · rename_i r hreturned
    obtain rfl := Option.some.inj hn
    have hok := h.calls id call hcall
    have hremoved : Inv { s with client := { s.client with
        pending := s.client.pending.filter (· != id) } } :=
      h.frame (.of_eq rfl rfl rfl) rfl rfl rfl
        ⟨h.client.supported, h.client.attached, h.client.bounded, h.client.distinct⟩
        (fun i hi => h.pending i (List.mem_filter.1 hi).1) h.written
    refine hremoved.setCall hcall ⟨rfl, fun o ho => ⟨o, ho, fun hs => hs⟩, fun x hx => ?_⟩
      ⟨fun he => ?_, fun hs => ?_, fun j hj => ?_, fun hw => ?_, hok.exclusive, hok.answered,
        fun x hx => ?_⟩ fun hp => ?_
    · simp [hreturned] at hx
    · rcases he with he | ⟨j, he⟩ <;> simp at he
    · simp at hs
    · simp at hj
    · simp at hw
    · obtain rfl : r = x := by simpa [Phase.result] using hx
      exact hok.accounted r (by rw [hreturned]; rfl)
    · simp at hp
  · simp at hn

/-! ### Cycles -/

theorem Inv.checkBatch (h : Inv s) (hn : s.checkBatch c = some s') : Inv s' := by
  rcases Option.bind_eq_some_iff.1 hn with ⟨cycle, hc, hn⟩
  have hok := h.cycles cycle (List.mem_of_getElem? hc)
  split at hn
  · rename_i hbegun
    have hfresh := hok.fresh (.inl hbegun)
    split at hn
    · obtain rfl := Option.some.inj hn
      refine h.setCycle ⟨hok.claims, fun hf => ?_, fun i hi => ?_, fun _ i hi => ?_⟩
      · rcases hf with hf | hf <;> simp at hf
      · simp at hi
      · simp [hfresh.1] at hi
    · obtain rfl := Option.some.inj hn
      refine h.setCycle ⟨hok.claims, fun _ => hfresh, fun i hi => ?_, hok.http⟩
      simp at hi
  · simp at hn

theorem Inv.checkSupport (h : Inv s) (hn : s.checkSupport c = some s') : Inv s' := by
  rcases Option.bind_eq_some_iff.1 hn with ⟨cycle, hc, hn⟩
  have hok := h.cycles cycle (List.mem_of_getElem? hc)
  split at hn
  · rename_i hchecking
    have hfresh := hok.fresh (.inr hchecking)
    split at hn
    · obtain rfl := Option.some.inj hn
      have hcalled := h.addCall { requireRPCV1 := true } rfl rfl rfl rfl
      have hnew : (s.calls ++ [({ requireRPCV1 := true } : Call α)])[s.calls.length]? =
          some { requireRPCV1 := true } := by simp
      refine hcalled.setCycles (Parties.forall_set _
        ⟨fun i hi => ?_, fun hf => ?_, fun i hi => ?_, fun hhttp i hi => ?_⟩ hcalled.cycles)
      · obtain rfl : s.calls.length = i := Option.some.inj hi
        exact ⟨_, hnew, rfl⟩
      · rcases hf with hf | hf <;> simp at hf
      · exact congrArg some (by simpa using hi)
      · simp [hfresh.2] at hhttp
    · obtain rfl := Option.some.inj hn
      refine h.setCycle ⟨hok.claims, fun hf => ?_, fun i hi => ?_, fun _ i hi => ?_⟩
      · rcases hf with hf | hf <;> simp at hf
      · simp at hi
      · simp [hfresh.1] at hi
  · simp at hn

/-- A cycle ends, with or without HTTP. -/
theorem CycleOk.later {cycle : Cycle α} (hok : CycleOk s cycle) {stage : Stage α}
    (hstage : stage = .legacy ∨ ∃ resp, stage = .ended resp) :
    CycleOk s { cycle with stage := stage } where
  claims := hok.claims
  fresh := by rcases hstage with rfl | ⟨resp, rfl⟩ <;> simp
  calling := by rcases hstage with rfl | ⟨resp, rfl⟩ <;> simp
  http := hok.http

theorem Inv.decideCall (h : Inv s) (hn : s.decideCall c = some s') : Inv s' := by
  rcases Option.bind_eq_some_iff.1 hn with ⟨cycle, hc, hn⟩
  have hok := h.cycles cycle (List.mem_of_getElem? hc)
  split at hn
  · rename_i i hcalling
    rcases Option.bind_eq_some_iff.1 hn with ⟨call, hcall, hn⟩
    split at hn
    · rename_i r hdone
      split at hn
      · obtain rfl := Option.some.inj hn
        exact h.setCycle (hok.later (.inr ⟨_, rfl⟩))
      · obtain rfl := Option.some.inj hn
        exact h.setCycle (hok.later (.inr ⟨_, rfl⟩))
      · rename_i hafter
        obtain rfl := Option.some.inj hn
        refine h.setCycle ⟨hok.claims, fun hf => ?_, fun j hj => ?_, fun _ j hj => ?_⟩
        · rcases hf with hf | hf <;> simp at hf
        · simp at hj
        · obtain rfl : i = j := Option.some.inj ((hok.calling i hcalling).symm.trans hj)
          exact ⟨call, r, hcall, hdone, hafter⟩
    · simp at hn
  · simp at hn

theorem Inv.httpAnswer (h : Inv s) {answer : HttpAnswer α}
    (hn : s.httpAnswer c answer = some s') : Inv s' := by
  rcases Option.bind_eq_some_iff.1 hn with ⟨cycle, hc, hn⟩
  have hok := h.cycles cycle (List.mem_of_getElem? hc)
  split at hn
  · cases answer with
    | tasks resp =>
      obtain rfl := Option.some.inj hn
      exact h.setCycle (hok.later (.inr ⟨_, rfl⟩))
    | failed =>
      obtain rfl := Option.some.inj hn
      exact h.setCycle (hok.later (.inr ⟨_, rfl⟩))
    | notFound =>
      obtain rfl := Option.some.inj hn
      have hset : Inv (s.setCycle c { cycle with stage := .legacy }) :=
        h.setCycle (hok.later (.inl rfl))
      exact hset.frame (.of_eq rfl rfl rfl) rfl rfl rfl hset.client hset.pending hset.written
  · simp at hn

theorem Inv.legacyAnswer (h : Inv s) {resp : Option α} (hn : s.legacyAnswer c resp = some s') :
    Inv s' := by
  rcases Option.bind_eq_some_iff.1 hn with ⟨cycle, hc, hn⟩
  split at hn
  · obtain rfl := Option.some.inj hn
    exact h.setCycle ((h.cycles cycle (List.mem_of_getElem? hc)).later (.inr ⟨_, rfl⟩))
  · simp at hn

end Steps

/-! ## Calls that have returned -/

section Returned

variable {s s' : State α} {k id c : Nat} {call : Call α} {r : Result α}

/-- The call has returned with this result. -/
def Returned (s : State α) (id : Nat) (r : Result α) : Prop :=
  ∃ call, s.calls[id]? = some call ∧ call.phase = .done r

theorem Returned.of_eq (h : Returned s id r) (hcalls : s'.calls = s.calls) : Returned s' id r := by
  rcases h with ⟨a, ha, hdone⟩
  exact ⟨a, by rw [hcalls, ha], hdone⟩

/-- A call that has not returned takes a step, or one keeps its phase. -/
theorem Returned.set {i : Nat} {a b : Call α} (h : Returned s id r) (ha : s.calls[i]? = some a)
    (hcalls : s'.calls = s.calls.set i b)
    (hphase : (∀ r, a.phase ≠ .done r) ∨ b.phase = a.phase) : Returned s' id r := by
  rcases h with ⟨x, hx, hdone⟩
  by_cases hi : id = i
  · subst hi
    obtain rfl : a = x := Option.some.inj (ha.symm.trans hx)
    rcases hphase with hnot | hsame
    · exact absurd hdone (hnot r)
    · refine ⟨b, ?_, hsame.trans hdone⟩
      rw [hcalls]
      exact List.getElem?_set_self (List.getElem?_eq_some_iff.1 ha).1
  · refine ⟨x, ?_, hdone⟩
    rw [hcalls, ← hx]
    exact List.getElem?_set_ne (Ne.symm hi)

theorem Returned.concat (h : Returned s id r) {a : Call α} (hcalls : s'.calls = s.calls ++ [a]) :
    Returned s' id r := by
  rcases h with ⟨x, hx, hdone⟩
  refine ⟨x, ?_, hdone⟩
  rw [hcalls, List.getElem?_append_left (List.getElem?_eq_some_iff.1 hx).1, hx]

theorem Returned.attach (h : Returned s id r) (sendFrame : Option Nat) :
    Returned (s.attach sendFrame) id r := by
  rcases h with ⟨x, hx, hdone⟩
  refine ⟨_, getElem?_attach hx, ?_⟩
  split
  · exact hdone
  · exact hdone

/-- No other step changes the phase of a call. -/
theorem Returned.other {a : Act α} (h : Returned s id r) (hn : next decode s a = some s')
    (hother : a.caller = none) : Returned s' id r := by
  cases a with
  | register _ | send _ | receive _ | timeout _ | cancelContext _ | unregister _ =>
    simp [Act.caller] at hother
  | connect runtimes =>
    obtain rfl := Option.some.inj hn
    exact (h.attach (some s.conns.length)).of_eq rfl
  | reprobe | poll =>
    obtain rfl := Option.some.inj hn
    exact h.of_eq rfl
  | heartbeat k =>
    rcases Option.bind_eq_some_iff.1 hn with ⟨conn, -, hn⟩
    split at hn
    · simp at hn
    · rcases Option.map_eq_some_iff.1 hn with ⟨conn', -, rfl⟩
      exact h.of_eq rfl
  | pull k | drain k =>
    rcases Option.bind_eq_some_iff.1 hn with ⟨conn, -, hn⟩
    split at hn
    · obtain rfl := Option.some.inj hn
      exact h.of_eq rfl
    · simp at hn
  | writerDone k =>
    rcases Option.bind_eq_some_iff.1 hn with ⟨conn, -, hn⟩
    obtain ⟨-, hn⟩ := Option.ite_none_right_eq_some.1 hn
    obtain rfl := Option.some.inj hn
    exact h.of_eq rfl
  | beginWrite k =>
    rcases Option.bind_eq_some_iff.1 hn with ⟨conn, -, hn⟩
    split at hn
    · obtain rfl := Option.some.inj hn
      exact h.of_eq rfl
    · rcases Option.bind_eq_some_iff.1 hn with ⟨call, hcall, hn⟩
      rcases Option.bind_eq_some_iff.1 hn with ⟨item, -, hn⟩
      obtain rfl := Option.some.inj hn
      exact h.set hcall rfl (.inr rfl)
    · simp at hn
  | writeMessage k ok =>
    rcases Option.bind_eq_some_iff.1 hn with ⟨conn, -, hn⟩
    split at hn
    · obtain rfl := Option.some.inj hn
      exact h.of_eq rfl
    · simp at hn
  | tearDown k =>
    rcases Option.bind_eq_some_iff.1 hn with ⟨conn, -, hn⟩
    split at hn
    case h_2 =>
      obtain rfl := Option.some.inj hn
      exact (h.attach none).of_eq rfl
    case h_5 => simp at hn
    all_goals
      obtain rfl := Option.some.inj hn
      exact h.of_eq rfl
  | ack k =>
    rcases Option.bind_eq_some_iff.1 hn with ⟨conn, -, hn⟩
    obtain rfl := Option.some.inj hn
    unfold State.markRPCV1Supported
    split
    · exact h.of_eq rfl
    · exact h.of_eq rfl
  | deliver resp =>
    obtain rfl := Option.some.inj hn
    unfold State.deliver
    split
    · exact h.of_eq rfl
    · rename_i call hcall
      split
      · exact h.set hcall rfl (.inr rfl)
      · exact h.of_eq rfl
  | startCall requireRPCV1 encodes =>
    obtain rfl := Option.some.inj hn
    exact h.concat rfl
  | checkBatch c =>
    rcases Option.bind_eq_some_iff.1 hn with ⟨cycle, -, hn⟩
    split at hn
    · split at hn
      · obtain rfl := Option.some.inj hn
        exact h.of_eq rfl
      · obtain rfl := Option.some.inj hn
        exact h.of_eq rfl
    · simp at hn
  | checkSupport c =>
    rcases Option.bind_eq_some_iff.1 hn with ⟨cycle, -, hn⟩
    split at hn
    · split at hn
      · obtain rfl := Option.some.inj hn
        exact h.concat rfl
      · obtain rfl := Option.some.inj hn
        exact h.of_eq rfl
    · simp at hn
  | decideCall c =>
    rcases Option.bind_eq_some_iff.1 hn with ⟨cycle, -, hn⟩
    split at hn
    · rcases Option.bind_eq_some_iff.1 hn with ⟨call, -, hn⟩
      split at hn
      · split at hn <;> obtain rfl := Option.some.inj hn <;> exact h.of_eq rfl
      · simp at hn
    · simp at hn
  | httpAnswer c answer =>
    rcases Option.bind_eq_some_iff.1 hn with ⟨cycle, -, hn⟩
    split at hn
    · split at hn <;> obtain rfl := Option.some.inj hn <;> exact h.of_eq rfl
    · simp at hn
  | legacyAnswer c resp =>
    rcases Option.bind_eq_some_iff.1 hn with ⟨cycle, -, hn⟩
    split at hn
    · obtain rfl := Option.some.inj hn
      exact h.of_eq rfl
    · simp at hn

theorem Returned.leave {i : Nat} {errOf : Bool → CallError} (h : Returned s id r)
    (hn : s.leave i errOf = some s') : Returned s' id r := by
  rcases Option.bind_eq_some_iff.1 hn with ⟨call, hcall, hn⟩
  split at hn
  · rename_i item hwaiting hitem
    obtain rfl := Option.some.inj hn
    exact h.set hcall rfl (.inl fun r hr => by simp [hwaiting] at hr)
  · simp at hn

/-- A call that has returned does so no more. -/
theorem Returned.step {a : Act α} (h : Returned s id r) (hn : next decode s a = some s') :
    Returned s' id r := by
  cases a with
  | register i =>
    rcases Option.bind_eq_some_iff.1 hn with ⟨call, hcall, hn⟩
    split at hn
    · rename_i hstarted
      have hnot : ∀ r, call.phase ≠ .done r := fun r hr => by simp [hstarted] at hr
      split at hn
      · obtain rfl := Option.some.inj hn
        exact h.set hcall rfl (.inl hnot)
      · split at hn
        · obtain rfl := Option.some.inj hn
          exact h.set hcall rfl (.inl hnot)
        · obtain rfl := Option.some.inj hn
          exact h.set hcall rfl (.inl hnot)
    · simp at hn
  | send i =>
    rcases Option.bind_eq_some_iff.1 hn with ⟨call, hcall, hn⟩
    split at hn
    · rename_i hregistered
      have hnot : ∀ r, call.phase ≠ .done r := fun r hr => by simp [hregistered] at hr
      rcases Option.bind_eq_some_iff.1 hn with ⟨conn, -, hn⟩
      split at hn
      · obtain rfl := Option.some.inj hn
        exact h.set hcall rfl (.inl hnot)
      · split at hn
        · obtain rfl := Option.some.inj hn
          exact h.set hcall rfl (.inl hnot)
        · obtain rfl := Option.some.inj hn
          exact h.set hcall rfl (.inl hnot)
    · simp at hn
  | receive i =>
    rcases Option.bind_eq_some_iff.1 hn with ⟨call, hcall, hn⟩
    split at hn
    · rename_i resp hwaiting hchan
      obtain rfl := Option.some.inj hn
      exact h.set hcall rfl (.inl fun r hr => by simp [hwaiting] at hr)
    · split at hn
      · exact h.leave hn
      · simp at hn
    · simp at hn
  | timeout i =>
    have hleave : s.timeout i = some s' := hn
    exact h.leave hleave
  | cancelContext i =>
    have hleave : s.cancelContext i = some s' := hn
    exact h.leave hleave
  | unregister i =>
    rcases Option.bind_eq_some_iff.1 hn with ⟨call, hcall, hn⟩
    split at hn
    · rename_i hreturned
      obtain rfl := Option.some.inj hn
      exact h.set hcall rfl (.inl fun r hr => by simp [hreturned] at hr)
    · simp at hn
  | _ => exact h.other hn rfl

/-! ### It does return -/

/-- The call can return by its own steps. -/
def Returns (decode : String → Option α) (s : State α) (id : Nat) : Prop :=
  ∃ acts : List (Act α), (∀ a ∈ acts, a.caller = some id) ∧
    ∃ s', (machine decode).run s acts = some s' ∧ ∃ r, Returned s' id r

theorem Returns.cons {a : Act α} (ha : a.caller = some id) (hn : next decode s a = some s')
    (h : Returns decode s' id) : Returns decode s id := by
  rcases h with ⟨acts, hacts, t, hrun, hreturned⟩
  refine ⟨a :: acts, fun x hx => ?_, t, (Machine.run_cons hn acts).trans hrun, hreturned⟩
  rcases List.mem_cons.1 hx with rfl | hx
  · exact ha
  · exact hacts x hx

theorem returns_of_done (hcall : s.calls[id]? = some call) (hdone : call.phase = .done r) :
    Returns decode s id :=
  ⟨[], fun _ hx => absurd hx List.not_mem_nil, s, rfl, r, call, hcall, hdone⟩

theorem getElem?_setCall (hcall : s.calls[id]? = some call) (b : Call α) :
    (s.setCall id b).calls[id]? = some b :=
  List.getElem?_set_self (List.getElem?_eq_some_iff.1 hcall).1

theorem returns_of_returned (hcall : s.calls[id]? = some call) (hphase : call.phase = .returned r) :
    Returns decode s id := by
  have hn : next decode s (.unregister id) = some { s.setCall id { call with phase := .done r } with
      client := { s.client with pending := s.client.pending.filter (· != id) } } := by
    simp [next, State.unregister, hcall, hphase]
  exact .cons rfl hn (returns_of_done (getElem?_setCall hcall _) rfl)

/-- The timer of a call that waits. -/
theorem returns_of_waiting {item : Outbound} (hcall : s.calls[id]? = some call)
    (hphase : call.phase = .waiting) (hitem : call.item = some item) : Returns decode s id := by
  let err : CallError := if State.giveUp item.cancel.2 = .uncertain then .uncertain else .timeout
  have hn : next decode s (.timeout id) = some (s.setCall id
      { call with item := some item.cancel.1, phase := .returned { err := some err } }) := by
    simp only [next, State.timeout, State.leave, hcall, hphase, hitem, Option.bind_eq_bind,
      Option.bind_some]
    rfl
  exact .cons rfl hn (returns_of_returned (getElem?_setCall hcall _) rfl)

theorem returns_of_registered (hcall : s.calls[id]? = some call)
    (hphase : call.phase = .registered k) (hk : k < s.conns.length) : Returns decode s id := by
  have hconn : s.conns[k]? = some s.conns[k] := List.getElem?_eq_getElem hk
  cases hclosed : s.conns[k].sendClosed with
  | true =>
    have hn : next decode s (.send id) = some (s.setCall id
        { call with phase := .returned { err := some (.send .unavailable) } }) := by
      simp [next, State.send, hcall, hphase, hconn, hclosed]
    exact .cons rfl hn (returns_of_returned (getElem?_setCall hcall _) rfl)
  | false =>
    cases hpush : s.conns[k].push (.request id) with
    | none =>
      have hn : next decode s (.send id) = some (s.setCall id
          { call with phase := .returned { err := some (.send .writeBufferFull) } }) := by
        simp [next, State.send, hcall, hphase, hconn, hclosed, hpush]
      exact .cons rfl hn (returns_of_returned (getElem?_setCall hcall _) rfl)
    | some conn' =>
      have hn : next decode s (.send id) = some ((s.setCall id
          { call with phase := .waiting, item := some {} }).setConn k conn') := by
        simp [next, State.send, hcall, hphase, hconn, hclosed, hpush]
      have hnew : ((s.setCall id { call with phase := .waiting, item := some {} }).setConn k
          conn').calls[id]? = some { call with phase := .waiting, item := some {} } :=
        getElem?_setCall hcall _
      exact .cons rfl hn (returns_of_waiting hnew rfl rfl)

theorem returns_of_started (h : Inv s) (hcall : s.calls[id]? = some call)
    (hphase : call.phase = .started) : Returns decode s id := by
  have hfail : next decode s (.register id) =
      some (s.setCall id { call with phase := .done { err := some .unavailable } }) →
      Returns decode s id := fun hn => .cons rfl hn (returns_of_done (getElem?_setCall hcall _) rfl)
  cases hsender : s.client.sendFrame with
  | none => exact hfail (by simp [next, State.register, hcall, hphase, hsender])
  | some k =>
    cases hcapable : call.requireRPCV1 && !s.client.rpcV1Supported with
    | true =>
      refine hfail ?_
      simp only [next, State.register, hcall, hphase, hsender, Option.bind_eq_bind,
        Option.bind_some, hcapable, if_true]
    | false =>
      have hn : next decode s (.register id) = some { s.setCall id
            { call with phase := .registered k } with
          client := { s.client with pending := id :: s.client.pending } } := by
        simp only [next, State.register, hcall, hphase, hsender, Option.bind_eq_bind,
          Option.bind_some, hcapable, Bool.false_eq_true, if_false]
      have hk : k < s.conns.length := by
        have hattached := h.client.attached k hsender
        simpa [State.generations] using (List.getElem?_eq_some_iff.1 hattached).1
      exact .cons rfl hn (returns_of_registered (getElem?_setCall hcall _) rfl hk)

/-- No call waits for ever. -/
theorem Inv.returns (h : Inv s) (hcall : s.calls[id]? = some call) : Returns decode s id := by
  have hok := h.calls id call hcall
  cases hphase : call.phase with
  | started => exact returns_of_started h hcall hphase
  | registered k => exact returns_of_registered hcall hphase (hok.sender k hphase).1
  | waiting =>
    rcases hok.waiting hphase with ⟨item, hitem, -⟩
    exact returns_of_waiting hcall hphase hitem
  | returned r => exact returns_of_returned hcall hphase
  | done r => exact returns_of_done hcall hphase

end Returned

/-! ## Runs -/

section Runs

variable {s s' : State α}

theorem inv_step {a : Act α} (h : Inv s) (hsafe : safe decode s a = true)
    (hn : (machine decode).next s a = some s') : Inv s' := by
  cases a with
  | connect runtimes =>
    obtain rfl := Option.some.inj hn
    exact h.connect runtimes
  | reprobe =>
    obtain rfl := Option.some.inj hn
    exact h.frame (.of_eq rfl rfl rfl) rfl rfl rfl h.client h.pending h.written
  | heartbeat k => exact h.heartbeat hn
  | pull k => exact h.pull hn
  | beginWrite k => exact h.beginWrite hn
  | writeMessage k ok => exact h.writeMessage hn
  | drain k => exact h.drain hn
  | writerDone k => exact h.writerDone hn
  | tearDown k => exact h.tearDown hn
  | ack k => exact h.ack hn
  | deliver resp =>
    obtain rfl := Option.some.inj hn
    exact h.deliver resp
  | startCall requireRPCV1 encodes =>
    obtain rfl := Option.some.inj hn
    cases encodes <;> exact h.addCall _ rfl rfl rfl rfl
  | register id => exact h.register hn
  | send id => exact h.send hn
  | receive id => exact h.receive hn hsafe
  | timeout id => exact h.timeout hn
  | cancelContext id => exact h.cancelContext hn hsafe
  | unregister id => exact h.unregister hn
  | poll =>
    obtain rfl := Option.some.inj hn
    refine h.setCycles fun cycle hc => ?_
    rcases List.mem_append.1 hc with hold | hnew
    · exact h.cycles cycle hold
    · obtain rfl := List.mem_singleton.1 hnew
      exact ⟨fun _ hi => by simp at hi, fun _ => ⟨rfl, rfl⟩, fun _ hi => by simp at hi,
        fun _ _ hi => by simp at hi⟩
  | checkBatch c => exact h.checkBatch hn
  | checkSupport c => exact h.checkSupport hn
  | decideCall c => exact h.decideCall hn
  | httpAnswer c answer => exact h.httpAnswer hn
  | legacyAnswer c resp => exact h.legacyAnswer hn

/-- In every run in which the body of a 2xx answer can be decoded, and no context ends under a
frame that the writer has begun, a claim is made once. -/
theorem claim_once : ∀ s : State α,
    (machine decode).ReachableUnder (fun s a => safe decode s a = true) s →
      ClaimedOnce decode s := by
  have hinv : ∀ s : State α,
      (machine decode).ReachableUnder (fun s a => safe decode s a = true) s → Inv s := by
    refine Machine.invariant_under ?_ fun s a s' _ h hsafe hn => inv_step h hsafe hn
    rintro s rfl
    exact .init
  intro s hs
  have h := hinv s hs
  refine ⟨fun cycle hc hhttp id hid => ?_, fun k id call hwritten hcall hrequire => ?_,
    fun id call r hcall hdone hpending => ?_,
    fun id call hcall hpending => (h.open_of_pending hcall hpending).2,
    fun a s' hn id call r hcall hdone => ?_, fun id call hcall => ?_⟩
  · have hcycle := h.cycles cycle hc
    rcases hcycle.http hhttp id hid with ⟨call, r, hcall, hdone, hafter⟩
    rcases hcycle.claims id hid with ⟨call', hcall', hrequire⟩
    obtain rfl : call = call' := Option.some.inj (hcall.symm.trans hcall')
    have hok := h.calls id call hcall
    have hresult : call.phase.result = some r := by rw [hdone]; rfl
    rcases hok.accounted r hresult hrequire hafter with hnone | ⟨o, ho, hcanceled⟩ | hanswer
    · -- a frame that was written was queued
      refine .inl fun k hmem => ?_
      rcases (h.written k id hmem).1 with ⟨x, hx, hitem, -⟩
      obtain rfl : call = x := Option.some.inj (hcall.symm.trans hx)
      exact hitem hnone
    · -- and its writer had begun, before it could be cancelled
      refine .inl fun k hmem => ?_
      rcases (h.written k id hmem).2 with ⟨x, o', hx, ho', hsent⟩
      obtain rfl : call = x := Option.some.inj (hcall.symm.trans hx)
      obtain rfl : o = o' := Option.some.inj (ho.symm.trans ho')
      rw [hok.exclusive o ho hcanceled] at hsent
      exact Bool.false_ne_true hsent
    · exact .inr hanswer
  · rcases (h.written k id hwritten).1 with ⟨x, hx, -, hnegotiated⟩
    obtain rfl : call = x := Option.some.inj (hcall.symm.trans hx)
    exact hnegotiated hrequire
  · have hopen := (h.open_of_pending hcall hpending).1
    rw [hdone] at hopen
    exact Bool.false_ne_true hopen
  · exact Returned.step ⟨call, hcall, hdone⟩ hn
  · have hreturns : Returns decode s id := h.returns hcall
    rcases hreturns with ⟨acts, hacts, t, hrun, r, call', hcall', hdone⟩
    exact ⟨acts, hacts, t, hrun, call', r, hcall', hdone⟩

/-- A body with no tasks, and others that are no answer. -/
def decodeEmpty (body : String) : Option (List String) :=
  if body = "\x7b\"tasks\":[]\x7d" then some [] else none

/-- A request is refused, the next one is cancelled in the queue when the connection is lost: both
cycles ask over HTTP. -/
theorem claim_once_refused : ∃ s : State (List String),
    (s.cycles.map (fun cycle => (cycle.call, cycle.http)) = [(some 0, true), (some 1, true)] ∧
      s.written = [(0, 0)]) ∧ ClaimedOnce decodeEmpty s := by
  have hrun := Machine.reachableUnder_of_run (machine decodeEmpty) (safe decodeEmpty) (s := {}) rfl
    [.connect 1, .ack 0, .poll, .checkBatch 0, .checkSupport 0, .register 0, .send 0, .pull 0,
      .beginWrite 0, .writeMessage 0 true, .deliver ⟨0, 503, "", "draining"⟩, .receive 0,
      .unregister 0, .decideCall 0, .poll, .checkBatch 1, .checkSupport 1, .register 1, .send 1,
      .pull 0, .tearDown 0, .tearDown 0, .receive 1, .beginWrite 0, .unregister 1, .decideCall 1]
    (fun s => s.cycles.map (fun cycle => (cycle.call, cycle.http)) =
      [(some 0, true), (some 1, true)] ∧ s.written = [(0, 0)]) (by decide +kernel)
  rcases hrun with ⟨s, hs, hp⟩
  exact ⟨s, of_decide_eq_true hp, claim_once s hs⟩

/-- The server has claimed and answers 200 with a body that cannot be decoded: the cycle claims
again over HTTP. -/
theorem undecodable_claimed_twice : ∃ s : State (List String),
    (machine decodeEmpty).Reachable s ∧
    (s.cycles.map (fun cycle => (cycle.call, cycle.http)) = [(some 0, true)] ∧
      s.written = [(0, 0)] ∧ s.answers = [⟨0, 200, "[]", ""⟩]) ∧ ¬ ClaimedOnce decodeEmpty s := by
  rcases Machine.reachable_of_run (machine decodeEmpty) (s := {}) rfl
    [.connect 1, .ack 0, .poll, .checkBatch 0, .checkSupport 0, .register 0, .send 0, .pull 0,
      .beginWrite 0, .writeMessage 0 true, .deliver ⟨0, 200, "[]", ""⟩, .receive 0, .unregister 0,
      .decideCall 0]
    (fun s => s.cycles.map (fun cycle => (cycle.call, cycle.http)) = [(some 0, true)] ∧
      s.written = [(0, 0)] ∧ s.answers = [⟨0, 200, "[]", ""⟩]) (by decide +kernel)
    with ⟨s, -, hs, hp⟩
  have hstate := of_decide_eq_true hp
  refine ⟨s, hs, hstate, fun hclaimed => ?_⟩
  rcases hstate with ⟨hcycles, hwritten, hanswers⟩
  rcases List.map_eq_cons_iff.1 hcycles with ⟨cycle, rest, hcycle, heq, -⟩
  obtain ⟨hcall, hhttp⟩ := Prod.mk.inj heq
  rcases hclaimed.once cycle (hcycle ▸ List.mem_cons_self) hhttp 0 hcall with hnever |
    ⟨resp, hresp, -, hrefused⟩
  · exact hnever 0 (hwritten ▸ List.mem_cons_self)
  · rw [hanswers] at hresp
    obtain rfl := List.mem_singleton.1 hresp
    exact absurd hrefused (by decide)

end Runs

end Orynx.Daemon
