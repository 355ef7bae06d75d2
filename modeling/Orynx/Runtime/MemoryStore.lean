import Orynx.Runtime.Calls

/-! # The in-memory request stores

`InMemoryLocalSkillListStore`, `InMemoryLocalSkillImportStore`, `InMemoryModelListStore` and
`InMemoryUpdateStore`: a map behind a mutex, where a Redis store has records, a sorted set and an
active key. A call on each of the two is made at the same time, with the same new id.

* `Memory.call`, `redisCall`: the calls, and what they return;
* `stores`: the two stores side by side;
* `smooth`: the calls that do not meet a difference between the two.
-/

namespace Orynx.RuntimeRequest

open Lib

variable {I P O : Type}

/-! ## The store -/

/-- In the order in which the map is next iterated over, which may be any. -/
abbrev Memory (P : Type) := List (Request P)

namespace Memory

def find (m : Memory P) (id : UUID) : Option (Request P) := List.find? (·.id == id) m

def modify (m : Memory P) (id : UUID) (f : Request P → Request P) : Memory P :=
  m.map fun r => if r.id = id then f r else r

def applyTimeouts (κ : Kind I P O) (m : Memory P) (now : Nat) : Memory P :=
  m.map fun r => κ.read r now

def pendingOf (m : Memory P) (runtimeId : UUID) : List (Request P) :=
  m.filter fun r => r.runtimeId == runtimeId && r.status == .pending

def start (m : Memory P) (ids : List UUID) (now : Nat) : Memory P :=
  m.map fun r => if ids.contains r.id then r.claimed now else r

/-- `none` if an update is in progress. -/
def create (κ : Kind I P O) (m : Memory P) (now : Nat) (id runtimeId : UUID) (input : I) :
    Option (Request P) × Memory P :=
  let m := m.filter fun r => decide (now ≤ r.createdAt + κ.retention)
  if κ.exclusive && m.any fun r => r.runtimeId == runtimeId && !r.status.terminal then (none, m)
  else
    let req := κ.request id runtimeId input now
    (some req, m ++ [req])

def get (κ : Kind I P O) (m : Memory P) (now : Nat) (id : UUID) :
    Option (Request P) × Memory P :=
  let m := modify m id fun r => κ.read r now
  (find m id, m)

def oldest : List (Request P) → Option (Request P) → Option (Request P)
  | [], best => best
  | r :: rs, best =>
    oldest rs (if best.all fun b => decide (r.createdAt < b.createdAt) then some r else best)

def popPending (κ : Kind I P O) (m : Memory P) (now : Nat) (runtimeId : UUID) :
    Option (Request P) × Memory P :=
  let m := applyTimeouts κ m now
  match oldest (pendingOf m runtimeId) none with
  | none => (none, m)
  | some r => (some (r.claimed now), start m [r.id] now)

/-- A negative limit is a panic. -/
def popPendingBatch (κ : Kind I P O) (m : Memory P) (now : Nat) (runtimeId : UUID) (limit : Int) :
    Option (List (Request P)) × Memory P :=
  let m := applyTimeouts κ m now
  let pending := (pendingOf m runtimeId).insertionSort fun a b => a.createdAt ≤ b.createdAt
  if limit < 0 then (none, m)
  else
    let reqs := pending.take limit.toNat
    (some (reqs.map fun r => r.claimed now), start m (reqs.map (·.id)) now)

def report (κ : Kind I P O) (m : Memory P) (now : Nat) (id : UUID) (o : O) : Memory P :=
  modify m id fun r => κ.settled o r now

end Memory

/-! ## Calls -/

/-- What a caller gets to see of a request. -/
structure Shown (P : Type) where
  id : UUID
  runtimeId : UUID
  status : Status
  payload : P
  error : String
deriving DecidableEq, Repr

def Request.shown (r : Request P) : Shown P := ⟨r.id, r.runtimeId, r.status, r.payload, r.error⟩

/-- `none` if the call fails. -/
abbrev Reply (P : Type) := Option (List (Shown P))

def Memory.call (κ : Kind I P O) (m : Memory P) (now : Nat) : Call I O → Reply P × Memory P
  | .create id runtimeId input =>
    let (req, m) := m.create κ now id runtimeId input
    (req.map fun r => [r.shown], m)
  | .get id =>
    let (req, m) := m.get κ now id
    (some (req.toList.map Request.shown), m)
  | .popPending runtimeId =>
    let (req, m) := m.popPending κ now runtimeId
    (some (req.toList.map Request.shown), m)
  | .popPendingBatch runtimeId limit =>
    let (reqs, m) := m.popPendingBatch κ now runtimeId limit
    (reqs.map fun rs => rs.map Request.shown, m)
  | .report id o => (some [], m.report κ now id o)

def redisCall (κ : Kind I P O) : Call I O → RedisProg P (Reply P)
  | .create id runtimeId input => do
    let req ← κ.create id runtimeId input
    pure (req.map fun r => [r.shown])
  | .get id => do
    let req ← κ.loadRequest id
    pure (some (req.toList.map Request.shown))
  | .popPending runtimeId => do
    let req ← κ.popPending runtimeId
    pure (some (req.toList.map Request.shown))
  | .popPendingBatch runtimeId limit => do
    let reqs ← κ.popPendingBatch runtimeId limit
    pure (some (reqs.map Request.shown))
  | .report id o => do
    κ.report id o
    pure (some [])

/-! ## Side by side -/

/-- `answers` is history: what the two stores have returned to each call. -/
structure Both (P : Type) where
  redis : Redis P
  memory : Memory P
  answers : List (Reply P × Reply P)

/-- Neighbours change places in the order of iteration. -/
def swapAt {α : Type} : Nat → List α → List α
  | 0, a :: b :: l => b :: a :: l
  | i + 1, a :: l => a :: swapAt i l
  | _, l => l

inductive BothAct (I O : Type) where
  | call (c : Call I O)
  | tick (d : Nat)
  | swap (i : Nat)

def Both.next (κ : Kind I P O) (s : Both P) : BothAct I O → Option (Both P)
  | .call c => (enter c s.redis).map fun redis =>
    let (answer, redis) := (redisCall κ c).run (exec κ) redis
    let (answer', memory) := s.memory.call κ s.redis.now c
    ⟨redis, memory, s.answers ++ [(answer, answer')]⟩
  | .tick d => some { s with redis := { s.redis with now := s.redis.now + d } }
  | .swap i => some { s with memory := swapAt i s.memory }

def stores (κ : Kind I P O) : Machine (Both P) (BothAct I O) where
  Init s := ∃ now, s = ⟨Redis.empty now, [], []⟩
  next s a := s.next κ a

/-! ## Where the two agree -/

/-- No request is older than the retention. -/
def young (κ : Kind I P O) (s : Both P) : BothAct I O → Bool
  | .call _ => s.memory.all fun m => decide (s.redis.now ≤ m.createdAt + κ.retention)
  | _ => true

def Kind.fresh (κ : Kind I P O) (r : Request P) (now : Nat) : Bool :=
  r.status == .pending && !κ.overdue r now

/-- The request behind an entry of the sorted set, if it may be popped. -/
def waiting (κ : Kind I P O) (m : Memory P) (now : Nat) (e : Entry) : Option (Request P) :=
  (m.find e.id).filter fun r => κ.fresh r now

/-- Each of the first so many is less than all that come after it. -/
def leads : Nat → List Nat → Bool
  | 0, _ => true
  | _, [] => true
  | n + 1, t :: ts => ts.all (fun u => decide (t < u)) && leads n ts

/-- The report is a failure, which sets the error. -/
def Kind.fails (κ : Kind I P O) (o : O) (p : P) : Bool :=
  (κ.settle o p "").1 == .failed

/-- The calls of which both stores make the same.

* Not a `Create` of an update while an earlier one of the runtime has its timeout in memory only.
* Not a `Get` of a run that is late for the memory alone, as Redis has lost its start.
* Not a pop that gives up on stale entries, or asks for none at all, or of requests whose queue does
  not tell which is the oldest.
* Not a report on a request whose timeout only one of the stores has noticed, unless it replaces the
  error; nor, on an update, one that comes after its end. -/
def smooth (κ : Kind I P O) (s : Both P) : Call I O → Bool
  | .create _ runtimeId _ => !κ.exclusive || s.memory.all fun m =>
    !(m.runtimeId == runtimeId && m.status == .timeout) ||
      (s.redis.record m.id).all fun r => r.status.terminal
  | .get id => (s.memory.find id).all fun m => (s.redis.record id).all fun r =>
    κ.keepsRunStart || r.status != .running || κ.live m s.redis.now
  | .popPending runtimeId =>
    let entries := s.redis.entries runtimeId
    let queue := entries.filterMap (waiting κ s.memory s.redis.now)
    let seen := (entries.take Kind.redisPopMaxRetries).filterMap (waiting κ s.memory s.redis.now)
    (queue.isEmpty || !seen.isEmpty) && leads 1 (queue.map (·.createdAt))
  | .popPendingBatch runtimeId limit =>
    let entries := s.redis.entries runtimeId
    let queue := entries.filterMap (waiting κ s.memory s.redis.now)
    let seen := (upTo entries (limit - 1)).filterMap (waiting κ s.memory s.redis.now)
    decide (0 ≤ limit) && seen.length == min limit.toNat queue.length &&
      leads limit.toNat (queue.map (·.createdAt))
  | .report id o => (s.memory.find id).all fun m => (s.redis.record id).all fun r =>
    if κ.exclusive then κ.live r s.redis.now
    else κ.fails o m.payload ||
      ((κ.read r s.redis.now).status == .timeout) == (m.status == .timeout)

def meets (κ : Kind I P O) (s : Both P) (a : BothAct I O) : Bool :=
  young κ s a &&
    match a with
    | .call c => smooth κ s c
    | _ => true

end Orynx.RuntimeRequest
