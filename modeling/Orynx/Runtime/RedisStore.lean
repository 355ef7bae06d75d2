import Mathlib.Data.List.Sort
import Mathlib.Algebra.Group.Nat.Defs
import Orynx.Lib.Commands
import Orynx.Runtime.Requests

/-! # The Redis request stores

`RedisLocalSkillListStore`, `RedisLocalSkillImportStore`, `RedisModelListStore` and
`RedisUpdateStore`, as programs of the Redis commands that they send. A command is atomic, a script
or a transaction counts as one, and so does a look at the clock. Commands that fail are left out.

* `exec`: the commands on keys that expire;
* `create`, `loadRequest`, `popPending`, `popPendingBatch`, `settle`: the calls.
-/

namespace Orynx.RuntimeRequest

open Lib

variable {I P O : Type}

/-! ## Commands -/

/-- `zrange` has the last index, which counts from the end if it is negative. -/
inductive Command (P : Type) where
  | now
  | get (id : UUID)
  | set (r : Request P)
  | zrange (runtimeId : UUID) (stop : Int)
  | zrem (runtimeId id : UUID)
  | claimPending (runtimeId id : UUID) (r : Request P)
  | enqueue (r : Request P)
  | reserveActive (runtimeId id : UUID)
  | deleteActiveIf (runtimeId id : UUID)
deriving DecidableEq, Repr

def Answer : Command P → Type
  | .now => Nat
  | .get _ => Option (Request P)
  | .set _ => Unit
  | .zrange _ _ => List UUID
  | .zrem _ _ => Unit
  | .claimPending _ _ _ => Bool
  | .enqueue _ => Unit
  | .reserveActive _ _ => Bool
  | .deleteActiveIf _ _ => Unit

abbrev RedisProg (P α : Type) := Prog (Command P) Answer α

namespace Send

abbrev now : RedisProg P Nat := Prog.issue Command.now
abbrev get (id : UUID) : RedisProg P (Option (Request P)) := Prog.issue (Command.get id)
abbrev set (r : Request P) : RedisProg P Unit := Prog.issue (Command.set r)
abbrev zrange (runtimeId : UUID) (stop : Int) : RedisProg P (List UUID) :=
  Prog.issue (Command.zrange runtimeId stop)
abbrev zrem (runtimeId id : UUID) : RedisProg P Unit := Prog.issue (Command.zrem runtimeId id)
abbrev claimPending (runtimeId id : UUID) (r : Request P) : RedisProg P Bool :=
  Prog.issue (Command.claimPending runtimeId id r)
abbrev enqueue (r : Request P) : RedisProg P Unit := Prog.issue (Command.enqueue r)
abbrev reserveActive (runtimeId id : UUID) : RedisProg P Bool :=
  Prog.issue (Command.reserveActive runtimeId id)
abbrev deleteActiveIf (runtimeId id : UUID) : RedisProg P Unit :=
  Prog.issue (Command.deleteActiveIf runtimeId id)

end Send

/-! ## The server -/

/-- A member of a sorted set. -/
structure Entry where
  score : Nat
  id : UUID
deriving DecidableEq, Repr

/-- By score, then by member. -/
def Entry.le (a b : Entry) : Prop := a.score < b.score ∨ a.score = b.score ∧ a.id ≤ b.id

instance : DecidableRel Entry.le := fun a b =>
  inferInstanceAs (Decidable (a.score < b.score ∨ a.score = b.score ∧ a.id ≤ b.id))

/-- The nearest number with 53 significant bits, of two the even one. -/
def float64 (n : Nat) : Nat :=
  let unit := 2 ^ (Nat.log2 n - 52)
  let below := n / unit
  let up := 2 * (n % unit) > unit || 2 * (n % unit) == unit && below % 2 == 1
  (if up then below + 1 else below) * unit

/-- Keys with the times at which they expire. `created` and `claimed` are history: the ids that
have been handed out for requests, and those that a claim script has returned. -/
structure Redis (P : Type) where
  now : Nat
  records : UUID → Option (Request P × Nat)
  pending : UUID → List Entry × Nat
  active : UUID → Option (UUID × Nat)
  created : List UUID
  claimed : List UUID

namespace Redis

def empty (now : Nat) : Redis P where
  now := now
  records _ := none
  pending _ := ([], 0)
  active _ := none
  created := []
  claimed := []

def alive {α : Type} (s : Redis P) (x : Option (α × Nat)) : Option α :=
  (x.filter fun (_, expiresAt) => decide (s.now ≤ expiresAt)).map fun (a, _) => a

def record (s : Redis P) (id : UUID) : Option (Request P) := s.alive (s.records id)

def activeId (s : Redis P) (runtimeId : UUID) : Option UUID := s.alive (s.active runtimeId)

def entries (s : Redis P) (runtimeId : UUID) : List Entry :=
  if s.now ≤ (s.pending runtimeId).2 then (s.pending runtimeId).1 else []

def setRecord (s : Redis P) (retention : Nat) (id : UUID) (r : Request P) : Redis P :=
  { s with records := fun k => if k = id then some (r, s.now + retention) else s.records k }

def setEntries (s : Redis P) (runtimeId : UUID) (entries : List Entry) (expiresAt : Nat) :
    Redis P :=
  { s with pending := fun k => if k = runtimeId then (entries, expiresAt) else s.pending k }

def removeEntry (s : Redis P) (runtimeId id : UUID) : Redis P :=
  s.setEntries runtimeId ((s.entries runtimeId).filter fun e => e.id != id)
    (s.pending runtimeId).2

def setActive (s : Redis P) (runtimeId : UUID) (x : Option (UUID × Nat)) : Redis P :=
  { s with active := fun k => if k = runtimeId then x else s.active k }

end Redis

/-- The first entries, up to the index. -/
def upTo (entries : List Entry) (stop : Int) : List Entry :=
  if 0 ≤ stop then entries.take (stop.toNat + 1) else entries.take (entries.length + stop + 1).toNat

def exec (κ : Kind I P O) : (c : Command P) → Redis P → Answer c × Redis P
  | .now, s => (s.now, s)
  | .get id, s => (s.record id, s)
  | .set r, s => ((), s.setRecord κ.retention r.id r)
  | .zrange runtimeId stop, s => ((upTo (s.entries runtimeId) stop).map (·.id), s)
  | .zrem runtimeId id, s => ((), s.removeEntry runtimeId id)
  | .claimPending runtimeId id r, s =>
    if (s.entries runtimeId).any (·.id == id) then
      (true, { (s.removeEntry runtimeId id).setRecord κ.retention id r with
        claimed := s.claimed ++ [id] })
    else (false, s)
  | .enqueue r, s =>
    ((), (s.setRecord κ.retention r.id r).setEntries r.runtimeId
      ((s.entries r.runtimeId).orderedInsert Entry.le ⟨float64 r.createdAt, r.id⟩)
      (s.now + κ.retention * 2))
  | .reserveActive runtimeId id, s =>
    if (s.activeId runtimeId).isSome then (false, s)
    else (true, s.setActive runtimeId (some (id, s.now + κ.retention)))
  | .deleteActiveIf runtimeId id, s =>
    ((), if s.activeId runtimeId = some id then s.setActive runtimeId none else s)

section Exec

variable {κ : Kind I P O} {s : Redis P} {runtimeId id : UUID} {r : Request P}

theorem exec_claimPending_won (h : (s.entries runtimeId).any (·.id == id) = true) :
    exec κ (.claimPending runtimeId id r) s =
      (true, { (s.removeEntry runtimeId id).setRecord κ.retention id r with
        claimed := s.claimed ++ [id] }) :=
  if_pos h

theorem exec_claimPending_lost (h : (s.entries runtimeId).any (·.id == id) = false) :
    exec κ (.claimPending runtimeId id r) s = (false, s) :=
  if_neg (Bool.eq_false_iff.1 h)

theorem exec_reserveActive_won (h : (s.activeId runtimeId).isSome = false) :
    exec κ (.reserveActive runtimeId id) s =
      (true, s.setActive runtimeId (some (id, s.now + κ.retention))) :=
  if_neg (Bool.eq_false_iff.1 h)

theorem exec_reserveActive_lost (h : (s.activeId runtimeId).isSome = true) :
    exec κ (.reserveActive runtimeId id) s = (false, s) :=
  if_pos h

theorem exec_deleteActiveIf_hit (h : s.activeId runtimeId = some id) :
    exec κ (.deleteActiveIf runtimeId id) s = ((), s.setActive runtimeId none) :=
  congrArg (Prod.mk ()) (if_pos h)

theorem exec_deleteActiveIf_miss (h : s.activeId runtimeId ≠ some id) :
    exec κ (.deleteActiveIf runtimeId id) s = ((), s) :=
  congrArg (Prod.mk ()) (if_neg h)

end Exec

/-! ## The calls -/

namespace Kind

variable (κ : Kind I P O)

/-- The record as it is stored. -/
def marshal (r : Request P) : Request P :=
  if κ.keepsRunStart then r else { r with runStartedAt := none }

def persist (r : Request P) : RedisProg P Unit := Send.set (κ.marshal r)

/-- The active key of an update is given up, and the request leaves the pending set. -/
def retire (r : Request P) : RedisProg P Unit := do
  (if κ.exclusive then Send.deleteActiveIf r.runtimeId r.id else pure ())
  Send.zrem r.runtimeId r.id

def loadRequest (id : UUID) : RedisProg P (Option (Request P)) := do
  match ← Send.get id with
  | none => pure none
  | some req =>
    let now ← Send.now
    match κ.applyTimeout req now with
    | none => pure (some req)
    | some req =>
      κ.persist req
      κ.retire req
      pure (some req)

/-- `none` if an update is in progress. -/
def create (id runtimeId : UUID) (input : I) : RedisProg P (Option (Request P)) := do
  let now ← Send.now
  let req := κ.request id runtimeId input now
  if κ.exclusive then
    let reserved ← Send.reserveActive runtimeId id
    if reserved then
      Send.enqueue (κ.marshal req)
      pure (some req)
    else pure none
  else
    Send.enqueue (κ.marshal req)
    pure (some req)

/-- What a pop does with the id of a candidate: `none` if the request is not its to return. -/
def claim (runtimeId id : UUID) : RedisProg P (Option (Request P)) := do
  match ← κ.loadRequest id with
  | none =>
    Send.zrem runtimeId id
    pure none
  | some req =>
    if req.status ≠ .pending then
      Send.zrem runtimeId id
      pure none
    else
      let now ← Send.now
      let req := req.claimed now
      let claimed ← Send.claimPending runtimeId id (κ.marshal req)
      pure (if claimed then some req else none)

def popPendingLoop (runtimeId : UUID) : Nat → RedisProg P (Option (Request P))
  | 0 => pure none
  | attempts + 1 => do
    let ids ← Send.zrange runtimeId 0
    match ids with
    | [] => pure none
    | id :: _ =>
      match ← κ.claim runtimeId id with
      | some req => pure (some req)
      | none => popPendingLoop runtimeId attempts

def redisPopMaxRetries : Nat := 5

def popPending (runtimeId : UUID) : RedisProg P (Option (Request P)) :=
  κ.popPendingLoop runtimeId redisPopMaxRetries

def claimAll (runtimeId : UUID) : List UUID → RedisProg P (List (Request P))
  | [] => pure []
  | id :: ids => do
    let req ← κ.claim runtimeId id
    let rest ← claimAll runtimeId ids
    pure (req.toList ++ rest)

def popPendingBatch (runtimeId : UUID) (limit : Int) : RedisProg P (List (Request P)) := do
  let ids ← Send.zrange runtimeId (limit - 1)
  κ.claimAll runtimeId ids

/-- `Complete`, `Fail` and `Conflict`. -/
def report (id : UUID) (o : O) : RedisProg P Unit := do
  match ← κ.loadRequest id with
  | none => pure ()
  | some req =>
    if κ.exclusive && req.status.terminal then pure ()
    else
      let now ← Send.now
      let req := κ.settled o req now
      κ.persist req
      if κ.exclusive then κ.retire req else pure ()

end Kind

end Orynx.RuntimeRequest
