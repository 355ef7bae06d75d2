import Mathlib.Data.List.Basic
import Mathlib.Logic.Function.Basic
import Orynx.Lib.Machine
import Orynx.Lib.Record

/-! # The run debouncer

`server/internal/integrations/channel/engine/batcher.go` and the part of `router.go` that schedules
a run: each message that lands in a session arms a timer anew, and when the session is quiet for a
while the latest flush runs. Callers, timers, flushes and the one call of `FlushAll` take their
steps in any order; what a mutex makes one is one step.
-/

namespace Orynx.Channel

open Lib

/-! ## The parties -/

/-- The closure that `scheduleRun` hands over: whose call it is of, and the `fresh` it captures. -/
structure Flush where
  id : Nat
  fresh : Bool
deriving DecidableEq, Repr

structure PendingEntry where
  timer : Nat
  flush : Flush
  gen : Nat
deriving DecidableEq, Repr

inductive CallPhase where
  | began
  | marked
  | scheduled
deriving DecidableEq, Repr

/-- A call of `scheduleRun`. The generation is none if the batcher had stopped; the round counts the
entries of the key that had been taken before. -/
structure Call where
  key : String
  fresh : Bool
  phase : CallPhase := .began
  gen : Nat := 0
  round : Nat := 0
deriving DecidableEq, Repr

/-- The call has left its closure with the batcher. -/
def Call.batched (c : Call) : Bool := c.phase = .scheduled && c.gen ≠ 0

/-- What `afterFunc` is given: `fire` calls `onFire(key, gen)`. -/
structure Timer where
  key : String
  gen : Nat
deriving DecidableEq, Repr

/-- A timer that has fired has its goroutine in front of the lock of `onFire`. -/
inductive TimerPhase where
  | armed
  | stopped
  | fired
  | done
deriving DecidableEq, Repr

/-- Who runs a flush: the goroutine of a timer, `FlushAll`, or the call itself. -/
inductive Holder where
  | timer
  | drain
  | inline
deriving DecidableEq, Repr

/-- A flush that is bound to be run, with the generation and the round of the entry it was in. -/
structure Run where
  key : String
  flush : Flush
  holder : Holder
  gen : Nat := 0
  round : Nat := 0
deriving DecidableEq, Repr

/-- The closure starts, then takes the mark of its key, then makes the run. -/
inductive RunPhase where
  | waiting
  | started
  | took (fresh : Bool)
  | ended (fresh : Bool)
deriving DecidableEq, Repr

def RunPhase.running : RunPhase → Bool
  | .started | .took _ => true
  | .waiting | .ended _ => false

def RunPhase.over : RunPhase → Bool
  | .ended _ => true
  | .waiting | .started | .took _ => false

/-- The `forceFresh` that the run is made with. -/
def RunPhase.forceFresh : RunPhase → Option Bool
  | .took fresh | .ended fresh => some fresh
  | .waiting | .started => none

inductive Drain where
  | idle
  | flushing
  | returned
deriving DecidableEq, Repr

/-- The batcher and the router's map of marks, with the calls, the timers and the runs so far.
`first` is the first run for the key to start after a call was scheduled, `rounds` counts the
entries of a key that have been taken. -/
structure State where
  pending : Record PendingEntry := .empty
  seq : Nat := 0
  stopped : Bool := false
  inflight : Nat := 0
  pendingFresh : String → Bool := fun _ => false
  calls : List Call := []
  timers : List Timer := []
  timerPhase : Nat → TimerPhase := fun _ => .armed
  runs : List Run := []
  phase : Nat → RunPhase := fun _ => .waiting
  drain : Drain := .idle
  first : Nat → Option Nat := fun _ => none
  rounds : String → Nat := fun _ => 0

/-! ## Steps -/

/-- `Stop` of a timer that has fired does nothing. -/
def stop (timerPhase : Nat → TimerPhase) (j : Nat) : Nat → TimerPhase :=
  if timerPhase j = .armed then Function.update timerPhase j .stopped else timerPhase

/-- The critical section of `Schedule`, in the call `c` at place `i`. -/
def State.Schedule (s : State) (i : Nat) (c : Call) : State :=
  if s.stopped then
    { s with
      calls := s.calls.set i { c with phase := .scheduled }
      runs := s.runs ++ [{ key := c.key, flush := ⟨i, c.fresh⟩, holder := .inline }] }
  else
    let gen := s.seq + 1
    let calls := s.calls.set i { c with phase := .scheduled, gen, round := s.rounds c.key }
    let timers := s.timers ++ [⟨c.key, gen⟩]
    let entry : PendingEntry := ⟨s.timers.length, ⟨i, c.fresh⟩, gen⟩
    match s.pending.get? c.key with
    | some e =>
      { s with
        seq := gen, calls, timers, timerPhase := stop s.timerPhase e.timer
        pending := s.pending.set c.key entry }
    | none => { s with seq := gen, calls, timers, pending := s.pending.set c.key entry }

/-- The critical section of `onFire`, called by the timer at place `j`. -/
def State.onFire (s : State) (j : Nat) (t : Timer) : State :=
  let s := { s with timerPhase := Function.update s.timerPhase j .done }
  match s.pending.get? t.key with
  | none => s
  | some e =>
    if s.stopped || e.gen ≠ t.gen then s
    else
      { s with
        pending := s.pending.erase t.key
        inflight := s.inflight + 1
        runs := s.runs ++ [⟨t.key, e.flush, .timer, e.gen, s.rounds t.key⟩]
        rounds := Function.update s.rounds t.key (s.rounds t.key + 1) }

/-- The critical section of `FlushAll`. -/
def State.FlushAll (s : State) : State :=
  { s with
    stopped := true
    timerPhase := s.pending.entries.foldl (fun p e => stop p e.2.timer) s.timerPhase
    runs := s.runs ++
      s.pending.entries.map fun e => ⟨e.1, e.2.flush, .drain, e.2.gen, s.rounds e.1⟩
    rounds := fun k => if (s.pending.get? k).isSome then s.rounds k + 1 else s.rounds k
    pending := .empty
    drain := .flushing }

/-- The run at place `r` is the first to start for the calls of its key that have been scheduled. -/
def State.firstAfter (s : State) (r : Nat) (run : Run) (i : Nat) : Option Nat :=
  match s.calls[i]? with
  | none => s.first i
  | some c =>
    if c.phase = .scheduled ∧ c.key = run.key ∧ s.first i = none then some r else s.first i

/-- `FlushAll` runs one flush after another. -/
def State.drainBusy (s : State) : Bool :=
  (List.range s.runs.length).any fun r =>
    (s.runs[r]?.any fun run => run.holder = .drain) && (s.phase r).running

/-- All flushes that `FlushAll` runs itself have ended. -/
def State.drained (s : State) : Bool :=
  (List.range s.runs.length).all fun r =>
    (s.runs[r]?.all fun run => run.holder ≠ .drain) || (s.phase r).over

inductive Action where
  | call (key : String) (fresh : Bool)
  | mark (i : Nat)
  | schedule (i : Nat)
  | fire (j : Nat)
  | onFire (j : Nat)
  | flushAll
  | start (r : Nat)
  | take (r : Nat)
  | finish (r : Nat)
  | drainReturns
deriving DecidableEq, Repr

def next (s : State) : Action → Option State
  | .call key fresh => some { s with calls := s.calls ++ [{ key, fresh }] }
  -- markPendingFresh
  | .mark i => do
    let c ← s.calls[i]?
    if c.fresh && c.phase = .began then
      some { s with
        calls := s.calls.set i { c with phase := .marked }
        pendingFresh := Function.update s.pendingFresh c.key true }
    else none
  | .schedule i => do
    let c ← s.calls[i]?
    if c.phase ≠ .scheduled ∧ (c.fresh = true → c.phase = .marked) then some (s.Schedule i c)
    else none
  | .fire j =>
    if j < s.timers.length ∧ s.timerPhase j = .armed then
      some { s with timerPhase := Function.update s.timerPhase j .fired }
    else none
  | .onFire j => do
    let t ← s.timers[j]?
    if s.timerPhase j = .fired then some (s.onFire j t) else none
  | .flushAll => if s.drain = .idle then some s.FlushAll else none
  | .start r => do
    let run ← s.runs[r]?
    if s.phase r = .waiting ∧ (run.holder = .drain → s.drainBusy = false) then
      some { s with phase := Function.update s.phase r .started, first := s.firstAfter r run }
    else none
  -- takePendingFresh
  | .take r => do
    let run ← s.runs[r]?
    if s.phase r = .started then
      some { s with
        phase := Function.update s.phase r (.took (run.flush.fresh || s.pendingFresh run.key))
        pendingFresh := Function.update s.pendingFresh run.key false }
    else none
  | .finish r => do
    let run ← s.runs[r]?
    match s.phase r with
    | .took fresh =>
      some { s with
        phase := Function.update s.phase r (.ended fresh)
        inflight := if run.holder = .timer then s.inflight - 1 else s.inflight }
    | .waiting | .started | .ended _ => none
  | .drainReturns =>
    if s.drain = .flushing ∧ s.drained = true ∧ s.inflight = 0 then
      some { s with drain := .returned }
    else none

/-- The steps that come without a new call. -/
def Action.internal : Action → Bool
  | .call .. | .flushAll => false
  | .mark _ | .schedule _ | .fire _ | .onFire _ | .start _ | .take _ | .finish _
  | .drainReturns => true

def batcher : Machine State Action where
  Init := (· = {})
  next := next

end Orynx.Channel
