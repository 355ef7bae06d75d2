import Orynx.Lib.Machine
import Orynx.Lib.View
import Orynx.Usage.Triggers

/-! # The hourly rollup

`rollup_task_usage_hourly` and `rollup_task_usage_hourly_window` of
`server/migrations/102_task_usage_hourly_pipeline.up.sql`, with the transactions that change usage,
tasks and issues beside them. A transaction sees what is committed and what it has done itself, and
its triggers read that too; `now()` is the time it began. A call of the rollup takes one statement a
step, holds the advisory lock that ticks and backfills share, and what it writes is there for the
next call, but for the rows that a tick inserts: it gives the lock back before it commits, and a
backfill that runs in between does not see them. Row locks, which only delay a statement, and calls
that fail and leave nothing, are left out.

* `covered_run`: a transaction whose triggers read what it commits on covers the buckets it changes;
* `Inv.fresh`: a bucket that is not pending holds what its usage rows give;
* `hourly_converges`: once the watermark is past the last mutation, so does every bucket, in runs in
  which no key is pruned or drained unread, named for another bucket or unseen;
* `rollup_loses`: in runs with one of these the table stays wrong.
-/

namespace Orynx.Usage

open Lib
open Lib.View (Fresh enqueueAll)

abbrev DirtyRow := View.Entry Key

/-! ## Transactions -/

/-- A transaction with its statements and the keys that their triggers have put in the queue. -/
structure Tx where
  startedAt : Int
  statements : List (Mutation × List Key) := []
deriving DecidableEq

/-- The tables with the statements done. -/
def Tables.run (now : Int) : List (Mutation × List Key) → Tables → Option Tables
  | [], T => some T
  | (m, _) :: statements, T => (T.apply now m).bind (run now statements)

/-- The triggers would name no other key on these tables. -/
def Tables.namesAll (now : Int) : List (Mutation × List Key) → Tables → Bool
  | [], _ => true
  | (m, keys) :: statements, T =>
    ((T.triggered m).all fun k => keys.contains k) &&
      (T.apply now m).all (namesAll now statements)

def Tx.enqueued (tx : Tx) : List Key := tx.statements.flatMap Prod.snd

def Tx.add (tx : Tx) (m : Mutation) (keys : List Key) : Tx :=
  { tx with statements := tx.statements ++ [(m, keys)] }

/-! ## Calls -/

inductive Caller where
  | tick
  | backfill
deriving DecidableEq, Repr

/-- The next statement of a call. -/
inductive Phase where
  | read
  | window
  | drain
  | mark
deriving DecidableEq, Repr

structure Call where
  caller : Caller
  startedAt : Int
  pFrom : Int := 0
  pTo : Int := 0
  phase : Phase
  inserted : List Key := []
  drained : List DirtyRow := []
deriving DecidableEq

def Call.tick (now : Int) : Call := { caller := .tick, startedAt := now, phase := .read }

def Call.backfill (now pFrom pTo : Int) : Call where
  caller := .backfill
  startedAt := now
  pFrom := pFrom
  pTo := pTo
  phase := .window

structure State where
  now : Int
  tables : Tables
  txs : List Tx
  dirty : List DirtyRow
  /-- `task_usage_hourly`, which has at most one row a key. -/
  hourly : Key → Option Totals
  watermark : Int
  /-- The call that holds the lock. -/
  call : Option Call
  /-- The tick that has given the lock back and is yet to prune and commit. -/
  unlocked : Option Call
  /-- The time of the last commit; this is history. -/
  lastMutation : Int

inductive Act where
  | pass (now : Int)
  | start
  | exec (i : Nat) (m : Mutation)
  | commit (i : Nat)
  | rollback (i : Nat)
  | tick
  | backfill (pFrom pTo : Int)
  | step
  | prune
deriving DecidableEq

namespace State

/-! ## The window function -/

def dirtyFromUpdates (s : State) (pFrom pTo : Int) : List Key :=
  (s.tables.usage.rows.filter fun u =>
    decide (pFrom ≤ u.touchedAt) && decide (u.touchedAt < pTo)).filterMap s.tables.bucket

/-- The queue; the rows that an uncommitted tick has drained are still in it. -/
def dirtyFromQueue (s : State) (pTo : Int) : List Key :=
  ((s.dirty ++ (s.unlocked.elim [] Call.drained)).filter fun r =>
    decide (r.enqueuedAt < pTo)).map View.Entry.key

def dirtyKeys (s : State) (c : Call) : List Key :=
  s.dirtyFromUpdates c.pFrom c.pTo ++ s.dirtyFromQueue c.pTo

/-- The rows that an uncommitted tick has inserted. -/
def hidden (s : State) : List Key := s.unlocked.elim [] Call.inserted

/-- `upserted` and `deleted_empty`. -/
def window (s : State) (c : Call) : State :=
  let keys := s.dirtyKeys c
  { s with
    hourly := fun k =>
      if k ∈ keys then
        (s.tables.recomputed k).or (if k ∈ s.hidden then s.hourly k else none)
      else s.hourly k
    call := some { c with
      phase := .drain
      inserted := keys.filter fun k => (s.hourly k).isNone && (s.tables.recomputed k).isSome } }

def drain (s : State) (c : Call) : State :=
  { s with
    dirty := s.dirty.filter fun r => !decide (r.enqueuedAt < c.pTo)
    call :=
      match c.caller with
      | .tick => some { c with
          phase := .mark
          drained := s.dirty.filter fun r => decide (r.enqueuedAt < c.pTo) }
      | .backfill => none }

/-! ## The tick -/

/-- A tick reads the watermark; the row is locked until the tick before it commits. -/
def read (s : State) (c : Call) : Option State :=
  let c := { c with
    pFrom := s.watermark
    pTo := min (c.startedAt - 5 * minute) (s.watermark + day) }
  if s.unlocked.isSome then none
  else if c.pFrom < c.pTo then some { s with call := some { c with phase := .window } }
  else some { s with call := none, unlocked := some c }

def mark (s : State) (c : Call) : State :=
  { s with watermark := c.pTo, call := none, unlocked := some c }

/-- `prune_task_usage_hourly_dirty`. -/
def prune (s : State) (c : Call) : State :=
  { s with
    dirty := s.dirty.filter fun r => !decide (r.enqueuedAt < c.startedAt - 7 * day)
    unlocked := none }

end State

def next (s : State) : Act → Option State
  | .pass now => if s.now ≤ now then some { s with now := now } else none
  | .start => some { s with txs := s.txs ++ [{ startedAt := s.now }] }
  | .exec i m =>
    (s.txs[i]?).bind fun tx =>
      (s.tables.run tx.startedAt tx.statements).bind fun T =>
        (T.apply tx.startedAt m).map fun _ =>
          { s with txs := s.txs.set i (tx.add m (T.triggered m)) }
  | .commit i =>
    (s.txs[i]?).bind fun tx =>
      (s.tables.run tx.startedAt tx.statements).map fun T =>
        { s with
          tables := T
          dirty := enqueueAll tx.startedAt s.dirty tx.enqueued
          txs := s.txs.eraseIdx i
          lastMutation := s.now }
  | .rollback i => some { s with txs := s.txs.eraseIdx i }
  | .tick =>
    -- a tick that does not get the lock returns
    if s.call.isSome then some s
    else some { s with call := some (.tick s.now) }
  | .backfill pFrom pTo =>
    if s.call.isSome then none
    else if pTo ≤ pFrom then some s
    else some { s with call := some (.backfill s.now pFrom pTo) }
  | .step =>
    s.call.bind fun c =>
      match c.phase with
      | .read => s.read c
      | .window => some (s.window c)
      | .drain => some (s.drain c)
      | .mark => some (s.mark c)
  | .prune => s.unlocked.map s.prune

/-- The tables before the first call: usage has been written, and nothing rolled up. -/
structure State.Initial (s : State) : Prop where
  linked : s.tables.Linked
  txs : s.txs = []
  dirty : s.dirty = []
  hourly : ∀ k, s.hourly k = none
  watermark : s.watermark = 0
  call : s.call = none
  unlocked : s.unlocked = none
  usage : ∀ u ∈ s.tables.usage.rows, 0 ≤ u.touchedAt ∧ u.touchedAt ≤ s.lastMutation
  last : s.lastMutation ≤ s.now
  now : 5 * minute ≤ s.now

def machine : Machine State Act where
  Init := State.Initial
  next := next

/-! ## The property -/

/-- A transaction takes less than five minutes. -/
def short (s : State) : Act → Bool
  | .commit i => (s.txs[i]?).all fun tx => decide (s.now - tx.startedAt < 5 * minute)
  | _ => true

/-- No key is lost: the triggers have named what they would name at the commit; no key is put in the
queue below a window's end between its recomputation and its drain; no row that a window should
delete is unseen; and nothing in the queue is a week old when a tick prunes. -/
def losesNone (s : State) : Act → Bool
  | .commit i =>
    (s.txs[i]?).all fun tx =>
      s.tables.namesAll tx.startedAt tx.statements &&
        (tx.enqueued.isEmpty ||
          s.call.all fun c => !(c.phase == .drain && decide (tx.startedAt < c.pTo)))
  | .step =>
    s.call.all fun c => c.phase != .window ||
      s.hidden.all fun k => !(s.dirtyKeys c).contains k || !(s.tables.rowsOf k).isEmpty
  | .prune =>
    s.unlocked.all fun c => s.dirty.all fun r => !decide (r.enqueuedAt < c.startedAt - 7 * day)
  | _ => true

/-- Each bucket has the totals of its usage rows, and there are no others. -/
def State.Converged (s : State) : Prop := ∀ k, s.hourly k = s.tables.recomputed k

/-! ## What is pending -/

/-- A tick that is past its window. -/
def Call.passed (c : Call) : Bool := c.caller == .tick && (c.phase == .drain || c.phase == .mark)

namespace State

/-- Rows from this time on will be in the window of a tick. -/
def front (s : State) : Int :=
  match s.call with
  | none => s.watermark
  | some c => if c.passed then c.pTo else s.watermark

/-- The row will be read before it is drained. -/
def Undrained (s : State) (r : DirtyRow) : Prop :=
  ∀ c, s.call = some c → c.phase = .drain → c.pTo ≤ r.enqueuedAt

def Pending (s : State) (k : Key) : Prop :=
  (∃ r ∈ s.dirty, r.key = k ∧ s.Undrained r) ∨ ∃ u ∈ s.tables.rowsOf k, s.front ≤ u.touchedAt

end State

/-- What holds of the call with the lock. -/
structure Call.Sound (s : State) (c : Call) : Prop where
  started : c.startedAt ≤ s.now
  tick : c.caller = .tick → c.phase ≠ .read →
    c.pFrom = s.watermark ∧ c.pFrom < c.pTo ∧ c.pTo ≤ c.startedAt - 5 * minute
  backfill : c.caller = .backfill → c.phase = .window ∨ c.phase = .drain
  mark : c.phase = .mark → ∀ r ∈ s.dirty, c.pTo ≤ r.enqueuedAt

structure Inv (s : State) : Prop where
  linked : s.tables.Linked
  late : s.watermark ≤ s.now - 5 * minute
  last : s.lastMutation ≤ s.now
  begun : ∀ tx ∈ s.txs, tx.startedAt ≤ s.now
  usage : ∀ u ∈ s.tables.usage.rows, u.touchedAt ≤ s.lastMutation
  queue : ∀ r ∈ s.dirty, s.watermark ≤ r.enqueuedAt ∧ r.enqueuedAt ≤ s.lastMutation
  sound : ∀ c, s.call = some c → c.Sound s
  fresh : Fresh s.hourly s.tables.recomputed s.Pending

section Runs

variable {s s' : State} {T T' : Tables} {now : Int} {k : Key} {c : Call} {tx : Tx}
  {statements : List (Mutation × List Key)}

/-! ## Commits -/

theorem linked_run (hlinked : T.Linked) (h : T.run now statements = some T') : T'.Linked := by
  induction statements generalizing T with
  | nil =>
    obtain rfl := Option.some.inj h
    exact hlinked
  | cons st statements ih =>
    rcases Option.bind_eq_some_iff.1 h with ⟨T₁, happly, hrun⟩
    exact ih (Tables.linked_apply hlinked happly) hrun

theorem touched_run {u : TaskUsage} (h : T.run now statements = some T')
    (hu : u ∈ T'.usage.rows) : u.touchedAt = now ∨ u ∈ T.usage.rows := by
  induction statements generalizing T with
  | nil =>
    obtain rfl := Option.some.inj h
    exact .inr hu
  | cons st statements ih =>
    rcases Option.bind_eq_some_iff.1 h with ⟨T₁, happly, hrun⟩
    exact (ih hrun).elim .inl (Tables.touched_apply happly)

/-- A transaction whose triggers have named what they name on the tables it commits on covers the
buckets that it changes. -/
theorem covered_run (hlinked : T.Linked) (h : T.run now statements = some T')
    (hnames : T.namesAll now statements = true) (k : Key) :
    T.Covers T' now (statements.flatMap Prod.snd) k := by
  induction statements generalizing T with
  | nil =>
    obtain rfl := Option.some.inj h
    exact .inr (.inl rfl)
  | cons st statements ih =>
    rcases st with ⟨m, keys⟩
    rcases Option.bind_eq_some_iff.1 h with ⟨T₁, happly, hrun⟩
    have happly : T.apply now m = some T₁ := happly
    rw [Tables.namesAll, Bool.and_eq_true, List.all_eq_true, happly, Option.all_some] at hnames
    have hrest := ih (Tables.linked_apply hlinked happly) hrun hnames.2
    rw [List.flatMap_cons]
    rcases hrest with hk | hrows | htouched
    · exact .inl (List.mem_append_right _ hk)
    · rcases Tables.covered hlinked happly k with hk | hrows₁ | ⟨u, hu, htouched⟩
      · exact .inl (List.mem_append_left _ (List.contains_iff_mem.1 (hnames.1 k hk)))
      · exact .inr (.inl (hrows.trans hrows₁))
      · exact .inr (.inr ⟨u, hrows ▸ hu, htouched⟩)
    · exact .inr (.inr htouched)

theorem passed_eq_true :
    c.passed = true ↔ c.caller = .tick ∧ (c.phase = .drain ∨ c.phase = .mark) := by
  rw [Call.passed, Bool.and_eq_true, Bool.or_eq_true, beq_iff_eq, beq_iff_eq, beq_iff_eq]

theorem Call.Sound.caller_eq_tick (h : c.Sound s) (hmark : c.phase = .mark) : c.caller = .tick := by
  cases hcaller : c.caller with
  | tick => rfl
  | backfill =>
    rcases h.backfill hcaller with hp | hp
    · cases hp.symm.trans hmark
    · cases hp.symm.trans hmark

theorem Call.Sound.pTo_le (h : c.Sound s) (hpassed : c.passed = true) :
    c.pTo ≤ s.now - 5 * minute := by
  rcases passed_eq_true.1 hpassed with ⟨htick, hphase⟩
  have hne : c.phase ≠ .read := by
    rcases hphase with hp | hp
    · simp [hp]
    · simp [hp]
  have hle := (h.tick htick hne).2.2
  have hstarted := h.started
  omega

theorem front_le (hinv : Inv s) : s.front ≤ s.now - 5 * minute := by
  rw [State.front]
  split
  · exact hinv.late
  · rename_i c hcall
    split
    · rename_i hpassed
      exact (hinv.sound c hcall).pTo_le hpassed
    · exact hinv.late

/-- The rows that a transaction writes and the keys that it enqueues are pending. -/
theorem pending_commit (hinv : Inv s) {i : Nat}
    (hrun : s.tables.run tx.startedAt tx.statements = some T)
    (hshort : s.now - tx.startedAt < 5 * minute)
    (hnames : s.tables.namesAll tx.startedAt tx.statements = true)
    (hdrain : ∀ c, s.call = some c → c.phase = .drain → tx.enqueued ≠ [] → c.pTo ≤ tx.startedAt) :
    Fresh s.hourly T.recomputed (State.Pending { s with
      tables := T
      dirty := enqueueAll tx.startedAt s.dirty tx.enqueued
      txs := s.txs.eraseIdx i
      lastMutation := s.now }) := by
  refine hinv.fresh.change fun k => ?_
  rcases covered_run hinv.linked hrun hnames k with hk | hrows | ⟨u, hu, htouched⟩
  · refine .inl (.inl ?_)
    rcases View.mem_enqueueAll (q := s.dirty) tx.startedAt hk with ⟨e, he, hkey, hle⟩
    refine ⟨e, he, hkey, fun c hc hphase => ?_⟩
    exact Int.le_trans (hdrain c hc hphase (List.ne_nil_of_mem hk)) hle
  · refine .inr ⟨congrArg totals hrows, ?_⟩
    rintro (⟨r, hr, hkey, hundrained⟩ | ⟨u, hu, hfront⟩)
    · rcases View.enqueueAll_keeps tx.startedAt tx.enqueued hr with ⟨e, he, hkey', hle⟩
      refine .inl ⟨e, he, hkey'.trans hkey, fun c hc hphase => ?_⟩
      exact Int.le_trans (hundrained c hc hphase) hle
    · exact .inr ⟨u, hrows ▸ hu, hfront⟩
  · -- what the transaction writes is behind no window of a tick
    refine .inl (.inr ⟨u, hu, ?_⟩)
    have hfront := front_le hinv
    rw [htouched]
    exact Int.le_trans hfront (by omega)

theorem inv_commit (hinv : Inv s) {i : Nat} (htx : s.txs[i]? = some tx)
    (hrun : s.tables.run tx.startedAt tx.statements = some T)
    (hshort : s.now - tx.startedAt < 5 * minute)
    (hnames : s.tables.namesAll tx.startedAt tx.statements = true)
    (hdrain : ∀ c, s.call = some c → c.phase = .drain → tx.enqueued ≠ [] → c.pTo ≤ tx.startedAt) :
    Inv { s with
      tables := T
      dirty := enqueueAll tx.startedAt s.dirty tx.enqueued
      txs := s.txs.eraseIdx i
      lastMutation := s.now } where
  linked := linked_run hinv.linked hrun
  late := hinv.late
  last := Int.le_refl _
  begun t ht := hinv.begun t (List.mem_of_mem_eraseIdx ht)
  usage u hu := by
    rcases touched_run hrun hu with htouched | hu
    · rw [htouched]
      exact hinv.begun tx (List.mem_of_getElem? htx)
    · exact Int.le_trans (hinv.usage u hu) hinv.last
  queue := by
    have hlate := hinv.late
    have hbegun := hinv.begun tx (List.mem_of_getElem? htx)
    have hstarted : s.watermark ≤ tx.startedAt ∧ tx.startedAt ≤ s.now := ⟨by omega, hbegun⟩
    refine View.forall_enqueueAll (p := fun t => s.watermark ≤ t ∧ t ≤ s.now) hstarted ?_
      tx.enqueued
    exact fun r hr => ⟨(hinv.queue r hr).1, Int.le_trans (hinv.queue r hr).2 hinv.last⟩
  sound c hc := by
    have hsound := hinv.sound c hc
    refine ⟨hsound.started, hsound.tick, hsound.backfill, fun hmark => ?_⟩
    refine View.forall_enqueueAll ?_ (hsound.mark hmark) tx.enqueued
    have hle := hsound.pTo_le (passed_eq_true.2 ⟨hsound.caller_eq_tick hmark, .inr hmark⟩)
    omega
  fresh := pending_commit hinv hrun hshort hnames hdrain

/-! ## Calls and their statements -/

theorem not_passed (h : c.phase = .read ∨ c.phase = .window) : c.passed = false := by
  rw [Bool.eq_false_iff]
  intro hpassed
  rcases passed_eq_true.1 hpassed with ⟨-, hp | hp⟩
  · simp [hp] at h
  · simp [hp] at h

theorem front_of_none (h : s.call = none) : s.front = s.watermark := by
  rw [State.front, h]

theorem front_of_not_passed (hcall : s.call = some c) (h : c.passed = false) :
    s.front = s.watermark := by
  rw [State.front, hcall]
  simp only [h, Bool.false_eq_true, if_false]

theorem front_of_passed (hcall : s.call = some c) (h : c.passed = true) : s.front = c.pTo := by
  rw [State.front, hcall]
  simp only [h, if_true]

theorem inv_pass (hinv : Inv s) (hle : s.now ≤ now) : Inv { s with now := now } where
  linked := hinv.linked
  late := by
    have hlate := hinv.late
    show s.watermark ≤ now - 5 * minute
    omega
  last := Int.le_trans hinv.last hle
  begun tx htx := Int.le_trans (hinv.begun tx htx) hle
  usage := hinv.usage
  queue := hinv.queue
  sound c hc := by
    have hsound := hinv.sound c hc
    exact ⟨Int.le_trans hsound.started hle, hsound.tick, hsound.backfill, hsound.mark⟩
  fresh := hinv.fresh

theorem inv_txs (hinv : Inv s) {txs : List Tx} (hbegun : ∀ tx ∈ txs, tx.startedAt ≤ s.now) :
    Inv { s with txs := txs } where
  linked := hinv.linked
  late := hinv.late
  last := hinv.last
  begun := hbegun
  usage := hinv.usage
  queue := hinv.queue
  sound c hc := by
    have hsound := hinv.sound c hc
    exact ⟨hsound.started, hsound.tick, hsound.backfill, hsound.mark⟩
  fresh := hinv.fresh

/-- A call that has not come to its window yet leaves what is pending. -/
theorem inv_call (hinv : Inv s) (hfront : s.front = s.watermark) (hsound : c.Sound s)
    (hphase : c.phase = .read ∨ c.phase = .window) : Inv { s with call := some c } where
  linked := hinv.linked
  late := hinv.late
  last := hinv.last
  begun := hinv.begun
  usage := hinv.usage
  queue := hinv.queue
  sound c' hc' := by
    obtain rfl := Option.some.inj hc'
    exact ⟨hsound.started, hsound.tick, hsound.backfill, hsound.mark⟩
  fresh := by
    refine hinv.fresh.mono fun k => ?_
    rintro (⟨r, hr, hkey, -⟩ | ⟨u, hu, hle⟩)
    · refine .inl ⟨r, hr, hkey, fun c' hc' hdrain => ?_⟩
      obtain rfl := Option.some.inj hc'
      simp [hdrain] at hphase
    · refine .inr ⟨u, hu, ?_⟩
      rw [front_of_not_passed rfl (not_passed hphase)]
      exact hfront ▸ hle

/-- A call ends without a window behind it. -/
theorem inv_end (hinv : Inv s) (hfront : s.front = s.watermark) (unlocked : Option Call) :
    Inv { s with call := none, unlocked := unlocked } where
  linked := hinv.linked
  late := hinv.late
  last := hinv.last
  begun := hinv.begun
  usage := hinv.usage
  queue := hinv.queue
  sound _ hc := by cases hc
  fresh := by
    refine hinv.fresh.mono fun k => ?_
    rintro (⟨r, hr, hkey, -⟩ | ⟨u, hu, hle⟩)
    · exact .inl ⟨r, hr, hkey, fun _ hc => by cases hc⟩
    · refine .inr ⟨u, hu, ?_⟩
      rw [front_of_none rfl]
      exact hfront ▸ hle

theorem inv_read (hinv : Inv s) (hcall : s.call = some c) (hphase : c.phase = .read)
    (h : s.read c = some s') : Inv s' := by
  have hsound := hinv.sound c hcall
  have hfront := front_of_not_passed hcall (not_passed (.inl hphase))
  simp only [State.read] at h
  split at h
  · cases h
  · split at h
    · rename_i hlt
      obtain rfl := Option.some.inj h
      refine inv_call hinv hfront
        ⟨hsound.started, fun _ _ => ⟨rfl, hlt, Int.min_le_left _ _⟩, ?_, ?_⟩ (.inr rfl)
      · exact fun _ => .inl rfl
      · exact fun hmark => by cases hmark
    · obtain rfl := Option.some.inj h
      exact inv_end hinv hfront _

/-- The window reads what is queued below its end. -/
theorem mem_dirtyFromQueue {r : DirtyRow} {pTo : Int} (hr : r ∈ s.dirty)
    (hlt : r.enqueuedAt < pTo) : r.key ∈ s.dirtyFromQueue pTo :=
  List.mem_map_of_mem (List.mem_filter.2 ⟨List.mem_append_left _ hr, decide_eq_true hlt⟩)

/-- The window reads what has been written since the watermark. -/
theorem mem_dirtyFromUpdates {u : TaskUsage} {pFrom pTo : Int} (hu : u ∈ s.tables.rowsOf k)
    (hle : pFrom ≤ u.touchedAt) (hlt : u.touchedAt < pTo) : k ∈ s.dirtyFromUpdates pFrom pTo := by
  rcases Tables.mem_rowsOf.1 hu with ⟨hmem, hbucket⟩
  refine List.mem_filterMap.2 ⟨u, List.mem_filter.2 ⟨hmem, ?_⟩, hbucket⟩
  rw [decide_eq_true hle, decide_eq_true hlt]
  rfl

theorem totals_eq_none {rows : List TaskUsage} : totals rows = none ↔ rows = [] := by
  rw [totals]
  cases rows with
  | nil => simp
  | cons u rows => simp

/-- A bucket that the window reads has what its rows give. -/
theorem window_hourly (hseen : ∀ k ∈ s.hidden, k ∈ s.dirtyKeys c → s.tables.rowsOf k ≠ [])
    (hk : k ∈ s.dirtyKeys c) : (s.window c).hourly k = s.tables.recomputed k := by
  simp only [State.window, if_pos hk]
  cases htotals : s.tables.recomputed k with
  | some t => rfl
  | none =>
    rw [Option.none_or, if_neg]
    exact fun hhidden => hseen k hhidden hk (totals_eq_none.1 htotals)

/-- What is pending at a window is in it, or is pending behind it. -/
theorem pending_window (hinv : Inv s) (hcall : s.call = some c) (hphase : c.phase = .window)
    (hpending : s.Pending k) : k ∈ s.dirtyKeys c ∨ (s.window c).Pending k := by
  have hsound := hinv.sound c hcall
  rcases hpending with ⟨r, hr, rfl, -⟩ | ⟨u, hu, hle⟩
  · by_cases hlt : r.enqueuedAt < c.pTo
    · exact .inl (List.mem_append_right _ (mem_dirtyFromQueue hr hlt))
    · refine .inr (.inl ⟨r, hr, rfl, fun c' hc' _ => ?_⟩)
      obtain rfl := Option.some.inj hc'
      exact Int.not_lt.1 hlt
  · rw [front_of_not_passed hcall (not_passed (.inr hphase))] at hle
    cases hcaller : c.caller with
    | tick =>
      -- a tick's window begins at the watermark
      rcases hsound.tick hcaller (by simp [hphase]) with ⟨hfrom, -⟩
      by_cases hlt : u.touchedAt < c.pTo
      · exact .inl (List.mem_append_left _ (mem_dirtyFromUpdates hu (hfrom ▸ hle) hlt))
      · refine .inr (.inr ⟨u, hu, ?_⟩)
        simpa [State.front, State.window, Call.passed, hcaller] using hlt
    | backfill =>
      refine .inr (.inr ⟨u, hu, ?_⟩)
      simpa [State.front, State.window, Call.passed, hcaller] using hle

theorem inv_window (hinv : Inv s) (hcall : s.call = some c) (hphase : c.phase = .window)
    (hseen : ∀ k ∈ s.hidden, k ∈ s.dirtyKeys c → s.tables.rowsOf k ≠ []) : Inv (s.window c) where
  linked := hinv.linked
  late := hinv.late
  last := hinv.last
  begun := hinv.begun
  usage := hinv.usage
  queue := hinv.queue
  sound c' hc' := by
    have hsound := hinv.sound c hcall
    obtain rfl := Option.some.inj hc'
    refine ⟨hsound.started, fun htick _ => hsound.tick htick (by simp [hphase]), ?_, ?_⟩
    · exact fun _ => .inr rfl
    · exact fun hmark => by cases hmark
  fresh := by
    refine hinv.fresh.recompute (· ∈ s.dirtyKeys c) ?_ ?_ ?_
    · exact fun k hk => window_hourly hseen hk
    · exact fun k hk => if_neg hk
    · exact fun k hpending => pending_window hinv hcall hphase hpending

theorem inv_drain (hinv : Inv s) (hcall : s.call = some c) (hphase : c.phase = .drain) :
    Inv (s.drain c) where
  linked := hinv.linked
  late := hinv.late
  last := hinv.last
  begun := hinv.begun
  usage := hinv.usage
  queue r hr := hinv.queue r (List.mem_filter.1 hr).1
  sound c' hc' := by
    have hsound := hinv.sound c hcall
    cases hcaller : c.caller with
    | tick =>
      simp only [State.drain, hcaller] at hc'
      obtain rfl := Option.some.inj hc'
      refine ⟨hsound.started, fun _ _ => hsound.tick hcaller (by simp [hphase]), ?_, ?_⟩
      · exact fun hback => by cases hback
      · intro _ r hr
        simpa using (List.mem_filter.1 hr).2
    | backfill =>
      simp only [State.drain, hcaller] at hc'
      cases hc'
  fresh := by
    refine hinv.fresh.mono fun k => ?_
    rintro (⟨r, hr, hkey, hundrained⟩ | ⟨u, hu, hle⟩)
    · refine .inl ⟨r, List.mem_filter.2 ⟨hr, ?_⟩, hkey, ?_⟩
      · simpa using hundrained c hcall hphase
      · intro c' hc' hdrain
        cases hcaller : c.caller with
        | tick =>
          simp only [State.drain, hcaller] at hc'
          obtain rfl := Option.some.inj hc'
          cases hdrain
        | backfill =>
          simp only [State.drain, hcaller] at hc'
          cases hc'
    · refine .inr ⟨u, hu, ?_⟩
      cases hcaller : c.caller with
      | tick =>
        rw [front_of_passed hcall (passed_eq_true.2 ⟨hcaller, .inl hphase⟩)] at hle
        simpa [State.front, State.drain, hcaller, Call.passed] using hle
      | backfill =>
        rw [front_of_not_passed hcall (by simp [Call.passed, hcaller])] at hle
        simpa [State.front, State.drain, hcaller] using hle

theorem inv_mark (hinv : Inv s) (hcall : s.call = some c) (hphase : c.phase = .mark) :
    Inv (s.mark c) where
  linked := hinv.linked
  late := by
    have hsound := hinv.sound c hcall
    exact hsound.pTo_le (passed_eq_true.2 ⟨hsound.caller_eq_tick hphase, .inr hphase⟩)
  last := hinv.last
  begun := hinv.begun
  usage := hinv.usage
  queue r hr := ⟨(hinv.sound c hcall).mark hphase r hr, (hinv.queue r hr).2⟩
  sound _ hc := by cases hc
  fresh := by
    have hpassed := passed_eq_true.2 ⟨(hinv.sound c hcall).caller_eq_tick hphase, .inr hphase⟩
    refine hinv.fresh.mono fun k => ?_
    rintro (⟨r, hr, hkey, -⟩ | ⟨u, hu, hle⟩)
    · exact .inl ⟨r, hr, hkey, fun _ hc => by cases hc⟩
    · refine .inr ⟨u, hu, ?_⟩
      rw [front_of_passed hcall hpassed] at hle
      exact hle

/-- A prune that finds nothing old leaves the queue. -/
theorem inv_prune (hinv : Inv s)
    (hyoung : ∀ r ∈ s.dirty, ¬ r.enqueuedAt < c.startedAt - 7 * day) : Inv (s.prune c) := by
  have hsame : s.dirty.filter (fun r => !decide (r.enqueuedAt < c.startedAt - 7 * day)) =
      s.dirty :=
    List.filter_eq_self.2 fun r hr => by simpa using hyoung r hr
  have hprune : s.prune c = { s with unlocked := none } := by
    rw [State.prune, hsame]
  rw [hprune]
  refine ⟨hinv.linked, hinv.late, hinv.last, hinv.begun, hinv.usage, hinv.queue, fun c' hc' => ?_,
    hinv.fresh⟩
  have hsound := hinv.sound c' hc'
  exact ⟨hsound.started, hsound.tick, hsound.backfill, hsound.mark⟩

/-! ## Runs -/

theorem inv_step (hinv : Inv s) (hcall : s.call = some c) (hloses : losesNone s .step = true)
    (h : next s .step = some s') : Inv s' := by
  rw [next, hcall, Option.bind_some] at h
  cases hphase : c.phase with
  | read =>
    rw [hphase] at h
    exact inv_read hinv hcall hphase h
  | window =>
    rw [hphase] at h
    obtain rfl := Option.some.inj h
    refine inv_window hinv hcall hphase fun k hk hkeys hnone => ?_
    rw [losesNone, hcall, Option.all_some, hphase] at hloses
    simp only [bne_self_eq_false, Bool.false_or, List.all_eq_true] at hloses
    simpa [hkeys, hnone] using hloses k hk
  | drain =>
    rw [hphase] at h
    obtain rfl := Option.some.inj h
    exact inv_drain hinv hcall hphase
  | mark =>
    rw [hphase] at h
    obtain rfl := Option.some.inj h
    exact inv_mark hinv hcall hphase

theorem inv_next (hinv : Inv s) {a : Act} (hshort : short s a = true)
    (hloses : losesNone s a = true) (h : next s a = some s') : Inv s' := by
  cases a with
  | pass now =>
    rw [next, Option.ite_none_right_eq_some] at h
    obtain rfl := Option.some.inj h.2
    exact inv_pass hinv h.1
  | start =>
    obtain rfl := Option.some.inj h
    refine inv_txs hinv fun tx htx => ?_
    rcases List.mem_append.1 htx with htx | htx
    · exact hinv.begun tx htx
    · exact Int.le_of_eq (congrArg Tx.startedAt (List.mem_singleton.1 htx))
  | exec i m =>
    rcases Option.bind_eq_some_iff.1 h with ⟨tx, htx, h⟩
    rcases Option.bind_eq_some_iff.1 h with ⟨T, -, h⟩
    rcases Option.map_eq_some_iff.1 h with ⟨T', -, rfl⟩
    refine inv_txs hinv fun tx' htx' => ?_
    rcases List.mem_or_eq_of_mem_set htx' with htx' | rfl
    · exact hinv.begun tx' htx'
    · exact hinv.begun tx (List.mem_of_getElem? htx)
  | commit i =>
    rcases Option.bind_eq_some_iff.1 h with ⟨tx, htx, h⟩
    rcases Option.map_eq_some_iff.1 h with ⟨T, hrun, rfl⟩
    rw [short, htx, Option.all_some, decide_eq_true_eq] at hshort
    rw [losesNone, htx, Option.all_some, Bool.and_eq_true, Bool.or_eq_true] at hloses
    refine inv_commit hinv htx hrun hshort hloses.1 fun c hcall hphase hne => ?_
    have hlate := hloses.2.resolve_left fun h => hne (List.isEmpty_iff.1 h)
    simpa [hcall, hphase] using hlate
  | rollback i =>
    obtain rfl := Option.some.inj h
    exact inv_txs hinv fun tx htx => hinv.begun tx (List.mem_of_mem_eraseIdx htx)
  | tick =>
    simp only [next] at h
    split at h
    · obtain rfl := Option.some.inj h
      exact hinv
    · rename_i hfree
      obtain rfl := Option.some.inj h
      rw [Bool.not_eq_true, Option.isSome_eq_false_iff, Option.isNone_iff_eq_none] at hfree
      refine inv_call hinv (front_of_none hfree) ⟨Int.le_refl _, ?_, ?_, ?_⟩ (.inl rfl)
      · exact fun _ hread => absurd rfl hread
      · exact fun hback => by cases hback
      · exact fun hmark => by cases hmark
  | backfill pFrom pTo =>
    simp only [next] at h
    split at h
    · cases h
    · rename_i hfree
      rw [Bool.not_eq_true, Option.isSome_eq_false_iff, Option.isNone_iff_eq_none] at hfree
      split at h
      · obtain rfl := Option.some.inj h
        exact hinv
      · obtain rfl := Option.some.inj h
        refine inv_call hinv (front_of_none hfree) ⟨Int.le_refl _, ?_, ?_, ?_⟩ (.inr rfl)
        · exact fun htick => by cases htick
        · exact fun _ => .inl rfl
        · exact fun hmark => by cases hmark
  | step =>
    rcases Option.bind_eq_some_iff.1 h with ⟨c, hcall, -⟩
    exact inv_step hinv hcall hloses h
  | prune =>
    rcases Option.map_eq_some_iff.1 h with ⟨c, hunlocked, rfl⟩
    refine inv_prune hinv fun r hr => ?_
    rw [losesNone, hunlocked, Option.all_some, List.all_eq_true] at hloses
    simpa using hloses r hr

/-- Every row is in the window of the first tick. -/
theorem inv_initial (h : s.Initial) : Inv s where
  linked := h.linked
  late := by
    have hnow := h.now
    rw [h.watermark]
    omega
  last := h.last
  begun tx htx := by simp [h.txs] at htx
  usage u hu := (h.usage u hu).2
  queue r hr := by simp [h.dirty] at hr
  sound c hc := by simp [h.call] at hc
  fresh k := by
    cases hrows : s.tables.rowsOf k with
    | nil =>
      refine .inr ?_
      rw [h.hourly, Tables.recomputed, hrows]
      rfl
    | cons u rows =>
      have hu : u ∈ s.tables.rowsOf k := hrows ▸ List.mem_cons_self
      refine .inl (.inr ⟨u, hu, ?_⟩)
      rw [front_of_none h.call, h.watermark]
      exact (h.usage u (Tables.mem_rowsOf.1 hu).1).1

theorem converged_of_inv (hinv : Inv s) (hpast : s.lastMutation < s.watermark) :
    s.Converged := by
  refine hinv.fresh.exact fun k hpending => ?_
  rcases hpending with ⟨r, hr, -, -⟩ | ⟨u, hu, hle⟩
  · have hqueue := hinv.queue r hr
    omega
  · have husage := hinv.usage u (Tables.mem_rowsOf.1 hu).1
    -- a tick that is past its window ends it behind the watermark
    have hfront : s.watermark ≤ s.front := by
      rw [State.front]
      split
      · exact Int.le_refl _
      · rename_i c hcall
        split
        · rename_i hpassed
          rcases passed_eq_true.1 hpassed with ⟨htick, hphase⟩
          have hne : c.phase ≠ .read := by
            intro hread
            simp [hread] at hphase
          have htimes := (hinv.sound c hcall).tick htick hne
          omega
        · exact Int.le_refl _
    omega

end Runs

/-- Once the watermark is past the last mutation and five minutes, each bucket with usage has its
exact totals and there is no other row, in all runs that lose no key. -/
theorem hourly_converges (s : State)
    (hs : machine.ReachableUnder (fun s a => (short s a && losesNone s a) = true) s)
    (hpast : s.lastMutation + 5 * minute < s.watermark) : s.Converged := by
  have hinv : Inv s := by
    refine Machine.invariant_under (M := machine) (fun _ => inv_initial) ?_ s hs
    intro s a s' _ hinv hC h
    rw [Bool.and_eq_true] at hC
    exact inv_next hinv hC.1 hC.2 h
  have hminute : 0 ≤ minute := by decide
  exact converged_of_inv hinv (by omega)

/-- Agent 1 has run task 2 of issue 20, and has reported nothing yet. -/
def taskTables : Tables where
  agents := (Table.ofRows? [⟨1, 9⟩]).getD .empty
  issues := (Table.ofRows? [⟨20, 9, some 30⟩]).getD .empty
  tasks := (Table.ofRows? [⟨2, 1, some 5, some 20⟩]).getD .empty

def noRollup : State where
  now := 10 * minute
  tables := taskTables
  txs := []
  dirty := []
  hourly := fun _ => none
  watermark := 0
  call := none
  unlocked := none
  lastMutation := 0

theorem initial_noRollup : noRollup.Initial where
  linked := ⟨(fun u hu => by cases hu), by decide⟩
  txs := rfl
  dirty := rfl
  hourly _ := rfl
  watermark := rfl
  call := rfl
  unlocked := rfl
  usage u hu := by cases hu
  last := by decide
  now := by decide

/-- The task's usage is reported, and a tick rolls it up. -/
def reported : List Act :=
  [.start, .exec 0 (.upsertTaskUsage 2 "codex" "gpt" 10 20 0 0), .commit 0, .pass (20 * minute)]

/-- A tick with all its statements. -/
def tickRun : List Act := [.tick, .step, .step, .step, .step, .prune]

def keyOf (runtimeId projectId : UUID) : Key := ⟨0, 9, runtimeId, 1, some projectId, "codex", "gpt"⟩

theorem hourly_converges_reported : ∃ s : State,
    s.hourly (keyOf 5 30) = some ⟨10, 20, 0, 0, 1, 1⟩ ∧ s.Converged := by
  rcases Machine.reachableUnder_of_run machine (fun s a => short s a && losesNone s a)
    initial_noRollup (reported ++ tickRun ++ .pass (40 * minute) :: tickRun)
    (fun s => s.hourly (keyOf 5 30) == some ⟨10, 20, 0, 0, 1, 1⟩ &&
      decide (s.lastMutation + 5 * minute < s.watermark)) (by decide +kernel) with ⟨s, hs, hstate⟩
  simp only [Bool.and_eq_true, beq_iff_eq, decide_eq_true_eq] at hstate
  exact ⟨s, hstate.1, hourly_converges s hs hstate.2⟩

/-- Ticks pause for ten days, and the task is deleted on the second: the first tick that runs again
prunes the key before a window has come to it. -/
def pruned : List Act :=
  reported ++ tickRun ++ .pass (2 * day) :: [.start, .exec 0 (.deleteTask 2), .commit 0] ++
    .pass (10 * day) :: tickRun ++ tickRun ++ tickRun

/-- The deletion commits between a backfill's recomputation and its drain. -/
def drained : List Act :=
  reported ++ tickRun ++
    [.start, .exec 0 (.deleteTask 2), .backfill 0 (30 * day), .step, .commit 0, .step,
      .pass (40 * minute)] ++ tickRun

/-- The task moves to runtime 6 while its issue moves to project 31: neither trigger names the
bucket that has both. -/
def skewed : List Act :=
  reported ++ tickRun ++
    [.start, .start, .exec 0 (.updateTask 2 (some 6) (some 20)),
      .exec 1 (.updateIssueProject 20 (some 31)), .commit 0, .commit 0, .pass (40 * minute)] ++
    tickRun

/-- The tick has given the lock back and is not committed; a backfill that should delete the row
that it has inserted does not see it. -/
def unseen : List Act :=
  reported ++
    [.tick, .step, .step, .step, .step, .start, .exec 0 (.deleteTask 2), .commit 0,
      .backfill 0 (30 * day), .step, .step, .prune, .pass (40 * minute)] ++ tickRun

/-- The watermark is past the last mutation and five minutes, and a bucket is wrong. -/
def staleAt (k : Key) (s : State) : Bool :=
  decide (s.lastMutation + 5 * minute < s.watermark) && s.hourly k != s.tables.recomputed k

theorem not_converged {s : State} {k : Key} (h : staleAt k s = true) :
    s.lastMutation + 5 * minute < s.watermark ∧ ¬ s.Converged := by
  rw [staleAt, Bool.and_eq_true, decide_eq_true_eq, bne_iff_ne] at h
  exact ⟨h.1, fun hconverged => h.2 (hconverged k)⟩

/-- Each of the four ways to lose a key leaves a bucket wrong for good. -/
theorem stale_runs : ∀ run ∈ [(pruned, keyOf 5 30), (drained, keyOf 5 30), (skewed, keyOf 6 31),
    (unseen, keyOf 5 30)], ∃ s : State,
      machine.ReachableUnder (fun s a => short s a = true) s ∧
        s.lastMutation + 5 * minute < s.watermark ∧ ¬ s.Converged := by
  intro run hrun
  have hstale : (machine.runWhile short noRollup run.1).any (staleAt run.2) = true := by
    revert run
    decide +kernel
  rcases Machine.reachableUnder_of_run machine short initial_noRollup run.1 (staleAt run.2) hstale
    with ⟨s, hs, hstale⟩
  exact ⟨s, hs, not_converged hstale⟩

theorem rollup_loses :
    ¬ ∀ s : State, machine.ReachableUnder (fun s a => short s a = true) s →
      s.lastMutation + 5 * minute < s.watermark → s.Converged := by
  intro hclaim
  rcases stale_runs _ List.mem_cons_self with ⟨s, hs, hpast, hnot⟩
  exact hnot (hclaim s hs hpast)

end Orynx.Usage
