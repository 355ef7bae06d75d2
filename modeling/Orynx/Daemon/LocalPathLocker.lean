import Mathlib.Algebra.GroupWithZero.Nat
import Orynx.Lib.Machine
import Orynx.Lib.Parties

/-! # The lock on a local directory

`server/internal/daemon/local_directory.go`: tasks that run in the user's own directory take turns.
`Acquire` tries the mutex of the path. When it is taken, it tells its caller who holds it, starts a
goroutine that waits for the mutex, and waits for that goroutine or for its own context. A wait that
is cancelled leaves the goroutine behind, with a second one that gives the mutex back.

* `Call.next`: the calls of `Acquire`, their goroutines and their releasers, one access to the
  entry of the path a step, in any interleaving;
* `locker_sound`: a directory has one holder at a time, `Holder` names the task that holds it, and
  when the goroutines have come to rest, whoever still waits, waits for a task that holds the
  directory: a cancelled wait never leaves the mutex behind.
-/

namespace Orynx.Daemon.LocalPath

open Lib

/-- `pathLockEntry`: its mutex and the task that is shown as its owner. -/
structure PathLockEntry where
  locked : Bool := false
  holderID : String := ""
deriving DecidableEq, Repr

/-- Where a call of `Acquire` is, with the goroutines that it has started. -/
inductive Stage where
  | refused
  /-- The entry is looked up, `TryLock` is next. -/
  | trying
  /-- `TryLock` has failed and there is an `onWait`. -/
  | asking
  /-- In `onWait`, which was given this holder. -/
  | telling (holder : String)
  | parking
  /-- In the `select`; its goroutine is in `Lock`. -/
  | waiting
  /-- In the `select`; its goroutine has locked the mutex. -/
  | acquired
  /-- The mutex is the call's, which has yet to write its name. -/
  | naming
  | holding
  /-- The releaser has taken the name back. -/
  | releasing
  | released
  /-- The wait is over, and its goroutine is still in `Lock`. -/
  | abandoned
  /-- The goroutine has locked the mutex after all, and the second one unlocks it. -/
  | returning
  | left
deriving DecidableEq, Repr

structure Call where
  realPath : String
  taskID : String
  onWait : Bool
  /-- `ctx` is done. -/
  cancelled : Bool := false
  stage : Stage
deriving DecidableEq, Repr

structure State where
  locks : String → Option PathLockEntry
  calls : List Call

/-- What the call, one of its goroutines or its context does next. -/
inductive Event where
  /-- `TryLock`, which may fail on a free mutex as well, when others wait for it. -/
  | tryLock (ok : Bool)
  | readHolder
  | onWait
  | park
  | lock
  | receive
  | done
  | name
  | release
  | unlock
  | cancel
deriving DecidableEq, Repr

inductive Label where
  | acquire (realPath taskID : String) (onWait : Bool)
  | step (i : Nat) (e : Event)
deriving DecidableEq, Repr

/-- The call and the entry of its path after the event. -/
def Call.next (c : Call) (entry : PathLockEntry) : Event → Option (Call × PathLockEntry)
  | .tryLock true =>
    if c.stage = .trying ∧ entry.locked = false then
      some ({ c with stage := .naming }, { entry with locked := true })
    else none
  | .tryLock false =>
    if c.stage = .trying then
      some ({ c with stage := if c.onWait then .asking else .parking }, entry)
    else none
  | .readHolder =>
    if c.stage = .asking then some ({ c with stage := .telling entry.holderID }, entry) else none
  | .onWait =>
    match c.stage with
    | .telling _ => some ({ c with stage := .parking }, entry)
    | _ => none
  | .park => if c.stage = .parking then some ({ c with stage := .waiting }, entry) else none
  | .lock =>
    if entry.locked then none
    else
      match c.stage with
      | .waiting => some ({ c with stage := .acquired }, { entry with locked := true })
      | .abandoned => some ({ c with stage := .returning }, { entry with locked := true })
      | _ => none
  | .receive => if c.stage = .acquired then some ({ c with stage := .naming }, entry) else none
  -- `select` picks any of its ready cases
  | .done =>
    if c.cancelled then
      match c.stage with
      | .waiting => some ({ c with stage := .abandoned }, entry)
      | .acquired => some ({ c with stage := .returning }, entry)
      | _ => none
    else none
  | .name =>
    if c.stage = .naming then
      some ({ c with stage := .holding }, { entry with holderID := c.taskID })
    else none
  | .release =>
    match c.stage with
    | .holding => some ({ c with stage := .releasing }, { entry with holderID := "" })
    -- `once`
    | .released => some (c, entry)
    | _ => none
  | .unlock =>
    match c.stage with
    | .releasing => some ({ c with stage := .released }, { entry with locked := false })
    | .returning => some ({ c with stage := .left }, { entry with locked := false })
    | _ => none
  | .cancel => some ({ c with cancelled := true }, entry)

/-- The entry of a path; the first `Acquire` makes it, and none is removed. -/
def State.entry (s : State) (realPath : String) : PathLockEntry := (s.locks realPath).getD {}

def Holder (s : State) (realPath : String) : String := (s.entry realPath).holderID

def next (s : State) : Label → Option State
  | .acquire realPath taskID onWait =>
    if realPath = "" ∨ taskID = "" then
      some { s with calls := s.calls ++ [⟨realPath, taskID, onWait, false, .refused⟩] }
    else
      some {
        locks := Function.update s.locks realPath (some (s.entry realPath))
        calls := s.calls ++ [⟨realPath, taskID, onWait, false, .trying⟩] }
  | .step i e => do
    let c ← s.calls[i]?
    let (c', entry) ← c.next (s.entry c.realPath) e
    some {
      locks := Function.update s.locks c.realPath (some entry)
      calls := s.calls.set i c' }

def machine : Machine State Label where
  Init s := s = ⟨fun _ => none, []⟩
  next := next

/-! ## What an event does -/

/-- The mutex is the call's or one of its goroutines'. -/
def Stage.owns : Stage → Bool
  | .acquired | .naming | .holding | .releasing | .returning => true
  | _ => false

structure Turn (c : Call) (entry : PathLockEntry) (c' : Call) (entry' : PathLockEntry) : Prop where
  realPath : c'.realPath = c.realPath
  taskID : c'.taskID = c.taskID
  refused : c'.stage = .refused ↔ c.stage = .refused
  /-- The mutex stays, is taken while it is free, or is given back by its owner. -/
  locked : c'.stage.owns = c.stage.owns ∧ entry'.locked = entry.locked ∨
    entry.locked = false ∧ c'.stage.owns = true ∧ entry'.locked = true ∨
    c.stage.owns = true ∧ c'.stage.owns = false ∧ entry'.locked = false
  /-- The name stays, is written by the new holder, or is taken back by the old one. -/
  named : entry'.holderID = entry.holderID ∧ (c'.stage = .holding ↔ c.stage = .holding) ∨
    c.stage.owns = true ∧ c'.stage = .holding ∧ entry'.holderID = c.taskID ∨
    c.stage = .holding ∧ c'.stage ≠ .holding ∧ entry'.holderID = ""

theorem Call.turn {c c' : Call} {entry entry' : PathLockEntry} {e : Event}
    (h : c.next entry e = some (c', entry')) : Turn c entry c' entry' := by
  rcases c with ⟨realPath, taskID, onWait, cancelled, stage⟩
  rcases entry with ⟨locked, holderID⟩
  cases e with
  | tryLock ok =>
    cases ok with
    | true =>
      simp only [Call.next, Option.ite_none_right_eq_some, Option.some.injEq, Prod.mk.injEq] at h
      rcases h with ⟨⟨rfl, rfl⟩, rfl, rfl⟩
      constructor <;> simp [Stage.owns]
    | false =>
      simp only [Call.next, Option.ite_none_right_eq_some, Option.some.injEq, Prod.mk.injEq] at h
      rcases h with ⟨rfl, rfl, rfl⟩
      cases onWait <;> constructor <;> simp [Stage.owns]
  | cancel =>
    simp only [Call.next, Option.some.injEq, Prod.mk.injEq] at h
    rcases h with ⟨rfl, rfl⟩
    constructor <;> simp
  | readHolder | park | receive | name =>
    simp only [Call.next, Option.ite_none_right_eq_some, Option.some.injEq, Prod.mk.injEq] at h
    rcases h with ⟨rfl, rfl, rfl⟩
    constructor <;> simp [Stage.owns]
  | onWait | release | unlock =>
    cases stage <;> simp only [Call.next, Option.some.injEq, Prod.mk.injEq, reduceCtorEq] at h
    all_goals
      rcases h with ⟨rfl, rfl⟩
      constructor <;> simp [Stage.owns]
  | lock =>
    cases locked with
    | true => simp [Call.next] at h
    | false =>
      cases stage <;> simp [Call.next] at h
      all_goals
        rcases h with ⟨rfl, rfl⟩
        constructor <;> simp [Stage.owns]
  | done =>
    cases cancelled with
    | false => simp [Call.next] at h
    | true =>
      cases stage <;> simp [Call.next] at h
      all_goals
        rcases h with ⟨rfl, rfl⟩
        constructor <;> simp [Stage.owns]

/-! ## The entries and the calls -/

structure Inv (s : State) : Prop where
  taskID : ∀ c ∈ s.calls, c.stage ≠ .refused → c.taskID ≠ ""
  /-- A mutex is locked while a call owns it. -/
  owned : ∀ p, (s.entry p).locked = true → ∃ c ∈ s.calls, c.realPath = p ∧ c.stage.owns = true
  locked : ∀ c ∈ s.calls, c.stage.owns = true → (s.entry c.realPath).locked = true
  apart : Parties.Apart (fun c d => c.realPath = d.realPath → c.stage.owns = true →
    d.stage.owns = false) s.calls
  named : ∀ c ∈ s.calls, c.stage = .holding → (s.entry c.realPath).holderID = c.taskID
  holder : ∀ p, (s.entry p).holderID ≠ "" →
    ∃ c ∈ s.calls, c.realPath = p ∧ c.stage = .holding

theorem Inv.init {s : State} (h : machine.Init s) : Inv s := by
  obtain rfl : s = ⟨fun _ => none, []⟩ := h
  constructor
  · intro c hc
    cases hc
  · intro p hp
    cases hp
  · intro c hc
    cases hc
  · exact Parties.apart_nil
  · intro c hc
    cases hc
  · intro p hp
    exact absurd rfl hp

theorem entry_update (s : State) (p q : String) (entry : PathLockEntry) (calls : List Call) :
    (State.mk (Function.update s.locks p (some entry)) calls).entry q =
      if q = p then entry else s.entry q := by
  unfold State.entry
  by_cases hq : q = p
  · subst hq
    simp
  · simp [hq]

/-- A new call owns nothing, and the entry that it may make is free. -/
theorem Inv.acquire {s s' : State} (h : Inv s) {realPath taskID : String} {onWait : Bool}
    (hn : next s (.acquire realPath taskID onWait) = some s') : Inv s' := by
  obtain ⟨c, hcalls, howns, hholds, htask, hentry⟩ : ∃ c : Call, s'.calls = s.calls ++ [c] ∧
      c.stage.owns = false ∧ c.stage ≠ .holding ∧ (c.stage ≠ .refused → c.taskID ≠ "") ∧
      ∀ p, s'.entry p = s.entry p := by
    simp only [next] at hn
    split at hn
    · obtain rfl := Option.some.inj hn
      exact ⟨_, rfl, rfl, by simp, by simp, fun p => rfl⟩
    · rename_i hne
      obtain rfl := Option.some.inj hn
      refine ⟨_, rfl, rfl, by simp, fun _ => (not_or.1 hne).2, fun p => ?_⟩
      rw [entry_update]
      split
      · rename_i hp
        rw [hp]
      · rfl
  constructor
  · rw [hcalls]
    exact List.forall_mem_append.2 ⟨h.taskID, List.forall_mem_singleton.2 htask⟩
  · intro p hp
    rw [hentry] at hp
    rcases h.owned p hp with ⟨d, hd, hdp⟩
    exact ⟨d, hcalls ▸ List.mem_append_left _ hd, hdp⟩
  · simp only [hcalls, hentry]
    refine List.forall_mem_append.2 ⟨h.locked, List.forall_mem_singleton.2 fun ho => ?_⟩
    rw [howns] at ho
    cases ho
  · rw [hcalls]
    refine h.apart.concat fun d _ => ⟨fun _ _ => howns, fun _ ho => ?_⟩
    rw [howns] at ho
    cases ho
  · simp only [hcalls, hentry]
    exact List.forall_mem_append.2 ⟨h.named, List.forall_mem_singleton.2 (absurd · hholds)⟩
  · intro p hp
    rw [hentry] at hp
    rcases h.holder p hp with ⟨d, hd, hdp⟩
    exact ⟨d, hcalls ▸ List.mem_append_left _ hd, hdp⟩

theorem Stage.owns_holding {stage : Stage} (h : stage = .holding) : stage.owns = true := by
  rw [h]
  rfl

/-- What an event does to one call and one entry keeps the invariant of all. -/
theorem Inv.move {s : State} (h : Inv s) {i : Nat} {c c' : Call} {entry' : PathLockEntry}
    (hi : s.calls[i]? = some c) (t : Turn c (s.entry c.realPath) c' entry') :
    Inv ⟨Function.update s.locks c.realPath (some entry'), s.calls.set i c'⟩ := by
  have hc := List.mem_of_getElem? hi
  -- a second owner of the same mutex is not there
  have hother {j : Nat} {d : Call} (hji : j ≠ i) (hj : s.calls[j]? = some d)
      (hp : d.realPath = c.realPath) (hd : d.stage.owns = true) : c.stage.owns = false :=
    h.apart j i d c hji hj hi hp hd
  constructor
  · intro d hd hr
    rcases List.mem_or_eq_of_mem_set hd with hd | rfl
    · exact h.taskID d hd hr
    · rw [t.taskID]
      exact h.taskID c hc (mt t.refused.2 hr)
  · intro p hp
    rw [entry_update] at hp
    rw [Parties.exists_set_iff hi]
    split at hp
    · rename_i hpc
      rcases t.locked with ⟨howns, hlocked⟩ | ⟨-, howns, -⟩ | ⟨-, -, hfree⟩
      · rw [hlocked, ← hpc] at hp
        rcases (Parties.exists_iff hi).1 (h.owned p hp) with ⟨hpath, ho⟩ | ho
        · exact .inl ⟨t.realPath.trans hpath, howns.trans ho⟩
        · exact .inr ho
      · exact .inl ⟨t.realPath.trans hpc.symm, howns⟩
      · rw [hfree] at hp
        cases hp
    · rename_i hpc
      rcases (Parties.exists_iff hi).1 (h.owned p hp) with ⟨hpath, -⟩ | ho
      · exact absurd hpath.symm hpc
      · exact .inr ho
  · intro d hd ho
    rw [entry_update]
    rcases List.mem_iff_getElem?.1 hd with ⟨j, hj⟩
    rcases Parties.getElem?_of_set hj with ⟨-, rfl⟩ | ⟨hji, hj⟩
    · rw [if_pos t.realPath]
      rcases t.locked with ⟨howns, hlocked⟩ | ⟨-, -, hlocked⟩ | ⟨-, hno, -⟩
      · rw [hlocked]
        exact h.locked c hc (howns.symm.trans ho)
      · exact hlocked
      · rw [hno] at ho
        cases ho
    · split
      · rename_i hpc
        rcases t.locked with ⟨-, hlocked⟩ | ⟨-, -, hlocked⟩ | ⟨howns, -, -⟩
        · rw [hlocked, ← hpc]
          exact h.locked d (List.mem_of_getElem? hj) ho
        · exact hlocked
        · rw [hother hji hj hpc ho] at howns
          cases howns
      · exact h.locked d (List.mem_of_getElem? hj) ho
  · refine h.apart.set hi fun d hd hcd hdc => ?_
    have hfree : d.realPath = c.realPath → (s.entry c.realPath).locked = false →
        d.stage.owns = false := by
      intro hp hfree
      by_contra ho
      have hl := h.locked d hd (by simpa using ho)
      rw [hp, hfree] at hl
      cases hl
    rw [t.realPath]
    rcases t.locked with ⟨howns, -⟩ | ⟨hfalse, -, -⟩ | ⟨-, hno, -⟩
    · rw [howns]
      exact ⟨hcd, hdc⟩
    · refine ⟨fun hp _ => hfree hp.symm hfalse, fun hp ho => ?_⟩
      rw [hfree hp hfalse] at ho
      cases ho
    · refine ⟨fun _ ho => ?_, fun _ _ => hno⟩
      rw [hno] at ho
      cases ho
  · intro d hd hh
    rw [entry_update]
    rcases List.mem_iff_getElem?.1 hd with ⟨j, hj⟩
    rcases Parties.getElem?_of_set hj with ⟨-, rfl⟩ | ⟨hji, hj⟩
    · rw [if_pos t.realPath, t.taskID]
      rcases t.named with ⟨hsame, hiff⟩ | ⟨-, -, hname⟩ | ⟨-, hno, -⟩
      · rw [hsame]
        exact h.named c hc (hiff.1 hh)
      · exact hname
      · exact absurd hh hno
    · split
      · rename_i hpc
        have hno := hother hji hj hpc (Stage.owns_holding hh)
        rcases t.named with ⟨hsame, -⟩ | ⟨howns, -, -⟩ | ⟨hhold, -, -⟩
        · rw [hsame, ← hpc]
          exact h.named d (List.mem_of_getElem? hj) hh
        · rw [hno] at howns
          cases howns
        · rw [Stage.owns_holding hhold] at hno
          cases hno
      · exact h.named d (List.mem_of_getElem? hj) hh
  · intro p hp
    rw [entry_update] at hp
    rw [Parties.exists_set_iff hi]
    split at hp
    · rename_i hpc
      rcases t.named with ⟨hsame, hiff⟩ | ⟨-, hhold, -⟩ | ⟨-, -, hempty⟩
      · rw [hsame, ← hpc] at hp
        rcases (Parties.exists_iff hi).1 (h.holder p hp) with ⟨hpath, hh⟩ | ho
        · exact .inl ⟨t.realPath.trans hpath, hiff.2 hh⟩
        · exact .inr ho
      · exact .inl ⟨t.realPath.trans hpc.symm, hhold⟩
      · exact absurd hempty hp
    · rename_i hpc
      rcases (Parties.exists_iff hi).1 (h.holder p hp) with ⟨hpath, -⟩ | ho
      · exact absurd hpath.symm hpc
      · exact .inr ho

theorem next_step {s s' : State} {i : Nat} {e : Event} (hn : next s (.step i e) = some s') :
    ∃ c c' entry', s.calls[i]? = some c ∧
      c.next (s.entry c.realPath) e = some (c', entry') ∧
      s' = ⟨Function.update s.locks c.realPath (some entry'), s.calls.set i c'⟩ := by
  simp only [next, Option.bind_eq_bind, Option.bind_eq_some_iff, Option.some.injEq] at hn
  rcases hn with ⟨c, hi, ⟨c', entry'⟩, hturn, rfl⟩
  exact ⟨c, c', entry', hi, hturn, rfl⟩

theorem inv_of_reachable : ∀ s, machine.Reachable s → Inv s := by
  refine Machine.invariant (fun s hs => Inv.init hs) fun s a s' _ h hn => ?_
  cases a with
  | acquire realPath taskID onWait => exact h.acquire hn
  | step i e =>
    rcases next_step hn with ⟨c, c', entry', hi, hturn, rfl⟩
    exact h.move hi (Call.turn hturn)

/-! ## Coming to rest -/

/-- A step of the calls and their goroutines; when a task ends or a context is done is not up to
them. -/
def Event.own : Event → Bool
  | .release | .cancel => false
  | _ => true

/-- How many steps a call can take at most before its task ends. -/
def Stage.rank : Stage → Nat
  | .trying => 7
  | .asking => 6
  | .telling _ => 5
  | .parking => 4
  | .waiting => 3
  | .acquired | .abandoned => 2
  | .naming | .returning | .releasing => 1
  | .refused | .holding | .released | .left => 0

theorem Call.rank_next {c c' : Call} {entry entry' : PathLockEntry} {e : Event}
    (h : c.next entry e = some (c', entry')) (he : e.own = true) :
    c'.stage.rank < c.stage.rank := by
  rcases c with ⟨realPath, taskID, onWait, cancelled, stage⟩
  cases e with
  | release | cancel => cases he
  | tryLock ok =>
    cases ok <;>
      simp only [Call.next, Option.ite_none_right_eq_some, Option.some.injEq, Prod.mk.injEq] at h
    · rcases h with ⟨rfl, rfl, -⟩
      cases onWait <;> simp [Stage.rank]
    · rcases h with ⟨⟨rfl, -⟩, rfl, -⟩
      simp [Stage.rank]
  | readHolder | park | receive | name =>
    simp only [Call.next, Option.ite_none_right_eq_some, Option.some.injEq, Prod.mk.injEq] at h
    rcases h with ⟨rfl, rfl, -⟩
    simp [Stage.rank]
  | onWait | unlock =>
    cases stage <;> simp only [Call.next, Option.some.injEq, Prod.mk.injEq, reduceCtorEq] at h
    all_goals
      rcases h with ⟨rfl, -⟩
      simp [Stage.rank]
  | lock =>
    cases stage <;> simp [Call.next] at h
    all_goals
      rcases h with ⟨-, rfl, -⟩
      simp [Stage.rank]
  | done =>
    cases stage <;> simp [Call.next] at h
    all_goals
      rcases h with ⟨-, rfl, -⟩
      simp [Stage.rank]

/-- No step of the calls and their goroutines is possible. -/
def AtRest (s : State) : Prop := ∀ i e, e.own = true → next s (.step i e) = none

def work (s : State) : Nat := (s.calls.map (·.stage.rank)).sum

def Label.own : Label → Bool
  | .acquire _ _ _ => false
  | .step _ e => e.own

theorem work_next {s s' : State} {a : Label} (hn : next s a = some s') (ha : a.own = true) :
    work s' < work s := by
  cases a with
  | acquire realPath taskID onWait => cases ha
  | step i e =>
    rcases next_step hn with ⟨c, c', entry', hi, hturn, rfl⟩
    exact Parties.sum_set_lt hi (Call.rank_next hturn ha)

theorem length_le_work {as : List Label} {s s' : State} (hrun : machine.run s as = some s')
    (hown : ∀ a ∈ as, a.own = true) : as.length ≤ work s := by
  induction as generalizing s with
  | nil => exact Nat.zero_le _
  | cons a as ih =>
    simp only [Machine.run, Option.bind_eq_some_iff] at hrun
    rcases hrun with ⟨t, ht, hrest⟩
    have hfall := work_next ht (hown a List.mem_cons_self)
    have hlen := ih hrest fun b hb => hown b (List.mem_cons_of_mem a hb)
    rw [List.length_cons]
    omega

def Stage.over : Stage → Bool
  | .refused | .released | .left => true
  | _ => false

/-- A call that cannot go on is over, or holds the directory, or waits for a locked mutex. -/
theorem Call.rest {c : Call} {entry : PathLockEntry}
    (h : ∀ e, e.own = true → c.next entry e = none) :
    c.stage.over = true ∨ c.stage = .holding ∨
      (c.stage = .waiting ∧ c.cancelled = false ∨ c.stage = .abandoned) ∧
        entry.locked = true := by
  rcases c with ⟨realPath, taskID, onWait, cancelled, stage⟩
  cases stage with
  | refused | released | left => exact .inl rfl
  | holding => exact .inr (.inl rfl)
  | trying => cases h (.tryLock false) rfl
  | asking => cases h .readHolder rfl
  | telling holder => cases h .onWait rfl
  | parking => cases h .park rfl
  | acquired => cases h .receive rfl
  | naming => cases h .name rfl
  | releasing | returning => cases h .unlock rfl
  | waiting =>
    cases cancelled with
    | true => cases h .done rfl
    | false =>
      refine .inr (.inr ⟨.inl ⟨rfl, rfl⟩, ?_⟩)
      by_contra hfree
      simpa [Call.next, hfree] using h .lock rfl
  | abandoned =>
    refine .inr (.inr ⟨.inr rfl, ?_⟩)
    by_contra hfree
    simpa [Call.next, hfree] using h .lock rfl

theorem AtRest.call {s : State} (h : AtRest s) {c : Call} (hc : c ∈ s.calls) :
    ∀ e, e.own = true → c.next (s.entry c.realPath) e = none := by
  intro e he
  rcases List.mem_iff_getElem?.1 hc with ⟨i, hi⟩
  have hnone := h i e he
  by_contra hsome
  rcases Option.ne_none_iff_exists'.1 hsome with ⟨⟨c', entry'⟩, hturn⟩
  simp [next, hi, hturn] at hnone

/-! ## The lock -/

def Held (s : State) (p : String) : Prop := ∃ d ∈ s.calls, d.realPath = p ∧ d.stage = .holding

structure Sound (s : State) : Prop where
  /-- No two tasks hold one directory. -/
  exclusive : Parties.Apart (fun c d => c.realPath = d.realPath →
    ¬(c.stage = .holding ∧ d.stage = .holding)) s.calls
  /-- `Holder` names a task that holds the directory, and names every one. -/
  holder : ∀ p t, t ≠ "" →
    (Holder s p = t ↔ ∃ c ∈ s.calls, c.realPath = p ∧ c.taskID = t ∧ c.stage = .holding)
  /-- At rest a mutex is locked for a task that holds the directory. -/
  free : AtRest s → ∀ p, (s.entry p).locked = true → Held s p
  /-- At rest whoever waits, waits for such a task, and a call whose context is done has
  returned. -/
  waits : AtRest s → ∀ c ∈ s.calls, c.stage.over = true ∨ c.stage = .holding ∨
    (c.stage = .waiting ∧ c.cancelled = false ∨ c.stage = .abandoned) ∧ Held s c.realPath
  /-- The calls and their goroutines come to rest. -/
  rests : ∀ as s', machine.run s as = some s' → (∀ a ∈ as, a.own = true) → as.length ≤ work s

theorem Inv.held {s : State} (h : Inv s) (hrest : AtRest s) {p : String}
    (hp : (s.entry p).locked = true) : Held s p := by
  rcases h.owned p hp with ⟨c, hc, hcp, howns⟩
  -- of the stages that own the mutex only `holding` has no step of its own
  rcases Call.rest (hrest.call hc) with hover | hhold | ⟨⟨hwait, -⟩ | habandoned, -⟩
  · cases hstage : c.stage <;> simp [hstage, Stage.over, Stage.owns] at hover howns
  · exact ⟨c, hc, hcp, hhold⟩
  · rw [hwait] at howns
    cases howns
  · rw [habandoned] at howns
    cases howns

/-- A local directory has one holder at a time, whatever the interleaving and whichever waits are
cancelled, and the mutex always ends with a task that holds the directory. -/
theorem locker_sound (s : State) (hs : machine.Reachable s) : Sound s := by
  have h := inv_of_reachable s hs
  constructor
  · intro i j c d hij hi hj hp hboth
    have hno := h.apart i j c d hij hi hj hp (Stage.owns_holding hboth.1)
    rw [Stage.owns_holding hboth.2] at hno
    cases hno
  · intro p t ht
    constructor
    · intro hp
      rcases h.holder p (by rw [← hp] at ht; exact ht) with ⟨c, hc, hcp, hh⟩
      have hname := h.named c hc hh
      rw [hcp] at hname
      exact ⟨c, hc, hcp, hname.symm.trans hp, hh⟩
    · rintro ⟨c, hc, rfl, rfl, hh⟩
      exact h.named c hc hh
  · intro hrest p hp
    exact h.held hrest hp
  · intro hrest c hc
    rcases Call.rest (hrest.call hc) with hover | hhold | ⟨hwait, hlocked⟩
    · exact .inl hover
    · exact .inr (.inl hhold)
    · exact .inr (.inr ⟨hwait, h.held hrest hlocked⟩)
  · intro as s' hrun hown
    exact length_le_work hrun hown

/-- The wait of task b is cancelled, its goroutine takes the mutex after a has left and gives it
back, and c takes over. -/
theorem locker_sound_cancelled : ∃ s,
    machine.run ⟨fun _ => none, []⟩
      [.acquire "/p" "a" true, .step 0 (.tryLock true), .step 0 .name,
        .acquire "/p" "b" true, .step 1 (.tryLock false), .step 1 .readHolder, .step 1 .onWait,
        .step 1 .park, .step 1 .cancel, .step 1 .done, .step 0 .release, .step 0 .unlock,
        .step 1 .lock, .acquire "/p" "c" false, .step 2 (.tryLock false), .step 2 .park,
        .step 1 .unlock, .step 2 .lock, .step 2 .receive, .step 2 .name] = some s ∧
      Holder s "/p" = "c" ∧ Sound s := by
  rcases Machine.reachable_of_run machine (s := ⟨fun _ => none, []⟩) rfl
    [.acquire "/p" "a" true, .step 0 (.tryLock true), .step 0 .name,
      .acquire "/p" "b" true, .step 1 (.tryLock false), .step 1 .readHolder, .step 1 .onWait,
      .step 1 .park, .step 1 .cancel, .step 1 .done, .step 0 .release, .step 0 .unlock,
      .step 1 .lock, .acquire "/p" "c" false, .step 2 (.tryLock false), .step 2 .park,
      .step 1 .unlock, .step 2 .lock, .step 2 .receive, .step 2 .name]
    (fun s => decide (Holder s "/p" = "c")) (by decide) with ⟨s, hrun, hs, hholder⟩
  exact ⟨s, hrun, of_decide_eq_true hholder, locker_sound s hs⟩

end Orynx.Daemon.LocalPath
