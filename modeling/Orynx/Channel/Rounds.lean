import Orynx.Channel.Batcher
import Orynx.Lib.Inevitable
import Orynx.Lib.Parties

/-! # Entries, rounds and the drain

What holds of the run debouncer in every reachable state.

* `Step`, `step_of_next`: what a step can do;
* `Entries`: the timer of a pending entry is armed or has fired, and comes to the lock once;
* `Rounds`: the calls of a round have their entry or exactly one run, with the closure of the latest
  of them, and a run has started for a call only after it was scheduled;
* `Draining`: the flushes in flight are counted, and none is left when `FlushAll` returns.
-/

namespace Orynx.Channel

open Lib

/-! ## What a step can do -/

/-- A pending entry becomes a run. -/
def State.runOf (s : State) (holder : Holder) (x : String × PendingEntry) : Run :=
  ⟨x.1, x.2.flush, holder, x.2.gen, s.rounds x.1⟩

inductive Step (s : State) : Action → State → Prop where
  | call (key : String) (fresh : Bool) :
      Step s (.call key fresh) { s with calls := s.calls ++ [{ key, fresh }] }
  | mark {i : Nat} {c : Call} : s.calls[i]? = some c → c.fresh = true → c.phase = .began →
      Step s (.mark i) { s with
        calls := s.calls.set i { c with phase := .marked }
        pendingFresh := Function.update s.pendingFresh c.key true }
  | inline {i : Nat} {c : Call} : s.calls[i]? = some c → c.phase ≠ .scheduled →
      (c.fresh = true → c.phase = .marked) → s.stopped = true →
      Step s (.schedule i) { s with
        calls := s.calls.set i { c with phase := .scheduled }
        runs := s.runs ++ [{ key := c.key, flush := ⟨i, c.fresh⟩, holder := .inline }] }
  | arm {i : Nat} {c : Call} (timerPhase : Nat → TimerPhase) : s.calls[i]? = some c →
      c.phase ≠ .scheduled → (c.fresh = true → c.phase = .marked) → s.stopped = false →
      (timerPhase = s.timerPhase ∨ ∃ e, s.pending.get? c.key = some e ∧
        timerPhase = stop s.timerPhase e.timer) →
      Step s (.schedule i) { s with
        seq := s.seq + 1
        calls := s.calls.set i
          { c with phase := .scheduled, gen := s.seq + 1, round := s.rounds c.key }
        timers := s.timers ++ [⟨c.key, s.seq + 1⟩]
        timerPhase := timerPhase
        pending := s.pending.set c.key ⟨s.timers.length, ⟨i, c.fresh⟩, s.seq + 1⟩ }
  | fire {j : Nat} : j < s.timers.length → s.timerPhase j = .armed →
      Step s (.fire j) { s with timerPhase := Function.update s.timerPhase j .fired }
  | stale {j : Nat} {t : Timer} : s.timers[j]? = some t → s.timerPhase j = .fired →
      (∀ e, s.pending.get? t.key = some e → s.stopped = true ∨ e.gen ≠ t.gen) →
      Step s (.onFire j) { s with timerPhase := Function.update s.timerPhase j .done }
  | flush {j : Nat} {t : Timer} {e : PendingEntry} : s.timers[j]? = some t →
      s.timerPhase j = .fired → s.pending.get? t.key = some e → s.stopped = false →
      e.gen = t.gen →
      Step s (.onFire j) { s with
        timerPhase := Function.update s.timerPhase j .done
        pending := s.pending.erase t.key
        inflight := s.inflight + 1
        runs := s.runs ++ [s.runOf .timer (t.key, e)]
        rounds := Function.update s.rounds t.key (s.rounds t.key + 1) }
  | flushAll : s.drain = .idle → Step s .flushAll s.FlushAll
  | start {r : Nat} {run : Run} : s.runs[r]? = some run → s.phase r = .waiting →
      Step s (.start r) { s with
        phase := Function.update s.phase r .started, first := s.firstAfter r run }
  | take {r : Nat} {run : Run} : s.runs[r]? = some run → s.phase r = .started →
      Step s (.take r) { s with
        phase := Function.update s.phase r (.took (run.flush.fresh || s.pendingFresh run.key))
        pendingFresh := Function.update s.pendingFresh run.key false }
  | finish {r : Nat} {run : Run} {fresh : Bool} : s.runs[r]? = some run →
      s.phase r = .took fresh →
      Step s (.finish r) { s with
        phase := Function.update s.phase r (.ended fresh)
        inflight := if run.holder = .timer then s.inflight - 1 else s.inflight }
  | drainReturns : s.drain = .flushing → s.drained = true → s.inflight = 0 →
      Step s .drainReturns { s with drain := .returned }

theorem step_schedule {s : State} {i : Nat} {c : Call} (hc : s.calls[i]? = some c)
    (hns : c.phase ≠ .scheduled) (hmarked : c.fresh = true → c.phase = .marked) :
    Step s (.schedule i) (s.Schedule i c) := by
  cases hst : s.stopped with
  | true =>
    rw [State.Schedule, if_pos hst]
    exact .inline hc hns hmarked hst
  | false =>
    rw [State.Schedule, if_neg (by simp [hst])]
    cases he : s.pending.get? c.key with
    | none => exact .arm s.timerPhase hc hns hmarked hst (.inl rfl)
    | some e => exact .arm _ hc hns hmarked hst (.inr ⟨e, he, rfl⟩)

theorem step_onFire {s : State} {j : Nat} {t : Timer} (ht : s.timers[j]? = some t)
    (hphase : s.timerPhase j = .fired) : Step s (.onFire j) (s.onFire j t) := by
  rw [State.onFire]
  cases he : s.pending.get? t.key with
  | none =>
    refine .stale ht hphase fun e h => ?_
    rw [he] at h
    cases h
  | some e =>
    by_cases hbail : s.stopped = true ∨ e.gen ≠ t.gen
    · simp only [Bool.or_eq_true, decide_eq_true_eq, if_pos hbail]
      refine .stale ht hphase fun e' h => ?_
      rw [he] at h
      obtain rfl := Option.some.inj h
      exact hbail
    · simp only [Bool.or_eq_true, decide_eq_true_eq, if_neg hbail]
      rw [not_or, Bool.not_eq_true, not_not] at hbail
      exact .flush ht hphase he hbail.1 hbail.2

theorem step_of_next {s : State} {a : Action} {s' : State} (h : next s a = some s') :
    Step s a s' := by
  cases a with
  | call key fresh =>
    obtain rfl := Option.some.inj h
    exact .call key fresh
  | mark i =>
    obtain ⟨c, hc, h⟩ := Option.bind_eq_some_iff.1 h
    obtain ⟨hg, h⟩ := Option.ite_none_right_eq_some.1 h
    obtain rfl := Option.some.inj h
    simp only [Bool.and_eq_true, decide_eq_true_eq] at hg
    exact .mark hc hg.1 hg.2
  | schedule i =>
    obtain ⟨c, hc, h⟩ := Option.bind_eq_some_iff.1 h
    obtain ⟨hg, h⟩ := Option.ite_none_right_eq_some.1 h
    obtain rfl := Option.some.inj h
    exact step_schedule hc hg.1 hg.2
  | fire j =>
    obtain ⟨hg, h⟩ := Option.ite_none_right_eq_some.1 h
    obtain rfl := Option.some.inj h
    exact .fire hg.1 hg.2
  | onFire j =>
    obtain ⟨t, ht, h⟩ := Option.bind_eq_some_iff.1 h
    obtain ⟨hg, h⟩ := Option.ite_none_right_eq_some.1 h
    obtain rfl := Option.some.inj h
    exact step_onFire ht hg
  | flushAll =>
    obtain ⟨hg, h⟩ := Option.ite_none_right_eq_some.1 h
    obtain rfl := Option.some.inj h
    exact .flushAll hg
  | start r =>
    obtain ⟨run, hrun, h⟩ := Option.bind_eq_some_iff.1 h
    obtain ⟨hg, h⟩ := Option.ite_none_right_eq_some.1 h
    obtain rfl := Option.some.inj h
    exact .start hrun hg.1
  | take r =>
    obtain ⟨run, hrun, h⟩ := Option.bind_eq_some_iff.1 h
    obtain ⟨hg, h⟩ := Option.ite_none_right_eq_some.1 h
    obtain rfl := Option.some.inj h
    exact .take hrun hg
  | finish r =>
    obtain ⟨run, hrun, h⟩ := Option.bind_eq_some_iff.1 h
    cases hphase : s.phase r with
    | took fresh =>
      simp only [hphase] at h
      obtain rfl := Option.some.inj h
      exact .finish hrun hphase
    | waiting => simp [hphase] at h
    | started => simp [hphase] at h
    | ended fresh => simp [hphase] at h
  | drainReturns =>
    obtain ⟨hg, h⟩ := Option.ite_none_right_eq_some.1 h
    obtain rfl := Option.some.inj h
    exact .drainReturns hg.1 hg.2.1 hg.2.2

/-! ## Pending entries and their timers -/

/-- The timer of a pending entry is not stopped, and its goroutine has not been at the lock. -/
structure Entries (s : State) : Prop where
  stopped : s.stopped = true ↔ s.drain ≠ .idle
  empty : s.stopped = true → s.pending = .empty
  armed : ∀ k e, s.pending.get? k = some e → s.timers[e.timer]? = some ⟨k, e.gen⟩ ∧
    (s.timerPhase e.timer = .armed ∨ s.timerPhase e.timer = .fired)
  unborn : ∀ j, s.timers.length ≤ j → s.timerPhase j = .armed

theorem stop_ne {p : Nat → TimerPhase} {j j' : Nat} (h : j' ≠ j) : stop p j j' = p j' := by
  rw [stop]
  split
  · exact Function.update_of_ne h _ _
  · rfl

theorem foldl_stop {p : Nat → TimerPhase} {es : List (String × PendingEntry)} {j : Nat}
    (h : ∀ x ∈ es, x.2.timer ≠ j) : es.foldl (fun p e => stop p e.2.timer) p j = p j := by
  induction es generalizing p with
  | nil => rfl
  | cons x es ih =>
    obtain ⟨hx, hes⟩ := List.forall_mem_cons.1 h
    rw [List.foldl_cons, ih hes, stop_ne (Ne.symm hx)]

theorem get?_empty (k : String) : (Record.empty : Record PendingEntry).get? k = none := rfl

theorem Entries.lt {s : State} (h : Entries s) {k : String} {e : PendingEntry}
    (he : s.pending.get? k = some e) : e.timer < s.timers.length :=
  (List.getElem?_eq_some_iff.1 (h.armed k e he).1).1

/-- Entries of different keys have different timers. -/
theorem Entries.timer_ne {s : State} (h : Entries s) {k k' : String} {e e' : PendingEntry}
    (he : s.pending.get? k = some e) (he' : s.pending.get? k' = some e') (hk : k ≠ k') :
    e.timer ≠ e'.timer := by
  intro heq
  have hkey := (h.armed k e he).1
  rw [heq, (h.armed k' e' he').1] at hkey
  exact hk (congrArg Timer.key (Option.some.inj hkey)).symm

/-- A timer whose goroutine comes to the lock is of no entry that stays. -/
theorem Entries.done {s : State} (h : Entries s) {j : Nat} {pending : Record PendingEntry}
    (hj : j < s.timers.length)
    (hp : ∀ k e, pending.get? k = some e → s.pending.get? k = some e ∧ e.timer ≠ j) {s' : State}
    (hs : s'.stopped = s.stopped) (hd : s'.drain = s.drain) (ht : s'.timers = s.timers)
    (hpending : s'.pending = pending)
    (hphase : s'.timerPhase = Function.update s.timerPhase j .done) : Entries s' := by
  refine ⟨by rw [hs, hd]; exact h.stopped, ?_, ?_, ?_⟩
  · intro hst
    rw [hs] at hst
    rw [hpending]
    refine Record.ext (List.eq_nil_iff_forall_not_mem.2 ?_)
    rintro ⟨k, e⟩ hmem
    have hnone := (hp k e (Record.get?_eq_some.2 hmem)).1
    rw [h.empty hst, get?_empty] at hnone
    cases hnone
  · intro k e he
    rw [hpending] at he
    obtain ⟨he, hne⟩ := hp k e he
    rw [ht, hphase, Function.update_of_ne hne]
    exact h.armed k e he
  · intro j' hj'
    rw [ht] at hj'
    rw [hphase, Function.update_of_ne (by omega)]
    exact h.unborn j' hj'

theorem entries_step {s s' : State} {a : Action} (h : Entries s) (hstep : Step s a s') :
    Entries s' := by
  cases hstep with
  | call key fresh => exact ⟨h.stopped, h.empty, h.armed, h.unborn⟩
  | mark => exact ⟨h.stopped, h.empty, h.armed, h.unborn⟩
  | inline => exact ⟨h.stopped, h.empty, h.armed, h.unborn⟩
  | start => exact ⟨h.stopped, h.empty, h.armed, h.unborn⟩
  | take => exact ⟨h.stopped, h.empty, h.armed, h.unborn⟩
  | finish => exact ⟨h.stopped, h.empty, h.armed, h.unborn⟩
  | drainReturns hd =>
    have hne : s.drain ≠ .idle := by rw [hd]; decide
    exact ⟨iff_of_true (h.stopped.2 hne) (by simp), h.empty, h.armed, h.unborn⟩
  | flushAll =>
    refine ⟨iff_of_true rfl (by simp [State.FlushAll]), fun _ => rfl, ?_, ?_⟩
    · intro k e he
      rw [State.FlushAll, get?_empty] at he
      cases he
    · intro j hj
      have hlt : ∀ x ∈ s.pending.entries, x.2.timer ≠ j := by
        rintro ⟨k, e⟩ hx
        exact Nat.ne_of_lt (Nat.lt_of_lt_of_le (h.lt (Record.get?_eq_some.2 hx)) hj)
      exact (foldl_stop hlt).trans (h.unborn j hj)
  | fire hj harmed =>
    refine ⟨h.stopped, h.empty, ?_, ?_⟩
    · intro k e he
      obtain ⟨ht, hphase⟩ := h.armed k e he
      refine ⟨ht, ?_⟩
      simp only [Function.update_apply]
      split
      · exact .inr rfl
      · exact hphase
    · intro j' hj'
      exact (Function.update_of_ne (by simp only at hj'; omega) _ _).trans (h.unborn j' hj')
  | @stale j t ht hfired hbail =>
    refine h.done (List.getElem?_eq_some_iff.1 ht).1 (fun k e he => ⟨he, ?_⟩) rfl rfl rfl rfl rfl
    rintro rfl
    have hkey := (h.armed k e he).1
    rw [ht] at hkey
    obtain rfl := Option.some.inj hkey
    rcases hbail e he with hst | hgen
    · rw [h.empty hst, get?_empty] at he
      cases he
    · exact hgen rfl
  | @flush j t e ht hfired he hst hgen =>
    refine h.done (List.getElem?_eq_some_iff.1 ht).1 (fun k e' he' => ?_) rfl rfl rfl rfl rfl
    by_cases hk : k = t.key
    · rw [hk, Record.get?_erase] at he'
      cases he'
    · rw [Record.get?_erase_ne hk] at he'
      refine ⟨he', ?_⟩
      rintro rfl
      have hkey := (h.armed k e' he').1
      rw [ht] at hkey
      exact hk (congrArg Timer.key (Option.some.inj hkey)).symm
  | @arm i c timerPhase hc hns hmarked hst htimer =>
    -- only the timer of the entry that is replaced can have been stopped
    have hkeep : ∀ j, (∀ e, s.pending.get? c.key = some e → j ≠ e.timer) →
        timerPhase j = s.timerPhase j := by
      intro j hj
      rcases htimer with rfl | ⟨e, he, rfl⟩
      · rfl
      · exact stop_ne (hj e he)
    have hunborn : ∀ j, s.timers.length ≤ j → timerPhase j = .armed := fun j hj =>
      (hkeep j fun e he => (Nat.lt_of_lt_of_le (h.lt he) hj).ne').trans (h.unborn j hj)
    refine ⟨h.stopped, fun hst' => absurd (hst'.symm.trans hst) (by decide), ?_, ?_⟩
    · intro k e he
      by_cases hk : k = c.key
      · subst hk
        rw [Record.get?_set] at he
        obtain rfl := Option.some.inj he
        exact ⟨List.getElem?_concat_length, .inl (hunborn _ (le_refl _))⟩
      · rw [Record.get?_set_ne hk] at he
        obtain ⟨ht, hphase⟩ := h.armed k e he
        simp only [hkeep e.timer fun e' he' => h.timer_ne he he' hk]
        exact ⟨(List.getElem?_append_left (h.lt he)).trans ht, hphase⟩
    · intro j hj
      simp only [List.length_append] at hj
      exact hunborn j (by omega)

/-! ## Rounds -/

/-- The call is of the closure that the run executes. -/
structure Passed (c : Call) (run : Run) : Prop where
  phase : c.phase = .scheduled
  key : c.key = run.key
  inline : run.holder = .inline → c.gen = 0
  batched : run.holder ≠ .inline → c.gen ≠ 0 ∧ c.gen = run.gen ∧ c.round = run.round

/-- The run is made for the call: its own if the batcher had stopped, else the one of its round. -/
structure Covers (i : Nat) (c : Call) (run : Run) : Prop where
  key : run.key = c.key
  inline : c.gen = 0 → run.holder = .inline ∧ run.flush.id = i
  batched : c.gen ≠ 0 → run.holder ≠ .inline ∧ run.round = c.round ∧ c.gen ≤ run.gen

/-- Neither do the runs execute the same closure nor are they of the same round. -/
def Distinct (x y : Run) : Prop :=
  x.flush.id ≠ y.flush.id ∧
    (x.holder ≠ .inline → y.holder ≠ .inline → x.key = y.key → x.round ≠ y.round)

/-- The entry of the key is for the call. -/
def State.Pends (s : State) (c : Call) : Prop :=
  c.gen ≠ 0 ∧ c.round = s.rounds c.key ∧ ∃ e, s.pending.get? c.key = some e ∧ c.gen ≤ e.gen

/-- A run is for the call, and when it has started a first run has started for it. -/
def State.Served (s : State) (i : Nat) (c : Call) : Prop :=
  ∃ r run, s.runs[r]? = some run ∧ Covers i c run ∧ (s.phase r = .waiting ∨ s.first i ≠ none)

structure Rounds (s : State) : Prop where
  gen : ∀ (i : Nat) (c : Call), s.calls[i]? = some c →
    c.gen ≤ s.seq ∧ (c.phase ≠ .scheduled → c.gen = 0)
  entry : ∀ k e, s.pending.get? k = some e → ∃ c, s.calls[e.flush.id]? = some c ∧
    c.batched = true ∧ c.key = k ∧ c.round = s.rounds k ∧ c.gen = e.gen
  passed : ∀ run ∈ s.runs, ∃ c, s.calls[run.flush.id]? = some c ∧ Passed c run
  older : ∀ run ∈ s.runs, run.holder ≠ .inline → run.round < s.rounds run.key
  distinct : s.runs.Pairwise Distinct
  covered : ∀ (i : Nat) (c : Call), s.calls[i]? = some c → c.phase = .scheduled →
    s.Pends c ∨ s.Served i c
  first : ∀ i r, s.first i = some r → ∃ c run, s.calls[i]? = some c ∧ c.phase = .scheduled ∧
    s.runs[r]? = some run ∧ run.key = c.key ∧ s.phase r ≠ .waiting
  unborn : ∀ r, s.runs.length ≤ r → s.phase r = .waiting

theorem Call.batched_iff {c : Call} : c.batched = true ↔ c.phase = .scheduled ∧ c.gen ≠ 0 := by
  simp [Call.batched]

theorem getElem?_of_append {s : State} {r : Nat} {run : Run}
    (h : s.runs[r]? = some run) (rest : List Run) : (s.runs ++ rest)[r]? = some run :=
  (List.getElem?_append_left (List.getElem?_eq_some_iff.1 h).1).trans h

/-- A step that leaves the scheduled calls, the entries and the runs alone. -/
theorem Rounds.frame {s s' : State} (h : Rounds s)
    (hkeep : ∀ (j : Nat) (d : Call), s.calls[j]? = some d → d.phase = .scheduled →
      s'.calls[j]? = some d)
    (hback : ∀ (j : Nat) (d : Call), s'.calls[j]? = some d → d.phase = .scheduled →
      s.calls[j]? = some d)
    (hgen : ∀ (j : Nat) (d : Call), s'.calls[j]? = some d →
      d.gen ≤ s.seq ∧ (d.phase ≠ .scheduled → d.gen = 0))
    (hphase : ∀ r, s'.phase r = .waiting ↔ s.phase r = .waiting)
    (hseq : s'.seq = s.seq) (hpending : s'.pending = s.pending) (hrounds : s'.rounds = s.rounds)
    (hruns : s'.runs = s.runs) (hfirst : s'.first = s.first) : Rounds s' where
  gen j d hd := by
    rw [hseq]
    exact hgen j d hd
  entry k e he := by
    rw [hpending] at he
    obtain ⟨c, hc, hb, hrest⟩ := h.entry k e he
    rw [hrounds]
    exact ⟨c, hkeep _ c hc (Call.batched_iff.1 hb).1, hb, hrest⟩
  passed run hrun := by
    rw [hruns] at hrun
    obtain ⟨c, hc, hp⟩ := h.passed run hrun
    exact ⟨c, hkeep _ c hc hp.phase, hp⟩
  older run hrun := by
    rw [hruns] at hrun
    rw [hrounds]
    exact h.older run hrun
  distinct := by
    rw [hruns]
    exact h.distinct
  covered i c hc hs := by
    rcases h.covered i c (hback i c hc hs) hs with hp | ⟨r, run, hr, hcov, hw⟩
    · rw [State.Pends, hpending, hrounds]
      exact .inl hp
    · rw [State.Served, hruns, hfirst]
      exact .inr ⟨r, run, hr, hcov, hw.imp_left (hphase r).2⟩
  first i r hr := by
    rw [hfirst] at hr
    obtain ⟨c, run, hc, hs, hrun, hkey, hw⟩ := h.first i r hr
    rw [hruns]
    exact ⟨c, run, hkeep i c hc hs, hs, hrun, hkey, mt (hphase r).1 hw⟩
  unborn r hr := by
    rw [hruns] at hr
    exact (hphase r).2 (h.unborn r hr)

section Calls

variable {l : List Call} {i j : Nat} {c d x : Call}

theorem getElem?_set_scheduled (hc : l[i]? = some c) (hns : c.phase ≠ .scheduled)
    (hd : l[j]? = some d) (hs : d.phase = .scheduled) : (l.set i x)[j]? = some d := by
  rw [List.getElem?_set_ne]
  · exact hd
  · rintro rfl
    rw [hc] at hd
    exact hns (Option.some.inj hd ▸ hs)

theorem of_getElem?_set (hd : (l.set i x)[j]? = some d) :
    j = i ∧ d = x ∨ j ≠ i ∧ l[j]? = some d := by
  by_cases hj : j = i
  · subst hj
    have hlt : j < l.length := by
      have := (List.getElem?_eq_some_iff.1 hd).1
      rwa [List.length_set] at this
    rw [List.getElem?_set_self hlt] at hd
    exact .inl ⟨rfl, (Option.some.inj hd).symm⟩
  · rw [List.getElem?_set_ne (Ne.symm hj)] at hd
    exact .inr ⟨hj, hd⟩

end Calls

theorem Rounds.start {s : State} (h : Rounds s) {r : Nat} {run : Run}
    (hrun : s.runs[r]? = some run) (hw : s.phase r = .waiting) :
    Rounds { s with
      phase := Function.update s.phase r .started, first := s.firstAfter r run } := by
  have hfirst : ∀ i, s.first i ≠ none → s.firstAfter r run i = s.first i := by
    intro i hi
    rw [State.firstAfter]
    split
    · rfl
    · rw [if_neg fun hand => hi hand.2.2]
  refine ⟨h.gen, h.entry, h.passed, h.older, h.distinct, ?_, ?_, ?_⟩
  · intro i c hc hs
    refine (h.covered i c hc hs).imp_right ?_
    rintro ⟨r', run', hr', hcov, hw'⟩
    refine ⟨r', run', hr', hcov, ?_⟩
    by_cases hi : s.first i = none
    · by_cases hrr : r' = r
      · subst hrr
        rw [hrun] at hr'
        obtain rfl := Option.some.inj hr'
        refine .inr ?_
        simp [State.firstAfter, hc, hs, hi, hcov.key]
      · exact .inl ((Function.update_of_ne hrr _ _).trans (hw'.resolve_right (not_not.2 hi)))
    · exact .inr (by simpa only [hfirst i hi] using hi)
  · intro i r' hr'
    by_cases hi : s.first i = none
    · simp only [State.firstAfter] at hr'
      split at hr'
      · rw [hi] at hr'
        cases hr'
      · rename_i c hc
        split at hr'
        · rename_i hand
          obtain rfl := Option.some.inj hr'
          exact ⟨c, run, hc, hand.1, hrun, hand.2.1.symm, by simp⟩
        · rw [hi] at hr'
          cases hr'
    · simp only [hfirst i hi] at hr'
      obtain ⟨c, run', hc, hs, hrun', hkey, hne⟩ := h.first i r' hr'
      refine ⟨c, run', hc, hs, hrun', hkey, ?_⟩
      simp only [Function.update_apply]
      split
      · exact RunPhase.noConfusion
      · exact hne
  · intro r' hr'
    have hne : r' ≠ r := by
      rintro rfl
      rw [List.getElem?_eq_none hr'] at hrun
      cases hrun
    exact (Function.update_of_ne hne _ _).trans (h.unborn r' hr')

/-- The phase of a run that has started stays that of one. -/
theorem waiting_iff {s : State} {r : Nat} {p : RunPhase} (h : s.phase r ≠ .waiting)
    (hp : p ≠ .waiting) (r' : Nat) :
    Function.update s.phase r p r' = .waiting ↔ s.phase r' = .waiting := by
  by_cases hr : r' = r
  · subst hr
    rw [Function.update_self]
    exact iff_of_false hp h
  · rw [Function.update_of_ne hr]

/-- A call that has found the batcher stopped is to make its run itself. -/
theorem Rounds.inline {s : State} (h : Rounds s) {i : Nat} {c : Call} (hc : s.calls[i]? = some c)
    (hns : c.phase ≠ .scheduled) :
    Rounds { s with
      calls := s.calls.set i { c with phase := .scheduled }
      runs := s.runs ++ [{ key := c.key, flush := ⟨i, c.fresh⟩, holder := .inline }] } := by
  have hlt : i < s.calls.length := (List.getElem?_eq_some_iff.1 hc).1
  have hgen : c.gen = 0 := (h.gen i c hc).2 hns
  refine ⟨?_, ?_, ?_, ?_, ?_, ?_, ?_, ?_⟩
  · intro j d hd
    rcases of_getElem?_set hd with ⟨rfl, rfl⟩ | ⟨-, hd⟩
    · exact ⟨(h.gen j c hc).1, fun hne => absurd rfl hne⟩
    · exact h.gen j d hd
  · intro k e he
    obtain ⟨d, hd, hb, hrest⟩ := h.entry k e he
    exact ⟨d, getElem?_set_scheduled hc hns hd (Call.batched_iff.1 hb).1, hb, hrest⟩
  · intro run hrun
    rcases List.mem_append.1 hrun with hrun | hrun
    · obtain ⟨d, hd, hp⟩ := h.passed run hrun
      exact ⟨d, getElem?_set_scheduled hc hns hd hp.phase, hp⟩
    · obtain rfl := List.mem_singleton.1 hrun
      exact ⟨_, List.getElem?_set_self hlt, rfl, rfl, fun _ => hgen, fun hne => absurd rfl hne⟩
  · intro run hrun hne
    rcases List.mem_append.1 hrun with hrun | hrun
    · exact h.older run hrun hne
    · obtain rfl := List.mem_singleton.1 hrun
      exact absurd rfl hne
  · refine List.pairwise_append.2 ⟨h.distinct, List.pairwise_singleton _ _, ?_⟩
    intro run hrun new hnew
    obtain rfl := List.mem_singleton.1 hnew
    refine ⟨?_, fun _ hne => absurd rfl hne⟩
    obtain ⟨d, hd, hp⟩ := h.passed run hrun
    rintro heq
    rw [heq, hc] at hd
    exact hns (Option.some.inj hd ▸ hp.phase)
  · intro j d hd hs
    rcases of_getElem?_set hd with ⟨rfl, rfl⟩ | ⟨-, hd⟩
    · refine .inr ⟨s.runs.length, _, List.getElem?_concat_length, ?_,
        .inl (h.unborn _ (le_refl _))⟩
      exact ⟨rfl, fun _ => ⟨rfl, rfl⟩, fun hne => absurd hgen hne⟩
    · refine (h.covered j d hd hs).imp_right ?_
      rintro ⟨r, run, hr, hrest⟩
      exact ⟨r, run, getElem?_of_append hr _, hrest⟩
  · intro j r hr
    obtain ⟨d, run, hd, hs, hrun, hrest⟩ := h.first j r hr
    exact ⟨d, run, getElem?_set_scheduled hc hns hd hs, hs, getElem?_of_append hrun _, hrest⟩
  · intro r hr
    simp only [List.length_append] at hr
    exact h.unborn r (by omega)

/-- A closure is put in the entry of its key; the calls of its round are all older. -/
theorem Rounds.arm {s : State} (h : Rounds s) {i : Nat} {c : Call} (hc : s.calls[i]? = some c)
    (hns : c.phase ≠ .scheduled) (timer : Nat) {s' : State}
    (hcalls : s'.calls = s.calls.set i
      { c with phase := .scheduled, gen := s.seq + 1, round := s.rounds c.key })
    (hpending : s'.pending = s.pending.set c.key ⟨timer, ⟨i, c.fresh⟩, s.seq + 1⟩)
    (hseq : s'.seq = s.seq + 1) (hrounds : s'.rounds = s.rounds) (hruns : s'.runs = s.runs)
    (hphase : s'.phase = s.phase) (hfirst : s'.first = s.first) : Rounds s' := by
  have hlt : i < s.calls.length := (List.getElem?_eq_some_iff.1 hc).1
  have hkeep {j : Nat} {d : Call} (hd : s.calls[j]? = some d) (hs : d.phase = .scheduled) :
      s'.calls[j]? = some d := by
    rw [hcalls]
    exact getElem?_set_scheduled hc hns hd hs
  refine ⟨?_, ?_, ?_, ?_, ?_, ?_, ?_, ?_⟩
  · intro j d hd
    rw [hcalls] at hd
    rw [hseq]
    rcases of_getElem?_set hd with ⟨-, rfl⟩ | ⟨-, hd⟩
    · exact ⟨le_refl _, fun hne => absurd rfl hne⟩
    · exact ⟨Nat.le_succ_of_le (h.gen j d hd).1, (h.gen j d hd).2⟩
  · intro k e he
    rw [hpending] at he
    rw [hrounds]
    by_cases hk : k = c.key
    · subst hk
      rw [Record.get?_set] at he
      obtain rfl := Option.some.inj he
      rw [hcalls]
      exact ⟨_, List.getElem?_set_self hlt, rfl, rfl, rfl, rfl⟩
    · rw [Record.get?_set_ne hk] at he
      obtain ⟨d, hd, hb, hrest⟩ := h.entry k e he
      exact ⟨d, hkeep hd (Call.batched_iff.1 hb).1, hb, hrest⟩
  · intro run hrun
    rw [hruns] at hrun
    obtain ⟨d, hd, hp⟩ := h.passed run hrun
    exact ⟨d, hkeep hd hp.phase, hp⟩
  · rw [hruns, hrounds]
    exact h.older
  · rw [hruns]
    exact h.distinct
  · intro j d hd hs
    rw [State.Pends, State.Served, hpending, hrounds, hruns, hphase, hfirst]
    rw [hcalls] at hd
    rcases of_getElem?_set hd with ⟨rfl, rfl⟩ | ⟨-, hd⟩
    · exact .inl ⟨Nat.succ_ne_zero _, rfl, _, Record.get?_set _ _ _, le_refl _⟩
    · refine (h.covered j d hd hs).imp_left ?_
      rintro ⟨hne, hround, e, he, hle⟩
      refine ⟨hne, hround, ?_⟩
      by_cases hk : d.key = c.key
      · rw [hk]
        exact ⟨_, Record.get?_set _ _ _, Nat.le_succ_of_le (h.gen j d hd).1⟩
      · rw [Record.get?_set_ne hk]
        exact ⟨e, he, hle⟩
  · intro j r hr
    rw [hfirst] at hr
    obtain ⟨d, run, hd, hs, hrest⟩ := h.first j r hr
    rw [hruns, hphase]
    exact ⟨d, run, hkeep hd hs, hs, hrest⟩
  · rw [hruns, hphase]
    exact h.unborn

/-- Entries are taken out, and become the runs of their rounds. -/
theorem Rounds.takeEntries {s : State} (h : Rounds s) {holder : Holder} (hholder : holder ≠ .inline)
    {es : List (String × PendingEntry)} (hes : ∀ x ∈ es, s.pending.get? x.1 = some x.2)
    (hnodup : (es.map Prod.fst).Nodup) {s' : State}
    (hpending : ∀ k, s'.pending.get? k = if k ∈ es.map Prod.fst then none else s.pending.get? k)
    (hrounds : ∀ k, s'.rounds k = if k ∈ es.map Prod.fst then s.rounds k + 1 else s.rounds k)
    (hruns : s'.runs = s.runs ++ es.map (s.runOf holder)) (hcalls : s'.calls = s.calls)
    (hseq : s'.seq = s.seq) (hphase : s'.phase = s.phase) (hfirst : s'.first = s.first) :
    Rounds s' := by
  have hnew : ∀ x ∈ es, ∃ c, s.calls[x.2.flush.id]? = some c ∧ Passed c (s.runOf holder x) := by
    intro x hx
    obtain ⟨c, hc, hb, hkey, hround, hgen⟩ := h.entry x.1 x.2 (hes x hx)
    obtain ⟨hs, hne⟩ := Call.batched_iff.1 hb
    exact ⟨c, hc, hs, hkey, fun hin => absurd hin hholder, fun _ => ⟨hne, hgen, hround⟩⟩
  have hlater : ∀ k, s.rounds k ≤ s'.rounds k := by
    intro k
    rw [hrounds]
    split
    · exact Nat.le_succ _
    · exact le_refl _
  refine ⟨?_, ?_, ?_, ?_, ?_, ?_, ?_, ?_⟩
  · rw [hcalls, hseq]
    exact h.gen
  · intro k e he
    rw [hpending] at he
    obtain ⟨hk, he⟩ := Option.ite_none_left_eq_some.1 he
    rw [hcalls, hrounds, if_neg hk]
    exact h.entry k e he
  · intro run hrun
    rw [hruns] at hrun
    rw [hcalls]
    rcases List.mem_append.1 hrun with hrun | hrun
    · exact h.passed run hrun
    · obtain ⟨x, hx, rfl⟩ := List.mem_map.1 hrun
      exact hnew x hx
  · intro run hrun hne
    rw [hruns] at hrun
    rcases List.mem_append.1 hrun with hrun | hrun
    · exact Nat.lt_of_lt_of_le (h.older run hrun hne) (hlater _)
    · obtain ⟨x, hx, rfl⟩ := List.mem_map.1 hrun
      have hk : (s.runOf holder x).key ∈ es.map Prod.fst := List.mem_map_of_mem hx
      rw [hrounds, if_pos hk]
      exact Nat.lt_succ_self _
  · rw [hruns]
    refine List.pairwise_append.2 ⟨h.distinct, List.pairwise_map.2 ?_, ?_⟩
    · refine (List.pairwise_map.1 hnodup).imp_of_mem ?_
      intro x y hx hy hxy
      refine ⟨?_, fun _ _ hkey => absurd hkey hxy⟩
      obtain ⟨c, hc, hp⟩ := hnew x hx
      obtain ⟨d, hd, hq⟩ := hnew y hy
      intro hid
      rw [show x.2.flush.id = y.2.flush.id from hid, hd] at hc
      exact hxy (hp.key.symm.trans (Option.some.inj hc ▸ hq.key))
    · intro run hrun new hnew'
      obtain ⟨x, hx, rfl⟩ := List.mem_map.1 hnew'
      obtain ⟨c, hc, hp⟩ := h.passed run hrun
      obtain ⟨d, hd, hq⟩ := hnew x hx
      -- an older run for the key is of an earlier round
      have hround : run.holder ≠ .inline → run.key = x.1 → run.round ≠ s.rounds x.1 := by
        intro hne hkey
        rw [← hkey]
        exact Nat.ne_of_lt (h.older run hrun hne)
      refine ⟨?_, fun hne _ hkey => hround hne hkey⟩
      intro hid
      rw [show run.flush.id = x.2.flush.id from hid, hd] at hc
      obtain rfl := Option.some.inj hc
      by_cases hin : run.holder = .inline
      · exact (hq.batched hholder).1 (hp.inline hin)
      · exact hround hin (hp.key.symm.trans hq.key)
          ((hp.batched hin).2.2.symm.trans (hq.batched hholder).2.2)
  · intro i c hc hs
    rw [hcalls] at hc
    rw [State.Pends, State.Served, hpending, hrounds, hruns, hphase, hfirst]
    rcases h.covered i c hc hs with ⟨hne, hround, e, he, hle⟩ | ⟨r, run, hr, hrest⟩
    · by_cases hk : c.key ∈ es.map Prod.fst
      · obtain ⟨x, hx, hxk⟩ := List.mem_map.1 hk
        obtain rfl : x.2 = e := by
          have := hes x hx
          rw [hxk, he] at this
          exact (Option.some.inj this).symm
        obtain ⟨n, hn⟩ := List.mem_iff_getElem?.1 hx
        refine .inr ⟨s.runs.length + n, s.runOf holder x, ?_, ?_, .inl (h.unborn _ (by omega))⟩
        · rw [List.getElem?_append_right (Nat.le_add_right _ _), Nat.add_sub_cancel_left,
            List.getElem?_map, hn]
          rfl
        · refine ⟨hxk, fun h0 => absurd h0 hne, fun _ => ⟨hholder, ?_, hle⟩⟩
          rw [hround, ← hxk]
          rfl
      · rw [if_neg hk, if_neg hk]
        exact .inl ⟨hne, hround, e, he, hle⟩
    · exact .inr ⟨r, run, getElem?_of_append hr _, hrest⟩
  · intro i r hr
    rw [hfirst] at hr
    obtain ⟨c, run, hc, hs, hrun, hrest⟩ := h.first i r hr
    rw [hcalls, hruns, hphase]
    exact ⟨c, run, hc, hs, getElem?_of_append hrun _, hrest⟩
  · intro r hr
    rw [hruns, List.length_append] at hr
    rw [hphase]
    exact h.unborn r (by omega)

theorem isSome_get?_iff {p : Record PendingEntry} {k : String} :
    (p.get? k).isSome = true ↔ k ∈ p.entries.map Prod.fst := by
  rw [← Option.ne_none_iff_isSome, Ne, Record.get?_eq_none]
  simp

theorem rounds_step {s s' : State} {a : Action} (h : Rounds s) (hstep : Step s a s') :
    Rounds s' := by
  cases hstep with
  | call key fresh =>
    refine h.frame ?_ ?_ ?_ (fun _ => Iff.rfl) rfl rfl rfl rfl rfl
    · intro j d hd _
      exact (List.getElem?_append_left (List.getElem?_eq_some_iff.1 hd).1).trans hd
    · intro j d hd hs
      rcases Parties.getElem?_concat hd with hd | rfl
      · exact hd
      · cases hs
    · intro j d hd
      rcases Parties.getElem?_concat hd with hd | rfl
      · exact h.gen j d hd
      · exact ⟨Nat.zero_le _, fun _ => rfl⟩
  | @mark i c hc hfresh hbegan =>
    have hns : c.phase ≠ .scheduled := by rw [hbegan]; decide
    refine h.frame ?_ ?_ ?_ (fun _ => Iff.rfl) rfl rfl rfl rfl rfl
    · intro j d hd hs
      exact getElem?_set_scheduled hc hns hd hs
    · intro j d hd hs
      rcases of_getElem?_set hd with ⟨-, rfl⟩ | ⟨-, hd⟩
      · cases hs
      · exact hd
    · intro j d hd
      rcases of_getElem?_set hd with ⟨rfl, rfl⟩ | ⟨-, hd⟩
      · exact ⟨(h.gen j c hc).1, fun _ => (h.gen j c hc).2 hns⟩
      · exact h.gen j d hd
  | inline hc hns => exact h.inline hc hns
  | arm timerPhase hc hns => exact h.arm hc hns _ rfl rfl rfl rfl rfl rfl rfl
  | fire =>
    exact h.frame (fun _ _ hd _ => hd) (fun _ _ hd _ => hd) h.gen (fun _ => Iff.rfl) rfl rfl rfl
      rfl rfl
  | stale =>
    exact h.frame (fun _ _ hd _ => hd) (fun _ _ hd _ => hd) h.gen (fun _ => Iff.rfl) rfl rfl rfl
      rfl rfl
  | @flush j t e ht hfired he hst hgen =>
    have hholder : Holder.timer ≠ .inline := by decide
    refine h.takeEntries hholder (List.forall_mem_singleton.2 he) (List.nodup_singleton _) ?_ ?_ rfl
      rfl rfl rfl rfl
    · intro k
      by_cases hk : k = t.key
      · simp [hk, Record.get?_erase]
      · simp [hk, Record.get?_erase_ne hk]
    · intro k
      simp [Function.update_apply]
      by_cases hk : k = t.key <;> simp [hk]
  | flushAll =>
    have hholder : Holder.drain ≠ .inline := by decide
    refine h.takeEntries hholder (fun x hx => Record.get?_eq_some.2 hx) s.pending.nodup ?_ ?_ rfl
      rfl rfl rfl rfl
    · intro k
      show none = _
      split
      · rfl
      · rename_i hk
        rw [← isSome_get?_iff, Bool.not_eq_true, Option.isSome_eq_false_iff,
          Option.isNone_iff_eq_none] at hk
        exact hk.symm
    · intro k
      simp only [← isSome_get?_iff]
      rfl
  | start hrun hw => exact h.start hrun hw
  | @take r run hrun hphase =>
    have hne : s.phase r ≠ .waiting := by rw [hphase]; decide
    exact h.frame (fun _ _ hd _ => hd) (fun _ _ hd _ => hd) h.gen
      (waiting_iff hne RunPhase.noConfusion) rfl rfl rfl rfl rfl
  | @finish r run fresh hrun hphase =>
    have hne : s.phase r ≠ .waiting := by rw [hphase]; exact RunPhase.noConfusion
    exact h.frame (fun _ _ hd _ => hd) (fun _ _ hd _ => hd) h.gen
      (waiting_iff hne RunPhase.noConfusion) rfl rfl rfl rfl rfl
  | drainReturns =>
    exact h.frame (fun _ _ hd _ => hd) (fun _ _ hd _ => hd) h.gen (fun _ => Iff.rfl) rfl rfl rfl
      rfl rfl

/-! ## `FlushAll` -/

/-- What a run adds to `inflight`. -/
def busy (runs : List Run) (phase : Nat → RunPhase) (r : Nat) : Nat :=
  if (runs[r]?.any fun run => run.holder = .timer) ∧ (phase r).over = false then 1 else 0

structure Draining (s : State) : Prop where
  inflight : s.inflight = ∑ r ∈ Finset.range s.runs.length, busy s.runs s.phase r
  returned : s.drain = .returned → ∀ (r : Nat) (run : Run), s.runs[r]? = some run →
    run.holder ≠ .inline → (s.phase r).over = true

theorem sum_busy_concat (runs : List Run) (phase : Nat → RunPhase) (x : Run) :
    ∑ r ∈ Finset.range (runs ++ [x]).length, busy (runs ++ [x]) phase r =
      (∑ r ∈ Finset.range runs.length, busy runs phase r) +
        if x.holder = .timer ∧ (phase runs.length).over = false then 1 else 0 := by
  rw [List.length_append, List.length_singleton, Finset.sum_range_succ]
  congr 1
  · refine Finset.sum_congr rfl fun r hr => ?_
    rw [busy, busy, List.getElem?_append_left (Finset.mem_range.1 hr)]
  · rw [busy, List.getElem?_concat_length]
    simp

theorem sum_busy_append (runs rest : List Run) (phase : Nat → RunPhase)
    (h : ∀ x ∈ rest, x.holder ≠ .timer) :
    ∑ r ∈ Finset.range (runs ++ rest).length, busy (runs ++ rest) phase r =
      ∑ r ∈ Finset.range runs.length, busy runs phase r := by
  induction rest using List.reverseRecOn with
  | nil => rw [List.append_nil]
  | append_singleton rest x ih =>
    obtain ⟨hrest, hx⟩ := List.forall_mem_append.1 h
    rw [← List.append_assoc, sum_busy_concat, ih hrest, if_neg fun hand => ?_, Nat.add_zero]
    exact hx x (List.mem_singleton_self x) hand.1

/-- A run that is not over goes on. -/
theorem Draining.goOn {s : State} (h : Draining s) {r : Nat} {run : Run}
    (hrun : s.runs[r]? = some run) (hnot : (s.phase r).over = false) {p : RunPhase} {s' : State}
    (hphase : s'.phase = Function.update s.phase r p) (hruns : s'.runs = s.runs)
    (hdrain : s'.drain = s.drain)
    (hinflight : s'.inflight = if p.over = true ∧ run.holder = .timer then s.inflight - 1
      else s.inflight) : Draining s' := by
  have hlt : r < s.runs.length := (List.getElem?_eq_some_iff.1 hrun).1
  have hbusy : ∀ j, j ≠ r → busy s.runs s'.phase j = busy s.runs s.phase j := by
    intro j hj
    rw [busy, busy, hphase, Function.update_of_ne hj]
  have hsum := sum_update hlt hbusy
  refine ⟨?_, ?_⟩
  · have hself : busy s.runs s.phase r = if run.holder = .timer then 1 else 0 := by
      simp [busy, hrun, hnot]
    have hafter : busy s.runs s'.phase r =
        if run.holder = .timer ∧ p.over = false then 1 else 0 := by
      simp [busy, hrun, hphase]
    rw [hruns, hinflight]
    rw [hself, hafter, ← h.inflight] at hsum
    by_cases ht : run.holder = .timer
    · cases hp : p.over with
      | true =>
        simp only [ht, hp, and_true, true_and, if_true, Bool.true_eq_false, if_false] at hsum ⊢
        omega
      | false =>
        simp only [ht, hp, and_true, if_true, Bool.false_eq_true, if_false] at hsum ⊢
        omega
    · simp only [ht, and_false, false_and, if_false] at hsum ⊢
      omega
  · intro hret j x hx hne
    rw [hdrain] at hret
    rw [hruns] at hx
    have hover := h.returned hret j x hx hne
    rw [hphase, Function.update_of_ne]
    · exact hover
    · rintro rfl
      rw [hnot] at hover
      cases hover

theorem draining_step {s s' : State} {a : Action} (he : Entries s) (hr : Rounds s)
    (h : Draining s) (hstep : Step s a s') : Draining s' := by
  cases hstep with
  | call => exact ⟨h.inflight, h.returned⟩
  | mark => exact ⟨h.inflight, h.returned⟩
  | arm => exact ⟨h.inflight, h.returned⟩
  | fire => exact ⟨h.inflight, h.returned⟩
  | stale => exact ⟨h.inflight, h.returned⟩
  | @inline i c =>
    refine ⟨?_, ?_⟩
    · show s.inflight = _
      rw [h.inflight, sum_busy_append _ _ _ (List.forall_mem_singleton.2 Holder.noConfusion)]
    · intro hret r run hrun hne
      rcases Parties.getElem?_concat hrun with hrun | rfl
      · exact h.returned hret r run hrun hne
      · exact absurd rfl hne
  | @flush j t e ht hfired hget hst hgen =>
    refine ⟨?_, ?_⟩
    · show s.inflight + 1 = _
      rw [sum_busy_concat, h.inflight, if_pos]
      exact ⟨rfl, by rw [hr.unborn _ (le_refl _)]; rfl⟩
    · intro hret
      have hstopped : s.stopped = true := he.stopped.2 (by rw [show s.drain = _ from hret]; decide)
      rw [hst] at hstopped
      cases hstopped
  | flushAll =>
    refine ⟨?_, fun hret => Drain.noConfusion hret⟩
    show s.inflight = _
    rw [State.FlushAll, h.inflight, sum_busy_append]
    intro x hx
    obtain ⟨y, -, rfl⟩ := List.mem_map.1 hx
    exact Holder.noConfusion
  | start hrun hw => exact h.goOn hrun (by rw [hw]; rfl) rfl rfl rfl rfl
  | take hrun hphase => exact h.goOn hrun (by rw [hphase]; rfl) rfl rfl rfl rfl
  | finish hrun hphase =>
    refine h.goOn hrun (by rw [hphase]; rfl) rfl rfl rfl ?_
    simp [RunPhase.over]
  | drainReturns hd hdrained hzero =>
    refine ⟨h.inflight, fun _ r run hrun hne => ?_⟩
    have hlt : r < s.runs.length := (List.getElem?_eq_some_iff.1 hrun).1
    cases hholder : run.holder with
    | inline => exact absurd hholder hne
    | drain =>
      have hdone := List.all_eq_true.1 hdrained r (List.mem_range.2 hlt)
      simpa [hrun, hholder] using hdone
    | timer =>
      rw [h.inflight] at hzero
      have hnone := Finset.sum_eq_zero_iff.1 hzero r (Finset.mem_range.2 hlt)
      simpa [busy, hrun, hholder] using hnone

/-! ## Every reachable state -/

structure Inv (s : State) : Prop where
  entries : Entries s
  rounds : Rounds s
  draining : Draining s

theorem inv_init : Inv {} where
  entries := {
    stopped := by decide
    empty := fun h => absurd h (by decide)
    armed := fun k e h => absurd h (by simp [get?_empty])
    unborn := fun _ _ => rfl }
  rounds := {
    gen := fun i c h => by cases h
    entry := fun k e h => absurd h (by simp [get?_empty])
    passed := List.forall_mem_nil _
    older := List.forall_mem_nil _
    distinct := .nil
    covered := fun i c h => by cases h
    first := fun i r h => by cases h
    unborn := fun _ _ => rfl }
  draining := ⟨rfl, fun h => by cases h⟩

theorem inv_next {s s' : State} {a : Action} (h : Inv s) (hn : batcher.next s a = some s') :
    Inv s' :=
  have hstep := step_of_next hn
  ⟨entries_step h.entries hstep, rounds_step h.rounds hstep,
    draining_step h.entries h.rounds h.draining hstep⟩

theorem inv : ∀ s, batcher.Reachable s → Inv s :=
  Machine.invariant (fun _ hs => hs ▸ inv_init) fun _ _ _ _ h hn => inv_next h hn

end Orynx.Channel
