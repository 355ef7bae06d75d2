import Mathlib.Algebra.Order.BigOperators.Group.Finset
import Mathlib.Algebra.Order.Group.Nat
import Orynx.Channel.Rounds

/-! # The debouncer loses and repeats nothing

* `Followed`, `Debounced`: what is promised of a call, and of the batcher in a state;
* `inevitable_followed`: left to itself, the batcher starts a flush for every call, and the one
  flush of its round;
* `debounced`: all of it holds in every state, if a mark is only ever taken by the first flush that
  starts after its message was scheduled.
-/

namespace Orynx.Channel

open Lib

/-! ## The properties -/

/-- A flush for the key of the call has started since the call was scheduled, and so has the one
that is made for the call. -/
def Followed (i : Nat) (s : State) : Prop :=
  ∃ c, s.calls[i]? = some c ∧
    (∃ r run, s.first i = some r ∧ s.runs[r]? = some run ∧ run.key = c.key ∧
      s.phase r ≠ .waiting) ∧
    ∃ r run, s.runs[r]? = some run ∧ Covers i c run ∧ s.phase r ≠ .waiting

/-- The flushes that the timers or `FlushAll` have been given for a round of a key. -/
def State.flushes (s : State) (key : String) (round : Nat) : List Run :=
  s.runs.filter fun run => run.holder ≠ .inline && run.key = key && run.round = round

/-- The calls of a round are those with no timer callback or `FlushAll` taking effect in between. -/
structure Debounced (s : State) : Prop where
  followed : ∀ i, i < s.calls.length → batcher.Inevitable Action.internal (Followed i) s
  oneFlush : ∀ c ∈ s.calls, c.batched = true →
    (s.flushes c.key c.round).length = if c.round = s.rounds c.key then 0 else 1
  latest : ∀ run ∈ s.runs, ∃ c, s.calls[run.flush.id]? = some c ∧ c.key = run.key ∧
    (run.holder ≠ .inline → c.round = run.round ∧ ∀ d ∈ s.calls, d.batched = true →
      d.key = run.key → d.round = run.round → d.gen ≤ c.gen)
  once : (s.runs.map fun run => run.flush.id).Nodup
  drained : s.drain = .returned → s.pending.entries = [] ∧ ∀ (r : Nat) (run : Run),
    s.runs[r]? = some run → run.holder ≠ .inline → (s.phase r).over = true
  fresh : ∀ (i : Nat) (c : Call) (r : Nat), s.calls[i]? = some c → c.fresh = true →
    s.first i = some r → (s.phase r).forceFresh ≠ some false

/-- The message forces a fresh session, has set the mark, and is not reflected yet. -/
def State.awaits (s : State) (i : Nat) (c : Call) : Bool :=
  c.fresh && (c.phase = .marked ||
    c.phase = .scheduled && (s.first i).all fun r => s.phase r = .started)

/-- The flush takes the mark of no message but those whose first flush it is. -/
def ownMarks (s : State) (r : Nat) : Bool :=
  s.runs[r]?.all fun run => (List.range s.calls.length).all fun i =>
    s.calls[i]?.all fun c => !(s.awaits i c) || c.key ≠ run.key || s.first i = some r

def keepsMarks (s : State) : Action → Bool
  | .take r => ownMarks s r
  | .call .. | .mark _ | .schedule _ | .fire _ | .onFire _ | .flushAll | .start _ | .finish _
  | .drainReturns => true

/-! ## What is left to do -/

def Call.work (c : Call) : Nat :=
  match c.phase with
  | .began => 8
  | .marked => 7
  | .scheduled => 0

def TimerPhase.work : TimerPhase → Nat
  | .armed => 5
  | .fired => 4
  | .stopped | .done => 0

def RunPhase.work : RunPhase → Nat
  | .waiting => 3
  | .started => 2
  | .took _ => 1
  | .ended _ => 0

def Drain.work : Drain → Nat
  | .flushing => 1
  | .idle | .returned => 0

def callWork (calls : List Call) (i : Nat) : Nat := (calls[i]?.map Call.work).getD 0

def State.work (s : State) : Nat :=
  (∑ i ∈ Finset.range s.calls.length, callWork s.calls i) +
    (∑ j ∈ Finset.range s.timers.length, (s.timerPhase j).work) +
    (∑ r ∈ Finset.range s.runs.length, (s.phase r).work) + s.drain.work

theorem Call.le_work {c : Call} (h : c.phase ≠ .scheduled) : 7 ≤ c.work := by
  rw [Call.work]
  cases hc : c.phase with
  | began => decide
  | marked => decide
  | scheduled => exact absurd hc h

theorem TimerPhase.work_le (p : TimerPhase) : p.work ≤ 5 := by
  cases p <;> decide

theorem RunPhase.work_le (p : RunPhase) : p.work ≤ 3 := by
  cases p <;> simp [RunPhase.work]

theorem work_stop (p : Nat → TimerPhase) (j k : Nat) : (stop p j k).work ≤ (p k).work := by
  by_cases hk : k = j
  · subst hk
    rw [stop]
    split
    · simp [TimerPhase.work]
    · exact le_refl _
  · rw [stop_ne hk]

theorem sum_callWork_set {calls : List Call} {i : Nat} {c : Call} (hc : calls[i]? = some c)
    (d : Call) :
    (∑ j ∈ Finset.range (calls.set i d).length, callWork (calls.set i d) j) + c.work =
      (∑ j ∈ Finset.range calls.length, callWork calls j) + d.work := by
  have hlt : i < calls.length := (List.getElem?_eq_some_iff.1 hc).1
  have hother : ∀ j, j ≠ i → callWork (calls.set i d) j = callWork calls j := by
    intro j hj
    rw [callWork, callWork, List.getElem?_set_ne (Ne.symm hj)]
  have hsum := sum_update hlt hother
  have hold : callWork calls i = c.work := by rw [callWork, hc]; rfl
  have hnew : callWork (calls.set i d) i = d.work := by
    rw [callWork, List.getElem?_set_self hlt]
    rfl
  rw [hold, hnew] at hsum
  rw [List.length_set]
  exact hsum

theorem sum_work_update {n j : Nat} {β : Type} (work : β → Nat) (p : Nat → β) (b : β)
    (hj : j < n) :
    (∑ k ∈ Finset.range n, work (Function.update p j b k)) + work (p j) =
      (∑ k ∈ Finset.range n, work (p k)) + work b := by
  have hsum := sum_update (f := fun k => work (p k))
    (g := fun k => work (Function.update p j b k)) hj fun k hk => by
      rw [Function.update_of_ne hk]
  rw [Function.update_self] at hsum
  exact hsum

theorem work_step {s s' : State} {a : Action} (ha : a.internal = true) (hstep : Step s a s') :
    s'.work < s.work := by
  cases hstep with
  | call => cases ha
  | flushAll => cases ha
  | @mark i c hc hfresh hbegan =>
    have hsum := sum_callWork_set hc { c with phase := .marked }
    have hold : c.work = 8 := by rw [Call.work, hbegan]
    have hnew : ({ c with phase := .marked } : Call).work = 7 := rfl
    simp only [State.work]
    omega
  | @inline i c hc hns =>
    have hsum := sum_callWork_set hc { c with phase := .scheduled }
    have hold := Call.le_work hns
    have hnew : ({ c with phase := .scheduled } : Call).work = 0 := rfl
    have hrun := (s.phase s.runs.length).work_le
    simp only [State.work, List.length_append, List.length_singleton, Finset.sum_range_succ]
    omega
  | @arm i c timerPhase hc hns hmarked hst htimer =>
    have hsum := sum_callWork_set hc
      { c with phase := .scheduled, gen := s.seq + 1, round := s.rounds c.key }
    have hold := Call.le_work hns
    have hnew : ({ c with
      phase := .scheduled, gen := s.seq + 1, round := s.rounds c.key } : Call).work = 0 := rfl
    have htimers : ∑ j ∈ Finset.range s.timers.length, (timerPhase j).work ≤
        ∑ j ∈ Finset.range s.timers.length, (s.timerPhase j).work := by
      refine Finset.sum_le_sum fun j _ => ?_
      rcases htimer with rfl | ⟨e, -, rfl⟩
      · exact le_refl _
      · exact work_stop _ _ _
    have hlast := (timerPhase s.timers.length).work_le
    simp only [State.work, List.length_append, List.length_singleton, Finset.sum_range_succ]
    omega
  | @fire j hj harmed =>
    have hsum := sum_work_update TimerPhase.work s.timerPhase .fired hj
    have hold : (s.timerPhase j).work = 5 := by rw [harmed]; rfl
    have hnew : TimerPhase.fired.work = 4 := rfl
    simp only [State.work]
    omega
  | @stale j t ht hfired =>
    have hsum := sum_work_update TimerPhase.work s.timerPhase .done
      (List.getElem?_eq_some_iff.1 ht).1
    have hold : (s.timerPhase j).work = 4 := by rw [hfired]; rfl
    have hnew : TimerPhase.done.work = 0 := rfl
    simp only [State.work]
    omega
  | @flush j t e ht hfired =>
    have hsum := sum_work_update TimerPhase.work s.timerPhase .done
      (List.getElem?_eq_some_iff.1 ht).1
    have hold : (s.timerPhase j).work = 4 := by rw [hfired]; rfl
    have hnew : TimerPhase.done.work = 0 := rfl
    have hrun := (s.phase s.runs.length).work_le
    simp only [State.work, List.length_append, List.length_singleton, Finset.sum_range_succ]
    omega
  | @start r run hrun hw =>
    have hsum := sum_work_update RunPhase.work s.phase .started
      (List.getElem?_eq_some_iff.1 hrun).1
    have hold : (s.phase r).work = 3 := by rw [hw]; rfl
    have hnew : RunPhase.started.work = 2 := rfl
    simp only [State.work]
    omega
  | @take r run hrun hphase =>
    have hsum := sum_work_update RunPhase.work s.phase
      (.took (run.flush.fresh || s.pendingFresh run.key)) (List.getElem?_eq_some_iff.1 hrun).1
    have hold : (s.phase r).work = 2 := by rw [hphase]; rfl
    have hnew : (RunPhase.took (run.flush.fresh || s.pendingFresh run.key)).work = 1 := rfl
    simp only [State.work]
    omega
  | @finish r run fresh hrun hphase =>
    have hsum := sum_work_update RunPhase.work s.phase (.ended fresh)
      (List.getElem?_eq_some_iff.1 hrun).1
    have hold : (s.phase r).work = 1 := by rw [hphase]; rfl
    have hnew : (RunPhase.ended fresh).work = 0 := rfl
    simp only [State.work]
    omega
  | drainReturns hd =>
    simp only [State.work, hd]
    exact Nat.lt_succ_self _

/-! ## Every call is followed -/

theorem calls_length_le {s s' : State} {a : Action} (hstep : Step s a s') :
    s.calls.length ≤ s'.calls.length := by
  cases hstep <;> simp [State.FlushAll]

/-- A run that waits is started, or the one that `FlushAll` is at goes on. -/
theorem exists_step_of_waiting {s : State} {r : Nat} {run : Run} (hrun : s.runs[r]? = some run)
    (hw : s.phase r = .waiting) : ∃ a s', Action.internal a = true ∧ next s a = some s' := by
  by_cases hbusy : run.holder = .drain ∧ s.drainBusy = true
  · obtain ⟨r', hlt, hr'⟩ := List.any_eq_true.1 hbusy.2
    obtain ⟨hheld, hrunning⟩ := Bool.and_eq_true_iff.1 hr'
    obtain ⟨run', hrun', -⟩ := (Option.any_eq_true _ _).1 hheld
    cases hphase : s.phase r' with
    | waiting => simp [hphase, RunPhase.running] at hrunning
    | ended fresh => simp [hphase, RunPhase.running] at hrunning
    | started => exact ⟨.take r', _, rfl, by simp [next, hrun', hphase]; rfl⟩
    | took fresh => exact ⟨.finish r', _, rfl, by simp [next, hrun', hphase]; rfl⟩
  · have hfree : run.holder = .drain → s.drainBusy = false := fun h =>
      Bool.eq_false_iff.2 fun hb => hbusy ⟨h, hb⟩
    exact ⟨.start r, _, rfl, Option.bind_eq_some_iff.2 ⟨run, hrun, if_pos ⟨hw, hfree⟩⟩⟩

theorem exists_step {s : State} (h : Inv s) {i : Nat} (hi : i < s.calls.length)
    (hnot : ¬Followed i s) : ∃ a s', Action.internal a = true ∧ next s a = some s' := by
  obtain ⟨c, hc⟩ : ∃ c, s.calls[i]? = some c := ⟨_, List.getElem?_eq_getElem hi⟩
  by_cases hs : c.phase = .scheduled
  · rcases h.rounds.covered i c hc hs with ⟨-, -, e, he, -⟩ | ⟨r, run, hrun, hcov, hw⟩
    -- the timer of the entry fires, or its goroutine gets the lock
    · obtain ⟨ht, harmed | hfired⟩ := h.entries.armed c.key e he
      · exact ⟨.fire e.timer, _, rfl, if_pos ⟨h.entries.lt he, harmed⟩⟩
      · exact ⟨.onFire e.timer, _, rfl, Option.bind_eq_some_iff.2 ⟨_, ht, if_pos hfired⟩⟩
    · by_cases hwait : s.phase r = .waiting
      · exact exists_step_of_waiting hrun hwait
      · obtain ⟨r', hr'⟩ := Option.ne_none_iff_exists'.1 (hw.resolve_left hwait)
        obtain ⟨c', run', hc', -, hrun', hkey, hne⟩ := h.rounds.first i r' hr'
        rw [hc] at hc'
        obtain rfl := Option.some.inj hc'
        exact absurd ⟨c, hc, ⟨r', run', hr', hrun', hkey, hne⟩, r, run, hrun, hcov, hwait⟩ hnot
  · by_cases hready : c.fresh = true → c.phase = .marked
    · exact ⟨.schedule i, _, rfl, Option.bind_eq_some_iff.2 ⟨c, hc, if_pos ⟨hs, hready⟩⟩⟩
    · obtain ⟨hfresh, hnm⟩ := Classical.not_imp.1 hready
      have hbegan : c.phase = .began := by
        cases hp : c.phase with
        | began => rfl
        | marked => exact absurd hp hnm
        | scheduled => exact absurd hp hs
      have hguard : (c.fresh && c.phase = .began) = true := by simp [hfresh, hbegan]
      exact ⟨.mark i, _, rfl, Option.bind_eq_some_iff.2 ⟨c, hc, if_pos hguard⟩⟩

theorem inevitable_followed {s : State} (h : Inv s) {i : Nat} (hi : i < s.calls.length) :
    batcher.Inevitable Action.internal (Followed i) s := by
  refine Machine.Inevitable.of_rank (I := fun s => Inv s ∧ i < s.calls.length) State.work ?_ ?_ ?_
    s ⟨h, hi⟩
  · rintro s a s' ⟨h, hi⟩ hn
    exact ⟨inv_next h hn, Nat.lt_of_lt_of_le hi (calls_length_le (step_of_next hn))⟩
  · intro s a s' ha hn
    exact work_step ha (step_of_next hn)
  · rintro s ⟨h, hi⟩ hnot
    exact exists_step h hi hnot

/-! ## One flush for a round, with the latest closure -/

theorem eq_of_not_distinct {s : State} (h : Rounds s) {run run' : Run} (hrun : run ∈ s.runs)
    (hrun' : run' ∈ s.runs) (hnot : ¬Distinct run run') : run = run' := by
  have hsymm : Std.Symm Distinct :=
    ⟨fun x y hxy => ⟨hxy.1.symm, fun hy hx hkey => (hxy.2 hx hy hkey.symm).symm⟩⟩
  by_contra hne
  exact hnot (h.distinct.forall hrun hrun' hne)

/-- What covers a call that has left its closure in an entry that is gone. -/
theorem served_of_older {s : State} (h : Rounds s) {i : Nat} {c : Call} (hc : s.calls[i]? = some c)
    (hb : c.batched = true) (hround : c.round ≠ s.rounds c.key) :
    ∃ run ∈ s.runs, Covers i c run := by
  rcases h.covered i c hc (Call.batched_iff.1 hb).1 with hp | ⟨r, run, hrun, hcov, -⟩
  · exact absurd hp.2.1 hround
  · exact ⟨run, List.mem_of_getElem? hrun, hcov⟩

theorem mem_flushes {s : State} {key : String} {round : Nat} {run : Run} :
    run ∈ s.flushes key round ↔
      run ∈ s.runs ∧ run.holder ≠ .inline ∧ run.key = key ∧ run.round = round := by
  simp [State.flushes, and_assoc]

theorem length_flushes {s : State} (h : Rounds s) {c : Call} (hc : c ∈ s.calls)
    (hb : c.batched = true) :
    (s.flushes c.key c.round).length = if c.round = s.rounds c.key then 0 else 1 := by
  by_cases hround : c.round = s.rounds c.key
  · rw [if_pos hround, List.length_eq_zero_iff, List.eq_nil_iff_forall_not_mem]
    intro run hrun
    obtain ⟨hmem, hne, hkey, hr⟩ := mem_flushes.1 hrun
    have hlt := h.older run hmem hne
    rw [hr, hkey, hround] at hlt
    exact Nat.lt_irrefl _ hlt
  · obtain ⟨i, hi⟩ := List.mem_iff_getElem?.1 hc
    obtain ⟨run, hmem, hcov⟩ := served_of_older h hi hb hround
    obtain ⟨hne, hr, -⟩ := hcov.batched (Call.batched_iff.1 hb).2
    have hin : run ∈ s.flushes c.key c.round := mem_flushes.2 ⟨hmem, hne, hcov.key, hr⟩
    have hpair : (s.flushes c.key c.round).Pairwise Distinct := h.distinct.filter _
    rw [if_neg hround]
    cases hl : s.flushes c.key c.round with
    | nil =>
      rw [hl] at hin
      cases hin
    | cons x rest =>
      cases rest with
      | nil => rfl
      | cons y rest =>
        obtain ⟨-, hx, hxk, hxr⟩ := mem_flushes.1 (hl ▸ List.mem_cons_self)
        obtain ⟨-, hy, hyk, hyr⟩ := mem_flushes.1
          (hl ▸ List.mem_cons_of_mem x (List.mem_cons_self (l := rest)))
        rw [hl] at hpair
        have hxy := (List.pairwise_cons.1 hpair).1 y List.mem_cons_self
        exact absurd (hxr.trans hyr.symm) (hxy.2 hx hy (hxk.trans hyk.symm))

theorem latest_closure {s : State} (h : Rounds s) {run : Run} (hrun : run ∈ s.runs) :
    ∃ c, s.calls[run.flush.id]? = some c ∧ c.key = run.key ∧
      (run.holder ≠ .inline → c.round = run.round ∧ ∀ d ∈ s.calls, d.batched = true →
        d.key = run.key → d.round = run.round → d.gen ≤ c.gen) := by
  obtain ⟨c, hc, hp⟩ := h.passed run hrun
  refine ⟨c, hc, hp.key, fun hne => ⟨(hp.batched hne).2.2, ?_⟩⟩
  intro d hd hb hkey hround
  obtain ⟨j, hj⟩ := List.mem_iff_getElem?.1 hd
  have holder : d.round ≠ s.rounds d.key := by
    rw [hround, hkey]
    exact Nat.ne_of_lt (h.older run hrun hne)
  obtain ⟨run', hrun', hcov⟩ := served_of_older h hj hb holder
  obtain ⟨hne', hround', hle⟩ := hcov.batched (Call.batched_iff.1 hb).2
  have heq : run = run' := eq_of_not_distinct h hrun hrun' fun hdist =>
    hdist.2 hne hne' (hkey.symm.trans hcov.key.symm) (hround.symm.trans hround'.symm)
  subst heq
  rw [(hp.batched hne).2.1]
  exact hle

theorem nodup_closures {s : State} (h : Rounds s) :
    (s.runs.map fun run => run.flush.id).Nodup :=
  List.pairwise_map.2 (h.distinct.imp And.left)

/-! ## Marks -/

structure Marks (s : State) : Prop where
  awaits : ∀ (i : Nat) (c : Call), s.calls[i]? = some c → s.awaits i c = true →
    s.pendingFresh c.key = true
  reflected : ∀ (i : Nat) (c : Call) (r : Nat), s.calls[i]? = some c → c.fresh = true →
    s.first i = some r → (s.phase r).forceFresh ≠ some false

theorem awaits_iff {s : State} {i : Nat} {c : Call} : s.awaits i c = true ↔
    c.fresh = true ∧ (c.phase = .marked ∨
      c.phase = .scheduled ∧ ∀ r, s.first i = some r → s.phase r = .started) := by
  cases hf : s.first i <;> simp [State.awaits, hf]

theorem ownMarks_iff {s : State} {r : Nat} {run : Run} (hrun : s.runs[r]? = some run) :
    ownMarks s r = true ↔ ∀ (i : Nat) (c : Call), s.calls[i]? = some c →
      s.awaits i c = true → c.key = run.key → s.first i = some r := by
  rw [ownMarks, hrun, Option.all_some, List.all_eq_true]
  constructor
  · intro h i c hc hw hkey
    have := h i (List.mem_range.2 (List.getElem?_eq_some_iff.1 hc).1)
    simpa [hc, hw, hkey] using this
  · intro h i hi
    have hlt := List.mem_range.1 hi
    rw [List.getElem?_eq_getElem hlt, Option.all_some]
    by_cases hw : s.awaits i s.calls[i] = true
    · by_cases hkey : s.calls[i].key = run.key
      · simp [h i _ (List.getElem?_eq_getElem hlt) hw hkey]
      · simp [hkey]
    · simp [hw]

/-- A call that gets on has no first run yet. -/
theorem first_eq_none {s : State} (h : Rounds s) {i : Nat} {c : Call} (hc : s.calls[i]? = some c)
    (hns : c.phase ≠ .scheduled) : s.first i = none := by
  rw [Option.eq_none_iff_forall_ne_some]
  intro r hr
  obtain ⟨d, -, hd, hs, -⟩ := h.first i r hr
  rw [hc] at hd
  exact hns (Option.some.inj hd ▸ hs)

/-- A call whose message awaits is scheduled, and its closure is to be in an entry or a run. -/
theorem Marks.schedule {s s' : State} (hr : Rounds s) (h : Marks s) {i : Nat} {c d : Call}
    (hc : s.calls[i]? = some c) (hns : c.phase ≠ .scheduled)
    (hmarked : c.fresh = true → c.phase = .marked) (hcalls : s'.calls = s.calls.set i d)
    (hkey : d.key = c.key) (hfresh : d.fresh = c.fresh)
    (hpending : s'.pendingFresh = s.pendingFresh)
    (hphase : s'.phase = s.phase) (hfirst : s'.first = s.first) : Marks s' := by
  refine ⟨?_, ?_⟩
  · intro j x hx hw
    rw [awaits_iff, hphase, hfirst] at hw
    rw [hcalls] at hx
    rw [hpending]
    rcases of_getElem?_set hx with ⟨rfl, rfl⟩ | ⟨-, hx⟩
    · have hfc : c.fresh = true := hfresh ▸ hw.1
      rw [hkey]
      exact h.awaits j c hc (awaits_iff.2 ⟨hfc, .inl (hmarked hfc)⟩)
    · exact h.awaits j x hx (awaits_iff.2 hw)
  · intro j x r hx hf hfr
    rw [hfirst] at hfr
    rw [hcalls] at hx
    rw [hphase]
    rcases of_getElem?_set hx with ⟨rfl, rfl⟩ | ⟨-, hx⟩
    · rw [first_eq_none hr hc hns] at hfr
      cases hfr
    · exact h.reflected j x r hx hf hfr

theorem firstAfter_eq {s : State} {r : Nat} {run : Run} {i r' : Nat}
    (h : s.firstAfter r run i = some r') :
    s.first i = some r' ∨ s.first i = none ∧ r' = r := by
  rw [State.firstAfter] at h
  split at h
  · exact .inl h
  · split at h
    · rename_i hand
      exact .inr ⟨hand.2.2, (Option.some.inj h).symm⟩
    · exact .inl h

theorem Marks.start {s : State} (hr : Rounds s) (h : Marks s) {r : Nat} {run : Run}
    (hw : s.phase r = .waiting) :
    Marks { s with phase := Function.update s.phase r .started, first := s.firstAfter r run } := by
  have hne : ∀ i r', s.first i = some r' → r' ≠ r := by
    rintro i r' hf rfl
    obtain ⟨-, -, -, -, -, -, hstarted⟩ := hr.first i r' hf
    exact hstarted hw
  refine ⟨?_, ?_⟩
  · intro i c hc haw
    refine h.awaits i c hc (awaits_iff.2 ?_)
    obtain ⟨hfresh, hm | ⟨hs, hstarted⟩⟩ := awaits_iff.1 haw
    · exact ⟨hfresh, .inl hm⟩
    · refine ⟨hfresh, .inr ⟨hs, fun r' hf => ?_⟩⟩
      have hafter : s.firstAfter r run i = some r' := by
        rw [State.firstAfter, hc]
        simp [hf]
      have hph := hstarted r' hafter
      simp only [Function.update_of_ne (hne i r' hf)] at hph
      exact hph
  · intro i c r' hc hfresh hf
    simp only [Function.update_apply]
    split
    · decide
    · rename_i hrr
      exact h.reflected i c r' hc hfresh ((firstAfter_eq hf).resolve_right fun hand => hrr hand.2)

/-- The flush that takes the mark gives it to those who have waited for it. -/
theorem Marks.take {s : State} (hr : Rounds s) (h : Marks s) {r : Nat} {run : Run}
    (hrun : s.runs[r]? = some run) (hphase : s.phase r = .started) (hown : ownMarks s r = true) :
    Marks { s with
      phase := Function.update s.phase r (.took (run.flush.fresh || s.pendingFresh run.key))
      pendingFresh := Function.update s.pendingFresh run.key false } := by
  have hfirst := (ownMarks_iff hrun).1 hown
  refine ⟨?_, ?_⟩
  · intro i c hc haw
    have hstarted : ∀ r', Function.update s.phase r
        (.took (run.flush.fresh || s.pendingFresh run.key)) r' = .started →
          r' ≠ r ∧ s.phase r' = .started := by
      intro r' hr'
      by_cases hrr : r' = r
      · subst hrr
        rw [Function.update_self] at hr'
        cases hr'
      · rw [Function.update_of_ne hrr] at hr'
        exact ⟨hrr, hr'⟩
    obtain ⟨hfresh, hrest⟩ := awaits_iff.1 haw
    have hbefore : s.awaits i c = true := awaits_iff.2 ⟨hfresh, hrest.imp_right fun hand =>
      ⟨hand.1, fun r' hf => (hstarted r' (hand.2 r' hf)).2⟩⟩
    simp only [Function.update_apply]
    split
    -- had it waited for this mark, its first flush would be the one that takes it
    · rename_i hkey
      have hf := hfirst i c hc hbefore hkey
      rcases hrest with hm | ⟨-, hall⟩
      · have hns : c.phase ≠ .scheduled := by rw [hm]; decide
        rw [first_eq_none hr hc hns] at hf
        cases hf
      · exact absurd rfl (hstarted r (hall r hf)).1
    · exact h.awaits i c hc hbefore
  · intro i c r' hc hfresh hf
    simp only [Function.update_apply]
    split
    · rename_i hrr
      subst hrr
      obtain ⟨d, run', hd, hs, hrun', hkey, -⟩ := hr.first i r' hf
      rw [hc] at hd
      obtain rfl := Option.some.inj hd
      rw [hrun] at hrun'
      obtain rfl := Option.some.inj hrun'
      have hstarted : ∀ r, s.first i = some r → s.phase r = .started := by
        intro r hf'
        have hf : s.first i = some r' := hf
        rw [hf] at hf'
        rwa [← Option.some.inj hf']
      have hmark := h.awaits i c hc (awaits_iff.2 ⟨hfresh, .inr ⟨hs, hstarted⟩⟩)
      rw [hkey, hmark, Bool.or_true]
      decide
    · exact h.reflected i c r' hc hfresh hf

theorem marks_step {s s' : State} {a : Action} (hr : Rounds s) (h : Marks s)
    (ha : keepsMarks s a = true) (hstep : Step s a s') : Marks s' := by
  cases hstep with
  | call key fresh =>
    refine ⟨?_, ?_⟩
    · intro i c hc haw
      rcases Parties.getElem?_concat hc with hc | rfl
      · exact h.awaits i c hc haw
      · rcases (awaits_iff.1 haw).2 with hm | ⟨hs, -⟩
        · cases hm
        · cases hs
    · intro i c r hc hfresh hf
      obtain ⟨d, -, hd, -⟩ := hr.first i r hf
      have hlt := (List.getElem?_eq_some_iff.1 hd).1
      refine h.reflected i c r ?_ hfresh hf
      rw [← hc]
      exact (List.getElem?_append_left hlt).symm
  | @mark i c hc hfresh hbegan =>
    have hns : c.phase ≠ .scheduled := by rw [hbegan]; decide
    refine ⟨?_, ?_⟩
    · intro j d hd haw
      simp only [Function.update_apply]
      split
      · rfl
      · rename_i hkey
        rcases of_getElem?_set hd with ⟨-, rfl⟩ | ⟨-, hd⟩
        · exact absurd rfl hkey
        · exact h.awaits j d hd haw
    · intro j d r hd hf hfr
      rcases of_getElem?_set hd with ⟨rfl, rfl⟩ | ⟨-, hd⟩
      · rw [first_eq_none hr hc hns] at hfr
        cases hfr
      · exact h.reflected j d r hd hf hfr
  | inline hc hns hmarked => exact h.schedule hr hc hns hmarked rfl rfl rfl rfl rfl rfl
  | arm timerPhase hc hns hmarked => exact h.schedule hr hc hns hmarked rfl rfl rfl rfl rfl rfl
  | fire => exact ⟨h.awaits, h.reflected⟩
  | stale => exact ⟨h.awaits, h.reflected⟩
  | flush => exact ⟨h.awaits, h.reflected⟩
  | flushAll => exact ⟨h.awaits, h.reflected⟩
  | drainReturns => exact ⟨h.awaits, h.reflected⟩
  | start hrun hw => exact h.start hr hw
  | take hrun hphase => exact h.take hr hrun hphase ha
  | @finish r run fresh hrun hphase =>
    have hstarted : ∀ r', Function.update s.phase r (.ended fresh) r' = .started →
        s.phase r' = .started := by
      intro r' hr'
      by_cases hrr : r' = r
      · subst hrr
        rw [Function.update_self] at hr'
        cases hr'
      · rwa [Function.update_of_ne hrr] at hr'
    refine ⟨?_, ?_⟩
    · intro i c hc haw
      obtain ⟨hfresh, hrest⟩ := awaits_iff.1 haw
      exact h.awaits i c hc (awaits_iff.2 ⟨hfresh, hrest.imp_right fun hand =>
        ⟨hand.1, fun r' hf => hstarted r' (hand.2 r' hf)⟩⟩)
    · intro i c r' hc hfresh hf
      have hold := h.reflected i c r' hc hfresh hf
      simp only [Function.update_apply]
      split
      · rename_i hrr
        rw [hrr, hphase] at hold
        exact hold
      · exact hold

/-! ## All runs -/

theorem marks : ∀ s, batcher.ReachableUnder (fun s a => keepsMarks s a = true) s → Marks s := by
  refine Machine.invariant_under ?_ ?_
  · rintro s rfl
    refine ⟨?_, ?_⟩
    · intro i c hc
      cases hc
    · intro i c r hc
      cases hc
  · intro s a s' hreach h ha hn
    exact marks_step (inv s hreach.reachable).rounds h ha (step_of_next hn)

theorem debounced (s : State)
    (h : batcher.ReachableUnder (fun s a => keepsMarks s a = true) s) : Debounced s := by
  have hinv := inv s h.reachable
  refine ⟨?_, ?_, ?_, nodup_closures hinv.rounds, ?_, (marks s h).reflected⟩
  · intro i hi
    exact inevitable_followed hinv hi
  · intro c hc hb
    exact length_flushes hinv.rounds hc hb
  · intro run hrun
    exact latest_closure hinv.rounds hrun
  · intro hret
    have hstopped : s.stopped = true := hinv.entries.stopped.2 (by rw [hret]; decide)
    rw [hinv.entries.empty hstopped]
    exact ⟨rfl, hinv.draining.returned hret⟩

/-- A message and a force-fresh one are flushed together by the timer, a third one by `FlushAll`
while the timer that was armed for it is about to fire. -/
theorem debounced_drained : ∃ s, Debounced s ∧ s.drain = .returned ∧ s.runs.length = 2 := by
  obtain ⟨s, hs, hp⟩ := Machine.reachableUnder_of_run batcher keepsMarks (s := {}) rfl
    [.call "s" false, .schedule 0, .call "s" true, .mark 1, .fire 0, .schedule 1, .onFire 0,
      .fire 1, .onFire 1, .call "s" false, .schedule 2, .start 0, .fire 2, .flushAll, .onFire 2,
      .take 0, .start 1, .finish 0, .take 1, .finish 1, .drainReturns]
    (fun s => s.drain = .returned && s.runs.length = 2) (by decide +kernel)
  simp only [Bool.and_eq_true, decide_eq_true_eq] at hp
  exact ⟨s, debounced s hs, hp⟩

/-- A flush that has started before takes the mark, and a later message puts its own closure in the
place of the force-fresh one. -/
theorem not_debounced : ¬∀ s, batcher.Reachable s → Debounced s := by
  intro h
  obtain ⟨s, -, hs, hp⟩ := Machine.reachable_of_run batcher (s := {}) rfl
    [.call "s" false, .schedule 0, .fire 0, .onFire 0, .call "s" true, .mark 1, .start 0, .take 0,
      .schedule 1, .call "s" false, .schedule 2, .fire 2, .onFire 2, .start 1, .take 1]
    (fun s => s.calls[1]?.any (fun c => c.fresh) && s.first 1 = some 1 &&
      (s.phase 1).forceFresh = some false) (by decide +kernel)
  simp only [Bool.and_eq_true, decide_eq_true_eq] at hp
  obtain ⟨⟨hcall, hfirst⟩, hfalse⟩ := hp
  obtain ⟨c, hc, hfresh⟩ := (Option.any_eq_true _ _).1 hcall
  exact (h s hs).fresh 1 c 1 hc hfresh hfirst hfalse

end Orynx.Channel
