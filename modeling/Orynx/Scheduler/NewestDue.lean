import Orynx.Lib.Successors
import Orynx.Scheduler.Planner

/-! # The newest punctual occurrence

The autopilot hook enumerates the occurrences of a trigger from its anchor, or from a day ago
if that is later, and answers the last of them unless it is late. It enumerates 1024 at most,
and a cron schedule answers the zero time where no activation is left. Of the schedule it is
assumed that its `Next` goes through its activations.

* `NewestPunctual`: the answer is the newest activation that is due, if it is punctual;
* `WithinReach`: the newest activation is among the first 1024; and where the zero time is
  answered, the enumeration happens to end at it;
* `newest_punctual_iff`: the one is so exactly where the other is;
* `every_minute_stranded`: a day has more minutes than that.
-/

namespace Orynx.Scheduler.NewestDue

open Lib.Successors

/-- The activations of a cron schedule in a time zone, and its `Next`. -/
structure Schedule where
  activations : Set Int
  next : Int → Int
  follows : Follows activations next

/-! ## The property -/

/-- The last stored plan, the last fire or the creation. -/
def anchor (cfg : TriggerConfig) (latest : Option LatestPlanInfo) : Int :=
  latest.elim (cfg.lastFiredAt.getD cfg.createdAt) LatestPlanInfo.planTime

/-- Where the enumeration starts. -/
def startFrom (cfg : TriggerConfig) (latest : Option LatestPlanInfo) (now : Int) : Int :=
  max (anchor cfg latest) (now - replayWindow)

section

variable (A : Set Int) (start now : Int)

/-- The greatest activation after the start that is due. -/
def Newest (o : Int) : Prop := IsGreatest {a | a ∈ A ∧ start < a ∧ a ≤ now} o

structure NewestPunctual (plans : List Int) : Prop where
  newest : ∀ o, Newest A start now o →
    plans = if now - o ≤ maxAutopilotScheduleLateness then [o] else []
  none : (∀ a ∈ A, start < a → now < a) → plans = []

/-! ## The condition -/

/-- The zero time or an activation since then, as far on as the cap leaves. -/
def Lands (t : Int) : Prop :=
  (t = 0 ∨ t ∈ A ∧ 0 < t ∧ t ≤ now) ∧
    ((∃ a ∈ A, now < a) → count A 0 t = min (count A 0 now) 1023) ∧
    ((¬∃ a ∈ A, now < a) →
      count A 0 t = (1023 - count A start now) % (count A 0 now + 1))

/-- The enumeration is not led to the zero time. -/
def Ends : Prop := now < 0 ∨ (∃ a ∈ A, max start now < a) ∨ 1024 ≤ count A start now

structure WithinReach : Prop where
  ends : Ends A start now → ∀ o, Newest A start now o →
    now - o ≤ maxAutopilotScheduleLateness → count A start now ≤ 1024
  lands : ¬Ends A start now → ∀ t, now - t ≤ maxAutopilotScheduleLateness →
    (Lands A start now t ↔ Newest A start now t)

end

variable {A : Set Int} {next : Int → Int} {start now o t c untilTime : Int} {n j : Nat}

/-! ## The newest activation -/

theorem newest_count (h : Newest A start now o) : count A start o = count A start now := by
  rcases h with ⟨⟨-, hso, hle⟩, hgreatest⟩
  refine Nat.le_antisymm (count_le_of_le hle) ?_
  by_contra hless
  rcases exists_of_count_lt (A := A) (c := start) (t := o) (u := now) (by omega) with
    ⟨a, ha, hoa, hau⟩
  have hao := hgreatest ⟨ha, by omega, hau⟩
  omega

theorem newest_of_count (ho : o ∈ A) (hso : start < o) (hle : o ≤ now)
    (h : count A start o = count A start now) : Newest A start now o := by
  refine ⟨⟨ho, hso, hle⟩, fun a ha => ?_⟩
  rcases ha with ⟨hmem, -, hau⟩
  by_contra hlater
  have hless := count_lt (A := A) (c := start) (t := o) (by omega) hmem (by omega) hau
  omega

theorem newest_unique {o' : Int} (h : Newest A start now o) (h' : Newest A start now o') : o = o' :=
  h.unique h'

theorem newest_exists (hf : Follows A next) (h : 0 < count A start now) :
    ∃ o, Newest A start now o := by
  rcases iterate_le hf (Nat.le_refl (count A start now)) with ⟨hle, hcount, hmem⟩
  rcases hmem h with ⟨hA, hnow⟩
  refine ⟨_, newest_of_count hA ?_ hnow hcount⟩
  by_contra hstart
  have hzero : count A start (next^[count A start now] start) = 0 := count_of_le (by omega)
  omega

/-- The hook answers the last of the enumeration, unless it is late. -/
theorem newestPunctual_iff (hf : Follows A next) (e : Option Int) :
    NewestPunctual A start now
        (e.filter fun t => !isAutopilotSchedulePlanStale now t).toList ↔
      ∀ t, now - t ≤ maxAutopilotScheduleLateness → (e = some t ↔ Newest A start now t) := by
  have hanswer : ∀ t, now - t ≤ maxAutopilotScheduleLateness →
      ((e.filter fun t => !isAutopilotSchedulePlanStale now t).toList = [t] ↔ e = some t) := by
    intro t hpunctual
    rw [Option.toList_eq_singleton_iff, Option.filter_eq_some_iff]
    refine ⟨fun h => h.1, fun h => ⟨h, ?_⟩⟩
    simpa [isAutopilotSchedulePlanStale] using hpunctual
  constructor
  · intro h t hpunctual
    rw [← hanswer t hpunctual]
    constructor
    · intro hplans
      by_cases hany : 0 < count A start now
      · rcases newest_exists hf hany with ⟨o, ho⟩
        have hnewest := h.newest o ho
        rw [hplans] at hnewest
        split at hnewest
        · obtain rfl : t = o := by simpa using hnewest
          exact ho
        · simp at hnewest
      · -- nothing is due, and nothing is answered
        have hnone := h.none fun a ha hlt => by
          by_contra hau
          have hless := count_lt (A := A) (Int.le_refl start) ha hlt (show a ≤ now by omega)
          omega
        rw [hplans] at hnone
        simp at hnone
    · intro ho
      rw [h.newest t ho, if_pos hpunctual]
  · intro h
    have hempty : (∀ t, e = some t → now - t ≤ maxAutopilotScheduleLateness → False) →
        (e.filter fun t => !isAutopilotSchedulePlanStale now t).toList = [] := by
      intro hlate
      cases e with
      | none => rfl
      | some t =>
        have hstale : ¬now - t ≤ maxAutopilotScheduleLateness := hlate t rfl
        simpa [Option.filter, isAutopilotSchedulePlanStale] using hstale
    constructor
    · intro o ho
      split
      · rename_i hpunctual
        exact (hanswer o hpunctual).2 ((h o hpunctual).2 ho)
      · rename_i hlate
        refine hempty fun t ht hpunctual => ?_
        rw [newest_unique ((h t hpunctual).1 ht) ho] at hpunctual
        exact hlate hpunctual
    · intro hnone
      refine hempty fun t ht hpunctual => ?_
      rcases (h t hpunctual).1 ht with ⟨⟨hA, hlt, hle⟩, -⟩
      have hlater := hnone t hA hlt
      omega

/-! ## The last of the enumeration -/

/-- The enumeration ends at the last step before the limit or before the cap. -/
theorem getLast?_occurrencesFrom (hj : j ≤ n) (hle : ∀ i < j, next^[i + 1] c ≤ untilTime)
    (hstop : j < n → untilTime < next^[j + 1] c) :
    (occurrencesFrom next untilTime n c).getLast? = if j = 0 then none else some (next^[j] c) := by
  induction n generalizing c j with
  | zero =>
    obtain rfl : j = 0 := by omega
    rfl
  | succ n ih =>
    by_cases hlt : untilTime < next c
    · rw [occurrencesFrom, if_pos hlt]
      cases j with
      | zero => rfl
      | succ j =>
        have hfirst : next c ≤ untilTime := hle 0 (by omega)
        omega
    · rw [occurrencesFrom, if_neg hlt]
      cases j with
      | zero => exact absurd (hstop (Nat.succ_pos n)) hlt
      | succ j =>
        have hrest := ih (c := next c) (j := j) (by omega) (fun i hi => hle (i + 1) (by omega))
          fun hjn => hstop (by omega)
        rw [List.getLast?_cons, hrest, if_neg (Nat.succ_ne_zero j)]
        cases j with
        | zero => rfl
        | succ j => rfl

/-- Without the zero time the enumeration passes the activations that are due, up to the
cap. -/
theorem getLast?_of_ends (hf : Follows A next) (hends : Ends A start now) :
    (nextOccurrencesUTC next start now).getLast? =
      if min (count A start now) 1024 = 0 then none
      else some (next^[min (count A start now) 1024] start) := by
  refine getLast?_occurrencesFrom (Nat.min_le_right _ _) (fun i hi => ?_) fun hstop => ?_
  · exact ((iterate_le hf (show i + 1 ≤ count A start now by omega)).2.2 (by omega)).2
  · have hall : min (count A start now) 1024 = count A start now := by omega
    rw [hall, Function.iterate_succ_apply']
    by_cases hmore : ∃ a ∈ A, next^[count A start now] start < a
    · rcases hmore with ⟨a, ha, hlt⟩
      exact iterate_count hf (next_le hf ha hlt).1 (next_le hf ha hlt).2.1
    · rcases hends with hneg | ⟨a, ha, hlater⟩ | hcap
      · -- the zero time is past the bound
        rw [hf.none _ hmore]
        exact hneg
      · -- the last activation due is not past the bound
        refine absurd ⟨a, ha, ?_⟩ hmore
        rcases Nat.eq_zero_or_pos (count A start now) with hzero | hpos
        · rw [hzero]
          show start < a
          omega
        · have hle := ((iterate_le hf (Nat.le_refl (count A start now))).2.2 hpos).2
          omega
      · omega

theorem withinReach_of_ends (hf : Follows A next) (hends : Ends A start now) :
    (∀ t, now - t ≤ maxAutopilotScheduleLateness →
        ((nextOccurrencesUTC next start now).getLast? = some t ↔ Newest A start now t)) ↔
      WithinReach A start now := by
  rw [getLast?_of_ends hf hends]
  rcases Nat.eq_zero_or_pos (count A start now) with hzero | hpos
  · -- nothing is due
    have hnone : ∀ t, ¬Newest A start now t := by
      intro t ht
      have hless := count_lt (A := A) (Int.le_refl start) ht.1.1 ht.1.2.1 ht.1.2.2
      omega
    constructor
    · intro _
      exact ⟨fun _ o ho => absurd ho (hnone o), fun hn => absurd hends hn⟩
    · intro _ t _
      simp [hzero, hnone t]
  · rw [if_neg (by omega)]
    rcases iterate_le hf (Nat.min_le_left (count A start now) 1024) with ⟨-, hcount, hmem⟩
    rcases hmem (by omega) with ⟨hA, hnow⟩
    have hstart : start < next^[min (count A start now) 1024] start := by
      by_contra hle
      have hempty : count A start (next^[min (count A start now) 1024] start) = 0 :=
        count_of_le (by omega)
      omega
    constructor
    · intro h
      refine ⟨fun _ o ho hpunctual => ?_, fun hn => absurd hends hn⟩
      have ho' := newest_count ho
      rw [← Option.some.inj ((h o hpunctual).2 ho), hcount] at ho'
      omega
    · intro h t hpunctual
      have hreach : (∃ o, Newest A start now o ∧ now - o ≤ maxAutopilotScheduleLateness) →
          min (count A start now) 1024 = count A start now := by
        rintro ⟨o, ho, hlate⟩
        have hle := h.ends hends o ho hlate
        omega
      constructor
      · rintro heq
        obtain rfl := Option.some.inj heq
        rcases newest_exists hf hpos with ⟨o, ho⟩
        -- the newest is no later than the one the enumeration ends at
        have hlater := ho.2 ⟨hA, hstart, hnow⟩
        exact newest_of_count hA hstart hnow (hcount.trans (hreach ⟨o, ho, by omega⟩))
      · intro ht
        have hall := (hcount.trans (hreach ⟨t, ht, hpunctual⟩)).trans (newest_count ht).symm
        rw [eq_of_count_eq hA hstart ht.1.1 ht.1.2.1 hall]

/-! ## The way round -/

/-- The count since the zero time tells the stops of the round apart. -/
theorem eq_of_round {t' : Int} (ht : t = 0 ∨ t ∈ A ∧ 0 < t ∧ t ≤ now)
    (ht' : t' = 0 ∨ t' ∈ A ∧ 0 < t' ∧ t' ≤ now) (h : count A 0 t = count A 0 t') : t = t' := by
  have hzero : count A 0 0 = 0 := count_of_le (Int.le_refl 0)
  rcases ht with rfl | ⟨hA, hpos, -⟩
  · rcases ht' with rfl | ⟨hA', hpos', -⟩
    · rfl
    · have hless := count_lt (A := A) (Int.le_refl 0) hA' hpos' (Int.le_refl _)
      omega
  · rcases ht' with rfl | ⟨hA', hpos', -⟩
    · have hless := count_lt (A := A) (Int.le_refl 0) hA hpos (Int.le_refl _)
      omega
    · exact eq_of_count_eq hA hpos hA' hpos' h

/-- After the activations that are due comes the zero time. -/
theorem iterate_of_not_ends (hf : Follows A next) (hends : ¬Ends A start now) (i : Nat) :
    next^[count A start now + 1 + i] start = next^[i] 0 := by
  have hnone : ¬∃ a ∈ A, next^[count A start now] start < a := by
    rintro ⟨a, ha, hlt⟩
    have hlater := iterate_count hf ha hlt
    have hstart : ¬max start now < a := fun h => hends (.inr (.inl ⟨a, ha, h⟩))
    -- the anchor is past the bound, so nothing is due
    have hzero : count A start now = 0 := count_of_le (by omega)
    rw [hzero] at hlt
    have hlt' : start < a := hlt
    omega
  rw [Nat.add_comm, Function.iterate_add_apply, Function.iterate_succ_apply', hf.none _ hnone]

theorem getLast?_of_not_ends (hf : Follows A next) (hends : ¬Ends A start now) :
    ∃ e, (nextOccurrencesUTC next start now).getLast? = some e ∧ Lands A start now e := by
  have hnow : 0 ≤ now := by
    by_contra hneg
    exact hends (.inl (by omega))
  have hcap : count A start now < 1024 := by
    by_contra hcap
    exact hends (.inr (.inr (by omega)))
  have hgo := iterate_of_not_ends hf hends
  -- the activations due come first
  have hdue : ∀ i < count A start now, next^[i + 1] start ≤ now := fun i hi =>
    ((iterate_le hf (show i + 1 ≤ count A start now by omega)).2.2 (by omega)).2
  by_cases hmore : ∃ a ∈ A, now < a
  · -- the anchor is past all activations, and the round ends at those that are past the bound
    rcases hmore with ⟨a, ha, hlater⟩
    have hzero : count A start now = 0 := by
      refine count_of_le ?_
      by_contra hle
      exact hends (.inr (.inl ⟨a, ha, by omega⟩))
    have hgo' : ∀ i, next^[i + 1] start = next^[i] 0 := by
      intro i
      rw [← hgo i, hzero, Nat.zero_add, Nat.add_comm]
    have hround : ∀ i ≤ count A 0 now, next^[i] 0 = 0 ∨
        next^[i] 0 ∈ A ∧ 0 < next^[i] 0 ∧ next^[i] 0 ≤ now := by
      intro i hi
      rcases iterate_le hf hi with ⟨hle, hcount, hmem⟩
      rcases Nat.eq_zero_or_pos i with rfl | hpos
      · exact .inl rfl
      · refine .inr ⟨(hmem hpos).1, ?_, (hmem hpos).2⟩
        by_contra hneg
        have hempty : count A 0 (next^[i] 0) = 0 := count_of_le (by omega)
        omega
    have hlast : (nextOccurrencesUTC next start now).getLast? =
        some (next^[min (count A 0 now) 1023] 0) := by
      rw [← hgo' (min (count A 0 now) 1023)]
      refine (getLast?_occurrencesFrom (j := min (count A 0 now) 1023 + 1) (by omega)
        (fun i hi => ?_) fun hstop => ?_).trans (if_neg (Nat.succ_ne_zero _))
      · rw [hgo']
        rcases hround i (by omega) with heq | ⟨-, -, hle⟩
        · omega
        · exact hle
      · rw [hgo', show min (count A 0 now) 1023 + 1 = count A 0 now + 1 by omega,
          Function.iterate_succ_apply']
        have hlt : next^[count A 0 now] 0 < a := by
          rcases hround _ (Nat.le_refl _) with heq | ⟨-, -, hle⟩
          · omega
          · omega
        rcases next_le hf ha hlt with ⟨hmem, hnext, -⟩
        exact iterate_count hf hmem hnext
    refine ⟨_, hlast, hround _ (Nat.min_le_left _ _), fun _ => ?_,
      fun hn => absurd ⟨a, ha, hlater⟩ hn⟩
    exact (iterate_le hf (Nat.min_le_left (count A 0 now) 1023)).2.1
  · -- no activation is left, and the round goes on until the cap
    have hall : ∀ a ∈ A, a ≤ now := by
      intro a ha
      by_contra hlater
      exact hmore ⟨a, ha, by omega⟩
    have hround := iterate_round hf hall
    have hlast : (nextOccurrencesUTC next start now).getLast? =
        some (next^[1023 - count A start now] 0) := by
      rw [← hgo, show count A start now + 1 + (1023 - count A start now) = 1024 by omega]
      refine (getLast?_occurrencesFrom (j := 1024) (Nat.le_refl _) (fun i _ => ?_)
        fun hstop => absurd hstop (Nat.lt_irrefl _)).trans (if_neg (by decide))
      by_cases hi : i < count A start now
      · exact hdue i hi
      · rw [show i + 1 = count A start now + 1 + (i - count A start now) by omega, hgo]
        rcases (hround (i - count A start now)).1 with heq | ⟨-, -, hle⟩
        · omega
        · exact hle
    exact ⟨_, hlast, (hround _).1, fun h => absurd h hmore, fun _ => (hround _).2⟩

theorem lands_unique {t' : Int} (h : Lands A start now t) (h' : Lands A start now t') : t = t' := by
  refine eq_of_round h.1 h'.1 ?_
  by_cases hmore : ∃ a ∈ A, now < a
  · rw [h.2.1 hmore, h'.2.1 hmore]
  · rw [h.2.2 hmore, h'.2.2 hmore]

theorem withinReach_of_not_ends (hf : Follows A next) (hends : ¬Ends A start now) :
    (∀ t, now - t ≤ maxAutopilotScheduleLateness →
        ((nextOccurrencesUTC next start now).getLast? = some t ↔ Newest A start now t)) ↔
      WithinReach A start now := by
  rcases getLast?_of_not_ends hf hends with ⟨e, he, hlands⟩
  have hiff : ∀ t, (nextOccurrencesUTC next start now).getLast? = some t ↔ Lands A start now t := by
    intro t
    rw [he, Option.some.injEq]
    constructor
    · rintro rfl
      exact hlands
    · exact fun ht => lands_unique hlands ht
  constructor
  · intro h
    exact ⟨fun hn => absurd hn hends, fun _ t ht => (hiff t).symm.trans (h t ht)⟩
  · intro h t ht
    exact (hiff t).trans (h.lands hends t ht)

/-! ## The hook -/

/-- The hook answers exactly the newest punctual activation if and only if that is within
reach of the enumeration. -/
theorem newest_punctual_iff (schedule : Schedule) (parse : CronParser) (cfg : TriggerConfig)
    (hparse : parse cfg.cronExpression cfg.timezone = some schedule.next) (now : Int)
    (latest : Option LatestPlanInfo) (hretry : ∀ i ∈ latest, i.retryEligible now = false) :
    NewestPunctual schedule.activations (startFrom cfg latest now) now
        (autopilotPlansForScope parse (some cfg) now latest) ↔
      WithinReach schedule.activations (startFrom cfg latest now) now := by
  have hplans : autopilotPlansForScope parse (some cfg) now latest =
      ((nextOccurrencesUTC schedule.next (startFrom cfg latest now) now).getLast?.filter
        fun t => !isAutopilotSchedulePlanStale now t).toList := by
    cases latest with
    | none =>
      simp only [autopilotPlansForScope, dueOccurrence, hparse, Option.bind_some]
      rfl
    | some i =>
      simp only [autopilotPlansForScope, hretry i rfl, Bool.false_eq_true, if_false, dueOccurrence,
        hparse, Option.bind_some]
      rfl
  rw [hplans, newestPunctual_iff schedule.follows]
  by_cases hends : Ends schedule.activations (startFrom cfg latest now) now
  · exact withinReach_of_ends schedule.follows hends
  · exact withinReach_of_not_ends schedule.follows hends

/-! ## Every minute -/

def minute : Int := 60 * second

/-- `* * * * *`. -/
def everyMinute : Schedule where
  activations := {t | t % minute = 0}
  next t := (t / minute + 1) * minute
  follows := by
    have hpos : (0 : Int) < minute := by decide
    have hlater : ∀ t : Int, t < (t / minute + 1) * minute := fun t =>
      Int.lt_mul_of_ediv_lt hpos (Int.lt_succ _)
    constructor
    · intro t _
      refine ⟨⟨Int.mul_emod_left _ _, hlater t⟩, fun a ha => ?_⟩
      rcases ha with ⟨hmem, hlt⟩
      -- a later multiple has a greater quotient
      rcases Int.dvd_of_emod_eq_zero hmem with ⟨q, rfl⟩
      have hq : t / minute < q := (Int.ediv_lt_iff_lt_mul hpos).2 (by rw [Int.mul_comm]; exact hlt)
      rw [Int.mul_comm minute q]
      exact Int.mul_le_mul_of_nonneg_right (by omega) (by decide)
    · intro t hnone
      exact absurd ⟨_, Int.mul_emod_left _ _, hlater t⟩ hnone

def parseMinutes : CronParser := fun _ _ => some everyMinute.next

/-- A minute of the year 2025. -/
def created : Int := 1065000000 * minute

/-- Created then; it has never fired. -/
def minutely : TriggerConfig where
  cronExpression := "* * * * *"
  timezone := "UTC"
  createdAt := created
  lastFiredAt := none

theorem newest_punctual_soon :
    NewestPunctual everyMinute.activations (startFrom minutely none (created + 3 * minute))
      (created + 3 * minute)
      (autopilotPlansForScope parseMinutes (some minutely) (created + 3 * minute) none) := by
  refine (newest_punctual_iff everyMinute parseMinutes minutely rfl (created + 3 * minute) none
    (by simp)).2 ⟨fun _ o _ _ => ?_, fun hends => ?_⟩
  · -- no more activations than minutes lie between
    refine Nat.le_of_not_lt fun hmany => ?_
    have hle := iterate_le everyMinute.follows (n := 4) (c := created) (u := created + 3 * minute)
      (by have hstart : startFrom minutely none (created + 3 * minute) = created := by decide
          rw [hstart] at hmany
          omega)
    have hpast : ¬everyMinute.next^[4] (created) ≤ created + 3 * minute := by decide
    exact hpast (hle.2.2 (by omega)).2
  · refine absurd (.inr (.inl ⟨created + 4 * minute, ?_, ?_⟩)) hends
    · show (created + 4 * minute) % minute = 0
      decide
    · decide

theorem mem_minutes {t cursor : Int} {n : Nat}
    (h : t ∈ occurrencesFrom everyMinute.next now n cursor) : t ≤ cursor + n * minute := by
  induction n generalizing cursor with
  | zero => simp [occurrencesFrom] at h
  | succ n ih =>
    have hstep : everyMinute.next cursor ≤ cursor + minute := by
      have hle := Int.ediv_mul_le cursor (show minute ≠ 0 by decide)
      show (cursor / minute + 1) * minute ≤ cursor + minute
      rw [Int.add_mul, Int.one_mul]
      omega
    have hmul : ((n + 1 : Nat) : Int) * minute = n * minute + minute := by
      rw [Int.natCast_succ, Int.add_mul, Int.one_mul]
    have hnonneg : (0 : Int) ≤ n * minute := Int.mul_nonneg (Int.natCast_nonneg n) (by decide)
    rw [occurrencesFrom] at h
    split at h
    · simp at h
    · rcases List.mem_cons.1 h with rfl | h
      · omega
      · have hrest := ih h
        omega

/-- A trigger of every minute that has not fired for a day does not fire again: the first 1024
minutes of the day are over by hours. -/
theorem every_minute_stranded :
    ¬NewestPunctual everyMinute.activations
        (startFrom minutely none (created + replayWindow)) (created + replayWindow)
        (autopilotPlansForScope parseMinutes (some minutely) (created + replayWindow) none) ∧
      ∀ now, created + replayWindow ≤ now →
        autopilotPlansForScope parseMinutes (some minutely) now none = [] := by
  have hempty : ∀ now, created + replayWindow ≤ now →
      autopilotPlansForScope parseMinutes (some minutely) now none = [] := by
    intro now hnow
    have hstart : max (created) (now - replayWindow) = now - replayWindow := by omega
    have hlate : ∀ t ∈ (nextOccurrencesUTC everyMinute.next (now - replayWindow) now).getLast?,
        isAutopilotSchedulePlanStale now t = true := by
      intro t ht
      have hle := mem_minutes (List.mem_of_getLast? ht)
      have hfar : (1024 : Nat) * minute + maxAutopilotScheduleLateness < replayWindow := by decide
      simp only [isAutopilotSchedulePlanStale, decide_eq_true_eq]
      omega
    show ((nextOccurrencesUTC everyMinute.next (max (created) (now - replayWindow))
      now).getLast?.filter fun t => !isAutopilotSchedulePlanStale now t).toList = []
    rw [hstart, Option.toList_eq_nil_iff, Option.filter_eq_none_iff]
    intro t ht
    simp [hlate t ht]
  refine ⟨fun h => ?_, hempty⟩
  have hnewest : Newest everyMinute.activations
      (startFrom minutely none (created + replayWindow)) (created + replayWindow)
      (created + replayWindow) := by
    refine ⟨⟨?_, by decide, by decide⟩, fun a ha => ha.2.2⟩
    show (created + replayWindow) % minute = 0
    decide
  have hplans := h.newest _ hnewest
  rw [hempty _ (Int.le_refl _), if_pos (by decide)] at hplans
  simp at hplans

end Orynx.Scheduler.NewestDue
