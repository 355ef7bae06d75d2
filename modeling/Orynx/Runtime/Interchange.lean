import Orynx.Runtime.Together

/-! # The request stores are interchangeable as far as calls are smooth

* `matches_reachable`: two stores that are called alike match;
* `stores_interchange`: smooth calls return the same from both.
-/

namespace Orynx.RuntimeRequest

open Lib

variable {I P O : Type}

/-! ## Runs -/

section Runs

variable {κ : Kind I P O}

theorem together_smooth (hplain : κ.Plain) {s : Both P} {c : Call I O} {redis : Redis P}
    (h : Matches κ s.redis s.memory) (henter : enter c s.redis = some redis)
    (hmeets : meets κ s (.call c) = true) : Together κ redis s.memory c := by
  rw [meets, Bool.and_eq_true] at hmeets
  have hyoung : ∀ m ∈ s.memory, s.redis.now ≤ m.createdAt + κ.retention := by
    intro m hm
    simpa using List.all_eq_true.1 hmeets.1 m hm
  have hsmooth := hmeets.2
  cases c with
  | create id runtimeId input =>
    rw [enter, Option.ite_none_left_eq_some, List.contains_iff_mem] at henter
    obtain rfl := Option.some.inj henter.2
    have hentered : Matches κ { s.redis with created := s.redis.created ++ [id] } s.memory :=
      ⟨h.nodup, fun m hm => ⟨List.mem_append_left _ (h.created m hm).1, (h.created m hm).2⟩,
        h.record, h.request, h.entry, h.sorted, h.unique, h.queued, h.active, h.holder⟩
    refine together_create hentered hyoung ?_ (by simp) ?_
    · rintro m hm rfl
      exact henter.1 (h.created m hm).1
    · intro hexclusive m r hm hr hruntime htimeout
      simp only [smooth, hexclusive, Bool.not_true, Bool.false_or, List.all_eq_true] at hsmooth
      have hrecord : s.redis.record m.id = some r := hr
      simpa [hruntime, htimeout, hrecord] using hsmooth m hm
  | get id =>
    obtain rfl := Option.some.inj henter
    refine together_get h hyoung fun m r hm hr => ?_
    simpa [smooth, hm, hr, or_assoc] using hsmooth
  | popPending runtimeId =>
    obtain rfl := Option.some.inj henter
    simp only [smooth, Bool.and_eq_true, Bool.or_eq_true, List.isEmpty_iff, Bool.not_eq_true',
      List.isEmpty_eq_false_iff] at hsmooth
    exact together_popPending h hyoung hsmooth.1 hsmooth.2
  | popPendingBatch runtimeId limit =>
    obtain rfl := Option.some.inj henter
    simp only [smooth, Bool.and_eq_true, decide_eq_true_eq, beq_iff_eq] at hsmooth
    exact together_popPendingBatch h hyoung hsmooth.1.1 hsmooth.1.2 hsmooth.2
  | report id o =>
    obtain rfl := Option.some.inj henter
    refine together_report hplain h hyoung fun m r hm hr => ?_
    simp only [smooth, hm, hr, Option.all_some] at hsmooth
    split
    · rename_i hexclusive
      rw [if_pos hexclusive] at hsmooth
      exact hsmooth
    · rename_i hexclusive
      rw [if_neg hexclusive, Bool.or_eq_true, beq_iff_eq] at hsmooth
      refine hsmooth.imp_right fun heq => ?_
      rw [← beq_iff_eq, heq, beq_iff_eq]

theorem swapAt_perm {α : Type} (i : Nat) (l : List α) : (swapAt i l).Perm l := by
  induction i generalizing l with
  | zero =>
    match l with
    | [] => exact .refl _
    | [_] => exact .refl _
    | a :: b :: l => exact .swap _ _ _
  | succ i ih =>
    cases l with
    | nil => exact .refl _
    | cons a l => exact (ih l).cons a

theorem matches_empty (now : Nat) : Matches κ (Redis.empty now) [] where
  nodup := List.nodup_nil
  created _ hm := by cases hm
  record _ hm := by cases hm
  request hx := by cases hx
  entry he := by cases he
  sorted _ := List.Pairwise.nil
  unique _ := List.nodup_nil
  queued hr := by cases hr
  active _ _ _ _ hr := by cases hr
  holder _ _ _ _ hactive := by cases hactive

theorem matches_reachable (hplain : κ.Plain) : ∀ s,
    (stores κ).ReachableUnder (fun s a => meets κ s a = true) s →
      Matches κ s.redis s.memory ∧ ∀ a ∈ s.answers, a.1 = a.2 := by
  refine Machine.invariant_under ?_ ?_
  · rintro _ ⟨now, rfl⟩
    exact ⟨matches_empty now, fun _ ha => by cases ha⟩
  · rintro s a s' - ⟨hmatches, hanswers⟩ hmeets hn
    cases a with
    | call c =>
      rcases Option.map_eq_some_iff.1 hn with ⟨redis, henter, rfl⟩
      have htogether := together_smooth hplain hmatches henter hmeets
      have hnow : redis.now = s.redis.now := (enter_same henter).1
      unfold Together at htogether
      rw [hnow] at htogether
      refine ⟨htogether.2, fun a ha => ?_⟩
      rcases List.mem_append.1 ha with ha | ha
      · exact hanswers a ha
      · obtain rfl := List.mem_singleton.1 ha
        exact htogether.1
    | tick d =>
      obtain rfl := Option.some.inj hn
      exact ⟨hmatches.tick d, hanswers⟩
    | swap i =>
      obtain rfl := Option.some.inj hn
      exact ⟨hmatches.perm (swapAt_perm i s.memory), hanswers⟩

/-- Smooth calls return the same from both stores. A run past its time reads as a timeout. What is
waiting is queued in the order of creation unless two times are too close for their scores. -/
structure Interchange (κ : Kind I P O) : Prop where
  answers : ∀ s, (stores κ).ReachableUnder (fun s a => meets κ s a = true) s →
    ∀ a ∈ s.answers, a.1 = a.2
  late : ∀ s, (stores κ).ReachableUnder (fun s a => meets κ s a = true) s →
    ∀ m ∈ s.memory, m.status = .running → ∀ t, m.runStartedAt = some t →
      t + κ.runningTimeout < s.redis.now → meets κ s (.call (.get m.id)) = true →
      ((redisCall κ (.get m.id)).run (exec κ) s.redis).1.map (fun rs => rs.map (·.status)) =
          some [.timeout] ∧
        (s.memory.call κ s.redis.now (.get m.id)).1.map (fun rs => rs.map (·.status)) =
          some [.timeout]
  order : ∀ s, (stores κ).ReachableUnder (fun s a => meets κ s a = true) s → ∀ runtimeId n,
    let queue := (s.redis.entries runtimeId).filterMap (waiting κ s.memory s.redis.now)
    (queue.map fun m => float64 m.createdAt).Nodup → leads n (queue.map (·.createdAt)) = true

theorem interchange_of_plain (hplain : κ.Plain) : Interchange κ where
  answers s hs := (matches_reachable hplain s hs).2
  late s hs m hm hstatus t hstart hlate hmeets := by
    have hmatches := (matches_reachable hplain s hs).1
    have htogether := together_smooth (c := .get m.id) hplain hmatches rfl hmeets
    have hdue : κ.overdue m s.redis.now = true := by
      simp [Kind.overdue, hstatus, hstart, hlate]
    have hread : (s.memory.call κ s.redis.now (.get m.id : Call I O)).1 =
        some [(κ.timedOut m s.redis.now).shown] := by
      have hfind : (s.memory.modify m.id fun r => κ.read r s.redis.now).find m.id =
          some (κ.timedOut m s.redis.now) := by
        rw [Memory.modify, find_map fun k => by split <;> simp, find_of_mem hmatches.nodup hm,
          Option.map_some, if_pos rfl, read_overdue hdue]
      simp [Memory.call, Memory.get, hfind]
    rw [htogether.1, hread]
    exact ⟨rfl, rfl⟩
  order s hs runtimeId n := (matches_reachable hplain s hs).1.leads runtimeId n

end Runs

theorem plain_localSkillList : localSkillList.Plain where
  result o _ _ _ := by cases o <;> rfl
  payload o _ _ _ := by cases o <;> rfl
  error o _ _ _ h := by cases o <;> first | rfl | cases h
  keeps o _ _ h := by cases o <;> first | rfl | cases h

theorem plain_localSkillImport (S : Type) : (localSkillImport S).Plain where
  result o _ _ _ := by cases o <;> rfl
  payload o _ _ _ := by cases o <;> rfl
  error o _ _ _ h := by cases o <;> first | rfl | cases h
  keeps o _ _ h := by cases o <;> first | rfl | cases h

theorem plain_modelList : modelList.Plain where
  result o _ _ _ := by cases o <;> rfl
  payload o _ _ _ := by cases o <;> rfl
  error o _ _ _ h := by cases o <;> first | rfl | cases h
  keeps o _ _ h := by cases o <;> first | rfl | cases h

theorem plain_update : update.Plain where
  result o _ _ _ := by cases o <;> rfl
  payload o _ _ _ := by cases o <;> rfl
  error o _ _ _ h := by cases o <;> first | rfl | cases h
  keeps o _ _ h := by cases o <;> first | rfl | cases h

theorem stores_interchange (S : Type) : Interchange localSkillList ∧
    Interchange (localSkillImport S) ∧ Interchange modelList ∧ Interchange update :=
  ⟨interchange_of_plain plain_localSkillList, interchange_of_plain (plain_localSkillImport S),
    interchange_of_plain plain_modelList, interchange_of_plain plain_update⟩

def nothing : Both P := ⟨Redis.empty 0, [], []⟩

theorem init_nothing {κ : Kind I P O} : (stores κ).Init nothing := ⟨0, rfl⟩

def importInput : LocalSkillImportRequestInput := ⟨"u", "k", none, none, .create, "", true⟩

/-- Two of three imports are popped, one of which is late and the other settled in time. -/
def imported : List (BothAct LocalSkillImportRequestInput (LocalSkillImportReport Unit)) :=
  [.call (.create 1 9 importInput), .tick 1000, .call (.create 2 9 importInput), .tick 1000,
    .call (.create 3 9 importInput), .swap 0, .call (.popPendingBatch 9 2),
    .call (.report 2 (.complete ())), .tick (61 * second), .call (.get 2), .call (.get 1),
    .call (.popPending 9)]

theorem stores_interchange_imported : ∃ s,
    (stores (localSkillImport Unit)).ReachableUnder
      (fun s a => meets (localSkillImport Unit) s a = true) s ∧
    s.answers.map (fun a => a.1.map fun rs => rs.map fun r => (r.id, r.status)) =
      [some [(1, .pending)], some [(2, .pending)], some [(3, .pending)],
        some [(1, .running), (2, .running)], some [], some [(2, .completed)],
        some [(1, .timeout)], some [(3, .running)]] ∧
    ∀ a ∈ s.answers, a.1 = a.2 := by
  rcases Machine.reachableUnder_of_run (stores (localSkillImport Unit))
    (meets (localSkillImport Unit)) init_nothing imported
    (fun s => s.answers.map (fun a => a.1.map fun rs => rs.map fun r => (r.id, r.status)) ==
      [some [(1, .pending)], some [(2, .pending)], some [(3, .pending)],
        some [(1, .running), (2, .running)], some [], some [(2, .completed)],
        some [(1, .timeout)], some [(3, .running)]]) (by decide +kernel) with ⟨s, hs, hp⟩
  exact ⟨s, hs, by simpa using hp, (stores_interchange Unit).2.1.answers s hs⟩

/-! ## Slips -/

/-- The answers to some call differ. -/
def differ [DecidableEq P] (s : Both P) : Bool := s.answers.any fun a => decide (a.1 ≠ a.2)

theorem exists_of_differ [DecidableEq P] {s : Both P} (h : differ s = true) :
    ∃ a ∈ s.answers, a.1 ≠ a.2 := by
  rcases List.any_eq_true.1 h with ⟨a, ha, hne⟩
  exact ⟨a, ha, by simpa using hne⟩

/-- The list store forgets when a run has started. -/
def lateList : List (BothAct Unit LocalSkillListReport) :=
  [.call (.create 1 9 ()), .call (.popPending 9), .tick (61 * second), .call (.get 1)]

/-- A report comes after a timeout that nobody has read. -/
def lateImport : List (BothAct LocalSkillImportRequestInput (LocalSkillImportReport Unit)) :=
  [.call (.create 1 9 importInput), .tick (181 * second), .call (.report 1 (.complete ())),
    .call (.get 1)]

/-- The oldest five have been settled before they were popped. -/
def staleModels : List (BothAct Unit ModelListReport) :=
  (List.range 6).map (fun i => .call (.create i 9 ())) ++
    (List.range 5).map (fun i => .call (.report i (.fail "gone"))) ++ [.call (.popPending 9)]

/-- An update fails after it has been completed. -/
def reportedAgain : List (BothAct String UpdateReport) :=
  [.call (.create 1 9 "v2"), .call (.report 1 (.complete "ok")), .call (.report 1 (.fail "late")),
    .call (.get 1)]

/-- The answers of each kind come apart although no request is older than the retention. -/
theorem stores_differ :
    (∃ s, (stores localSkillList).ReachableUnder (fun s a => young localSkillList s a = true) s ∧
      ∃ a ∈ s.answers, a.1 ≠ a.2) ∧
    (∃ s, (stores (localSkillImport Unit)).ReachableUnder
        (fun s a => young (localSkillImport Unit) s a = true) s ∧
      ∃ a ∈ s.answers, a.1 ≠ a.2) ∧
    (∃ s, (stores modelList).ReachableUnder (fun s a => young modelList s a = true) s ∧
      ∃ a ∈ s.answers, a.1 ≠ a.2) ∧
    ∃ s, (stores update).ReachableUnder (fun s a => young update s a = true) s ∧
      ∃ a ∈ s.answers, a.1 ≠ a.2 := by
  refine ⟨?_, ?_, ?_, ?_⟩
  · rcases Machine.reachableUnder_of_run (stores localSkillList) (young localSkillList)
      init_nothing lateList differ (by decide +kernel) with ⟨s, hs, h⟩
    exact ⟨s, hs, exists_of_differ h⟩
  · rcases Machine.reachableUnder_of_run (stores (localSkillImport Unit))
      (young (localSkillImport Unit)) init_nothing lateImport differ (by decide +kernel)
      with ⟨s, hs, h⟩
    exact ⟨s, hs, exists_of_differ h⟩
  · rcases Machine.reachableUnder_of_run (stores modelList) (young modelList) init_nothing
      staleModels differ (by decide +kernel) with ⟨s, hs, h⟩
    exact ⟨s, hs, exists_of_differ h⟩
  · rcases Machine.reachableUnder_of_run (stores update) (young update) init_nothing
      reportedAgain differ (by decide +kernel) with ⟨s, hs, h⟩
    exact ⟨s, hs, exists_of_differ h⟩

end Orynx.RuntimeRequest
