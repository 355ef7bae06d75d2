import Mathlib.Data.List.TakeWhile
import Orynx.Channel.Supervisor
import Orynx.Lib.Parties

/-! # One connection for an installation

* `one_connection`: while no supervisor is connected for longer than it was last granted the lease,
  no two of them, of one process or of several, are connected to one installation;
* `registered`: the supervisors map of a process knows each of its goroutines that is not
  cancelled, so a process has at most one for an installation, and a rotation, a sweep or a
  shutdown reaches it.
-/

namespace Orynx.Supervisor

open Lib

/-! ## Lease tokens -/

theorem takeWhile_digits (gen : Nat) (l : List Char) :
    ((Nat.toDigits 10 gen).reverse ++ 'g' :: l).takeWhile (· ≠ 'g') =
      (Nat.toDigits 10 gen).reverse := by
  rw [List.takeWhile_append_of_pos]
  · simp
  · intro c hc
    have hdigit := Nat.isDigit_of_mem_toDigits (by decide) (by decide) (List.mem_reverse.1 hc)
    rw [decide_eq_true_eq]
    rintro rfl
    cases hdigit

theorem toList_leaseToken (nodeID : String) (gen : Nat) :
    (leaseToken nodeID gen).toList.reverse =
      (Nat.toDigits 10 gen).reverse ++ 'g' :: '-' :: nodeID.toList.reverse := by
  simp [leaseToken]

/-- A token tells the process and the generation. -/
theorem leaseToken_inj {m n : String} {g h : Nat} (heq : leaseToken m g = leaseToken n h) :
    m = n ∧ g = h := by
  have hlist := congrArg (fun t : String => t.toList.reverse) heq
  simp only [toList_leaseToken] at hlist
  have hdigits := congrArg (List.takeWhile (· ≠ 'g')) hlist
  rw [takeWhile_digits, takeWhile_digits] at hdigits
  rw [hdigits, List.append_cancel_left_eq] at hlist
  constructor
  · simpa [String.toList_inj] using hlist
  · rw [← Nat.ofDigitChars_ten_toDigits (n := g), List.reverse_inj.1 hdigits,
      Nat.ofDigitChars_ten_toDigits]

/-! ## What a goroutine does -/

/-- What a goroutine's statement leaves of its row. -/
inductive RowStep (now : Nat) (token : String) : Option Installation → Option Installation → Prop
    where
  | same (row : Option Installation) : RowStep now token row row
  | grant (row : Installation) (expires : Nat) (h : row.grants now token = true) :
      RowStep now token (some row) (some { row with lease := some (token, expires) })
  | release (row : Installation) (h : row.lease.map Prod.fst = some token) :
      RowStep now token (some row) (some { row with lease := none })

theorem acquireLease_cases {now expires : Nat} {token : String} {row row' : Option Installation}
    {a : Answer} {result : LeaseResult}
    (h : acquireLease now token expires row a = (row', result)) :
    row' = row ∧ result ≠ .leased ∨ ∃ r, row = some r ∧ r.grants now token = true ∧
      row' = some { r with lease := some (token, expires) } := by
  have hgrant : ∀ r', row.bind (AcquireChannelWSLease now token expires) = some r' →
      ∃ r, row = some r ∧ r.grants now token = true ∧
        r' = { r with lease := some (token, expires) } := by
    intro r' hr'
    rcases Option.bind_eq_some_iff.1 hr' with ⟨r, rfl, hr⟩
    simp only [AcquireChannelWSLease, Bool.and_eq_true, Option.ite_none_right_eq_some,
      Option.some.injEq] at hr
    exact ⟨r, rfl, hr.1.2, hr.2.symm⟩
  cases a with
  | failed =>
    simp only [acquireLease, Prod.mk.injEq] at h
    rcases h with ⟨rfl, rfl⟩
    exact .inl ⟨rfl, by simp⟩
  | lost =>
    simp only [acquireLease, Prod.mk.injEq] at h
    rcases h with ⟨rfl, rfl⟩
    cases hb : row.bind (AcquireChannelWSLease now token expires) with
    | none => exact .inl ⟨rfl, by simp⟩
    | some r' =>
      rcases hgrant r' hb with ⟨r, hr, hg, rfl⟩
      exact .inr ⟨r, hr, hg, rfl⟩
  | reply =>
    simp only [acquireLease] at h
    split at h
    · rename_i r' hb
      simp only [Prod.mk.injEq] at h
      rcases h with ⟨rfl, rfl⟩
      rcases hgrant r' hb with ⟨r, hr, hg, rfl⟩
      exact .inr ⟨r, hr, hg, rfl⟩
    · simp only [Prod.mk.injEq] at h
      rcases h with ⟨rfl, rfl⟩
      exact .inl ⟨rfl, by simp⟩

theorem acquireLease_row {now expires : Nat} {token : String} {row row' : Option Installation}
    {a : Answer} {result : LeaseResult}
    (h : acquireLease now token expires row a = (row', result)) : RowStep now token row row' := by
  rcases acquireLease_cases h with ⟨rfl, -⟩ | ⟨r, rfl, hg, rfl⟩
  · exact .same row'
  · exact .grant r expires hg

theorem releaseLease_row (now : Nat) (token : String) (row : Option Installation) (a : Answer) :
    RowStep now token row (releaseLease token row a) := by
  have hdone : RowStep now token row (row.map (ReleaseChannelWSLease token)) := by
    cases row with
    | none => exact .same none
    | some r =>
      rw [Option.map_some, ReleaseChannelWSLease]
      split
      · rename_i hown
        exact .release r hown
      · exact .same (some r)
  cases a with
  | failed => exact .same row
  | reply | lost => exact hdone

/-- The lease that a goroutine relies on. -/
def Phase.leased : Phase → Option Nat
  | .building leased | .connected leased _ _ => some leased
  | _ => none

/-- The times that a goroutine carries. -/
def Phase.InTime (leaseTTL now : Nat) : Phase → Prop
  | .acquiring expires => now ≤ expires ∧ expires ≤ now + leaseTTL
  | .building leased => now ≤ leased ∧ leased ≤ now + leaseTTL
  | .connected leased _ renewal =>
    now ≤ leased ∧ leased ≤ now + leaseTTL ∧
      ∀ expires, renewal = .asking expires → leased ≤ expires ∧ expires ≤ now + leaseTTL
  | _ => True

structure Turn (leaseTTL now : Nat) (row : Option Installation) (g g' : Goroutine)
    (row' : Option Installation) : Prop where
  same : g' = { g with phase := g'.phase }
  leaving : g'.phase = .leaving → g.cancelled = true
  exited : g'.phase ≠ .exited
  rowStep : RowStep now g.token row row'
  time : g.phase.InTime leaseTTL now → g'.phase.InTime leaseTTL now
  /-- A goroutine relies on a lease that it relied on before, or on one that it was granted. -/
  leased : g.phase.InTime leaseTTL now → ∀ l, g'.phase.leased = some l →
    row' = row ∧ g.phase.leased = some l ∨ ∃ r expires, row = some r ∧
      r.grants now g.token = true ∧ row' = some { r with lease := some (g.token, expires) } ∧
        l ≤ expires

/-- A request for the lease that a goroutine has waited for, and what it makes of the answer. -/
theorem Turn.ask {leaseTTL now expires : Nat} {g : Goroutine} {row row' : Option Installation}
    {a : Answer} {result : LeaseResult} {phase : Phase}
    (h : acquireLease now g.token expires row a = (row', result))
    (hleaving : phase ≠ .leaving) (hexited : phase ≠ .exited)
    (htime : g.phase.InTime leaseTTL now → phase.InTime leaseTTL now)
    (hleased : g.phase.InTime leaseTTL now → ∀ l, phase.leased = some l →
      l ≤ expires ∧ (result = .leased ∨ g.phase.leased = some l)) :
    Turn leaseTTL now row g { g with phase } row' where
  same := rfl
  leaving := fun hp => absurd hp hleaving
  exited := hexited
  rowStep := acquireLease_row h
  time := htime
  leased := by
    intro hin l hl
    rcases hleased hin l hl with ⟨hle, hor⟩
    rcases acquireLease_cases h with ⟨hrow, hne⟩ | ⟨r, hr, hg, hr'⟩
    · exact .inl ⟨hrow, hor.resolve_left hne⟩
    · exact .inr ⟨r, expires, hr, hg, hr', hle⟩

/-- A step without a statement. -/
theorem Turn.quiet {leaseTTL now : Nat} {g : Goroutine} (row : Option Installation) {phase : Phase}
    (hleaving : phase = .leaving → g.cancelled = true) (hexited : phase ≠ .exited)
    (htime : g.phase.InTime leaseTTL now → phase.InTime leaseTTL now)
    (hleased : ∀ l, phase.leased = some l → g.phase.leased = some l) :
    Turn leaseTTL now row g { g with phase } row where
  same := rfl
  leaving := hleaving
  exited := hexited
  rowStep := .same row
  time := htime
  leased := fun _ l hl => .inl ⟨rfl, hleased l hl⟩

theorem Goroutine.turn {leaseTTL now : Nat} {row row' : Option Installation} {g g' : Goroutine}
    {e : Event} (h : g.next leaseTTL now row e = some (g', row')) :
    Turn leaseTTL now row g g' row' := by
  unfold Goroutine.next at h
  split at h
  case h_1 hp =>
    -- the top of the loop
    obtain ⟨rfl, rfl⟩ := Prod.mk.inj (Option.some.inj h)
    refine .quiet row ?_ ?_ ?_ ?_
    all_goals cases hc : g.cancelled <;> simp [Phase.InTime, Phase.leased, hp]
  case h_2 a expires hp =>
    -- the answer to the request for the lease
    rcases hacq : acquireLease now g.token expires row a with ⟨row₁, result⟩
    rw [hacq] at h
    obtain ⟨rfl, rfl⟩ := Prod.mk.inj (Option.some.inj h)
    refine .ask hacq ?_ ?_ ?_ ?_
    all_goals cases result <;> simp +contextual [Phase.InTime, Phase.leased, hp]
  case h_3 ok leased hp =>
    -- the channel is built, or not
    obtain ⟨rfl, rfl⟩ := Prod.mk.inj (Option.some.inj h)
    refine .quiet row ?_ ?_ ?_ ?_
    all_goals cases ok <;> simp +contextual [Phase.InTime, Phase.leased, hp]
  case h_4 leased runCancelled hp =>
    -- a renewal is asked for
    obtain ⟨rfl, rfl⟩ := Prod.mk.inj (Option.some.inj h)
    refine .quiet row (by simp) (by simp) ?_ ?_
    · rw [hp]
      rintro ⟨hnow, hend, -⟩
      refine ⟨hnow, hend, fun expires he => ?_⟩
      obtain rfl : now + leaseTTL = expires := by simpa using he
      exact ⟨hend, Nat.le_refl _⟩
    · rw [hp]
      exact fun l hl => hl
  case h_5 a leased runCancelled expires hp =>
    -- its answer; the time that is relied on only grows
    rcases hacq : acquireLease now g.token expires row a with ⟨row₁, result⟩
    rw [hacq] at h
    obtain ⟨rfl, rfl⟩ := Prod.mk.inj (Option.some.inj h)
    refine .ask hacq ?_ ?_ ?_ ?_
    · cases result <;> simp [afterRenewal]
    · cases result <;> simp [afterRenewal]
    · rw [hp]
      rintro ⟨hnow, hend, hask⟩
      have hexp := hask expires rfl
      cases result <;> simp [afterRenewal, Phase.InTime] <;> omega
    · rw [hp]
      rintro ⟨hnow, hend, hask⟩ l hl
      have hexp := hask expires rfl
      cases result <;> simp [afterRenewal, Phase.leased] at hl ⊢ <;> omega
  case h_6 a expires hp =>
    -- its answer when `Connect` has returned
    rcases hacq : acquireLease now g.token expires row a with ⟨row₁, result⟩
    rw [hacq] at h
    obtain ⟨rfl, rfl⟩ := Prod.mk.inj (Option.some.inj h)
    exact .ask hacq (by simp) (by simp) (fun _ => trivial) (by simp [Phase.leased])
  case h_7 leased runCancelled hp =>
    -- the renewals end before the connection does
    simp only [Option.ite_none_right_eq_some] at h
    obtain ⟨rfl, rfl⟩ := Prod.mk.inj (Option.some.inj h.2)
    refine .quiet row (by simp) (by simp) ?_ ?_
    · rw [hp]
      rintro ⟨hnow, hend, -⟩
      exact ⟨hnow, hend, by simp⟩
    · rw [hp]
      exact fun l hl => hl
  case h_8 | h_9 | h_10 =>
    -- the renewals end, `Connect` returns, and both have ended
    obtain ⟨rfl, rfl⟩ := Prod.mk.inj (Option.some.inj h)
    exact .quiet row (by simp) (by simp) (fun _ => trivial) (by simp [Phase.leased])
  case h_11 a hp =>
    -- the lease is given back
    obtain ⟨rfl, rfl⟩ := Prod.mk.inj (Option.some.inj h)
    constructor
    · rfl
    · simp
    · simp
    · exact releaseLease_row now g.token row a
    · exact fun _ => trivial
    · simp [Phase.leased]
  case h_12 hp =>
    -- the wait is over
    obtain ⟨rfl, rfl⟩ := Prod.mk.inj (Option.some.inj h)
    refine .quiet row ?_ ?_ ?_ ?_
    all_goals cases hc : g.cancelled <;> simp [Phase.InTime, Phase.leased]
  case h_13 => cases h

/-! ## What a process does -/

/-- A process cancels goroutines of its own and forgets their entries. -/
structure Cancels (p : Nat) (gs : List Goroutine) (proc : Process) (f : Goroutine → Goroutine)
    (proc' : Process) : Prop where
  nodeID : proc'.nodeID = proc.nodeID
  supervisorGen : proc'.supervisorGen = proc.supervisorGen
  only : ∀ g, f g = g ∨ g.process = p ∧ f g = { g with cancelled := true }
  kept : ∀ id e, proc'.supervisors id = some e → proc.supervisors id = some e
  left : ∀ g ∈ gs, g.process = p → (f g).cancelled = false →
    proc'.supervisors g.inst = proc.supervisors g.inst
  ctxDone : proc'.ctxDone = true →
    proc.ctxDone = true ∨ ∀ g ∈ gs, g.process = p → (f g).cancelled = true

inductive ProcessStep (p : Nat) (gs : List Goroutine) (proc : Process) :
    List Goroutine → Process → Prop where
  | cancels {f : Goroutine → Goroutine} {proc' : Process} :
      Cancels p gs proc f proc' → ProcessStep p gs proc (gs.map f) proc'
  | starts {id : Nat} {fingerprint : String} {sweep : Option Sweep} :
      proc.supervisors id = none →
      ProcessStep p gs proc
        (gs ++ [⟨p, proc.nodeID, id, proc.supervisorGen + 1, proc.ctxDone, .top⟩])
        { proc with
          supervisorGen := proc.supervisorGen + 1
          supervisors := Function.update proc.supervisors id
            (some ⟨fingerprint, proc.supervisorGen + 1⟩)
          sweep := sweep }

theorem Cancels.refl {p : Nat} {gs : List Goroutine} {proc : Process} (sweep : Option Sweep) :
    Cancels p gs proc id { proc with sweep := sweep } where
  nodeID := rfl
  supervisorGen := rfl
  only := fun _ => .inl rfl
  kept := fun _ _ h => h
  left := fun _ _ _ _ => rfl
  ctxDone := .inl

theorem ProcessStep.refl {p : Nat} {gs : List Goroutine} {proc : Process} (sweep : Option Sweep) :
    ProcessStep p gs proc gs { proc with sweep := sweep } := by
  have h : ProcessStep p gs proc (gs.map id) { proc with sweep := sweep } :=
    .cancels (Cancels.refl sweep)
  rwa [List.map_id] at h

theorem cancel_cases (p gen : Nat) (g : Goroutine) :
    cancel p gen g = g ∨ g.process = p ∧ cancel p gen g = { g with cancelled := true } := by
  unfold cancel
  split
  · rename_i h
    exact .inr ⟨h.1, rfl⟩
  · exact .inl rfl

theorem cancelled_cancel (g : Goroutine) : (cancel g.process g.gen g).cancelled = true := by
  simp [cancel]

/-- A goroutine of the process that is not cancelled has its entry. -/
def Running (gs : List Goroutine) (p : Nat) (proc : Process) : Prop :=
  ∀ g ∈ gs, g.process = p → g.cancelled = false →
    ∃ e, proc.supervisors g.inst = some e ∧ e.gen = g.gen

theorem cancelled_of_cancels {g g' : Goroutine} {p : Nat}
    (h : g' = g ∨ g.process = p ∧ g' = { g with cancelled := true })
    (hc : g'.cancelled = false) : g' = g := by
  rcases h with h | ⟨-, rfl⟩
  · exact h
  · cases hc

theorem Cancels.rotation {p : Nat} {gs : List Goroutine} {proc : Process}
    (h : Running gs p proc) {id : Nat} {entry : Entry} (hid : proc.supervisors id = some entry)
    (sweep : Option Sweep) :
    Cancels p gs proc (cancel p entry.gen)
      { proc with
        supervisors := Function.update proc.supervisors id none
        sweep := sweep } where
  nodeID := rfl
  supervisorGen := rfl
  only := cancel_cases p entry.gen
  kept := by
    intro id' e he
    simp only [Function.update_apply] at he
    split at he
    · cases he
    · exact he
  left := by
    rintro g hg rfl hc
    have hsame := cancelled_of_cancels (cancel_cases _ entry.gen g) hc
    rw [hsame] at hc
    rcases h g hg rfl hc with ⟨e, he, hgen⟩
    simp only [Function.update_apply]
    split
    · -- the goroutine of the entry has been cancelled
      rename_i hinst
      rw [hinst, hid] at he
      obtain rfl := Option.some.inj he
      rw [hgen] at hsame
      have hdone := cancelled_cancel g
      rw [hsame, hc] at hdone
      cases hdone
    · rfl
  ctxDone := .inl

theorem reap_cases (p : Nat) (proc : Process) (active : List Nat) (g : Goroutine) :
    reap p proc active g = g ∨
      g.process = p ∧ reap p proc active g = { g with cancelled := true } := by
  unfold reap
  split
  · split
    · exact .inl rfl
    · exact cancel_cases _ _ g
  · exact .inl rfl

theorem Cancels.reap {p : Nat} {gs : List Goroutine} {proc : Process} (h : Running gs p proc)
    (active : List Nat) :
    Cancels p gs proc (reap p proc active)
      { proc with
        supervisors := fun id => if id ∈ active then proc.supervisors id else none
        sweep := none } where
  nodeID := rfl
  supervisorGen := rfl
  only := reap_cases p proc active
  kept := by
    intro id e he
    simp only [Option.ite_none_right_eq_some] at he
    exact he.2
  left := by
    rintro g hg rfl hc
    have hsame := cancelled_of_cancels (reap_cases _ proc active g) hc
    rw [hsame] at hc
    rcases h g hg rfl hc with ⟨e, he, hgen⟩
    by_cases hactive : g.inst ∈ active
    · exact if_pos hactive
    · simp only [Supervisor.reap, he, if_neg hactive, hgen] at hsame
      have hdone := cancelled_cancel g
      rw [hsame, hc] at hdone
      cases hdone
  ctxDone := .inl

theorem Cancels.shutdown {p : Nat} {gs : List Goroutine} {proc : Process} :
    Cancels p gs proc (fun g => if g.process = p then { g with cancelled := true } else g)
      { proc with ctxDone := true } where
  nodeID := rfl
  supervisorGen := rfl
  only := by
    intro g
    split
    · rename_i hp
      exact .inr ⟨hp, rfl⟩
    · exact .inl rfl
  kept := fun _ _ h => h
  left := fun _ _ _ _ => rfl
  ctxDone := by
    refine fun _ => .inr fun g _ hp => ?_
    rw [if_pos hp]

theorem Cancels.cancelAll {p : Nat} {gs : List Goroutine} (proc : Process)
    (hdone : ∀ g ∈ gs, g.process = p → g.cancelled = true) :
    Cancels p gs proc id { proc with
      stopped := true
      supervisors := fun _ => none } where
  nodeID := rfl
  supervisorGen := rfl
  only := fun _ => .inl rfl
  kept := by
    intro id e he
    cases he
  left := by
    intro g hg hp hc
    rw [id, hdone g hg hp] at hc
    cases hc
  ctxDone := .inl

/-! ## The processes and their goroutines -/

/-- The entries of a process and its goroutines. -/
structure Owns (gs : List Goroutine) (p : Nat) (proc : Process) : Prop where
  named : ∀ g ∈ gs, g.process = p → g.nodeID = proc.nodeID ∧ g.gen ≤ proc.supervisorGen
  entry : ∀ id e, proc.supervisors id = some e →
    ∃ g ∈ gs, g.process = p ∧ g.inst = id ∧ g.gen = e.gen ∧ g.phase ≠ .exited
  running : Running gs p proc
  leaving : ∀ g ∈ gs, g.process = p → g.phase = .leaving ∨ g.phase = .exited → g.cancelled = true
  ctxDone : proc.ctxDone = true → ∀ g ∈ gs, g.process = p → g.cancelled = true

structure Registered (ps : List Process) (gs : List Goroutine) : Prop where
  nodeIDs : Parties.Apart (fun p q => p.nodeID ≠ q.nodeID) ps
  launched : ∀ g ∈ gs, g.process < ps.length
  apart : Parties.Apart (fun g h => g.process = h.process → g.gen ≠ h.gen) gs
  owns : ∀ p proc, ps[p]? = some proc → Owns gs p proc

theorem Registered.init : Registered [] [] := by
  constructor
  · exact Parties.apart_nil
  · intro g hg
    cases hg
  · exact Parties.apart_nil
  · intro p proc hp
    simp at hp

theorem Registered.process {ps : List Process} {gs : List Goroutine} (h : Registered ps gs)
    {g : Goroutine} (hg : g ∈ gs) :
    ∃ proc, ps[g.process]? = some proc ∧ Owns gs g.process proc :=
  ⟨_, List.getElem?_eq_getElem (h.launched g hg), h.owns _ _ (List.getElem?_eq_getElem _)⟩

/-- What the other processes do is nothing to a process. -/
theorem Owns.congr {gs gs' : List Goroutine} {p : Nat} {proc : Process} (h : Owns gs p proc)
    (hsame : ∀ g, g.process = p → (g ∈ gs' ↔ g ∈ gs)) : Owns gs' p proc where
  named := fun g hg hp => h.named g ((hsame g hp).1 hg) hp
  entry := by
    intro id e he
    rcases h.entry id e he with ⟨g, hg, hp, hrest⟩
    exact ⟨g, (hsame g hp).2 hg, hp, hrest⟩
  running := fun g hg hp hc => h.running g ((hsame g hp).1 hg) hp hc
  leaving := fun g hg hp hl => h.leaving g ((hsame g hp).1 hg) hp hl
  ctxDone := fun hd g hg hp => h.ctxDone hd g ((hsame g hp).1 hg) hp

/-- One process and its goroutines move. -/
theorem Registered.move {ps : List Process} {gs gs' : List Goroutine} (h : Registered ps gs)
    {p : Nat} {proc proc' : Process} (hp : ps[p]? = some proc)
    (hnode : proc'.nodeID = proc.nodeID)
    (hothers : ∀ g : Goroutine, g.process ≠ p → (g ∈ gs' ↔ g ∈ gs))
    (hapart : Parties.Apart (fun g h => g.process = h.process → g.gen ≠ h.gen) gs')
    (howns : Owns gs' p proc') : Registered (ps.set p proc') gs' where
  nodeIDs := by
    refine h.nodeIDs.set hp fun q _ hpq hqp => ?_
    rw [hnode]
    exact ⟨hpq, hqp⟩
  launched := by
    intro g hg
    rw [List.length_set]
    by_cases hgp : g.process = p
    · rw [hgp]
      exact (List.getElem?_eq_some_iff.1 hp).1
    · exact h.launched g ((hothers g hgp).1 hg)
  apart := hapart
  owns := by
    intro q qproc hq
    rcases Parties.getElem?_of_set hq with ⟨rfl, rfl⟩ | ⟨hqp, hq⟩
    · exact howns
    · exact (h.owns q qproc hq).congr fun g hg => hothers g (hg ▸ hqp)

/-- A new process has a name of its own and no goroutine. -/
theorem Registered.launch {ps : List Process} {gs : List Goroutine} (h : Registered ps gs)
    {nodeID : String} (hnew : nodeID ∉ ps.map (·.nodeID)) :
    Registered (ps ++ [{ nodeID := nodeID }]) gs where
  nodeIDs := by
    refine h.nodeIDs.concat fun p hp => ?_
    have hpne : p.nodeID ≠ nodeID := by
      rintro rfl
      exact hnew (List.mem_map_of_mem hp)
    exact ⟨hpne, hpne.symm⟩
  launched := by
    intro g hg
    rw [List.length_append]
    exact Nat.lt_add_right _ (h.launched g hg)
  apart := h.apart
  owns := by
    intro p proc hp
    rcases Nat.lt_or_ge p ps.length with hlt | hge
    · rw [List.getElem?_append_left hlt] at hp
      exact h.owns p proc hp
    · rw [List.getElem?_append_right hge] at hp
      obtain rfl := List.mem_singleton.1 (List.mem_of_getElem? hp)
      have hnone : ∀ g ∈ gs, g.process ≠ p := fun g hg =>
        Nat.ne_of_lt (Nat.lt_of_lt_of_le (h.launched g hg) hge)
      constructor
      · exact fun g hg hgp => absurd hgp (hnone g hg)
      · intro id e he
        cases he
      · exact fun g hg hgp => absurd hgp (hnone g hg)
      · exact fun g hg hgp => absurd hgp (hnone g hg)
      · intro hd
        cases hd

theorem Cancels.frame {p : Nat} {gs : List Goroutine} {proc proc' : Process}
    {f : Goroutine → Goroutine} (h : Cancels p gs proc f proc') (g : Goroutine) :
    f g = { g with cancelled := (f g).cancelled } := by
  rcases h.only g with hf | ⟨-, hf⟩
  · rw [hf]
  · rw [hf]

theorem Cancels.cancelled {p : Nat} {gs : List Goroutine} {proc proc' : Process}
    {f : Goroutine → Goroutine} (h : Cancels p gs proc f proc') {g : Goroutine}
    (hg : g.cancelled = true) : (f g).cancelled = true := by
  rcases h.only g with hf | ⟨-, hf⟩
  · rw [hf, hg]
  · rw [hf]

theorem Registered.cancels {ps : List Process} {gs : List Goroutine} (h : Registered ps gs)
    {p : Nat} {proc proc' : Process} {f : Goroutine → Goroutine} (hp : ps[p]? = some proc)
    (hf : Cancels p gs proc f proc') : Registered (ps.set p proc') (gs.map f) := by
  have hframe := hf.frame
  have hprocess (g : Goroutine) : (f g).process = g.process := by rw [hframe g]
  have hgen (g : Goroutine) : (f g).gen = g.gen := by rw [hframe g]
  have hphase (g : Goroutine) : (f g).phase = g.phase := by rw [hframe g]
  have hinst (g : Goroutine) : (f g).inst = g.inst := by rw [hframe g]
  have hnode (g : Goroutine) : (f g).nodeID = g.nodeID := by rw [hframe g]
  have howns := h.owns p proc hp
  refine h.move hp hf.nodeID (fun g hgp => ?_) (h.apart.map fun g k hgk => ?_) ⟨?_, ?_, ?_, ?_, ?_⟩
  · have hid : ∀ k, (f k).process ≠ p → f k = k := fun k hk =>
      (hf.only k).resolve_right fun hown => hk (hprocess k ▸ hown.1)
    constructor
    · intro hg
      rcases List.mem_map.1 hg with ⟨k, hk, rfl⟩
      rw [hid k hgp]
      exact hk
    · intro hg
      exact List.mem_map.2 ⟨g, hg, hid g (hprocess g ▸ hgp)⟩
  · rw [hprocess, hprocess, hgen, hgen]
    exact hgk
  · refine List.forall_mem_map.2 fun g hg hgp => ?_
    rw [hprocess] at hgp
    rw [hnode, hgen, hf.nodeID, hf.supervisorGen]
    exact howns.named g hg hgp
  · intro id e he
    rcases howns.entry id e (hf.kept id e he) with ⟨g, hg, hrest⟩
    refine ⟨f g, List.mem_map_of_mem hg, ?_⟩
    rw [hprocess, hinst, hgen, hphase]
    exact hrest
  · refine List.forall_mem_map.2 fun g hg hgp hc => ?_
    rw [hprocess] at hgp
    have hc' : g.cancelled = false := by
      by_contra hne
      rw [hf.cancelled (by simpa using hne)] at hc
      cases hc
    rw [hinst, hgen, hf.left g hg hgp hc]
    exact howns.running g hg hgp hc'
  · refine List.forall_mem_map.2 fun g hg hgp hl => ?_
    rw [hprocess] at hgp
    rw [hphase] at hl
    exact hf.cancelled (howns.leaving g hg hgp hl)
  · refine fun hd => List.forall_mem_map.2 fun g hg hgp => ?_
    rw [hprocess] at hgp
    rcases hf.ctxDone hd with hd | hall
    · exact hf.cancelled (howns.ctxDone hd g hg hgp)
    · exact hall g hg hgp

theorem Registered.starts {ps : List Process} {gs : List Goroutine} (h : Registered ps gs)
    {p id : Nat} {proc : Process} (hp : ps[p]? = some proc) (hid : proc.supervisors id = none)
    (fingerprint : String) (sweep : Option Sweep) :
    Registered
      (ps.set p { proc with
        supervisorGen := proc.supervisorGen + 1
        supervisors := Function.update proc.supervisors id
          (some ⟨fingerprint, proc.supervisorGen + 1⟩)
        sweep := sweep })
      (gs ++ [⟨p, proc.nodeID, id, proc.supervisorGen + 1, proc.ctxDone, .top⟩]) := by
  have howns := h.owns p proc hp
  -- the generations of the process have not come this far
  have hgen : ∀ g ∈ gs, g.process = p → g.gen < proc.supervisorGen + 1 := fun g hg hgp =>
    Nat.lt_succ_of_le (howns.named g hg hgp).2
  refine h.move hp rfl (fun g hgp => ?_) (h.apart.concat fun g hg => ⟨fun hgp => ?_, fun hgp => ?_⟩)
    ⟨?_, ?_, ?_, ?_, ?_⟩
  · rw [List.mem_append, List.mem_singleton, or_iff_left]
    rintro rfl
    exact hgp rfl
  · exact Nat.ne_of_lt (hgen g hg hgp)
  · exact Nat.ne_of_gt (hgen g hg hgp.symm)
  · refine List.forall_mem_append.2 ⟨fun g hg hgp => ?_, List.forall_mem_singleton.2 fun _ => ?_⟩
    · exact (howns.named g hg hgp).imp_right Nat.le_succ_of_le
    · exact ⟨rfl, Nat.le_refl _⟩
  · intro i e he
    simp only [Function.update_apply] at he
    split at he
    · rename_i hi
      obtain rfl := Option.some.inj he
      exact ⟨_, List.mem_append_right _ (List.mem_singleton_self _), rfl, hi.symm, rfl, by simp⟩
    · rcases howns.entry i e he with ⟨g, hg, hrest⟩
      exact ⟨g, List.mem_append_left _ hg, hrest⟩
  · refine List.forall_mem_append.2
      ⟨fun g hg hgp hc => ?_, List.forall_mem_singleton.2 fun _ _ => ?_⟩
    · rcases howns.running g hg hgp hc with ⟨e, he, hge⟩
      have hne : g.inst ≠ id := by
        intro hi
        rw [hi, hid] at he
        cases he
      exact ⟨e, (Function.update_of_ne hne _ _).trans he, hge⟩
    · exact ⟨_, Function.update_self id _ _, rfl⟩
  · refine List.forall_mem_append.2 ⟨howns.leaving, List.forall_mem_singleton.2 fun _ hl => ?_⟩
    simp at hl
  · exact fun hd => List.forall_mem_append.2
      ⟨howns.ctxDone hd, List.forall_mem_singleton.2 fun _ => hd⟩

/-- A goroutine moves on, and drops its entry when it exits. -/
theorem Registered.goroutine {ps : List Process} {gs : List Goroutine} (h : Registered ps gs)
    {i : Nat} {g g' : Goroutine} (hi : gs[i]? = some g) (hsame : g' = { g with phase := g'.phase })
    (hleaving : g'.phase = .leaving ∨ g'.phase = .exited → g.cancelled = true) {proc : Process}
    (hp : ps[g.process]? = some proc) {supervisors : Nat → Option Entry}
    (hkept : ∀ id e, supervisors id = some e → proc.supervisors id = some e ∧
      (g'.phase = .exited → id = g.inst → e.gen ≠ g.gen))
    (hstays : ∀ id e, proc.supervisors id = some e →
      supervisors id = some e ∨ g.cancelled = true ∧ e.gen = g.gen) :
    Registered (ps.set g.process { proc with supervisors }) (gs.set i g') := by
  have hg := List.mem_of_getElem? hi
  have hprocess : g'.process = g.process := by rw [hsame]
  have hnode : g'.nodeID = g.nodeID := by rw [hsame]
  have hinst : g'.inst = g.inst := by rw [hsame]
  have hgen : g'.gen = g.gen := by rw [hsame]
  have hcancelled : g'.cancelled = g.cancelled := by rw [hsame]
  have howns := h.owns g.process proc hp
  refine h.move hp rfl (fun k hk => ?_) (h.apart.set hi fun k _ hgk hkg => ?_) ⟨?_, ?_, ?_, ?_, ?_⟩
  · refine Parties.mem_set_iff hi ?_ ?_
    · rintro rfl
      exact hk rfl
    · rintro rfl
      exact hk hprocess
  · rw [hprocess, hgen]
    exact ⟨hgk, hkg⟩
  · refine Parties.forall_set g' ?_ howns.named
    rw [hprocess, hnode, hgen]
    exact howns.named g hg
  · intro id e he
    rcases hkept id e he with ⟨he, hne⟩
    refine (Parties.exists_set_iff hi g').2 ?_
    rcases (Parties.exists_iff hi).1 (howns.entry id e he) with ⟨hgp, hgid, hge, -⟩ | hother
    · exact .inl ⟨hprocess, hinst.trans hgid, hgen.trans hge, fun hx => hne hx hgid.symm hge.symm⟩
    · exact .inr hother
  · intro k hk hkp hkc
    rcases List.mem_iff_getElem?.1 hk with ⟨j, hj⟩
    rcases Parties.getElem?_of_set hj with ⟨-, rfl⟩ | ⟨hji, hj⟩
    · rw [hcancelled] at hkc
      rw [hinst, hgen]
      rcases howns.running g hg rfl hkc with ⟨e, he, hge⟩
      rcases hstays g.inst e he with hstay | ⟨hc, -⟩
      · exact ⟨e, hstay, hge⟩
      · rw [hkc] at hc
        cases hc
    · rcases howns.running k (List.mem_of_getElem? hj) hkp hkc with ⟨e, he, hge⟩
      rcases hstays k.inst e he with hstay | ⟨-, heq⟩
      · exact ⟨e, hstay, hge⟩
      · -- the entry that is dropped is of another generation
        exact absurd (hge.symm.trans heq) (h.apart j i k g hji hj hi hkp)
  · refine Parties.forall_set g' (fun _ => ?_) howns.leaving
    rw [hcancelled]
    exact hleaving
  · refine fun hd => Parties.forall_set g' (fun _ => ?_) (howns.ctxDone hd)
    rw [hcancelled]
    exact howns.ctxDone hd g hg rfl

theorem Process.drop_cases (proc : Process) (id gen : Nat) :
    ∃ supervisors, proc.drop id gen = { proc with supervisors := supervisors } ∧
      (∀ i e, supervisors i = some e → proc.supervisors i = some e ∧ (i = id → e.gen ≠ gen)) ∧
      ∀ i e, proc.supervisors i = some e → supervisors i = some e ∨ e.gen = gen := by
  unfold Process.drop
  split
  · rename_i entry hentry
    split
    · rename_i hgen
      refine ⟨_, rfl, fun i e he => ?_, fun i e he => ?_⟩
      · rw [Function.update_apply] at he
        split at he
        · cases he
        · rename_i hi
          exact ⟨he, fun h => absurd h hi⟩
      · rw [Function.update_apply]
        split
        · rename_i hi
          rw [hi, hentry] at he
          exact .inr (Option.some.inj he ▸ hgen)
        · exact .inl he
    · rename_i hgen
      refine ⟨_, rfl, fun i e he => ⟨he, ?_⟩, fun i e he => .inl he⟩
      rintro rfl
      obtain rfl := Option.some.inj (hentry.symm.trans he)
      exact hgen
  · rename_i hnone
    refine ⟨_, rfl, fun i e he => ⟨he, ?_⟩, fun i e he => .inl he⟩
    rintro rfl
    rw [hnone] at he
    cases he

/-! ## Steps -/

variable {lookup : String → Bool} {leaseTTL : Nat} {s s' : State}

/-- What a step does. -/
inductive Effect (leaseTTL : Nat) (s : State) : Label → State → Prop where
  | clock (t : Nat) (h : s.now ≤ t) : Effect leaseTTL s (.clock t) { s with now := t }
  | insert (a : Label) (row : Option Installation) :
      Effect leaseTTL s a { s with rows := s.rows ++ [row] }
  /-- The lease of the row is left alone. -/
  | write (a : Label) {id : Nat} {row : Option Installation}
      (h : ∀ r', row = some r' → ∃ r, s.row id = some r ∧ r'.lease = r.lease) :
      Effect leaseTTL s a (s.setRow id row)
  | launch (a : Label) {nodeID : String} (h : nodeID ∉ s.processes.map (·.nodeID)) :
      Effect leaseTTL s a { s with processes := s.processes ++ [{ nodeID := nodeID }] }
  | process (a : Label) {p : Nat} {proc proc' : Process} {gs : List Goroutine}
      (hp : s.processes[p]? = some proc) (h : ProcessStep p s.goroutines proc gs proc') :
      Effect leaseTTL s a { s with
        processes := s.processes.set p proc'
        goroutines := gs }
  | go (a : Label) {i : Nat} {g g' : Goroutine} {row : Option Installation}
      (hi : s.goroutines[i]? = some g) (h : Turn leaseTTL s.now (s.row g.inst) g g' row) :
      Effect leaseTTL s a { s.setRow g.inst row with goroutines := s.goroutines.set i g' }
  | exit (a : Label) {i : Nat} {g : Goroutine} (hi : s.goroutines[i]? = some g)
      (h : g.phase = .leaving) :
      Effect leaseTTL s a { s with
        processes := s.processes.modify g.process (·.drop g.inst g.gen)
        goroutines := s.goroutines.set i { g with phase := .exited } }

theorem process_step {p : Nat} {f : Process → Option (State × Process)}
    (h : s.process p f = some s') :
    ∃ proc t proc', s.processes[p]? = some proc ∧ f proc = some (t, proc') ∧
      s' = { t with processes := s.processes.set p proc' } := by
  simp only [State.process, Option.bind_eq_bind, Option.bind_eq_some_iff, Option.some.injEq] at h
  rcases h with ⟨proc, hp, ⟨t, proc'⟩, hf, rfl⟩
  exact ⟨proc, t, proc', hp, hf, rfl⟩

theorem compare_effect (h : Registered s.processes s.goroutines) {p : Nat}
    (hn : next lookup leaseTTL s (.compare p) = some s') : Effect leaseTTL s (.compare p) s' := by
  rcases process_step hn with ⟨proc, t, proc', hp, hf, rfl⟩
  split at hf
  · rename_i id row todo active hsweep
    split at hf
    · simp only [Option.some.injEq, Prod.mk.injEq] at hf
      rcases hf with ⟨rfl, rfl⟩
      unfold maybeRestartOnRotation
      split
      · exact .process _ hp (.refl _)
      · rename_i entry hentry
        split
        · exact .process _ hp (.refl _)
        · exact .process _ hp (.cancels (.rotation (h.owns p proc hp).running hentry _))
    · obtain ⟨rfl, rfl⟩ := Prod.mk.inj (Option.some.inj hf)
      exact .process _ hp (.refl _)
  · cases hf

theorem start_effect {p : Nat} (hn : next lookup leaseTTL s (.start p) = some s') :
    Effect leaseTTL s (.start p) s' := by
  rcases process_step hn with ⟨proc, t, proc', hp, hf, rfl⟩
  split at hf
  · simp only [Option.some.injEq, Prod.mk.injEq] at hf
    rcases hf with ⟨rfl, rfl⟩
    unfold startSupervisor
    split
    · exact .process _ hp (.refl _)
    · split
      · exact .process _ hp (.refl _)
      · rename_i hnone
        exact .process _ hp (.starts hnone)
  · cases hf

theorem next_effect (h : Registered s.processes s.goroutines) {a : Label}
    (hn : next lookup leaseTTL s a = some s') : Effect leaseTTL s a s' := by
  cases a with
  | clock t =>
    simp only [next, Option.ite_none_right_eq_some, Option.some.injEq] at hn
    rcases hn with ⟨hle, rfl⟩
    exact .clock t hle
  | insert row =>
    obtain rfl := Option.some.inj hn
    exact .insert _ _
  | write id fingerprint active =>
    rcases Option.map_eq_some_iff.1 hn with ⟨row, hrow, rfl⟩
    refine .write _ fun r' hr' => ⟨row, hrow, ?_⟩
    obtain rfl := Option.some.inj hr'
    rfl
  | delete id =>
    obtain rfl := Option.some.inj hn
    refine .write _ fun r' hr' => ?_
    cases hr'
  | launch nodeID =>
    simp only [next, Option.ite_none_left_eq_some, Option.some.injEq] at hn
    rcases hn with ⟨hnew, rfl⟩
    exact .launch _ hnew
  | list p =>
    rcases process_step hn with ⟨proc, t, proc', hp, hf, rfl⟩
    simp only [Option.ite_none_left_eq_some, Option.some.injEq, Prod.mk.injEq] at hf
    rcases hf with ⟨-, rfl, rfl⟩
    exact .process _ hp (.refl _)
  | compare p => exact compare_effect h hn
  | start p => exact start_effect hn
  | reap p =>
    rcases process_step hn with ⟨proc, t, proc', hp, hf, rfl⟩
    split at hf
    · obtain ⟨rfl, rfl⟩ := Prod.mk.inj (Option.some.inj hf)
      exact .process _ hp (.cancels (.reap (h.owns p proc hp).running _))
    · cases hf
  | shutdown p =>
    rcases process_step hn with ⟨proc, t, proc', hp, hf, rfl⟩
    obtain ⟨rfl, rfl⟩ := Prod.mk.inj (Option.some.inj hf)
    exact .process _ hp (.cancels .shutdown)
  | cancelAll p =>
    rcases process_step hn with ⟨proc, t, proc', hp, hf, rfl⟩
    simp only [Option.ite_none_right_eq_some, Bool.and_eq_true, Option.some.injEq,
      Prod.mk.injEq] at hf
    rcases hf with ⟨⟨hdone, -⟩, rfl, rfl⟩
    have hcancels := ProcessStep.cancels (Cancels.cancelAll proc ((h.owns p proc hp).ctxDone hdone))
    rw [List.map_id] at hcancels
    exact .process _ hp hcancels
  | go i e =>
    simp only [next, Option.bind_eq_bind, Option.bind_eq_some_iff, Option.some.injEq] at hn
    rcases hn with ⟨g, hi, ⟨g', row⟩, hnext, rfl⟩
    exact .go _ hi (Goroutine.turn hnext)
  | exit i =>
    simp only [next, Option.bind_eq_bind, Option.bind_eq_some_iff, Option.ite_none_right_eq_some,
      Option.some.injEq] at hn
    rcases hn with ⟨g, hi, hleaving, rfl⟩
    exact .exit _ hi hleaving

theorem Registered.effect (h : Registered s.processes s.goroutines) {a : Label}
    (he : Effect leaseTTL s a s') : Registered s'.processes s'.goroutines := by
  cases he with
  | clock | insert | write => exact h
  | launch _ hnew => exact h.launch hnew
  | process _ hp hstep =>
    cases hstep with
    | cancels hf => exact h.cancels hp hf
    | starts hid => exact h.starts hp hid _ _
  | @go _ i g g' row hi t =>
    rcases h.process (List.mem_of_getElem? hi) with ⟨proc, hp, -⟩
    have hmoved := h.goroutine hi t.same (fun hl => t.leaving (hl.resolve_right t.exited)) hp
      (fun id e he => ⟨he, fun hx => absurd hx t.exited⟩) fun id e he => .inl he
    have hset : s.processes.set g.process proc = s.processes := by
      rcases List.getElem?_eq_some_iff.1 hp with ⟨hlt, rfl⟩
      exact List.set_getElem_self hlt
    rwa [hset] at hmoved
  | @exit _ i g hi hleaving =>
    have hg := List.mem_of_getElem? hi
    rcases h.process hg with ⟨proc, hp, howns⟩
    have hc := howns.leaving g hg rfl (.inl hleaving)
    rcases proc.drop_cases g.inst g.gen with ⟨supervisors, hdrop, hkept, hstays⟩
    have hmoved : Registered _ (s.goroutines.set i { g with phase := .exited }) :=
      h.goroutine hi rfl (fun _ => hc) hp
        (fun id e he => (hkept id e he).imp_right fun hne _ => hne)
        fun id e he => (hstays id e he).imp_right fun heq => ⟨hc, heq⟩
    have hmodify : s.processes.modify g.process (·.drop g.inst g.gen) =
        s.processes.set g.process (proc.drop g.inst g.gen) := by
      rw [List.modify_eq_set_getElem?, hp]
      rfl
    rwa [← hdrop, ← hmodify] at hmoved

theorem registered_of_reachable (hs : (machine lookup leaseTTL).Reachable s) :
    Registered s.processes s.goroutines := by
  refine Machine.invariant (I := fun s => Registered s.processes s.goroutines) (fun s hs => ?_)
    (fun s a s' _ h hn => h.effect (next_effect h hn)) s hs
  obtain rfl : s = {} := hs
  exact .init

/-- The supervisors map of a process has an entry for every goroutine that is not cancelled, and no
entry for one that is gone: a goroutine never outlives the reach of its process. -/
theorem registered (lookup : String → Bool) (leaseTTL : Nat) (s : State)
    (hs : (machine lookup leaseTTL).Reachable s) :
    (∀ p proc, s.processes[p]? = some proc → Running s.goroutines p proc ∧
      ∀ id e, proc.supervisors id = some e →
        ∃ g ∈ s.goroutines, g.process = p ∧ g.inst = id ∧ g.gen = e.gen ∧ g.phase ≠ .exited) ∧
    (∀ g ∈ s.goroutines, g.phase = .exited → g.cancelled = true) ∧
    Parties.Apart (fun g h => g.process = h.process → g.inst = h.inst →
      g.cancelled = true ∨ h.cancelled = true) s.goroutines := by
  have h := registered_of_reachable hs
  refine ⟨fun p proc hp => ⟨(h.owns p proc hp).running, (h.owns p proc hp).entry⟩,
    fun g hg hx => ?_, fun i j g k hij hi hj hprocess hinst => ?_⟩
  · rcases h.process hg with ⟨proc, -, howns⟩
    exact howns.leaving g hg rfl (.inr hx)
  by_contra hnone
  simp only [not_or, Bool.not_eq_true] at hnone
  rcases h.process (List.mem_of_getElem? hi) with ⟨proc, -, howns⟩
  -- both would have the one entry of the installation
  rcases howns.running g (List.mem_of_getElem? hi) rfl hnone.1 with ⟨e, he, hgen⟩
  rcases howns.running k (List.mem_of_getElem? hj) hprocess.symm hnone.2 with ⟨e', he', hgen'⟩
  rw [← hinst, he] at he'
  obtain rfl := Option.some.inj he'
  exact h.apart i j g k hij hi hj hprocess (hgen.symm.trans hgen')

/-- The credentials change: the entry of the cancelled goroutine is the successor's, and the end of
the one leaves the entry of the other. -/
theorem registered_rotated : ∃ s : State,
    s.goroutines.map (fun g => (g.gen, g.cancelled, g.phase)) =
      [(1, true, .exited), (2, false, .acquiring 90)] ∧
    ∀ proc, s.processes[0]? = some proc → Running s.goroutines 0 proc := by
  rcases Machine.reachable_of_run (machine (fun _ => true) 90) (s := {}) rfl
    [.insert ⟨"feishu", "f", true, none⟩, .launch "a", .list 0, .compare 0, .start 0, .reap 0,
      .go 0 .begin, .write 0 "g" true, .list 0, .compare 0, .start 0, .go 0 (.acquired .failed),
      .go 0 .wake, .exit 0, .go 1 .begin]
    (fun s => decide (s.goroutines.map (fun g => (g.gen, g.cancelled, g.phase)) =
      [(1, true, .exited), (2, false, .acquiring 90)])) (by decide +kernel)
    with ⟨s, -, hs, hp⟩
  exact ⟨s, of_decide_eq_true hp, fun proc hproc =>
    ((registered (fun _ => true) 90 s hs).1 0 proc hproc).1⟩

/-! ## Leases -/

theorem Registered.tokens (h : Registered s.processes s.goroutines) :
    Parties.Apart (fun g k => g.token ≠ k.token) s.goroutines := by
  intro i j g k hij hi hj htoken
  rcases leaseToken_inj htoken with ⟨hnode, hgen⟩
  rcases h.process (List.mem_of_getElem? hi) with ⟨p, hp, hg⟩
  rcases h.process (List.mem_of_getElem? hj) with ⟨q, hq, hk⟩
  by_cases hprocess : g.process = k.process
  · exact h.apart i j g k hij hi hj hprocess hgen
  · refine h.nodeIDs _ _ p q hprocess hp hq ?_
    rw [← (hg.named g (List.mem_of_getElem? hi) rfl).1, hnode]
    exact (hk.named k (List.mem_of_getElem? hj) rfl).1

/-- The times that a goroutine carries are kept, and its row has the lease that it relies on. -/
structure Relies (leaseTTL : Nat) (s : State) (g : Goroutine) : Prop where
  time : g.phase.InTime leaseTTL s.now
  inst : g.phase.leased.isSome = true → g.inst < s.rows.length
  row : ∀ l, g.phase.leased = some l → ∀ row, s.row g.inst = some row →
    ∃ expires, row.lease = some (g.token, expires) ∧ l ≤ expires

structure Leased (leaseTTL : Nat) (s : State) : Prop where
  relies : ∀ g ∈ s.goroutines, Relies leaseTTL s g
  apart : Parties.Apart (fun g k => g.inst = k.inst →
    ¬(g.phase.leased.isSome = true ∧ k.phase.leased.isSome = true)) s.goroutines

theorem Leased.init : Leased leaseTTL {} := by
  constructor
  · intro g hg
    cases hg
  · exact Parties.apart_nil

/-- Cancelling a goroutine leaves its lease alone. -/
theorem Leased.map (h : Leased leaseTTL s) {f : Goroutine → Goroutine}
    (hf : ∀ g, f g = { g with cancelled := (f g).cancelled }) (processes : List Process) :
    Leased leaseTTL { s with
      processes := processes
      goroutines := s.goroutines.map f } := by
  constructor
  · refine List.forall_mem_map.2 fun g hg => ?_
    have hrelies := h.relies g hg
    rw [hf g]
    exact ⟨hrelies.time, hrelies.inst, hrelies.row⟩
  · refine h.apart.map fun g k hgk => ?_
    rw [hf g, hf k]
    exact hgk

theorem Relies.idle {g : Goroutine} (htime : g.phase.InTime leaseTTL s.now)
    (hnone : g.phase.leased = none) : Relies leaseTTL s g where
  time := htime
  inst := by simp [hnone]
  row := by simp [hnone]

/-- A goroutine that relies on no lease joins. -/
theorem Leased.concat (h : Leased leaseTTL s) {g : Goroutine} (hg : g.phase = .top)
    (processes : List Process) :
    Leased leaseTTL { s with
      processes := processes
      goroutines := s.goroutines ++ [g] } := by
  have hnone : g.phase.leased = none := by
    rw [hg]
    rfl
  constructor
  · refine List.forall_mem_append.2 ⟨fun k hk => ?_, List.forall_mem_singleton.2 ?_⟩
    · have hrelies := h.relies k hk
      exact ⟨hrelies.time, hrelies.inst, hrelies.row⟩
    · refine .idle ?_ hnone
      rw [hg]
      trivial
  · refine h.apart.concat fun k _ => ?_
    simp [hnone]

theorem row_setRow (s : State) (id id' : Nat) (row : Option Installation) :
    (s.setRow id row).row id' = if id = id' ∧ id < s.rows.length then row else s.row id' := by
  unfold State.setRow State.row
  by_cases hid : id = id'
  · subst hid
    by_cases hlt : id < s.rows.length
    · simp [hlt]
    · simp [hlt]
  · simp [hid]

/-- A write that leaves the lease of the row alone, or takes the row away. -/
theorem Leased.setRow (h : Leased leaseTTL s) {id : Nat} {row : Option Installation}
    (hrow : ∀ r', row = some r' → ∃ r, s.row id = some r ∧ r'.lease = r.lease) :
    Leased leaseTTL (s.setRow id row) := by
  refine ⟨fun g hg => ⟨(h.relies g hg).time, fun hl => ?_, fun l hl r' hr' => ?_⟩, h.apart⟩
  · simp only [State.setRow, List.length_set]
    exact (h.relies g hg).inst hl
  · rw [row_setRow] at hr'
    split at hr'
    · rename_i hid
      rcases hrow r' hr' with ⟨r, hr, hlease⟩
      rw [hid.1] at hr
      rw [hlease]
      exact (h.relies g hg).row l hl r hr
    · exact (h.relies g hg).row l hl r' hr'

theorem Phase.InTime.le {leaseTTL now l : Nat} {phase : Phase} (h : phase.InTime leaseTTL now)
    (hl : phase.leased = some l) : now ≤ l := by
  cases phase with
  | building leased =>
    obtain rfl := Option.some.inj hl
    exact h.1
  | connected leased runCancelled renewal =>
    obtain rfl := Option.some.inj hl
    exact h.1
  | _ => cases hl

/-- A lease that a goroutine relies on is granted to no other token. -/
theorem Leased.refuses (h : Leased leaseTTL s) {k : Goroutine} (hk : k ∈ s.goroutines)
    (hl : k.phase.leased.isSome = true) {row : Installation} (hrow : s.row k.inst = some row)
    {token : String} (ht : token ≠ k.token) : row.grants s.now token = false := by
  rcases Option.isSome_iff_exists.1 hl with ⟨l, hl⟩
  rcases (h.relies k hk).row l hl row hrow with ⟨expires, hlease, hle⟩
  have hnow := (h.relies k hk).time.le hl
  simp only [Installation.grants, hlease, Bool.or_eq_false_iff, decide_eq_false_iff_not]
  exact ⟨by omega, ht.symm⟩

theorem lt_of_row {id : Nat} {row : Installation} (h : s.row id = some row) :
    id < s.rows.length := by
  by_contra hge
  simp [State.row, Nat.le_of_not_lt hge] at h

/-- A goroutine that has made a step relies on what it has been granted. -/
theorem Relies.turn {g g' : Goroutine} {row : Option Installation} (h : Relies leaseTTL s g)
    (t : Turn leaseTTL s.now (s.row g.inst) g g' row) :
    Relies leaseTTL (s.setRow g.inst row) g' := by
  have htoken : g'.token = g.token := by
    rw [t.same]
    rfl
  have hinst : g'.inst = g.inst := by rw [t.same]
  have hleased := t.leased h.time
  refine ⟨t.time h.time, fun hl => ?_, fun l hl r' hr' => ?_⟩
  · rw [hinst, State.setRow, List.length_set]
    rcases Option.isSome_iff_exists.1 hl with ⟨l, hl⟩
    rcases hleased l hl with ⟨-, hold⟩ | ⟨r, expires, hr, -⟩
    · exact h.inst (by rw [hold]; rfl)
    · exact lt_of_row hr
  · rw [htoken]
    rw [hinst, row_setRow] at hr'
    rcases hleased l hl with ⟨hsame, hold⟩ | ⟨r, expires, hr, -, hnew, hle⟩
    · rw [hsame, ite_self] at hr'
      exact h.row l hold r' hr'
    · rw [if_pos ⟨rfl, lt_of_row hr⟩, hnew] at hr'
      obtain rfl := Option.some.inj hr'
      exact ⟨expires, rfl, hle⟩

/-- The statement of another goroutine leaves the lease that a goroutine relies on. -/
theorem Leased.other (h : Leased leaseTTL s) {k : Goroutine} (hk : k ∈ s.goroutines) {id : Nat}
    {row : Option Installation} {token : String} (hne : token ≠ k.token)
    (hstep : RowStep s.now token (s.row id) row) : Relies leaseTTL (s.setRow id row) k := by
  have hrelies := h.relies k hk
  refine ⟨hrelies.time, fun hl => ?_, fun l hl r' hr' => ?_⟩
  · rw [State.setRow, List.length_set]
    exact hrelies.inst hl
  · rw [row_setRow] at hr'
    split at hr'
    · rename_i hid
      rw [hid.1, hr'] at hstep
      generalize hrow : s.row k.inst = old at hstep
      cases hstep with
      | same => exact hrelies.row l hl r' hrow
      | grant r expires hgrant =>
        rw [h.refuses hk (by rw [hl]; rfl) hrow hne] at hgrant
        cases hgrant
      | release r hown =>
        rcases hrelies.row l hl r hrow with ⟨expires, hlease, -⟩
        rw [hlease] at hown
        exact absurd (Option.some.inj hown).symm hne
    · exact hrelies.row l hl r' hr'

theorem Leased.go (h : Leased leaseTTL s)
    (htokens : Parties.Apart (fun g k => g.token ≠ k.token) s.goroutines) {i : Nat}
    {g g' : Goroutine} {row : Option Installation} (hi : s.goroutines[i]? = some g)
    (t : Turn leaseTTL s.now (s.row g.inst) g g' row) :
    Leased leaseTTL { s.setRow g.inst row with goroutines := s.goroutines.set i g' } := by
  have hrelies := h.relies g (List.mem_of_getElem? hi)
  constructor
  · intro k hk
    rcases List.mem_iff_getElem?.1 hk with ⟨j, hj⟩
    rcases Parties.getElem?_of_set hj with ⟨rfl, rfl⟩ | ⟨hji, hj⟩
    · have hturn := hrelies.turn t
      exact ⟨hturn.time, hturn.inst, hturn.row⟩
    · have hother := h.other (List.mem_of_getElem? hj) (htokens i j g k (Ne.symm hji) hi hj)
        t.rowStep
      exact ⟨hother.time, hother.inst, hother.row⟩
  · refine ((h.apart.and htokens).set hi fun k hk hgk hkg => ?_).imp fun _ _ => And.left
    -- a lease that is granted to the one is no longer relied on by the other
    have hfree : g.inst = k.inst →
        ¬(g'.phase.leased.isSome = true ∧ k.phase.leased.isSome = true) := by
      rintro hid ⟨hl, hkl⟩
      rcases Option.isSome_iff_exists.1 hl with ⟨l, hl⟩
      rcases t.leased hrelies.time l hl with ⟨-, hold⟩ | ⟨r, expires, hr, hgrant, -⟩
      · exact hgk.1 hid ⟨by rw [hold]; rfl, hkl⟩
      · rw [h.refuses hk hkl (hid ▸ hr) hgk.2] at hgrant
        cases hgrant
    have hinst : g'.inst = g.inst := by rw [t.same]
    have htoken : g'.token = g.token := by
      rw [t.same]
      rfl
    rw [hinst, htoken]
    exact ⟨⟨hfree, hgk.2⟩, fun hid hboth => hfree hid.symm hboth.symm, hkg.2⟩

/-- When a goroutine has to be past the phase: before the lease that it asks for or relies on is up
for others. -/
def Phase.deadline : Phase → Option Nat
  | .acquiring expires => some expires
  | phase => phase.leased

/-- The clock leaves no goroutine behind: the answer to a request for a lease comes before that
lease would expire, and a channel is built and its `Connect` returns before the last lease that its
goroutine was granted does. -/
def punctual (s : State) : Label → Bool
  | .clock t => s.goroutines.all fun g => g.phase.deadline.all (t ≤ ·)
  | _ => true

theorem Phase.InTime.later {now t : Nat} {phase : Phase} (h : phase.InTime leaseTTL now)
    (hmono : now ≤ t) (hd : ∀ d, phase.deadline = some d → t ≤ d) : phase.InTime leaseTTL t := by
  cases phase with
  | acquiring expires | building expires =>
    have hle := hd expires rfl
    simp only [Phase.InTime] at h ⊢
    omega
  | connected leased runCancelled renewal =>
    have hle := hd leased rfl
    rcases h with ⟨hnow, hend, hask⟩
    refine ⟨hle, Nat.le_trans hend (Nat.add_le_add_right hmono leaseTTL), fun expires he => ?_⟩
    rcases hask expires he with ⟨hlexp, hexp⟩
    exact ⟨hlexp, Nat.le_trans hexp (Nat.add_le_add_right hmono leaseTTL)⟩
  | _ => trivial

theorem Leased.clock (h : Leased leaseTTL s) {t : Nat} (hmono : s.now ≤ t)
    (hpunctual : punctual s (.clock t) = true) : Leased leaseTTL { s with now := t } := by
  refine ⟨fun g hg => ⟨?_, (h.relies g hg).inst, (h.relies g hg).row⟩, h.apart⟩
  refine (h.relies g hg).time.later hmono fun d hd => ?_
  have hall := List.all_eq_true.1 hpunctual g hg
  simpa [hd] using hall

theorem Leased.insert (h : Leased leaseTTL s) (row : Option Installation) :
    Leased leaseTTL { s with rows := s.rows ++ [row] } := by
  refine ⟨fun g hg => ⟨(h.relies g hg).time, fun hl => ?_, fun l hl r hr => ?_⟩, h.apart⟩
  · have hlt := (h.relies g hg).inst hl
    rw [List.length_append]
    omega
  · have hlt := (h.relies g hg).inst (by rw [hl]; rfl)
    simp only [State.row, List.getElem?_append_left hlt] at hr
    exact (h.relies g hg).row l hl r hr

theorem Leased.exit (h : Leased leaseTTL s) {i : Nat} {g : Goroutine}
    (hi : s.goroutines[i]? = some g) (processes : List Process) :
    Leased leaseTTL { s with
      processes := processes
      goroutines := s.goroutines.set i { g with phase := .exited } } := by
  constructor
  · refine Parties.forall_set _ (.idle trivial rfl) fun k hk => ?_
    have hrelies := h.relies k hk
    exact ⟨hrelies.time, hrelies.inst, hrelies.row⟩
  · refine h.apart.set hi fun k _ _ _ => ⟨fun _ hboth => ?_, fun _ hboth => ?_⟩
    · cases hboth.1
    · cases hboth.2

theorem Leased.effect (h : Leased leaseTTL s) (hreg : Registered s.processes s.goroutines)
    {a : Label} (hpunctual : punctual s a = true) (he : Effect leaseTTL s a s') :
    Leased leaseTTL s' := by
  cases he with
  | clock t hle => exact h.clock hle hpunctual
  | insert => exact h.insert _
  | write _ hrow => exact h.setRow hrow
  | launch =>
    exact ⟨fun g hg => ⟨(h.relies g hg).time, (h.relies g hg).inst, (h.relies g hg).row⟩, h.apart⟩
  | process _ hp hstep =>
    cases hstep with
    | cancels hf => exact h.map hf.frame _
    | starts hid => exact h.concat rfl _
  | go _ hi t => exact h.go hreg.tokens hi t
  | exit _ hi => exact h.exit hi _

/-- While the clock leaves no goroutine behind, no two goroutines, of one process or of several, are
connected to one installation, whatever is lost, refused, rotated, revoked or deleted; and a row is
leased to the goroutine that is connected, and to nobody else. -/
theorem one_connection (lookup : String → Bool) (leaseTTL : Nat) (s : State)
    (hs : (machine lookup leaseTTL).ReachableUnder (fun s a => punctual s a = true) s) :
    Parties.Apart (fun g k => g.inst = k.inst →
      ¬(g.phase.leased.isSome = true ∧ k.phase.leased.isSome = true)) s.goroutines ∧
    ∀ g ∈ s.goroutines, g.phase.leased.isSome = true → ∀ row, s.row g.inst = some row →
      ∃ expires, row.lease = some (g.token, expires) ∧ s.now ≤ expires := by
  have h : Leased leaseTTL s := by
    refine Machine.invariant_under (fun s hs => ?_) (fun s a s' hr h hC hn => ?_) s hs
    · obtain rfl : s = {} := hs
      exact .init
    · have hreg := registered_of_reachable hr.reachable
      exact h.effect hreg hC (next_effect hreg hn)
  refine ⟨h.apart, fun g hg hl row hrow => ?_⟩
  rcases Option.isSome_iff_exists.1 hl with ⟨l, hl⟩
  rcases (h.relies g hg).row l hl row hrow with ⟨expires, hlease, hle⟩
  have hnow := (h.relies g hg).time.le hl
  exact ⟨expires, hlease, by omega⟩

/-- The answer to a renewal is lost and the lease runs on, the other process is refused, and it
connects when the first has given the lease back. -/
def handoverRun : List Label :=
  [.insert ⟨"feishu", "f", true, none⟩, .launch "a", .list 0, .compare 0, .start 0,
    .go 0 .begin, .go 0 (.acquired .reply), .go 0 (.built true), .launch "b", .list 1, .compare 1,
    .start 1, .clock 30, .go 0 .renew, .go 0 (.renewed .lost), .go 1 .begin,
    .go 1 (.acquired .reply), .clock 90, .go 0 .returns, .go 0 .stopRenewing, .go 0 .joined,
    .go 0 (.released .reply), .go 1 .wake, .go 1 .begin, .go 1 (.acquired .reply),
    .go 1 (.built true)]

theorem one_connection_handover : ∃ s : State,
    s.goroutines.map (·.phase) = [.sleeping, .connected 180 false .waiting] ∧
    s.rows = [some ⟨"feishu", "f", true, some ("b-g1", 180)⟩] ∧
    Parties.Apart (fun g k => g.inst = k.inst →
      ¬(g.phase.leased.isSome = true ∧ k.phase.leased.isSome = true)) s.goroutines := by
  rcases Machine.reachableUnder_of_run (machine (fun _ => true) 90) punctual (s := {}) rfl
    handoverRun
    (fun s => decide (s.goroutines.map (·.phase) = [.sleeping, .connected 180 false .waiting] ∧
      s.rows = [some ⟨"feishu", "f", true, some ("b-g1", 180)⟩])) (by decide +kernel)
    with ⟨s, hs, hp⟩
  rcases of_decide_eq_true hp with ⟨hphases, hrows⟩
  exact ⟨s, hphases, hrows, (one_connection (fun _ => true) 90 s hs).1⟩

end Orynx.Supervisor
