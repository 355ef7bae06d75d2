import Mathlib.Data.List.Perm.Subperm
import Mathlib.Data.List.Nodup
import Orynx.Channel.Ingest
import Orynx.Lib.Parties

/-! # A message is ingested once

* `ingest_once`: whatever is delivered again, reclaimed, lost or interrupted, a message with an id
  is appended at most once, its issue is created and its run is scheduled at most once and after
  that, and a delivery that reports it ingested has done all of this;
* `claim_fenced`: a claim that is not processed is ended by its owner, or by another claim once it
  is stale.
-/

namespace Orynx.Ingest

open Lib
open Supervisor (Answer)

/-! ## What a step of a delivery does -/

/-- The token of a claim that is still relied on. -/
def Stage.token : Stage → Option Nat
  | .filtering token | .identifying token | .binding token | .appending token
  | .committing token _ | .creating token _ | .scheduling token | .finalizing _ token _ => token
  | _ => none

/-- A transaction with a marked claim is open. -/
def Stage.locks : Stage → Bool
  | .committing token _ => token.isSome
  | _ => false

/-- The order in which a delivery passes its stages. -/
def Stage.rank : Stage → Nat
  | .resolving => 0
  | .claiming => 1
  | .filtering _ => 2
  | .identifying _ => 3
  | .binding _ => 4
  | .appending _ => 5
  | .committing _ _ => 6
  | .creating _ _ => 7
  | .scheduling _ => 8
  | .finalizing _ _ _ => 9
  | .done _ | .crashed => 10

def Stage.command : Stage → Option (Option String)
  | .committing _ command | .creating _ command => some command
  | _ => none

def Stage.outcome : Stage → Option Outcome
  | .finalizing _ _ outcome | .done outcome => some outcome
  | _ => none

/-- What a step does to the row of its message. -/
inductive RowStep (now fresh : Nat) (stage : Stage) : Option Claim → Option Claim → Prop where
  | same (row : Option Claim) : RowStep now fresh stage row row
  | claim (row : Option Claim) (h : stage = .claiming) (hrow : ∀ r, row = some r →
      r.processedAt = none ∧ r.receivedAt + staleAfter < now) :
      RowStep now fresh stage row (some ⟨now, none, fresh⟩)
  | mark (row : Claim) (htoken : stage.token = some row.claimToken)
      (hopen : row.processedAt = none) :
      RowStep now fresh stage (some row) (some { row with processedAt := some now })
  | release (row : Claim) (htoken : stage.token = some row.claimToken)
      (hopen : row.processedAt = none) : RowStep now fresh stage (some row) none

/-- The claim is open and the delivery's own. -/
def Stage.Holds (stage : Stage) (row : Option Claim) : Prop :=
  ∃ r, row = some r ∧ stage.token = some r.claimToken ∧ r.processedAt = none

def Processed (row : Option Claim) : Prop := ∃ r, row = some r ∧ r.processedAt ≠ none

structure EntryStep (now fresh i : Nat) (stage stage' : Stage) (write : Option Write)
    (entry entry' : Entry) : Prop where
  row : RowStep now fresh stage entry.row entry'.row
  /-- A locked row is left to its transaction. -/
  frame : entry.lock.isSome = true → stage.locks = false → entry'.row = entry.row
  lock : entry'.lock = if stage'.locks = true then some i
    else if stage.locks = true then none else entry.lock
  locks : stage'.locks = true → entry.lock = none ∧ stage'.Holds entry'.row
  message : write = some .message → stage.locks = true → Processed entry'.row

theorem EntryStep.same {now fresh i : Nat} {stage stage' : Stage} (write : Option Write)
    (entry : Entry) (h : stage.locks = false) (h' : stage'.locks = false) :
    EntryStep now fresh i stage stage' write entry entry where
  row := .same entry.row
  frame := fun _ _ => rfl
  lock := by simp [h, h']
  locks := by simp [h']
  message := by simp [h]

/-- A statement outside of the transaction, on a row that no other one has locked. -/
theorem EntryStep.free {now fresh i : Nat} {stage stage' : Stage} {entry : Entry}
    {row : Option Claim} (hfree : entry.lock = none) (h : stage.locks = false)
    (h' : stage'.locks = false) (hrow : RowStep now fresh stage entry.row row) :
    EntryStep now fresh i stage stage' none entry { entry with row } where
  row := hrow
  frame := by simp [hfree]
  lock := by simp [h, h']
  locks := by simp [h']
  message := by simp

/-- The transaction ends. -/
theorem EntryStep.ends {now fresh i : Nat} {stage stage' : Stage} {write : Option Write}
    {entry : Entry} {row : Option Claim} (h : stage.locks = true) (h' : stage'.locks = false)
    (hrow : RowStep now fresh stage entry.row row)
    (hmessage : write = some .message → Processed row) :
    EntryStep now fresh i stage stage' write entry ⟨row, none⟩ where
  row := hrow
  frame := by simp [h]
  lock := by simp [h, h']
  locks := by simp [h']
  message := fun hw _ => hmessage hw

/-- The rank at which it is written. -/
def Write.rank : Write → Nat
  | .message => 6
  | .issue => 7
  | .trigger => 8

structure Turn (now fresh i : Nat) (d : Delivery) (stage : Stage) (write : Option Write)
    (entry entry' : Entry) : Prop where
  rank : d.stage.rank < stage.rank
  token : stage.token = d.stage.token ∨ stage.token = none ∨
    d.stage = .claiming ∧ stage.token = some fresh
  /-- A message with an id has been claimed before its transaction. -/
  claimed : (d.messageID ≠ "" → 2 ≤ d.stage.rank → d.stage.rank ≤ 9 → d.stage.token.isSome = true) →
    d.messageID ≠ "" → 2 ≤ stage.rank → stage.rank ≤ 9 → stage.token.isSome = true
  entry : EntryStep now fresh i d.stage stage write entry entry'
  written : ∀ w, write = some w → d.stage.rank = w.rank
  creating : stage.rank = 7 → write = some .message
  command : ∀ c, stage.command = some c → c.isSome = d.command.isSome ∨ d.stage.command = some c
  scheduling : stage.rank = 8 →
    ∃ c, d.stage.command = some c ∧ d.stage.rank = 7 ∧ (c.isSome = true → write = some .issue)
  ingested : stage.outcome = some .ingested →
    write = some .trigger ∨ d.stage.outcome = some .ingested

theorem ClaimChannelInboundDedup_cases {now token : Nat} {row : Option Claim} {row' : Claim}
    (h : ClaimChannelInboundDedup now token row = some row') :
    row' = ⟨now, none, token⟩ ∧ ∀ r, row = some r →
      r.processedAt = none ∧ r.receivedAt + staleAfter < now := by
  cases row with
  | none =>
    obtain rfl := Option.some.inj h
    exact ⟨rfl, by simp⟩
  | some r =>
    simp only [ClaimChannelInboundDedup, Option.ite_none_right_eq_some, Option.some.injEq] at h
    rcases h with ⟨hstale, rfl⟩
    refine ⟨by simp [hstale.1], fun r' hr' => ?_⟩
    obtain rfl := Option.some.inj hr'
    exact hstale

theorem MarkChannelInboundDedupProcessed_cases {now token : Nat} {row : Option Claim}
    {row' : Claim} (h : MarkChannelInboundDedupProcessed now token row = some row') :
    ∃ r, row = some r ∧ r.claimToken = token ∧ r.processedAt = none ∧
      row' = { r with processedAt := some now } := by
  cases row with
  | none => cases h
  | some r =>
    simp only [MarkChannelInboundDedupProcessed, Option.ite_none_right_eq_some,
      Option.some.injEq] at h
    rcases h with ⟨⟨htoken, hopen⟩, rfl⟩
    exact ⟨r, rfl, htoken, hopen, rfl⟩

theorem applyFinalize_row {now fresh token : Nat} (action : Finalize) (entry : Entry) (a : Answer)
    {stage : Stage} (htoken : stage.token = some token) :
    ∃ row, applyFinalize now (some token) action entry a = { entry with row } ∧
      RowStep now fresh stage entry.row row := by
  have hsame : RowStep now fresh stage entry.row entry.row := .same entry.row
  cases action with
  | none => exact ⟨entry.row, rfl, hsame⟩
  | mark =>
    cases a with
    | failed => exact ⟨entry.row, rfl, hsame⟩
    | reply | lost =>
      refine ⟨_, rfl, ?_⟩
      cases hm : MarkChannelInboundDedupProcessed now token entry.row with
      | none => exact hsame
      | some row' =>
        rcases MarkChannelInboundDedupProcessed_cases hm with ⟨r, hr, rfl, hopen, rfl⟩
        rw [hr]
        exact .mark r htoken hopen
  | release =>
    cases a with
    | failed => exact ⟨entry.row, rfl, hsame⟩
    | reply | lost =>
      refine ⟨_, rfl, ?_⟩
      cases hrow : entry.row with
      | none => exact .same none
      | some r =>
        simp only [ReleaseChannelInboundDedup, decide_eq_true_eq]
        split
        · rename_i hown
          exact .release r (hown.1 ▸ htoken) hown.2
        · exact .same (some r)

theorem Turn.ofClaim {now fresh i : Nat} {d : Delivery} {entry : Entry} {a : Answer}
    (hs : d.stage = .claiming) (hfree : entry.lock = none) :
    Turn now fresh i d
      (match a with
        | .reply =>
          if (ClaimChannelInboundDedup now fresh entry.row).isSome then .filtering (some fresh)
          else .done (.dropped .duplicate)
        | _ => .done .error)
      none entry
      (executed entry ((ClaimChannelInboundDedup now fresh entry.row).or entry.row) a) := by
  cases hc : ClaimChannelInboundDedup now fresh entry.row with
  | none =>
    have hsame : executed entry entry.row a = entry := by cases a <;> rfl
    rw [Option.none_or, hsame]
    constructor
    case entry => cases a <;> exact .same none entry (by rw [hs]; rfl) rfl
    all_goals
      cases a <;>
        simp [hs, Stage.rank, Stage.token, Stage.command, Stage.outcome, Write.rank]
  | some row' =>
    rcases ClaimChannelInboundDedup_cases hc with ⟨rfl, hrow⟩
    cases a with
    | failed =>
      constructor
      case entry => exact .same none entry (by rw [hs]; rfl) rfl
      all_goals simp [hs, Stage.rank, Stage.token, Stage.command, Stage.outcome, Write.rank]
    | reply | lost =>
      constructor
      case entry => exact .free hfree (by rw [hs]; rfl) rfl (.claim _ hs hrow)
      all_goals simp [hs, Stage.rank, Stage.token, Stage.command, Stage.outcome, Write.rank]

theorem next_inj {stage stage' : Stage} {entry entry' : Entry} {write write' : Option Write}
    (h : some (stage, entry, write) = some (stage', entry', write')) :
    stage = stage' ∧ entry = entry' ∧ write = write' := by
  simpa using h

theorem Delivery.turn {now fresh i : Nat} {d : Delivery} {stage : Stage} {write : Option Write}
    {entry entry' : Entry} {e : Event} (hlock : entry.lock = some i ↔ d.stage.locks = true)
    (hholds : d.stage.locks = true → d.stage.Holds entry.row)
    (h : d.next now fresh i entry e = some (stage, entry', write)) :
    Turn now fresh i d stage write entry entry' := by
  unfold Delivery.next at h
  split at h
  case h_1 r hs =>
    -- the installation is resolved
    rcases next_inj h with ⟨rfl, rfl, rfl⟩
    cases r with
    | active =>
      by_cases hid : d.messageID = ""
      all_goals
        simp only [hid, if_true, if_false]
        constructor
        case entry => exact .same none entry (by rw [hs]; rfl) rfl
        all_goals simp [hs, hid, Stage.rank, Stage.token, Stage.command, Stage.outcome, Write.rank]
    | _ =>
      constructor
      case entry => exact .same none entry (by rw [hs]; rfl) rfl
      all_goals simp [hs, Stage.rank, Stage.token, Stage.command, Stage.outcome, Write.rank]
  case h_2 a hs =>
    simp only [Option.ite_none_left_eq_some] at h
    rcases h with ⟨hfree, h⟩
    rcases next_inj h with ⟨rfl, rfl, rfl⟩
    exact .ofClaim hs (by simpa using hfree)
  case h_3 token hs =>
    -- a message of a group that is not for the bot is dropped
    rcases next_inj h with ⟨rfl, rfl, rfl⟩
    cases hg : d.group && !d.addressedToBot
    all_goals
      constructor
      case entry => exact .same none entry (by rw [hs]; rfl) rfl
      all_goals
        simp +contextual [hs, Stage.rank, Stage.token, Stage.command, Stage.outcome, Write.rank]
  case h_4 r token hs =>
    -- the sender is identified
    rcases next_inj h with ⟨rfl, rfl, rfl⟩
    constructor
    case entry => cases r <;> exact .same none entry (by rw [hs]; rfl) rfl
    all_goals
      cases r <;>
        simp +contextual [hs, Stage.rank, Stage.token, Stage.command, Stage.outcome, Write.rank]
  case h_5 ok token hs =>
    -- the session is there, or not
    rcases next_inj h with ⟨rfl, rfl, rfl⟩
    constructor
    case entry => cases ok <;> exact .same none entry (by rw [hs]; rfl) rfl
    all_goals
      cases ok <;>
        simp +contextual [hs, Stage.rank, Stage.token, Stage.command, Stage.outcome, Write.rank]
  case h_6 token hs =>
    -- the append fails
    rcases next_inj h with ⟨rfl, rfl, rfl⟩
    constructor
    case entry => exact .same none entry (by rw [hs]; rfl) rfl
    all_goals
      simp +contextual [hs, Stage.rank, Stage.token, Stage.command, Stage.outcome, Write.rank]
  case h_7 previous hs =>
    -- an append without a claim
    rcases next_inj h with ⟨rfl, rfl, rfl⟩
    constructor
    case entry => exact .same none entry (by rw [hs]; rfl) rfl
    all_goals
      simp +contextual [hs, Stage.rank, Stage.token, Stage.command, Stage.outcome, Write.rank,
        withTitle]
  case h_8 previous token hs =>
    -- an append that marks its claim, and so locks it
    simp only [Option.ite_none_left_eq_some] at h
    rcases h with ⟨hfree, h⟩
    have hfree : entry.lock = none := by simpa using hfree
    split at h
    · rename_i row' hm
      rcases next_inj h with ⟨rfl, rfl, rfl⟩
      rcases MarkChannelInboundDedupProcessed_cases hm with ⟨r, hr, rfl, hopen, -⟩
      constructor
      case entry =>
        constructor
        case row => exact .same entry.row
        case locks => exact fun _ => ⟨hfree, r, hr, rfl, hopen⟩
        all_goals simp [hs, hfree, Stage.locks]
      all_goals
        simp [hs, Stage.rank, Stage.token, Stage.command, Stage.outcome, Write.rank, withTitle]
    · rcases next_inj h with ⟨rfl, rfl, rfl⟩
      constructor
      case entry => exact .same none entry (by rw [hs]; rfl) rfl
      all_goals
        simp +contextual [hs, Stage.rank, Stage.token, Stage.command, Stage.outcome, Write.rank]
  case h_9 a token command hs =>
    -- the transaction ends
    rcases next_inj h with ⟨rfl, rfl, rfl⟩
    constructor
    case entry =>
      cases token with
      | none => cases a <;> exact .same _ entry (by rw [hs]; rfl) rfl
      | some token =>
        have hlocks : d.stage.locks = true := by
          rw [hs]
          rfl
        rcases hholds hlocks with ⟨r, hr, htoken, hopen⟩
        obtain rfl : token = r.claimToken := by simpa [hs, Stage.token] using htoken
        have hmark : (MarkChannelInboundDedupProcessed now r.claimToken entry.row).or entry.row =
            some { r with processedAt := some now } := by
          simp [hr, MarkChannelInboundDedupProcessed, hopen]
        cases a with
        | failed => exact .ends hlocks rfl (.same entry.row) (by simp)
        | reply | lost =>
          simp only [hmark]
          refine .ends hlocks rfl ?_ fun _ => ⟨_, rfl, by simp⟩
          rw [hr]
          exact .mark r htoken hopen
    all_goals
      cases a <;>
        simp +contextual [hs, Stage.rank, Stage.token, Stage.command, Stage.outcome, Write.rank]
  case h_10 a token command hs =>
    -- the issue of the command
    have hlocks : d.stage.locks = false := by
      rw [hs]
      rfl
    cases command with
    | none =>
      rcases next_inj h with ⟨rfl, rfl, rfl⟩
      constructor
      case entry => exact .same none entry hlocks rfl
      all_goals
        simp +contextual [hs, Stage.rank, Stage.token, Stage.command, Stage.outcome, Write.rank]
    | some title =>
      simp only at h
      split at h
      · rcases next_inj h with ⟨rfl, rfl, rfl⟩
        constructor
        case entry => exact .same none entry hlocks rfl
        all_goals
          simp +contextual [hs, Stage.rank, Stage.token, Stage.command, Stage.outcome, Write.rank]
      · rcases next_inj h with ⟨rfl, rfl, rfl⟩
        constructor
        case entry => cases a <;> exact .same _ entry hlocks rfl
        all_goals
          cases a <;>
            simp +contextual [hs, Stage.rank, Stage.token, Stage.command, Stage.outcome, Write.rank]
  case h_11 token hs =>
    -- the run
    rcases next_inj h with ⟨rfl, rfl, rfl⟩
    constructor
    case entry => exact .same _ entry (by rw [hs]; rfl) rfl
    all_goals
      simp +contextual [hs, Stage.rank, Stage.token, Stage.command, Stage.outcome, Write.rank]
  case h_12 a action token outcome hs =>
    -- the claim is marked or released
    simp only [Option.ite_none_left_eq_some] at h
    rcases h with ⟨hfree, h⟩
    rcases next_inj h with ⟨rfl, rfl, rfl⟩
    have hlocks : d.stage.locks = false := by
      rw [hs]
      rfl
    constructor
    case entry =>
      cases token with
      | none => exact .same none entry hlocks rfl
      | some token =>
        by_cases haction : action = .none
        · subst haction
          exact .same none entry hlocks rfl
        · have htoken : d.stage.token = some token := by
            rw [hs]
            rfl
          rcases applyFinalize_row action entry a htoken with ⟨row, happly, hrow⟩
          rw [happly]
          exact .free (by simpa [haction] using hfree) hlocks rfl hrow
    all_goals
      simp +contextual [hs, Stage.rank, Stage.token, Stage.command, Stage.outcome, Write.rank]
  case h_13 => cases h
  case h_14 => cases h
  case h_15 hdone hcrashed =>
    -- a crash rolls the transaction back
    rcases next_inj h with ⟨rfl, rfl, rfl⟩
    constructor
    case entry =>
      split
      · rename_i hi
        exact .ends (hlock.1 hi) rfl (.same entry.row) (by simp)
      · rename_i hi
        exact .same none entry (Bool.not_eq_true _ ▸ mt hlock.2 hi) rfl
    case rank =>
      cases hs : d.stage with
      | done outcome => exact absurd hs (hdone outcome)
      | crashed => exact absurd hs hcrashed
      | _ => simp [Stage.rank]
    all_goals simp [Stage.rank, Stage.token, Stage.command, Stage.outcome]
  case h_16 => cases h

/-! ## Steps -/

section write

variable (s : State) (x : (Nat × String) × Nat) (write : Option Write)

@[simp] theorem write_dedup : (s.write x write).dedup = s.dedup := by
  rcases write with _ | _ | _ | _ <;> rfl

@[simp] theorem write_deliveries : (s.write x write).deliveries = s.deliveries := by
  rcases write with _ | _ | _ | _ <;> rfl

@[simp] theorem write_fresh : (s.write x write).fresh = s.fresh := by
  rcases write with _ | _ | _ | _ <;> rfl

/-- What has been written of a kind. -/
def State.log (s : State) : Write → List ((Nat × String) × Nat)
  | .message => s.messages
  | .issue => s.issues
  | .trigger => s.triggers

theorem write_log (w : Write) :
    (s.write x write).log w = if write = some w then x :: s.log w else s.log w := by
  rcases write with _ | _ | _ | _ <;> cases w <;> rfl

end write

theorem mem_written {α : Type} {l : List α} {x y : α} {c : Prop} [Decidable c] :
    x ∈ (if c then y :: l else l) ↔ x ∈ l ∨ c ∧ x = y := by
  split
  · rename_i hc
    simp [hc, or_comm]
  · rename_i hc
    simp [hc]

/-- The state after the step of a delivery. -/
def State.moved (s : State) (i : Nat) (d : Delivery) (stage : Stage) (entry : Entry)
    (write : Option Write) : State :=
  ({ s with
    fresh := s.fresh + 1
    dedup := Function.update s.dedup d.key entry
    deliveries := s.deliveries.set i { d with stage } } : State).write (d.key, i) write

theorem step_moved {s s' : State} {i : Nat} {e : Event} (hn : next s (.step i e) = some s') :
    ∃ d stage entry write, s.deliveries[i]? = some d ∧
      d.next s.now s.fresh i (s.dedup d.key) e = some (stage, entry, write) ∧
      s' = s.moved i d stage entry write := by
  simp only [next, Option.bind_eq_bind, Option.bind_eq_some_iff, Option.some.injEq] at hn
  rcases hn with ⟨d, hi, ⟨stage, entry, write⟩, hnext, rfl⟩
  exact ⟨d, stage, entry, write, hi, hnext, rfl⟩

/-! ## Locks -/

structure Locked (s : State) : Prop where
  locked : ∀ k i, (s.dedup k).lock = some i →
    ∃ d, s.deliveries[i]? = some d ∧ d.key = k ∧ d.stage.locks = true
  lock : ∀ i d, s.deliveries[i]? = some d → d.stage.locks = true →
    (s.dedup d.key).lock = some i ∧ d.stage.Holds (s.dedup d.key).row

theorem Locked.iff {s : State} (h : Locked s) {i : Nat} {d : Delivery}
    (hi : s.deliveries[i]? = some d) : (s.dedup d.key).lock = some i ↔ d.stage.locks = true := by
  constructor
  · intro hl
    rcases h.locked d.key i hl with ⟨d', hd', -, hlocks⟩
    obtain rfl := Option.some.inj (hi.symm.trans hd')
    exact hlocks
  · intro hl
    exact (h.lock i d hi hl).1

theorem Locked.moved {s : State} (h : Locked s) {i : Nat} {d : Delivery} {stage : Stage}
    {entry : Entry} {write : Option Write} (hi : s.deliveries[i]? = some d)
    (t : Turn s.now s.fresh i d stage write (s.dedup d.key) entry) :
    Locked (s.moved i d stage entry write) := by
  have hlock := t.entry.lock
  constructor
  · intro k j hj
    simp only [State.moved, write_dedup, write_deliveries, Function.update_apply] at hj ⊢
    split at hj
    · rename_i hk
      rw [hlock] at hj
      split at hj
      · rename_i hnew
        obtain rfl := Option.some.inj hj
        exact ⟨_, Parties.getElem?_set hi _, hk.symm, hnew⟩
      · split at hj
        · cases hj
        · rename_i hold
          -- the lock is that of another delivery
          rcases h.locked d.key j hj with ⟨c, hc, hck, hcl⟩
          have hne : i ≠ j := by
            rintro rfl
            obtain rfl := Option.some.inj (hi.symm.trans hc)
            exact hold hcl
          exact ⟨c, (List.getElem?_set_ne hne).trans hc, hck.trans hk.symm, hcl⟩
    · rename_i hk
      rcases h.locked k j hj with ⟨c, hc, hck, hcl⟩
      have hne : i ≠ j := by
        rintro rfl
        obtain rfl := Option.some.inj (hi.symm.trans hc)
        exact hk hck.symm
      exact ⟨c, (List.getElem?_set_ne hne).trans hc, hck, hcl⟩
  · intro j c hj hcl
    simp only [State.moved, write_dedup, write_deliveries] at hj ⊢
    rcases Parties.getElem?_of_set hj with ⟨rfl, rfl⟩ | ⟨hji, hj⟩
    · have hkey : ({ d with stage } : Delivery).key = d.key := rfl
      rw [hkey, Function.update_self, hlock, if_pos hcl]
      exact ⟨rfl, (t.entry.locks hcl).2⟩
    · rcases h.lock j c hj hcl with ⟨hcj, hrow⟩
      by_cases hk : c.key = d.key
      · rw [hk] at hcj hrow ⊢
        -- the mover has not locked the row, and so it leaves it alone
        have hown : d.stage.locks = false := by
          by_contra hne
          rw [(h.lock i d hi (by simpa using hne)).1] at hcj
          exact hji (Option.some.inj hcj).symm
        have hnot : stage.locks = false := by
          by_contra hne
          rw [(t.entry.locks (by simpa using hne)).1] at hcj
          cases hcj
        rw [Function.update_self, t.entry.frame (by rw [hcj]; rfl) hown, hlock, hown, hnot]
        exact ⟨hcj, hrow⟩
      · rw [Function.update_of_ne hk]
        exact ⟨hcj, hrow⟩

/-! ## What has been written -/

/-- The `j`-th delivery is of the message and has come to a rank. -/
def Reached (s : State) (x : (Nat × String) × Nat) (n : Nat) : Prop :=
  ∃ d, s.deliveries[x.2]? = some d ∧ d.key = x.1 ∧ n ≤ d.stage.rank

structure Logged (s : State) : Prop where
  claimed : ∀ d ∈ s.deliveries, d.messageID ≠ "" → 2 ≤ d.stage.rank → d.stage.rank ≤ 9 →
    d.stage.token.isSome = true
  command : ∀ d ∈ s.deliveries, ∀ c, d.stage.command = some c → c.isSome = d.command.isSome
  reached : ∀ w, ∀ x ∈ s.log w, Reached s x (w.rank + 1)
  committed : ∀ w, ∀ x ∈ s.log w, x ∈ s.messages
  nodup : ∀ w, (s.log w).Nodup
  processed : ∀ x ∈ s.messages, x.1.2 ≠ "" → Processed (s.dedup x.1).row
  once : ∀ k : Nat × String, k.2 ≠ "" → s.messages.countP (·.1 = k) ≤ 1
  message : ∀ i d, s.deliveries[i]? = some d → d.stage.rank = 7 ∨ d.stage.rank = 8 →
    (d.key, i) ∈ s.messages
  issue : ∀ i d, s.deliveries[i]? = some d → d.stage.rank = 8 → d.command.isSome = true →
    (d.key, i) ∈ s.issues
  ingested : ∀ i d, s.deliveries[i]? = some d → d.stage.outcome = some .ingested →
    (d.key, i) ∈ s.messages ∧ (d.key, i) ∈ s.triggers ∧
      (d.command.isSome = true → (d.key, i) ∈ s.issues)

theorem Reached.moved {s : State} {i : Nat} {d : Delivery} {stage : Stage} {entry : Entry}
    {write : Option Write} {x : (Nat × String) × Nat} {n : Nat} (h : Reached s x n)
    (hi : s.deliveries[i]? = some d) (hrank : d.stage.rank < stage.rank) :
    Reached (s.moved i d stage entry write) x n := by
  rcases h with ⟨c, hc, hkey, hn⟩
  simp only [Reached, State.moved, write_deliveries]
  by_cases hx : x.2 = i
  · subst hx
    obtain rfl := Option.some.inj (hi.symm.trans hc)
    exact ⟨_, Parties.getElem?_set hi _, hkey, Nat.le_trans hn (Nat.le_of_lt hrank)⟩
  · exact ⟨c, (List.getElem?_set_ne (Ne.symm hx)).trans hc, hkey, hn⟩

theorem reached_moved {s : State} {i : Nat} {d : Delivery} {stage : Stage} {entry : Entry}
    {write : Option Write} {n : Nat} (hi : s.deliveries[i]? = some d) (hn : n ≤ stage.rank) :
    Reached (s.moved i d stage entry write) (d.key, i) n := by
  refine ⟨{ d with stage }, ?_, rfl, hn⟩
  simp only [State.moved, write_deliveries]
  exact Parties.getElem?_set hi _

/-- A processed claim stays processed: it is not claimed again and not released. -/
theorem RowStep.processed {now fresh : Nat} {stage : Stage} {row row' : Option Claim}
    (h : RowStep now fresh stage row row') (hp : Processed row) : Processed row' := by
  rcases hp with ⟨r, hr, hdone⟩
  cases h with
  | same => exact ⟨r, hr, hdone⟩
  | claim _ _ hrow => exact absurd (hrow r hr).1 hdone
  | mark => exact ⟨_, rfl, by simp⟩
  | release row _ hopen =>
    obtain rfl := Option.some.inj hr
    exact absurd hopen hdone

theorem rank_committing {stage : Stage} (h : stage.rank = 6) :
    stage.locks = stage.token.isSome := by
  cases stage with
  | committing token command => rfl
  | _ => simp [Stage.rank] at h

/-- A message with an id is written by the transaction that has its claim locked. -/
theorem Logged.locks {s : State} (h : Logged s) {i : Nat} {d : Delivery} {stage : Stage}
    {entry : Entry} (hi : s.deliveries[i]? = some d)
    (t : Turn s.now s.fresh i d stage (some .message) (s.dedup d.key) entry)
    (hid : d.key.2 ≠ "") : d.stage.locks = true := by
  have hrank : d.stage.rank = 6 := t.written .message rfl
  rw [rank_committing hrank]
  exact h.claimed d (List.mem_of_getElem? hi) hid (by omega) (by omega)

/-- Its claim was open, so it had not been written before. -/
theorem Logged.fresh {s : State} (h : Logged s) (hlocked : Locked s) {i : Nat} {d : Delivery}
    (hi : s.deliveries[i]? = some d) (hlocks : d.stage.locks = true) (hid : d.key.2 ≠ "") :
    s.messages.countP (·.1 = d.key) = 0 := by
  rw [List.countP_eq_zero]
  intro x hx
  simp only [decide_eq_true_eq]
  intro hk
  rcases h.processed x hx (hk ▸ hid) with ⟨r, hr, hdone⟩
  rcases (hlocked.lock i d hi hlocks).2 with ⟨r', hr', -, hopen⟩
  rw [hk, hr'] at hr
  obtain rfl := Option.some.inj hr
  exact hdone hopen

theorem Logged.moved {s : State} (h : Logged s) (hlocked : Locked s) {i : Nat} {d : Delivery}
    {stage : Stage} {entry : Entry} {write : Option Write} (hi : s.deliveries[i]? = some d)
    (t : Turn s.now s.fresh i d stage write (s.dedup d.key) entry) :
    Logged (s.moved i d stage entry write) := by
  have hd := List.mem_of_getElem? hi
  have hlog : ∀ w x, x ∈ (s.moved i d stage entry write).log w ↔
      x ∈ s.log w ∨ write = some w ∧ x = (d.key, i) := by
    intro w x
    rw [State.moved, write_log]
    exact mem_written
  have hold : ∀ w {x}, x ∈ s.log w → x ∈ (s.moved i d stage entry write).log w :=
    fun w _ hx => (hlog w _).2 (.inl hx)
  have hat : ∀ {j c}, (s.moved i d stage entry write).deliveries[j]? = some c →
      j = i ∧ c = { d with stage } ∨ j ≠ i ∧ s.deliveries[j]? = some c := by
    intro j c hj
    simp only [State.moved, write_deliveries] at hj
    exact Parties.getElem?_of_set hj
  have hrank := t.rank
  constructor
  · simp only [State.moved, write_deliveries]
    exact Parties.forall_set _ (t.claimed (h.claimed d hd)) h.claimed
  · simp only [State.moved, write_deliveries]
    refine Parties.forall_set _ (fun c hc => ?_) h.command
    exact (t.command c hc).elim id (h.command d hd c)
  · intro w x hx
    rcases (hlog w x).1 hx with hx | ⟨hw, rfl⟩
    · exact (h.reached w x hx).moved hi hrank
    · have hat := t.written w hw
      exact reached_moved hi (by omega)
  · intro w x hx
    rcases (hlog w x).1 hx with hx | ⟨hw, rfl⟩
    · exact hold .message (h.committed w x hx)
    · have hat := t.written w hw
      cases w with
      | message => exact hx
      | issue => exact hold .message (h.message i d hi (.inl hat))
      | trigger => exact hold .message (h.message i d hi (.inr hat))
  · intro w
    rw [State.moved, write_log]
    split
    · rename_i hw
      refine List.nodup_cons.2 ⟨fun hx => ?_, h.nodup w⟩
      -- the delivery has not come further than its rank
      rcases h.reached w _ hx with ⟨c, hc, -, hle⟩
      obtain rfl := Option.some.inj (hi.symm.trans hc)
      have hat := t.written w hw
      omega
    · exact h.nodup w
  · intro x hx hid
    simp only [State.moved, write_dedup, Function.update_apply]
    rcases (hlog .message x).1 hx with hx | ⟨rfl, rfl⟩
    · split
      · rename_i hk
        exact t.entry.row.processed (hk ▸ h.processed x hx hid)
      · exact h.processed x hx hid
    · have hlocks := h.locks hi t hid
      rw [if_pos rfl]
      exact t.entry.message rfl hlocks
  · intro k hk
    have hmessages : (s.moved i d stage entry write).messages =
        if write = some .message then (d.key, i) :: s.messages else s.messages :=
      write_log _ _ write .message
    rw [hmessages]
    split
    · rename_i hw
      subst hw
      by_cases hdk : d.key = k
      · subst hdk
        simp [h.fresh hlocked hi (h.locks hi t hk) hk]
      · rw [List.countP_cons_of_neg (by simpa using hdk)]
        exact h.once k hk
    · exact h.once k hk
  · intro j c hj hnext
    rcases hat hj with ⟨rfl, rfl⟩ | ⟨-, hj⟩
    · rcases hnext with hnext | hnext
      · exact (hlog .message _).2 (.inr ⟨t.creating hnext, rfl⟩)
      · rcases t.scheduling hnext with ⟨-, -, hnext, -⟩
        exact hold .message (h.message j d hi (.inl hnext))
    · exact hold .message (h.message j c hj hnext)
  · intro j c hj hnext hc
    rcases hat hj with ⟨rfl, rfl⟩ | ⟨-, hj⟩
    · rcases t.scheduling hnext with ⟨o, ho, -, hissue⟩
      exact (hlog .issue _).2 (.inr ⟨hissue ((h.command d hd o ho).trans hc), rfl⟩)
    · exact hold .issue (h.issue j c hj hnext hc)
  · intro j c hj ho
    have hkept : ∀ c, s.deliveries[j]? = some c → c.stage.outcome = some .ingested →
        (c.key, j) ∈ (s.moved i d stage entry write).messages ∧
          (c.key, j) ∈ (s.moved i d stage entry write).triggers ∧
          (c.command.isSome = true → (c.key, j) ∈ (s.moved i d stage entry write).issues) := by
      intro c hj ho
      rcases h.ingested j c hj ho with ⟨hm, ht, hc⟩
      exact ⟨hold .message hm, hold .trigger ht, fun hcmd => hold .issue (hc hcmd)⟩
    rcases hat hj with ⟨rfl, rfl⟩ | ⟨-, hj⟩
    · rcases t.ingested ho with hw | hbefore
      · have hnow := t.written .trigger hw
        exact ⟨hold .message (h.message j d hi (.inr hnow)),
          (hlog .trigger _).2 (.inr ⟨hw, rfl⟩),
          fun hc => hold .issue (h.issue j d hi hnow hc)⟩
      · exact hkept d hi hbefore
    · exact hkept c hj ho

/-! ## Tokens -/

structure Fenced (s : State) : Prop where
  row : ∀ k row, (s.dedup k).row = some row → row.claimToken < s.fresh
  token : ∀ d ∈ s.deliveries, ∀ t, d.stage.token = some t → t < s.fresh
  apart : Parties.Apart (fun c d => ∀ t, c.stage.token = some t → d.stage.token ≠ some t)
    s.deliveries

theorem RowStep.fresh {now fresh : Nat} {stage : Stage} {row row' : Option Claim}
    (h : RowStep now fresh stage row row') (hrow : ∀ r, row = some r → r.claimToken < fresh) :
    ∀ r, row' = some r → r.claimToken < fresh + 1 := by
  intro r hr
  cases h with
  | same => exact Nat.lt_succ_of_lt (hrow r hr)
  | claim =>
    obtain rfl := Option.some.inj hr
    exact Nat.lt_succ_self fresh
  | mark old =>
    obtain rfl := Option.some.inj hr
    exact Nat.lt_succ_of_lt (hrow old rfl)
  | release => cases hr

theorem Fenced.moved {s : State} (h : Fenced s) {i : Nat} {d : Delivery} {stage : Stage}
    {entry : Entry} {write : Option Write} (hi : s.deliveries[i]? = some d)
    (t : Turn s.now s.fresh i d stage write (s.dedup d.key) entry) :
    Fenced (s.moved i d stage entry write) := by
  have hd := List.mem_of_getElem? hi
  constructor
  · intro k row hrow
    simp only [State.moved, write_dedup, write_fresh, Function.update_apply] at hrow ⊢
    split at hrow
    · exact t.entry.row.fresh (h.row d.key) row hrow
    · exact Nat.lt_succ_of_lt (h.row k row hrow)
  · simp only [State.moved, write_deliveries, write_fresh]
    refine Parties.forall_set _ (fun token htoken => ?_)
      fun c hc token htoken => Nat.lt_succ_of_lt (h.token c hc token htoken)
    rcases t.token with hsame | hnone | ⟨-, hfresh⟩
    · exact Nat.lt_succ_of_lt (h.token d hd token (hsame.symm.trans htoken))
    · rw [hnone] at htoken
      cases htoken
    · rw [hfresh] at htoken
      obtain rfl := Option.some.inj htoken
      exact Nat.lt_succ_self _
  · simp only [State.moved, write_deliveries]
    refine h.apart.set hi fun c hc hdc hcd => ?_
    rcases t.token with hsame | hnone | ⟨-, hfresh⟩
    · simp only [hsame]
      exact ⟨hdc, hcd⟩
    · simp [hnone]
    · -- nobody has the new token yet
      have hnot : c.stage.token ≠ some s.fresh := by
        intro htoken
        exact Nat.lt_irrefl _ (h.token c hc _ htoken)
      simp only [hfresh]
      constructor
      · rintro token htoken
        obtain rfl := Option.some.inj htoken
        exact hnot
      · rintro token htoken heq
        rw [← heq] at htoken
        exact hnot htoken

/-! ## Runs -/

structure Inv (s : State) : Prop where
  locked : Locked s
  logged : Logged s
  fenced : Fenced s

theorem Inv.init : Inv {} := by
  refine ⟨⟨?_, ?_⟩, ⟨?_, ?_, ?_, ?_, ?_, ?_, ?_, ?_, ?_, ?_⟩, ⟨?_, ?_, Parties.apart_nil⟩⟩
  case refine_5 | refine_6 | refine_7 => rintro (_ | _ | _) <;> simp [State.log]
  all_goals simp

/-- A new delivery has yet to do anything. -/
theorem Inv.deliver {s : State} (h : Inv s) {d : Delivery} (hd : d.stage = .resolving) :
    Inv { s with deliveries := s.deliveries ++ [d] } := by
  have hat : ∀ {j : Nat} {c : Delivery}, (s.deliveries ++ [d])[j]? = some c →
      s.deliveries[j]? = some c ∨ c = d :=
    Parties.getElem?_concat
  have hkept : ∀ {j : Nat} {c : Delivery}, s.deliveries[j]? = some c →
      (s.deliveries ++ [d])[j]? = some c := by
    intro j c hj
    rw [List.getElem?_append_left (List.getElem?_eq_some_iff.1 hj).1]
    exact hj
  refine ⟨⟨?_, ?_⟩, ⟨?_, ?_, ?_, h.logged.committed, h.logged.nodup, h.logged.processed,
    h.logged.once, ?_, ?_, ?_⟩, ⟨h.fenced.row, ?_, ?_⟩⟩
  · intro k j hj
    rcases h.locked.locked k j hj with ⟨c, hc, hrest⟩
    exact ⟨c, hkept hc, hrest⟩
  · intro j c hj hl
    rcases hat hj with hj | rfl
    · exact h.locked.lock j c hj hl
    · simp [hd, Stage.locks] at hl
  · refine List.forall_mem_append.2 ⟨h.logged.claimed, List.forall_mem_singleton.2 ?_⟩
    simp [hd, Stage.rank]
  · refine List.forall_mem_append.2 ⟨h.logged.command, List.forall_mem_singleton.2 ?_⟩
    simp [hd, Stage.command]
  · intro w x hx
    rcases h.logged.reached w x hx with ⟨c, hc, hrest⟩
    exact ⟨c, hkept hc, hrest⟩
  · intro j c hj hrank
    rcases hat hj with hj | rfl
    · exact h.logged.message j c hj hrank
    · simp [hd, Stage.rank] at hrank
  · intro j c hj hrank hc
    rcases hat hj with hj | rfl
    · exact h.logged.issue j c hj hrank hc
    · simp [hd, Stage.rank] at hrank
  · intro j c hj ho
    rcases hat hj with hj | rfl
    · exact h.logged.ingested j c hj ho
    · simp [hd, Stage.outcome] at ho
  · refine List.forall_mem_append.2 ⟨h.fenced.token, List.forall_mem_singleton.2 ?_⟩
    simp [hd, Stage.token]
  · refine h.fenced.apart.concat fun c _ => ⟨fun token _ => ?_, fun token htoken => ?_⟩
    · simp [hd, Stage.token]
    · simp [hd, Stage.token] at htoken

theorem inv_of_reachable : ∀ s, machine.Reachable s → Inv s := by
  refine Machine.invariant (fun s hs => ?_) fun s a s' _ h hn => ?_
  · obtain rfl : s = {} := hs
    exact .init
  · cases a with
    | clock t =>
      have hclock : next s (.clock t) = some s' := hn
      simp only [next, Option.ite_none_right_eq_some, Option.some.injEq] at hclock
      rcases hclock with ⟨-, rfl⟩
      exact ⟨⟨h.locked.locked, h.locked.lock⟩, ⟨h.logged.claimed, h.logged.command,
        h.logged.reached, h.logged.committed, h.logged.nodup, h.logged.processed, h.logged.once,
        h.logged.message, h.logged.issue, h.logged.ingested⟩,
        ⟨h.fenced.row, h.fenced.token, h.fenced.apart⟩⟩
    | deliver =>
      obtain rfl := Option.some.inj hn
      exact h.deliver rfl
    | step i e =>
      rcases step_moved hn with ⟨d, stage, entry, write, hi, hnext, rfl⟩
      have t := Delivery.turn (h.locked.iff hi) (fun hl => (h.locked.lock i d hi hl).2) hnext
      exact ⟨h.locked.moved hi t, h.logged.moved h.locked hi t, h.fenced.moved hi t⟩

theorem countP_le_one {α : Type} {l m : List α} {p : α → Bool} (hnodup : l.Nodup)
    (hsub : ∀ x ∈ l, x ∈ m) (hm : m.countP p ≤ 1) : l.countP p ≤ 1 := by
  rw [List.countP_eq_length_filter] at hm ⊢
  have hfilter : ∀ x ∈ l.filter p, x ∈ m.filter p := by
    intro x hx
    rw [List.mem_filter] at hx ⊢
    exact ⟨hsub x hx.1, hx.2⟩
  exact Nat.le_trans (List.subperm_of_subset (hnodup.filter p) hfilter).length_le hm

structure Once (s : State) : Prop where
  message : ∀ k : Nat × String, k.2 ≠ "" → s.messages.countP (·.1 = k) ≤ 1
  issue : ∀ k : Nat × String, k.2 ≠ "" → s.issues.countP (·.1 = k) ≤ 1
  trigger : ∀ k : Nat × String, k.2 ≠ "" → s.triggers.countP (·.1 = k) ≤ 1
  /-- An issue is created and a run is scheduled by the delivery that has committed the message. -/
  after : ∀ x, x ∈ s.issues ∨ x ∈ s.triggers → x ∈ s.messages
  /-- A committed message is not claimed again, however late. -/
  refused : ∀ x ∈ s.messages, x.1.2 ≠ "" →
    ∀ now token, ClaimChannelInboundDedup now token (s.dedup x.1).row = none
  ingested : ∀ i d, s.deliveries[i]? = some d → d.stage = .done .ingested →
    (d.key, i) ∈ s.messages ∧ (d.key, i) ∈ s.triggers ∧
      (d.command.isSome = true → (d.key, i) ∈ s.issues)
  /-- A lock is held by an open transaction. -/
  locked : ∀ k i, (s.dedup k).lock = some i →
    ∃ d, s.deliveries[i]? = some d ∧ d.key = k ∧ d.stage.locks = true

/-- A message with an id is ingested at most once, whatever is delivered again, reclaimed when it
has become stale, lost on its way back or interrupted. -/
theorem ingest_once (s : State) (hs : machine.Reachable s) : Once s := by
  have h := inv_of_reachable s hs
  constructor
  · exact h.logged.once
  · intro k hk
    exact countP_le_one (h.logged.nodup .issue) (h.logged.committed .issue) (h.logged.once k hk)
  · intro k hk
    exact countP_le_one (h.logged.nodup .trigger) (h.logged.committed .trigger)
      (h.logged.once k hk)
  · rintro x (hx | hx)
    · exact h.logged.committed .issue x hx
    · exact h.logged.committed .trigger x hx
  · intro x hx hid now token
    rcases h.logged.processed x hx hid with ⟨row, hrow, hdone⟩
    simp [hrow, ClaimChannelInboundDedup, hdone]
  · intro i d hi hs
    exact h.logged.ingested i d hi (by rw [hs]; rfl)
  · exact h.locked.locked

/-- The first delivery is too slow and loses its claim to the second one, which commits and dies; a
third one is refused. -/
theorem ingest_once_reclaimed : ∃ s, s.messages = [((1, "m"), 1)] ∧ s.triggers = [] ∧ Once s ∧
    s.deliveries.map (·.stage) =
      [.done (.dropped .duplicate), .crashed, .done (.dropped .duplicate)] := by
  rcases Machine.reachable_of_run machine (s := {}) rfl
    [.deliver 1 "m" false true none, .step 0 (.resolve .active), .step 0 (.claim .reply),
      .step 0 .filter, .step 0 (.identify .user), .step 0 (.ensureSession true), .clock 60000001,
      .deliver 1 "m" false true none, .step 1 (.resolve .active), .step 1 (.claim .reply),
      .step 1 .filter, .step 1 (.identify .user), .step 1 (.ensureSession true),
      .step 1 (.append ""), .step 1 (.commit .reply), .step 0 (.append ""),
      .step 0 (.finalize .reply), .step 1 .crash, .deliver 1 "m" false true none,
      .step 2 (.resolve .active), .step 2 (.claim .reply)]
    (fun s => decide (s.messages = [((1, "m"), 1)] ∧ s.triggers = [] ∧
      s.deliveries.map (·.stage) =
        [.done (.dropped .duplicate), .crashed, .done (.dropped .duplicate)]))
    (by decide +kernel) with ⟨s, -, hs, hp⟩
  rcases of_decide_eq_true hp with ⟨hmessages, htriggers, hstages⟩
  exact ⟨s, hmessages, htriggers, ingest_once s hs, hstages⟩

/-- While a claim is open it stays as it is through the steps of all other deliveries of the
message, late ones included, but for a claim that finds it stale. -/
theorem claim_fenced (s s' : State) (hs : machine.Reachable s) (i j : Nat) (e : Event)
    (c : Delivery) (row : Claim) (hi : s.deliveries[i]? = some c) (hji : j ≠ i)
    (hrow : (s.dedup c.key).row = some row) (hown : c.stage.token = some row.claimToken)
    (hn : next s (.step j e) = some s') :
    (s'.dedup c.key).row = some row ∨
      row.processedAt = none ∧ row.receivedAt + staleAfter < s.now ∧
        ∃ d, s.deliveries[j]? = some d ∧ d.stage = .claiming ∧
          (s'.dedup c.key).row = some ⟨s.now, none, s.fresh⟩ := by
  have h := inv_of_reachable s hs
  rcases step_moved hn with ⟨d, stage, entry, write, hj, hnext, rfl⟩
  have t := Delivery.turn (h.locked.iff hj) (fun hl => (h.locked.lock j d hj hl).2) hnext
  have hother : d.stage.token ≠ some row.claimToken := fun htoken =>
    h.fenced.apart j i d c hji hj hi _ htoken hown
  simp only [State.moved, write_dedup, Function.update_apply]
  split
  · rename_i hk
    have hstep := t.entry.row
    rw [← hk, hrow] at hstep
    generalize entry.row = row' at hstep
    cases hstep with
    | same => exact .inl rfl
    | claim _ hclaiming hstale =>
      exact .inr ⟨(hstale row rfl).1, (hstale row rfl).2, d, hj, hclaiming, rfl⟩
    | mark _ htoken => exact absurd htoken hother
    | release _ htoken => exact absurd htoken hother
  · exact .inl hrow

/-- The release of a delivery that has lost its claim leaves the claim of its successor. -/
theorem claim_fenced_late : ∃ s s' : State, machine.Reachable s ∧
    next s (.step 0 (.finalize .reply)) = some s' ∧
    (s'.dedup (1, "m")).row = some ⟨60000001, none, 5⟩ := by
  rcases Machine.reachable_of_run machine (s := {}) rfl
    [.deliver 1 "m" false true none, .step 0 (.resolve .active), .step 0 (.claim .reply),
      .step 0 .filter, .step 0 (.identify .error), .clock 60000001,
      .deliver 1 "m" false true none, .step 1 (.resolve .active), .step 1 (.claim .reply)]
    (fun s => decide (s.now = 60000001 ∧ (s.dedup (1, "m")).row = some ⟨60000001, none, 5⟩ ∧
      s.deliveries[1]? =
        some (⟨1, "m", false, true, none, .filtering (some 5)⟩ : Delivery) ∧
      (next s (.step 0 (.finalize .reply))).isSome = true))
    (by decide +kernel) with ⟨s, -, hs, hp⟩
  rcases of_decide_eq_true hp with ⟨hnow, hrow, hone, hsome⟩
  rcases Option.isSome_iff_exists.1 hsome with ⟨s', hn⟩
  refine ⟨s, s', hs, hn, ?_⟩
  rcases claim_fenced s s' hs 1 0 _ _ _ hone (by decide) hrow rfl hn with hkept | ⟨-, hlt, -⟩
  · exact hkept
  · rw [hnow] at hlt
    exact absurd hlt (by decide)

end Orynx.Ingest
