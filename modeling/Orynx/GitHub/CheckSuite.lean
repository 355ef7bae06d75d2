import Orynx.GitHub.PullRequest
import Orynx.Lib.Latest
import Orynx.Lib.Machine
import Orynx.Lib.Parties

/-! # Check suites that arrive before their pull request

A `check_suite` event whose pull request is not mirrored is stashed, and the next handler that
upserts the pull request drains the stash and replays it. Lookup, stash, upsert, drain and each
replay are statements of their own.

* `Settled`: with no handler running, nothing is stashed for a mirrored pull request, and its
  suites are the latest received;
* `stashMeetsDrain`: what is stashed will be drained, or the pull request is still missing;
* `suites_settled`: all runs that stash so are settled, and what another stash writes stays there
  until the next `pull_request` event;
* `suite_stranded`: a suite is looked up before the pull request is there and stashed after the
  drain.
-/

namespace Orynx.GitHub

open Lib

/-! ## Events and rows -/

/-- A `check_suite` event; `updatedAt` is as `parseGHTimeRequired` reads it. -/
structure CheckSuitePayload where
  suiteId : Int
  headSha : String := ""
  status : String
  conclusion : String := ""
  updatedAt : Int
  appId : Int := 0
  pullRequests : List Int
  repoName : String
  repoOwner : String
  installationId : Int
deriving DecidableEq, Repr

structure SuiteKey where
  address : Address
  suiteId : Int
deriving DecidableEq, Repr

/-- The address stands for the id of the pull request. -/
structure CheckSuite where
  address : Address
  suiteId : Int
  headSha : String
  appId : Int
  conclusion : Option String
  status : String
  updatedAt : Int
deriving DecidableEq, Repr

def CheckSuite.key (r : CheckSuite) : SuiteKey := ⟨r.address, r.suiteId⟩

structure PendingCheckSuite where
  installationId : Int
  suite : CheckSuite
deriving DecidableEq, Repr

def suiteSchema : Schema CheckSuite SuiteKey Unit where
  key := CheckSuite.key
  index _ := none

def pendingSchema : Schema PendingCheckSuite SuiteKey Unit where
  key r := r.suite.key
  index _ := none

abbrev SuiteTable := Table suiteSchema

abbrev PendingTable := Table pendingSchema

def upsertPullRequestCheckSuite (t : SuiteTable) (r : CheckSuite) : SuiteTable :=
  Latest.offer CheckSuite.updatedAt t r

def upsertPendingCheckSuite (t : PendingTable) (r : PendingCheckSuite) : PendingTable :=
  Latest.offer (fun r => r.suite.updatedAt) t r

def pendingFor (t : PendingTable) (a : Address) : List PendingCheckSuite :=
  t.rows.filter fun r => r.suite.address == a

def drainPendingCheckSuitesForPR (t : PendingTable) (a : Address) : PendingTable :=
  t.filter fun r => r.suite.address != a

/-! ## Handlers -/

/-- An event as it is recorded in one of the workspaces bound to the installation. -/
structure CheckSuiteEvent where
  workspaceId : UUID
  payload : CheckSuitePayload
deriving DecidableEq, Repr

namespace CheckSuiteEvent

def address (e : CheckSuiteEvent) (number : Int) : Address where
  workspaceId := e.workspaceId
  repoOwner := e.payload.repoOwner
  repoName := e.payload.repoName
  prNumber := number

def suite (e : CheckSuiteEvent) (number : Int) : CheckSuite where
  address := e.address number
  suiteId := e.payload.suiteId
  headSha := e.payload.headSha
  appId := e.payload.appId
  conclusion := strPtrOrNil e.payload.conclusion
  status := e.payload.status
  updatedAt := e.payload.updatedAt

def pending (e : CheckSuiteEvent) (number : Int) : PendingCheckSuite where
  installationId := e.payload.installationId
  suite := e.suite number

end CheckSuiteEvent

/-- The next statement of a handler. The first three are those of `recordCheckSuiteForWorkspace`
for the pull request `number`, with `refs` still to come; the others are those of
`mirrorPullRequestForWorkspace`, with the drained rows still to be replayed. -/
inductive Handler where
  | lookup (e : CheckSuiteEvent) (refs : List Int)
  | stash (e : CheckSuiteEvent) (number : Int) (refs : List Int)
  | upsertSuite (e : CheckSuiteEvent) (number : Int) (refs : List Int)
  | upsertPR (d : Delivery)
  | drain (d : Delivery)
  | replay (d : Delivery) (pending : List PendingCheckSuite)
deriving DecidableEq, Repr

namespace Handler

def done : Handler → Bool
  | lookup _ [] => true
  | replay _ [] => true
  | _ => false

/-- The handler has the drain of this pull request before it. -/
def willDrain (a : Address) : Handler → Bool
  | upsertPR d => d.address == a
  | drain d => d.address == a
  | _ => false

/-- What the handler has still to record. -/
def carries : Handler → List CheckSuite
  | lookup e refs => refs.map e.suite
  | stash e number refs => e.suite number :: refs.map e.suite
  | upsertSuite e number refs => e.suite number :: refs.map e.suite
  | replay _ pending => pending.map PendingCheckSuite.suite
  | _ => []

end Handler

/-! ## The machine -/

/-- `received` is the history of the suites that events have brought, one for each of the pull
requests that an event names. -/
structure State where
  prs : PullRequestTable
  suites : SuiteTable
  pending : PendingTable
  handlers : List Handler
  received : List CheckSuite

/-- The statement of a handler; the drain returns its rows in some order. -/
def State.exec (s : State) (order : List PendingCheckSuite) : Handler → Option (State × Handler)
  | .lookup _ [] => none
  | .lookup e (number :: refs) =>
    match s.prs.get? (e.address number) with
    | none => some (s, .stash e number refs)
    | some _ => some (s, .upsertSuite e number refs)
  | .stash e number refs =>
    some ({ s with pending := upsertPendingCheckSuite s.pending (e.pending number) },
      .lookup e refs)
  | .upsertSuite e number refs =>
    some ({ s with suites := upsertPullRequestCheckSuite s.suites (e.suite number) },
      .lookup e refs)
  | .upsertPR d => some ({ s with prs := mirrorPullRequest s.prs d }, .drain d)
  | .drain d =>
    if order.Perm (pendingFor s.pending d.address) then
      some ({ s with pending := drainPendingCheckSuitesForPR s.pending d.address },
        .replay d order)
    else none
  | .replay _ [] => none
  | .replay d (r :: pending) =>
    let suite := { r.suite with address := d.address }
    some ({ s with suites := upsertPullRequestCheckSuite s.suites suite }, .replay d pending)

inductive Act where
  | checkSuite (e : CheckSuiteEvent)
  | pullRequest (d : Delivery)
  | step (i : Nat) (order : List PendingCheckSuite := [])
deriving DecidableEq, Repr

def next (s : State) : Act → Option State
  | .checkSuite e =>
    some { s with
      handlers := s.handlers ++ [.lookup e e.payload.pullRequests]
      received := e.payload.pullRequests.map e.suite ++ s.received }
  | .pullRequest d => some { s with handlers := s.handlers ++ [.upsertPR d] }
  | .step i order =>
    match s.handlers[i]? with
    | none => none
    | some h =>
      (s.exec order h).map fun (s', h') => { s' with handlers := s.handlers.set i h' }

/-- Any pull requests may be mirrored already. -/
def machine : Machine State Act where
  Init s := s.suites.rows = [] ∧ s.pending.rows = [] ∧ s.handlers = [] ∧ s.received = []
  next := next

/-! ## The property -/

def State.Quiet (s : State) : Prop := ∀ h ∈ s.handlers, h.done = true

/-- The row is the newest that was received for its suite. -/
def State.IsLatest (s : State) (r : CheckSuite) : Prop :=
  r ∈ s.received ∧ ∀ e ∈ s.received, e.key = r.key → e.updatedAt ≤ r.updatedAt

/-- With no handler running, a mirrored pull request has nothing stashed and the latest suites. -/
def State.Settled (s : State) : Prop :=
  s.Quiet → ∀ a, (s.prs.get? a).isSome → pendingFor s.pending a = [] ∧
    ∀ e ∈ s.received, e.address = a → ∃ r ∈ s.suites.rows, r.key = e.key ∧ s.IsLatest r

/-- A suite is stashed while its pull request is missing, or before a drain of it. -/
def stashMeetsDrain (s : State) : Act → Bool
  | .step i _ =>
    match s.handlers[i]? with
    | some (.stash e number _) =>
      (s.prs.get? (e.address number)).isNone || s.handlers.any (Handler.willDrain (e.address number))
    | _ => true
  | _ => true

def Act.isPullRequest : Act → Bool
  | .pullRequest _ => true
  | _ => false

/-! ## What a statement moves -/

section Moves

/-- Stored, or still to be recorded by the handler. -/
def State.At (s : State) (h : Handler) (c : CheckSuite) : Prop :=
  c ∈ s.suites.rows ∨ (∃ r ∈ s.pending.rows, r.suite = c) ∨ c ∈ h.carries

def State.Holds (s : State) (c : CheckSuite) : Prop :=
  c ∈ s.suites.rows ∨ (∃ r ∈ s.pending.rows, r.suite = c) ∨ ∃ h ∈ s.handlers, c ∈ h.carries

/-- What was drained is replayed for the pull request it was stashed for. -/
def Handler.Own : Handler → Prop
  | replay d pending => ∀ r ∈ pending, r.suite.address = d.address
  | _ => True

/-- The statement invents nothing, and drops a suite only for a newer one. -/
structure Moves (s : State) (h : Handler) (s' : State) (h' : Handler) : Prop where
  handlers : s'.handlers = s.handlers
  received : s'.received = s.received
  own : h'.Own
  sound : ∀ c, s'.At h' c → s.At h c
  kept : ∀ c, s.At h c → Latest.Held CheckSuite.key CheckSuite.updatedAt (s'.At h') c

variable {s s' : State} {h h' : Handler} {order : List PendingCheckSuite} {c : CheckSuite}

/-- An upsert of a suite that the handler carries. -/
theorem moves_upsertSuite (hown : h'.Own) (hc : c ∈ h.carries)
    (hcarries : ∀ x, x ∈ h.carries ↔ x = c ∨ x ∈ h'.carries) :
    Moves s h { s with suites := upsertPullRequestCheckSuite s.suites c } h' where
  handlers := rfl
  received := rfl
  own := hown
  sound x hx := by
    rcases hx with hx | hx | hx
    · rcases Latest.mem_offer _ (fun _ => rfl) _ _ hx with rfl | hx
      · exact .inr (.inr hc)
      · exact .inl hx
    · exact .inr (.inl hx)
    · exact .inr (.inr ((hcarries x).2 (.inr hx)))
  kept x hx := by
    have hput : x = c ∨ x ∈ s.suites.rows → Latest.Held CheckSuite.key CheckSuite.updatedAt
        (State.At { s with suites := upsertPullRequestCheckSuite s.suites c } h') x := by
      intro hx
      rcases Latest.offer_keeps CheckSuite.updatedAt (fun _ => rfl) _ _ hx with ⟨y, hy, hle⟩
      exact ⟨y, .inl hy, hle⟩
    rcases hx with hx | hx | hx
    · exact hput (.inr hx)
    · exact .of_held (.inr (.inl hx))
    · rcases (hcarries x).1 hx with rfl | hx
      · exact hput (.inl rfl)
      · exact .of_held (.inr (.inr hx))

theorem moves_stash (e : CheckSuiteEvent) (number : Int) (refs : List Int) :
    Moves s (.stash e number refs)
      { s with pending := upsertPendingCheckSuite s.pending (e.pending number) }
      (.lookup e refs) where
  handlers := rfl
  received := rfl
  own := trivial
  sound x hx := by
    rcases hx with hx | ⟨r, hr, rfl⟩ | hx
    · exact .inl hx
    · rcases Latest.mem_offer _ (fun _ => rfl) _ _ hr with rfl | hr
      · exact .inr (.inr List.mem_cons_self)
      · exact .inr (.inl ⟨r, hr, rfl⟩)
    · exact .inr (.inr (List.mem_cons_of_mem _ hx))
  kept x hx := by
    have hput : ∀ r, r = e.pending number ∨ r ∈ s.pending.rows →
        Latest.Held CheckSuite.key CheckSuite.updatedAt
          (State.At { s with pending := upsertPendingCheckSuite s.pending (e.pending number) }
            (.lookup e refs)) r.suite := by
      intro r hr
      rcases Latest.offer_keeps (fun r : PendingCheckSuite => r.suite.updatedAt) (fun _ => rfl)
        _ _ hr with ⟨y, hy, hle⟩
      exact ⟨y.suite, .inr (.inl ⟨y, hy, rfl⟩), hle⟩
    rcases hx with hx | ⟨r, hr, rfl⟩ | hx
    · exact .of_held (.inl hx)
    · exact hput r (.inr hr)
    · rcases List.mem_cons.1 hx with rfl | hx
      · exact hput _ (.inl rfl)
      · exact .of_held (.inr (.inr hx))

theorem moves_drain (d : Delivery) (horder : order.Perm (pendingFor s.pending d.address)) :
    Moves s (.drain d) { s with pending := drainPendingCheckSuitesForPR s.pending d.address }
      (.replay d order) := by
  have hmem : ∀ r, r ∈ order ↔ r ∈ s.pending.rows ∧ r.suite.address = d.address := by
    intro r
    rw [horder.mem_iff, pendingFor, List.mem_filter, beq_iff_eq]
  refine ⟨rfl, rfl, fun r hr => ((hmem r).1 hr).2, fun x hx => ?_, fun x hx => .of_held ?_⟩
  · rcases hx with hx | ⟨r, hr, rfl⟩ | hx
    · exact .inl hx
    · exact .inr (.inl ⟨r, (List.mem_filter.1 hr).1, rfl⟩)
    · rcases List.mem_map.1 hx with ⟨r, hr, rfl⟩
      exact .inr (.inl ⟨r, ((hmem r).1 hr).1, rfl⟩)
  · rcases hx with hx | ⟨r, hr, rfl⟩ | hx
    · exact .inl hx
    · by_cases ha : r.suite.address = d.address
      · exact .inr (.inr (List.mem_map.2 ⟨r, (hmem r).2 ⟨hr, ha⟩, rfl⟩))
      · exact .inr (.inl ⟨r, List.mem_filter.2 ⟨hr, by simpa using ha⟩, rfl⟩)
    · cases hx

theorem moves_exec (hown : h.Own) (hx : s.exec order h = some (s', h')) : Moves s h s' h' := by
  cases h with
  | lookup e refs =>
    cases refs with
    | nil => cases hx
    | cons number refs =>
      -- the lookup reads only, and the handler carries what it carried
      rw [State.exec] at hx
      cases hpr : s.prs.get? (e.address number) with
      | none =>
        rw [hpr] at hx
        obtain ⟨rfl, rfl⟩ := Prod.mk.inj (Option.some.inj hx)
        exact ⟨rfl, rfl, trivial, fun c hc => hc, fun c hc => .of_held hc⟩
      | some pr =>
        rw [hpr] at hx
        obtain ⟨rfl, rfl⟩ := Prod.mk.inj (Option.some.inj hx)
        exact ⟨rfl, rfl, trivial, fun c hc => hc, fun c hc => .of_held hc⟩
  | stash e number refs =>
    obtain ⟨rfl, rfl⟩ := Prod.mk.inj (Option.some.inj hx)
    exact moves_stash e number refs
  | upsertSuite e number refs =>
    obtain ⟨rfl, rfl⟩ := Prod.mk.inj (Option.some.inj hx)
    exact moves_upsertSuite trivial List.mem_cons_self fun x => List.mem_cons
  | upsertPR d =>
    obtain ⟨rfl, rfl⟩ := Prod.mk.inj (Option.some.inj hx)
    exact ⟨rfl, rfl, trivial, fun c hc => hc, fun c hc => .of_held hc⟩
  | drain d =>
    rw [State.exec, Option.ite_none_right_eq_some] at hx
    obtain ⟨rfl, rfl⟩ := Prod.mk.inj (Option.some.inj hx.2)
    exact moves_drain d hx.1
  | replay d pending =>
    cases pending with
    | nil => cases hx
    | cons r pending =>
      obtain ⟨rfl, rfl⟩ := Prod.mk.inj (Option.some.inj hx)
      have hr : { r.suite with address := d.address } = r.suite := by
        rw [← hown r List.mem_cons_self]
      rw [hr]
      exact moves_upsertSuite (fun r' hr' => hown r' (List.mem_cons_of_mem _ hr'))
        List.mem_cons_self fun x => List.mem_cons

end Moves

/-! ## The invariant -/

/-- A drain of the pull request is still to come. -/
def State.DrainDue (s : State) (a : Address) : Prop := ∃ h ∈ s.handlers, h.willDrain a = true

structure Inv (s : State) : Prop where
  covers : Latest.Covers CheckSuite.key CheckSuite.updatedAt s.Holds s.received
  own : ∀ h ∈ s.handlers, h.Own
  drained : ∀ r ∈ s.pending.rows, (s.prs.get? r.suite.address).isSome → s.DrainDue r.suite.address

section Steps

variable {s s' : State} {h h' : Handler} {i : Nat} {order : List PendingCheckSuite}

theorem holds_iff (hi : s.handlers[i]? = some h) (c : CheckSuite) :
    s.Holds c ↔ s.At h c ∨ Parties.Other s.handlers i fun k => c ∈ k.carries := by
  rw [State.Holds, State.At, Parties.exists_iff hi, or_assoc, or_assoc]

theorem holds_set_iff (hi : s.handlers[i]? = some h) (c : CheckSuite) :
    State.Holds { s' with handlers := s.handlers.set i h' } c ↔
      s'.At h' c ∨ Parties.Other s.handlers i fun k => c ∈ k.carries := by
  rw [State.Holds, State.At, Parties.exists_set_iff hi, or_assoc, or_assoc]

theorem covers_set (hcovers : Latest.Covers CheckSuite.key CheckSuite.updatedAt s.Holds s.received)
    (hi : s.handlers[i]? = some h) (hmoves : Moves s h s' h') :
    Latest.Covers CheckSuite.key CheckSuite.updatedAt
      (State.Holds { s' with handlers := s.handlers.set i h' }) s'.received := by
  have hcovers : Latest.Covers CheckSuite.key CheckSuite.updatedAt s.Holds s'.received :=
    hmoves.received ▸ hcovers
  refine hcovers.moved (fun c hc => ?_) (fun c hc => ?_)
  · rw [holds_set_iff hi] at hc
    exact (holds_iff hi c).2 (hc.imp_left (hmoves.sound c))
  · rcases (holds_iff hi c).1 hc with hc | hc
    · rcases hmoves.kept c hc with ⟨x, hx, hle⟩
      exact ⟨x, (holds_set_iff hi x).2 (.inl hx), hle⟩
    · exact .of_held ((holds_set_iff hi c).2 (.inr hc))

theorem drainDue_set {a : Address} (hi : s.handlers[i]? = some h)
    (hkeeps : h.willDrain a = true → h'.willDrain a = true) (hdue : s.DrainDue a) :
    ∃ k ∈ s.handlers.set i h', k.willDrain a = true :=
  (Parties.exists_set_iff hi h').2 (((Parties.exists_iff hi).1 hdue).imp_left hkeeps)

theorem isSome_mirror (prs : PullRequestTable) (d : Delivery) (a : Address) :
    ((mirrorPullRequest prs d).get? a).isSome ↔ a = d.address ∨ (prs.get? a).isSome := by
  rw [get?_mirror]
  by_cases ha : a = d.address <;> simp [ha]

theorem drained_exec (hi : s.handlers[i]? = some h)
    (hdrained : ∀ r ∈ s.pending.rows, (s.prs.get? r.suite.address).isSome →
      s.DrainDue r.suite.address)
    (hmeets : stashMeetsDrain s (.step i order) = true)
    (hx : s.exec order h = some (s', h')) :
    ∀ r ∈ s'.pending.rows, (s'.prs.get? r.suite.address).isSome →
      ∃ k ∈ s.handlers.set i h', k.willDrain r.suite.address = true := by
  cases h with
  | lookup e refs =>
    cases refs with
    | nil => cases hx
    | cons number refs =>
      rw [State.exec] at hx
      cases hpr : s.prs.get? (e.address number) with
      | none =>
        rw [hpr] at hx
        obtain ⟨rfl, rfl⟩ := Prod.mk.inj (Option.some.inj hx)
        exact fun r hr hpr => drainDue_set hi (fun h => by cases h) (hdrained r hr hpr)
      | some pr =>
        rw [hpr] at hx
        obtain ⟨rfl, rfl⟩ := Prod.mk.inj (Option.some.inj hx)
        exact fun r hr hpr => drainDue_set hi (fun h => by cases h) (hdrained r hr hpr)
  | stash e number refs =>
    obtain ⟨rfl, rfl⟩ := Prod.mk.inj (Option.some.inj hx)
    intro r hr hpr
    rcases Latest.mem_offer _ (fun _ => rfl) _ _ hr with rfl | hr
    · -- the new row: its pull request is mirrored, so a drain is due
      simp only [stashMeetsDrain, hi, Bool.or_eq_true, Option.isNone_iff_eq_none,
        List.any_eq_true] at hmeets
      rcases hmeets with hnone | hdue
      · rw [show (e.pending number).suite.address = e.address number from rfl, hnone] at hpr
        cases hpr
      · exact drainDue_set hi (fun h => by cases h) hdue
    · exact drainDue_set hi (fun h => by cases h) (hdrained r hr hpr)
  | upsertSuite e number refs =>
    obtain ⟨rfl, rfl⟩ := Prod.mk.inj (Option.some.inj hx)
    exact fun r hr hpr => drainDue_set hi (fun h => by cases h) (hdrained r hr hpr)
  | upsertPR d =>
    obtain ⟨rfl, rfl⟩ := Prod.mk.inj (Option.some.inj hx)
    intro r hr hpr
    rcases (isSome_mirror s.prs d r.suite.address).1 hpr with ha | hpr
    · -- the handler that has just upserted the pull request drains next
      refine ⟨.drain d, List.mem_of_getElem? (Parties.getElem?_set hi _), ?_⟩
      simp [Handler.willDrain, ha]
    · exact drainDue_set hi (fun h => h) (hdrained r hr hpr)
  | drain d =>
    rw [State.exec, Option.ite_none_right_eq_some] at hx
    obtain ⟨rfl, rfl⟩ := Prod.mk.inj (Option.some.inj hx.2)
    intro r hr hpr
    rcases List.mem_filter.1 hr with ⟨hr, ha⟩
    refine drainDue_set hi (fun hd => ?_) (hdrained r hr hpr)
    have hd : d.address = r.suite.address := by simpa [Handler.willDrain] using hd
    simp [hd] at ha
  | replay d pending =>
    cases pending with
    | nil => cases hx
    | cons r pending =>
      obtain ⟨rfl, rfl⟩ := Prod.mk.inj (Option.some.inj hx)
      exact fun r hr hpr => drainDue_set hi (fun h => by cases h) (hdrained r hr hpr)

theorem inv_next {a : Act} (hinv : Inv s) (hmeets : stashMeetsDrain s a = true)
    (hn : next s a = some s') : Inv s' := by
  cases a with
  | checkSuite e =>
    obtain rfl := Option.some.inj hn
    refine ⟨?_, ?_, ?_⟩
    · refine (hinv.covers.receive (e.payload.pullRequests.map e.suite)).moved ?_ ?_
      · rintro c (hc | hc | ⟨h, hh, hc⟩)
        · exact .inr (.inl hc)
        · exact .inr (.inr (.inl hc))
        · rcases List.mem_append.1 hh with hh | hh
          · exact .inr (.inr (.inr ⟨h, hh, hc⟩))
          · obtain rfl := List.mem_singleton.1 hh
            exact .inl hc
      · rintro c (hc | hc | hc | ⟨h, hh, hc⟩)
        · exact .of_held (.inr (.inr ⟨_, List.mem_append_right _ List.mem_cons_self, hc⟩))
        · exact .of_held (.inl hc)
        · exact .of_held (.inr (.inl hc))
        · exact .of_held (.inr (.inr ⟨h, List.mem_append_left _ hh, hc⟩))
    · intro h hh
      rcases List.mem_append.1 hh with hh | hh
      · exact hinv.own h hh
      · obtain rfl := List.mem_singleton.1 hh
        trivial
    · intro r hr hpr
      rcases hinv.drained r hr hpr with ⟨h, hh, hdrain⟩
      exact ⟨h, List.mem_append_left _ hh, hdrain⟩
  | pullRequest d =>
    obtain rfl := Option.some.inj hn
    refine ⟨?_, ?_, ?_⟩
    · refine hinv.covers.moved ?_ ?_
      · rintro c (hc | hc | ⟨h, hh, hc⟩)
        · exact .inl hc
        · exact .inr (.inl hc)
        · rcases List.mem_append.1 hh with hh | hh
          · exact .inr (.inr ⟨h, hh, hc⟩)
          · obtain rfl := List.mem_singleton.1 hh
            cases hc
      · rintro c (hc | hc | ⟨h, hh, hc⟩)
        · exact .of_held (.inl hc)
        · exact .of_held (.inr (.inl hc))
        · exact .of_held (.inr (.inr ⟨h, List.mem_append_left _ hh, hc⟩))
    · intro h hh
      rcases List.mem_append.1 hh with hh | hh
      · exact hinv.own h hh
      · obtain rfl := List.mem_singleton.1 hh
        trivial
    · intro r hr hpr
      rcases hinv.drained r hr hpr with ⟨h, hh, hdrain⟩
      exact ⟨h, List.mem_append_left _ hh, hdrain⟩
  | step i order =>
    rw [next] at hn
    cases hi : s.handlers[i]? with
    | none => rw [hi] at hn; cases hn
    | some h =>
      rw [hi] at hn
      rcases Option.map_eq_some_iff.1 hn with ⟨⟨t, h'⟩, hx, rfl⟩
      have hmoves := moves_exec (hinv.own h (List.mem_of_getElem? hi)) hx
      have hdrained := drained_exec hi hinv.drained hmeets hx
      exact ⟨covers_set hinv.covers hi hmoves, Parties.forall_set h' hmoves.own hinv.own, hdrained⟩

end Steps

/-! ## Runs -/

theorem not_willDrain_of_done {h : Handler} {a : Address} (hdone : h.done = true) :
    h.willDrain a = false := by
  cases h with
  | upsertPR d => cases hdone
  | drain d => cases hdone
  | _ => rfl

theorem carries_of_done {h : Handler} (hdone : h.done = true) : h.carries = [] := by
  cases h with
  | lookup e refs =>
    cases refs with
    | nil => rfl
    | cons number refs => cases hdone
  | replay d pending =>
    cases pending with
    | nil => rfl
    | cons r pending => cases hdone
  | stash e number refs => cases hdone
  | upsertSuite e number refs => cases hdone
  | _ => rfl

theorem settled_of_inv {s : State} (hinv : Inv s) : s.Settled := by
  intro hquiet a hpr
  have hstash : pendingFor s.pending a = [] := by
    refine List.filter_eq_nil_iff.2 fun r hr hra => ?_
    obtain rfl : r.suite.address = a := by simpa using hra
    rcases hinv.drained r hr hpr with ⟨h, hh, hdrain⟩
    rw [not_willDrain_of_done (hquiet h hh)] at hdrain
    cases hdrain
  refine ⟨hstash, ?_⟩
  rintro e he rfl
  -- nothing of the pull request is stashed or under way, so its suites hold all there is
  have hall : ∀ x, s.Holds x → x.key = e.key → x ∈ s.suites.rows := by
    rintro x (hx | ⟨r, hr, rfl⟩ | ⟨h, hh, hx⟩) hkey
    · exact hx
    · have haddr : r.suite.address = e.address := congrArg SuiteKey.address hkey
      have hmem : r ∈ pendingFor s.pending e.address :=
        List.mem_filter.2 ⟨hr, by simpa using haddr⟩
      rw [hstash] at hmem
      cases hmem
    · rw [carries_of_done (hquiet h hh)] at hx
      cases hx
  rcases hinv.covers.latest (S := suiteSchema) he hall with ⟨r, hr, hkey, hreceived, hlatest⟩
  exact ⟨r, hr, hkey, hreceived, fun e' he' hek => hlatest e' he' (hek.trans hkey)⟩

theorem inv_reachable : ∀ s,
    machine.ReachableUnder (fun s a => stashMeetsDrain s a = true) s → Inv s := by
  refine Machine.invariant_under ?_ fun s a s' _ hinv hmeets h => inv_next hinv hmeets h
  rintro s ⟨hsuites, hpending, hhandlers, hreceived⟩
  refine ⟨⟨?_, ?_⟩, ?_, ?_⟩
  · rintro c (hc | ⟨r, hr, -⟩ | ⟨h, hh, -⟩)
    · simp [hsuites] at hc
    · simp [hpending] at hr
    · simp [hhandlers] at hh
  · simp [hreceived]
  · simp [hhandlers]
  · simp [hpending]

/-! ## Stranded suites -/

section Stranded

variable {s s' : State} {a : Address}

/-- A suite is stashed for a pull request that is there, and no drain is to come. -/
def State.Stranded (s : State) (a : Address) : Prop :=
  (s.prs.get? a).isSome ∧ (∃ r ∈ s.pending.rows, r.suite.address = a) ∧ ¬ s.DrainDue a

theorem not_settled_of_stranded (h : s.Stranded a) (hquiet : s.Quiet) : ¬ s.Settled := by
  intro hsettled
  rcases h with ⟨hpr, ⟨r, hr, hra⟩, -⟩
  have hmem : r ∈ pendingFor s.pending a := List.mem_filter.2 ⟨hr, by simpa using hra⟩
  rw [(hsettled hquiet a hpr).1] at hmem
  cases hmem

theorem stranded_stash {i : Nat} {order : List PendingCheckSuite}
    (hmeets : stashMeetsDrain s (.step i order) = false)
    (hn : next s (.step i order) = some s') : ∃ a, s'.Stranded a := by
  rw [stashMeetsDrain] at hmeets
  split at hmeets
  · rename_i e number refs hi
    rw [next, hi] at hn
    obtain rfl := Option.some.inj hn
    simp only [Bool.or_eq_false_iff, Option.isNone_eq_false_iff, List.any_eq_false] at hmeets
    refine ⟨e.address number, hmeets.1, ?_, ?_⟩
    · rcases Latest.offer_keeps (fun r : PendingCheckSuite => r.suite.updatedAt) (fun _ => rfl)
        s.pending (e.pending number) (.inl rfl) with ⟨r, hr, hkey, -⟩
      exact ⟨r, hr, congrArg SuiteKey.address hkey⟩
    · rintro ⟨h, hh, hdrain⟩
      rcases List.mem_or_eq_of_mem_set hh with hh | rfl
      · exact hmeets.2 h hh hdrain
      · cases hdrain
  · cases hmeets

theorem stranded_exec {i : Nat} {h h' : Handler} {order : List PendingCheckSuite}
    (hs : s.Stranded a) (hi : s.handlers[i]? = some h)
    (hx : s.exec order h = some (s', h')) :
    (s'.prs.get? a).isSome ∧ (∃ r ∈ s'.pending.rows, r.suite.address = a) ∧
      h'.willDrain a = false := by
  rcases hs with ⟨hpr, hstash, hdue⟩
  have hnot : h.willDrain a = false := by
    by_contra hdrain
    exact hdue ⟨h, List.mem_of_getElem? hi, by simpa using hdrain⟩
  cases h with
  | lookup e refs =>
    cases refs with
    | nil => cases hx
    | cons number refs =>
      rw [State.exec] at hx
      cases hget : s.prs.get? (e.address number) with
      | none =>
        rw [hget] at hx
        obtain ⟨rfl, rfl⟩ := Prod.mk.inj (Option.some.inj hx)
        exact ⟨hpr, hstash, rfl⟩
      | some pr =>
        rw [hget] at hx
        obtain ⟨rfl, rfl⟩ := Prod.mk.inj (Option.some.inj hx)
        exact ⟨hpr, hstash, rfl⟩
  | stash e number refs =>
    obtain ⟨rfl, rfl⟩ := Prod.mk.inj (Option.some.inj hx)
    rcases hstash with ⟨r, hr, rfl⟩
    rcases Latest.offer_keeps (fun r : PendingCheckSuite => r.suite.updatedAt) (fun _ => rfl)
      s.pending (e.pending number) (.inr hr) with ⟨x, hx, hkey, -⟩
    exact ⟨hpr, ⟨x, hx, congrArg SuiteKey.address hkey⟩, rfl⟩
  | upsertSuite e number refs =>
    obtain ⟨rfl, rfl⟩ := Prod.mk.inj (Option.some.inj hx)
    exact ⟨hpr, hstash, rfl⟩
  | upsertPR d =>
    obtain ⟨rfl, rfl⟩ := Prod.mk.inj (Option.some.inj hx)
    exact ⟨(isSome_mirror s.prs d a).2 (.inr hpr), hstash, hnot⟩
  | drain d =>
    rw [State.exec, Option.ite_none_right_eq_some] at hx
    obtain ⟨rfl, rfl⟩ := Prod.mk.inj (Option.some.inj hx.2)
    rcases hstash with ⟨r, hr, rfl⟩
    have hne : r.suite.address ≠ d.address := fun ha => by simp [Handler.willDrain, ha] at hnot
    exact ⟨hpr, ⟨r, List.mem_filter.2 ⟨hr, by simpa using hne⟩, rfl⟩, rfl⟩
  | replay d pending =>
    cases pending with
    | nil => cases hx
    | cons r pending =>
      obtain ⟨rfl, rfl⟩ := Prod.mk.inj (Option.some.inj hx)
      exact ⟨hpr, hstash, rfl⟩

theorem stranded_next {act : Act} (hs : s.Stranded a) (hact : act.isPullRequest = false)
    (hn : next s act = some s') : s'.Stranded a := by
  cases act with
  | checkSuite e =>
    obtain rfl := Option.some.inj hn
    refine ⟨hs.1, hs.2.1, ?_⟩
    rintro ⟨h, hh, hdrain⟩
    rcases List.mem_append.1 hh with hh | hh
    · exact hs.2.2 ⟨h, hh, hdrain⟩
    · obtain rfl := List.mem_singleton.1 hh
      cases hdrain
  | pullRequest d => cases hact
  | step i order =>
    rw [next] at hn
    cases hi : s.handlers[i]? with
    | none => rw [hi] at hn; cases hn
    | some h =>
      rw [hi] at hn
      rcases Option.map_eq_some_iff.1 hn with ⟨⟨t, h'⟩, hx, rfl⟩
      rcases stranded_exec hs hi hx with ⟨hpr, hstash, hnot⟩
      refine ⟨hpr, hstash, ?_⟩
      rintro ⟨k, hk, hdrain⟩
      rcases List.mem_or_eq_of_mem_set hk with hk | rfl
      · exact hs.2.2 ⟨k, hk, hdrain⟩
      · rw [hnot] at hdrain
        cases hdrain

end Stranded

/-- Runs that stash only before a drain are settled whenever no handler is running; after another
stash no run is until the next `pull_request` event. -/
theorem suites_settled (s : State) :
    (machine.ReachableUnder (fun s a => stashMeetsDrain s a = true) s → s.Settled) ∧
    ∀ a s', machine.ReachableUnder (fun s a => stashMeetsDrain s a = true) s →
      stashMeetsDrain s a = false → machine.next s a = some s' →
      ∀ t, (machine.startAt s').ReachableUnder (fun _ a => a.isPullRequest = false) t →
        t.Quiet → ¬ t.Settled := by
  constructor
  · exact fun hs => settled_of_inv (inv_reachable s hs)
  · intro act s' _ hmeets hn t ht hquiet
    cases act with
    | checkSuite e => cases hmeets
    | pullRequest d => cases hmeets
    | step i order =>
      rcases stranded_stash hmeets hn with ⟨a, hstranded⟩
      have hlater : ∀ u, (machine.startAt s').ReachableUnder
          (fun _ a => a.isPullRequest = false) u → u.Stranded a := by
        refine Machine.invariant_under ?_ fun u act u' _ hu hact h => stranded_next hu hact h
        rintro u rfl
        exact hstranded
      exact not_settled_of_stranded (hlater t ht) hquiet

/-! ## Two handlers -/

def suiteEvent (updatedAt : Int) (conclusion : String) : CheckSuiteEvent where
  workspaceId := 1
  payload :=
    { suiteId := 9, headSha := "a1", status := "completed", conclusion := conclusion
      updatedAt := updatedAt, pullRequests := [7], repoName := "web", repoOwner := "acme"
      installationId := 5 }

def emptyState : State := ⟨.empty, .empty, .empty, [], []⟩

theorem init_emptyState : machine.Init emptyState := ⟨rfl, rfl, rfl, rfl⟩

/-- A newer and an older event are stashed, and replayed with the pull request. -/
def replayRun : List Act :=
  [.checkSuite (suiteEvent 20 "success"), .checkSuite (suiteEvent 10 "failure"), .step 0, .step 0,
    .step 1, .step 1, .pullRequest openedEvent, .step 2,
    .step 2 [(suiteEvent 20 "success").pending 7], .step 2]

theorem suites_settled_replayRun :
    ∃ s : State, (s.handlers.all Handler.done && s.received.length == 2 &&
      s.suites.rows == [(suiteEvent 20 "success").suite 7]) = true ∧ s.Settled := by
  rcases Machine.reachableUnder_of_run machine stashMeetsDrain init_emptyState replayRun
    (fun s => s.handlers.all Handler.done && s.received.length == 2 &&
      s.suites.rows == [(suiteEvent 20 "success").suite 7]) (by decide) with ⟨s, hs, hstate⟩
  exact ⟨s, hstate, (suites_settled s).1 hs⟩

/-- The suite is looked up, the pull request upserted and drained, and then the suite stashed. -/
theorem suite_stranded : ¬ ∀ s, machine.Reachable s → s.Settled := by
  intro hclaim
  rcases Machine.reachable_of_run machine init_emptyState
    [.checkSuite (suiteEvent 20 "success"), .step 0, .pullRequest openedEvent, .step 1, .step 1,
      .step 0]
    (fun s => s.handlers.all Handler.done && (s.prs.get? openedEvent.address).isSome &&
      !(pendingFor s.pending openedEvent.address).isEmpty) (by decide) with ⟨s, -, hs, hstate⟩
  simp only [Bool.and_eq_true, List.all_eq_true, Bool.not_eq_true'] at hstate
  have hstash := (hclaim s hs hstate.1.1 openedEvent.address hstate.1.2).1
  rw [hstash] at hstate
  simp at hstate

end Orynx.GitHub
