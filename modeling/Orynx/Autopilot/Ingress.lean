import Orynx.Autopilot.Webhook
import Orynx.Lib.Machine

/-! # Webhook ingress and signatures

`HandleAutopilotWebhook` inserts the delivery as queued work, with its signature status, and
rejects it in a later step; `WebhookDeliveryWorker.ProcessNext` takes whatever is queued and
due. Requests, workers and crashes interleave freely.

* `Authenticated`: no delivery with an invalid or missing signature has a run, and none makes
  a correctly signed request a duplicate;
* `rejectsFirst`: no worker claims such a delivery, and no correctly signed request with its
  key is persisted, before it is rejected;
* `ingress_authenticated`: then it is so in every run;
* `queued_forgery_is_dispatched`: a worker that is faster than the rejection breaks it.
-/

namespace Orynx.Autopilot.Ingress

open Lib

/-! ## The machine -/

/-- A request whose delivery is persisted goes on to reject, ignore or admit it. -/
inductive Request where
  | persisted (d : Delivery)
  | answered
deriving DecidableEq, Repr

inductive Worker where
  | claimed (d : Delivery) (token : UUID)
  | admitted (d : Delivery) (token : UUID) (run : Run)
  | done
deriving DecidableEq, Repr

/-- `duplicates` is the history of the answers `duplicate`: the signature status of the
request, and the delivery that it was told about. -/
structure State where
  now : Int
  deliveries : DeliveryTable
  runs : RunTable
  requests : List Request
  workers : List Worker
  duplicates : List (SignatureStatus × UUID)

/-- `complete` ends a delivery before its dispatch, `finish` after it. -/
inductive Act where
  | tick (t : Int)
  | request (id triggerId : UUID) (dedupeKey : Option String) (signatureStatus : SignatureStatus)
  | reject (i : Nat)
  | ignore (i : Nat) (reason : String)
  | admitRun (i : Nat) (row : Run)
  | dropRequest (i : Nat)
  | claim (id token : UUID)
  | defer (j : Nat) (availableAt : Int)
  | retryOrFail (j : Nat) (availableAt : Int) (cause : String)
  | complete (j : Nat) (status : DeliveryStatus) (reason : String)
  | dispatch (j : Nat) (row : Run)
  | finish (j : Nat) (status : DeliveryStatus) (error : Option String)
  | dropWorker (j : Nat)

def receivedDelivery (now : Int) (id triggerId : UUID) (dedupeKey : Option String)
    (signatureStatus : SignatureStatus) : Delivery :=
  { id := id, triggerId := triggerId, dedupeKey := dedupeKey, signatureStatus := signatureStatus
    availableAt := now, createdAt := now }

def State.setRequest (s : State) (i : Nat) (x : Request) : State :=
  { s with requests := s.requests.set i x }

def State.setWorker (s : State) (j : Nat) (x : Worker) : State :=
  { s with workers := s.workers.set j x }

/-- Run a statement; one that violates the dedupe index changes nothing. -/
def State.exec (s : State) (u : Update Delivery) : State :=
  { s with deliveries := (s.deliveries.update? u).getD s.deliveries }

/-- The reason of a rejection. -/
def rejection (signatureStatus : SignatureStatus) : String :=
  if signatureStatus = .missing then "missing_signature" else "invalid_signature"

def next (s : State) : Act → Option State
  | .tick t => if s.now ≤ t then some { s with now := t } else none
  | .request id triggerId dedupeKey signatureStatus =>
    if s.deliveries.rows.all fun d => d.id != id then
      match persistInboundDelivery s.deliveries
        (receivedDelivery s.now id triggerId dedupeKey signatureStatus) with
      | some (q, d, false) =>
        some { s with deliveries := q, requests := s.requests ++ [.persisted d] }
      | some (q, d, true) =>
        some { s with deliveries := q, duplicates := (signatureStatus, d.id) :: s.duplicates }
      | none => none
    else none
  | .reject i =>
    match s.requests[i]? with
    | some (.persisted d) =>
      if d.signatureStatus.authentic then none
      else
        some ((s.exec (updateWebhookDeliveryTerminal d.id .rejected
          (rejection d.signatureStatus))).setRequest i .answered)
    | _ => none
  | .ignore i reason =>
    match s.requests[i]? with
    | some (.persisted d) =>
      if d.signatureStatus.authentic then
        some ((s.exec (updateWebhookDeliveryTerminal d.id .ignored reason)).setRequest i .answered)
      else none
    | _ => none
  | .admitRun i row =>
    match s.requests[i]? with
    | some (.persisted d) =>
      if d.signatureStatus.authentic then
        (admitAutopilotWebhookDelivery s.runs row d.id).map fun (runs, _) =>
          State.setRequest { s with runs := runs } i .answered
      else none
    | _ => none
  | .dropRequest i => (s.requests[i]?).map fun _ => s.setRequest i .answered
  | .claim id token =>
    match s.deliveries.rows.find? (claimQueuedWebhookDelivery id token s.now).sel with
    | some d =>
      let u := claimQueuedWebhookDelivery id token s.now
      some { s.exec u with workers := s.workers ++ [.claimed (u.set d) token] }
    | none => none
  | .defer j availableAt =>
    match s.workers[j]? with
    | some (.claimed d token) =>
      some ((s.exec (deferClaimedWebhookDelivery d.id token availableAt)).setWorker j .done)
    | _ => none
  | .retryOrFail j availableAt cause =>
    match s.workers[j]? with
    | some (.claimed d token) =>
      some ((s.exec (Autopilot.retryOrFail d token availableAt cause)).setWorker j .done)
    | _ => none
  | .complete j status reason =>
    match s.workers[j]? with
    | some (.claimed d token) =>
      -- it is ignored when an earlier step has found no run for it
      if status = .failed ∨ status = .ignored then
        some ((s.exec (completeClaimedWebhookDelivery d.id token status none
          (some reason))).setWorker j .done)
      else none
    | _ => none
  | .dispatch j row =>
    match s.workers[j]? with
    | some (.claimed d token) =>
      (admitAutopilotWebhookDelivery s.runs row d.id).map fun (runs, run) =>
        State.setWorker { s with runs := runs } j (.admitted d token run)
    | _ => none
  | .finish j status error =>
    match s.workers[j]? with
    | some (.admitted d token run) =>
      if status = .dispatched ∨ status = .failed then
        some ((s.exec (completeClaimedWebhookDelivery d.id token status (some run.id)
          error)).setWorker j .done)
      else none
    | _ => none
  | .dropWorker j => (s.workers[j]?).map fun _ => s.setWorker j .done

def machine : Machine State Act where
  Init s := s.deliveries = Table.empty ∧ s.runs = Table.empty ∧ s.requests = [] ∧
    s.workers = [] ∧ s.duplicates = []
  next := next

/-! ## The property -/

structure Authenticated (s : State) : Prop where
  runs : ∀ r ∈ s.runs.rows, ∀ d ∈ s.deliveries.rows, r.webhookDeliveryId = some d.id →
    d.signatureStatus.authentic = true
  links : ∀ d ∈ s.deliveries.rows, d.autopilotRunId.isSome → d.signatureStatus.authentic = true
  duplicates : ∀ p ∈ s.duplicates, p.1.authentic = true → ∀ d ∈ s.deliveries.rows, d.id = p.2 →
    d.signatureStatus.authentic = true

/-- The delivery is not signed, and still to be rejected. -/
def unrejected (d : Delivery) : Bool :=
  !d.signatureStatus.authentic && d.status == .queued

def rejectsFirst (s : State) : Act → Bool
  | .claim id _ => s.deliveries.rows.all fun d => !(d.id == id && unrejected d)
  | .request _ triggerId dedupeKey signatureStatus =>
    !signatureStatus.authentic || dedupeKey.isNone || s.deliveries.rows.all fun d =>
      !(d.triggerId == triggerId && d.dedupeKey == dedupeKey && unrejected d)
  | _ => true

/-! ## The invariant -/

/-- The table has the delivery, and whether its signature is good. -/
def Known (q : DeliveryTable) (id : UUID) (authentic : Bool) : Prop :=
  ∃ d ∈ q.rows, d.id = id ∧ d.signatureStatus.authentic = authentic

theorem Known.authentic {q : DeliveryTable} {id : UUID} {b : Bool} (h : Known q id b)
    {d : Delivery} (hd : d ∈ q.rows) (hid : d.id = id) : d.signatureStatus.authentic = b := by
  rcases h with ⟨d', hd', hid', hb⟩
  rw [eq_of_deliveryId hd hd' (hid.trans hid'.symm), hb]

/-- The delivery that a worker has claimed. -/
def Worker.delivery? : Worker → Option UUID
  | .claimed d _ | .admitted d _ _ => some d.id
  | .done => none

structure Inv (s : State) : Prop where
  requests : ∀ d, .persisted d ∈ s.requests → Known s.deliveries d.id d.signatureStatus.authentic
  workers : ∀ w ∈ s.workers, ∀ id, w.delivery? = some id → Known s.deliveries id true
  runs : ∀ r ∈ s.runs.rows, ∀ id, r.webhookDeliveryId = some id → Known s.deliveries id true
  duplicates : ∀ p ∈ s.duplicates, p.1.authentic = true → Known s.deliveries p.2 true
  unsigned : ∀ d ∈ s.deliveries.rows, d.signatureStatus.authentic = false →
    (d.status = .queued ∨ d.status = .rejected) ∧ d.autopilotRunId = none

theorem Inv.authenticated {s : State} (hinv : Inv s) : Authenticated s := by
  constructor
  · intro r hr d hd hrun
    exact (hinv.runs r hr d.id hrun).authentic hd rfl
  · -- an unsigned delivery has no run, so one with a run is signed
    intro d hd hlink
    by_contra hunsigned
    rw [Bool.not_eq_true] at hunsigned
    rw [(hinv.unsigned d hd hunsigned).2] at hlink
    simp at hlink
  · intro p hp hsigned d hd hid
    exact (hinv.duplicates p hp hsigned).authentic hd hid

/-- What is known of a delivery stays so when rows keep their identity. -/
theorem Inv.withDeliveries {s : State} (hinv : Inv s) {q : DeliveryTable}
    (hknown : ∀ id b, Known s.deliveries id b → Known q id b)
    (hunsigned : ∀ d ∈ q.rows, d.signatureStatus.authentic = false →
      (d.status = .queued ∨ d.status = .rejected) ∧ d.autopilotRunId = none) :
    Inv { s with deliveries := q } :=
  ⟨fun d hd => hknown _ _ (hinv.requests d hd), fun w hw id hid => hknown _ _ (hinv.workers w hw id hid),
    fun r hr id hid => hknown _ _ (hinv.runs r hr id hid),
    fun p hp hs => hknown _ _ (hinv.duplicates p hp hs), hunsigned⟩

theorem known_update {q q' : DeliveryTable} {u : Update Delivery} (hupd : q.update? u = some q')
    (hsame : ∀ d, SameDelivery d (u.set d)) {id : UUID} {b : Bool} (h : Known q id b) :
    Known q' id b := by
  rcases h with ⟨d, hd, hid, hb⟩
  have happly : SameDelivery d (u.apply d) := (hsame d).apply
  exact ⟨_, (Table.mem_update? hupd).2 ⟨d, hd, rfl⟩, happly.id.trans hid,
    by rw [happly.signatureStatus, hb]⟩

/-- A statement that leaves unsigned deliveries queued or rejected, and without a run. -/
theorem inv_exec {s : State} (hinv : Inv s) {u : Update Delivery}
    (hsame : ∀ d, SameDelivery d (u.set d))
    (hunsigned : ∀ d ∈ s.deliveries.rows, u.sel d = true → d.signatureStatus.authentic = false →
      d.autopilotRunId = none → ((u.set d).status = .queued ∨ (u.set d).status = .rejected) ∧
        (u.set d).autopilotRunId = none) : Inv (s.exec u) := by
  cases hupd : s.deliveries.update? u with
  -- a refused statement leaves the table as it is
  | none =>
    rw [State.exec, hupd]
    exact hinv
  | some q =>
    rw [State.exec, hupd]
    refine hinv.withDeliveries (fun id b h => known_update hupd hsame h) fun d' hd' hbad => ?_
    rcases (Table.mem_update? hupd).1 hd' with ⟨d, hd, rfl⟩
    rw [((hsame d).apply).signatureStatus] at hbad
    have hold := hinv.unsigned d hd hbad
    cases hsel : u.sel d with
    | true =>
      rw [Update.apply_of_sel hsel]
      exact hunsigned d hd hsel hbad hold.2
    | false =>
      rw [Update.apply_of_not_sel hsel]
      exact hold

/-- A statement on a delivery that is known to be signed. -/
theorem inv_exec_signed {s : State} (hinv : Inv s) {u : Update Delivery}
    (hsame : ∀ d, SameDelivery d (u.set d)) {id : UUID} (hknown : Known s.deliveries id true)
    (hsel : ∀ d, u.sel d = true → d.id = id) : Inv (s.exec u) := by
  refine inv_exec hinv hsame fun d hd hsel' hbad => ?_
  rw [hknown.authentic hd (hsel d hsel')] at hbad
  simp at hbad

theorem inv_setRequest {s : State} (hinv : Inv s) (i : Nat) : Inv (s.setRequest i .answered) := by
  refine ⟨fun d hd => ?_, hinv.workers, hinv.runs, hinv.duplicates, hinv.unsigned⟩
  rcases List.mem_or_eq_of_mem_set hd with hd | hd
  · exact hinv.requests d hd
  · simp at hd

theorem inv_setWorker {s : State} (hinv : Inv s) {j : Nat} {w w' : Worker}
    (hj : s.workers[j]? = some w) (hw : ∀ id, w'.delivery? = some id → w.delivery? = some id) :
    Inv (s.setWorker j w') := by
  refine ⟨hinv.requests, fun x hx id hid => ?_, hinv.runs, hinv.duplicates, hinv.unsigned⟩
  rcases List.mem_or_eq_of_mem_set hx with hx | rfl
  · exact hinv.workers x hx id hid
  · exact hinv.workers w (List.mem_of_getElem? hj) id (hw id hid)

/-- A run is admitted for a delivery that is known to be signed. -/
theorem inv_admitted {s : State} (hinv : Inv s) {row : Run} {id : UUID} {runs : RunTable} {run : Run}
    (h : admitAutopilotWebhookDelivery s.runs row id = some (runs, run))
    (hknown : Known s.deliveries id true) : Inv { s with runs := runs } := by
  refine ⟨hinv.requests, hinv.workers, fun r hr x hx => ?_, hinv.duplicates, hinv.unsigned⟩
  cases hget : getAutopilotRunByWebhookDelivery s.runs id with
  -- the run of an earlier admission, which is about the same delivery
  | some existing =>
    simp only [admitAutopilotWebhookDelivery, hget, Option.some.injEq, Prod.mk.injEq] at h
    rw [← h.1] at hr
    exact hinv.runs r hr x hx
  | none =>
    simp only [admitAutopilotWebhookDelivery, hget, Option.map_eq_some_iff, Prod.mk.injEq] at h
    rcases h with ⟨q, hins, rfl, -⟩
    rcases (Table.mem_insert? hins).1 hr with hr | rfl
    · exact hinv.runs r hr x hx
    · rw [← Option.some.inj hx]
      exact hknown

/-! ## The steps -/

theorem persist_cases {q q' : DeliveryTable} {d e : Delivery} {dup : Bool}
    (h : persistInboundDelivery q d = some (q', e, dup)) :
    (dup = false ∧ e = d ∧ q.insert? d = some q') ∨
      (dup = true ∧ q.insert? d = none ∧ ∃ k existing, d.dedupeKey = some k ∧
        getWebhookDeliveryByTriggerAndDedupe q d.triggerId k = some existing ∧
        q.update? (bumpWebhookDeliveryAttempt existing.id) = some q' ∧ e.id = existing.id) := by
  cases hins : q.insert? d with
  | some q₁ =>
    simp only [persistInboundDelivery, hins, Option.some.injEq, Prod.mk.injEq] at h
    rcases h with ⟨rfl, rfl, rfl⟩
    exact .inl ⟨rfl, rfl, rfl⟩
  | none =>
    cases hget : d.dedupeKey.bind (getWebhookDeliveryByTriggerAndDedupe q d.triggerId) with
    | none => simp [persistInboundDelivery, hins, hget] at h
    | some existing =>
      simp only [persistInboundDelivery, hins, hget, Option.map_eq_some_iff, Prod.mk.injEq] at h
      rcases h with ⟨q₁, hupd, rfl, rfl, rfl⟩
      rcases Option.bind_eq_some_iff.1 hget with ⟨k, hk, hget⟩
      exact .inr ⟨rfl, rfl, k, existing, hk, hget, hupd, rfl⟩

/-- The delivery that a queued one collides with is live. -/
theorem live_of_collision {q : DeliveryTable} {d : Delivery} (hqueued : d.status = .queued)
    (hfresh : ∀ x ∈ q.rows, x.id ≠ d.id) (hins : q.insert? d = none) {k : String}
    (hk : d.dedupeKey = some k) :
    ∃ x ∈ q.rows, x.triggerId = d.triggerId ∧ x.dedupeKey = some k ∧ x.live = true := by
  have hindex : deliverySchema.index d = some (d.triggerId, k) :=
    deliverySchema_index (by simp [Delivery.live, hqueued]) rfl hk
  -- with no live row under the key the insertion would have gone through
  by_contra hnone
  have hsome : (q.insert? d).isSome := by
    refine Table.insert?_isSome.2 ⟨hfresh, fun key hkey x hx hxkey => hnone ?_⟩
    rw [hindex, Option.some.injEq] at hkey
    subst hkey
    cases hlive : x.live with
    | false => simp [deliverySchema, hlive] at hxkey
    | true =>
      simp only [deliverySchema, hlive, if_true, Option.map_eq_some_iff, Prod.mk.injEq] at hxkey
      rcases hxkey with ⟨k', hxk, ht, rfl⟩
      exact ⟨x, hx, ht, hxk, hlive⟩
  rw [hins] at hsome
  simp at hsome

theorem inv_request {s s' : State} (hinv : Inv s) {id triggerId : UUID} {dedupeKey : Option String}
    {signatureStatus : SignatureStatus}
    (hfirst : rejectsFirst s (.request id triggerId dedupeKey signatureStatus) = true)
    (h : next s (.request id triggerId dedupeKey signatureStatus) = some s') : Inv s' := by
  simp only [next, Option.ite_none_right_eq_some] at h
  rcases h with ⟨hfresh, h⟩
  have hfresh : ∀ x ∈ s.deliveries.rows, x.id ≠ id := by
    intro x hx
    simpa using List.all_eq_true.1 hfresh x hx
  -- only the key, the trigger and the status of the new row matter
  generalize hrow : receivedDelivery s.now id triggerId dedupeKey signatureStatus = row at h
  have hkey : row.dedupeKey = dedupeKey := by rw [← hrow]; rfl
  have htrigger : row.triggerId = triggerId := by rw [← hrow]; rfl
  have hid : row.id = id := by rw [← hrow]; rfl
  have hqueued : row.status = .queued ∧ row.autopilotRunId = none := by
    rw [← hrow]
    exact ⟨rfl, rfl⟩
  cases hpersist : persistInboundDelivery s.deliveries row with
  | none => simp [hpersist] at h
  | some p =>
    rcases p with ⟨q, e, dup⟩
    rcases persist_cases hpersist with ⟨rfl, rfl, hins⟩ | ⟨rfl, hins, k, existing, hk, hget, hupd, he⟩
    · -- stored: the row is new, and queued without a run
      simp only [hpersist, Option.some.injEq] at h
      subst h
      have hmem : ∀ x, x ∈ q.rows ↔ x ∈ s.deliveries.rows ∨ x = e := fun x => Table.mem_insert? hins
      have hdeliveries := hinv.withDeliveries (q := q)
        (fun x b ⟨d, hd, hdid, hb⟩ => ⟨d, (hmem d).2 (.inl hd), hdid, hb⟩) fun d hd hbad => by
          rcases (hmem d).1 hd with hd | rfl
          · exact hinv.unsigned d hd hbad
          · exact ⟨.inl hqueued.1, hqueued.2⟩
      refine ⟨fun d hd => ?_, hdeliveries.workers, hdeliveries.runs, hdeliveries.duplicates,
        hdeliveries.unsigned⟩
      rcases List.mem_append.1 hd with hd | hd
      · exact hdeliveries.requests d hd
      · rw [List.mem_singleton, Request.persisted.injEq] at hd
        exact ⟨e, (hmem e).2 (.inr rfl), by rw [hd], by rw [hd]⟩
    · -- collided: only the attempt count of the row found changes
      simp only [hpersist, Option.some.injEq] at h
      subst h
      rw [hkey] at hk
      rw [htrigger] at hget
      have hspec := getWebhookDeliveryByTriggerAndDedupe_spec hget
      have hbump : ∀ d, SameDelivery d ((bumpWebhookDeliveryAttempt existing.id).set d) :=
        fun d => ⟨rfl, rfl, rfl, rfl⟩
      have hexec := inv_exec hinv hbump fun d hd _ hbad hrun =>
        ⟨(hinv.unsigned d hd hbad).1, hrun⟩
      rw [State.exec, hupd, Option.getD_some] at hexec
      refine ⟨hexec.requests, hexec.workers, hexec.runs, fun p hp hsigned => ?_, hexec.unsigned⟩
      rcases List.mem_cons.1 hp with rfl | hp
      · -- the delivery found is the live one, which is not an unrejected forgery
        rw [he]
        refine known_update hupd hbump ⟨existing, hspec.1, rfl, ?_⟩
        have hlive : existing.live = true := by
          rcases live_of_collision hqueued.1 (by rw [hid]; exact hfresh) hins (hkey.trans hk) with
            ⟨x, hx, hxt, hxk, hxlive⟩
          rcases hspec.2.2.2 with hlive | hdead
          · exact hlive
          · rw [hdead x hx (hxt.trans htrigger) hxk] at hxlive
            simp at hxlive
        by_contra hbad
        rw [Bool.not_eq_true] at hbad
        have hstatus : existing.status = .queued := by
          rcases (hinv.unsigned existing hspec.1 hbad).1 with hq | hr
          · exact hq
          · simp [Delivery.live, hr] at hlive
        have hsigned : signatureStatus.authentic = true := hsigned
        simp only [rejectsFirst, hsigned, hk, Bool.not_true, Option.isNone_some, Bool.or_self,
          Bool.false_or, List.all_eq_true] at hfirst
        have hnot := hfirst existing hspec.1
        simp [hspec.2.1, hspec.2.2.1, unrejected, hbad, hstatus] at hnot
      · exact hexec.duplicates p hp hsigned

/-- A worker's last statement on the delivery it has claimed. -/
theorem inv_release {s : State} (hinv : Inv s) {j : Nat} {w : Worker} (hj : s.workers[j]? = some w)
    {id : UUID} (hid : w.delivery? = some id) {u : Update Delivery}
    (hsame : ∀ d, SameDelivery d (u.set d)) (hsel : ∀ d, u.sel d = true → d.id = id) :
    Inv ((s.exec u).setWorker j .done) := by
  have hknown := hinv.workers w (List.mem_of_getElem? hj) id hid
  have hexec := inv_exec_signed hinv hsame hknown hsel
  exact inv_setWorker hexec hj fun x hx => by simp [Worker.delivery?] at hx

/-- A step of a request that has been persisted. -/
theorem persisted_of_step {s s' : State} {i : Nat} {f : Delivery → Option State}
    (h : (match s.requests[i]? with
      | some (.persisted d) => f d
      | _ => none) = some s') : ∃ d, s.requests[i]? = some (.persisted d) ∧ f d = some s' := by
  cases hi : s.requests[i]? with
  | none => simp [hi] at h
  | some x =>
    cases x with
    | persisted d =>
      rw [hi] at h
      exact ⟨d, rfl, h⟩
    | answered => simp [hi] at h

/-- A step of a worker that has claimed a delivery. -/
theorem claimed_of_step {s s' : State} {j : Nat} {f : Delivery → UUID → Option State}
    (h : (match s.workers[j]? with
      | some (.claimed d token) => f d token
      | _ => none) = some s') :
    ∃ d token, s.workers[j]? = some (.claimed d token) ∧ f d token = some s' := by
  cases hj : s.workers[j]? with
  | none => simp [hj] at h
  | some w =>
    cases w with
    | claimed d token =>
      rw [hj] at h
      exact ⟨d, token, rfl, h⟩
    | _ => simp [hj] at h

theorem inv_step {s s' : State} {a : Act} (hinv : Inv s) (hfirst : rejectsFirst s a = true)
    (h : next s a = some s') : Inv s' := by
  cases a with
  | tick t =>
    simp only [next, Option.ite_none_right_eq_some, Option.some.injEq] at h
    rcases h with ⟨-, rfl⟩
    exact ⟨hinv.requests, hinv.workers, hinv.runs, hinv.duplicates, hinv.unsigned⟩
  | request id triggerId dedupeKey signatureStatus => exact inv_request hinv hfirst h
  | reject i =>
    rcases persisted_of_step h with ⟨d, hi, h⟩
    simp only [Option.ite_none_left_eq_some, Option.some.injEq] at h
    rcases h with ⟨-, rfl⟩
    -- a rejected row stays without a run, signed or not
    exact inv_setRequest (inv_exec hinv (fun _ => ⟨rfl, rfl, rfl, rfl⟩)
      fun _ _ _ _ hrun => ⟨.inr rfl, hrun⟩) i
  | ignore i reason =>
    rcases persisted_of_step h with ⟨d, hi, h⟩
    simp only [Option.ite_none_right_eq_some, Option.some.injEq] at h
    rcases h with ⟨hsigned, rfl⟩
    -- the request goes on only when its signature is good
    have hknown := hinv.requests d (List.mem_of_getElem? hi)
    rw [hsigned] at hknown
    exact inv_setRequest (inv_exec_signed hinv (fun _ => ⟨rfl, rfl, rfl, rfl⟩) hknown
      fun _ hsel => by simpa [updateWebhookDeliveryTerminal] using hsel) i
  | admitRun i row =>
    rcases persisted_of_step h with ⟨d, hi, h⟩
    simp only [Option.ite_none_right_eq_some, Option.map_eq_some_iff] at h
    rcases h with ⟨hsigned, ⟨runs, run⟩, hadmit, rfl⟩
    have hknown := hinv.requests d (List.mem_of_getElem? hi)
    rw [hsigned] at hknown
    exact inv_setRequest (inv_admitted hinv hadmit hknown) i
  | dropRequest i =>
    simp only [next, Option.map_eq_some_iff] at h
    rcases h with ⟨x, -, rfl⟩
    exact inv_setRequest hinv i
  | claim id token =>
    cases hfind : s.deliveries.rows.find? (claimQueuedWebhookDelivery id token s.now).sel with
    | none => simp [next, hfind] at h
    | some d =>
      simp only [next, hfind, Option.some.injEq] at h
      subst h
      have hd : d ∈ s.deliveries.rows := List.mem_of_find?_eq_some hfind
      have hsel := List.find?_some hfind
      simp only [claimQueuedWebhookDelivery, Delivery.due, Bool.and_eq_true, beq_iff_eq] at hsel
      have hexec := inv_exec hinv (u := claimQueuedWebhookDelivery id token s.now)
        (fun _ => ⟨rfl, rfl, rfl, rfl⟩) fun x hx _ hbad hrun => ⟨(hinv.unsigned x hx hbad).1, hrun⟩
      -- what is claimed is signed, as it is queued and not an unrejected forgery
      have hsigned : d.signatureStatus.authentic = true := by
        have hnot := List.all_eq_true.1 hfirst d hd
        by_contra hbad
        rw [Bool.not_eq_true] at hbad
        simp [hsel.1, hsel.2.1.1, unrejected, hbad] at hnot
      have hknown : Known (s.exec (claimQueuedWebhookDelivery id token s.now)).deliveries d.id
          true := by
        cases hupd : s.deliveries.update? (claimQueuedWebhookDelivery id token s.now) with
        | none =>
          rw [State.exec, hupd]
          exact ⟨d, hd, rfl, hsigned⟩
        | some q =>
          rw [State.exec, hupd]
          exact known_update hupd (fun _ => ⟨rfl, rfl, rfl, rfl⟩) ⟨d, hd, rfl, hsigned⟩
      refine ⟨hexec.requests, fun w hw x hx => ?_, hexec.runs, hexec.duplicates, hexec.unsigned⟩
      rcases List.mem_append.1 hw with hw | hw
      · -- the workers of before
        exact hexec.workers w hw x hx
      · rw [List.mem_singleton] at hw
        subst hw
        rw [← Option.some.inj hx]
        exact hknown
  | defer j availableAt =>
    rcases claimed_of_step h with ⟨d, token, hj, h⟩
    rw [Option.some.injEq] at h
    subst h
    exact inv_release hinv hj rfl (fun _ => ⟨rfl, rfl, rfl, rfl⟩) fun _ => Delivery.id_of_heldBy
  | retryOrFail j availableAt cause =>
    rcases claimed_of_step h with ⟨d, token, hj, h⟩
    rw [Option.some.injEq] at h
    subst h
    refine inv_release hinv hj rfl (retryOrFail_sameDelivery d token availableAt cause) ?_
    intro x hsel
    -- both statements select the worker's own row
    unfold Autopilot.retryOrFail at hsel
    split at hsel
    · exact Delivery.id_of_heldBy hsel
    · exact Delivery.id_of_heldBy hsel
  | complete j status reason =>
    rcases claimed_of_step h with ⟨d, token, hj, h⟩
    simp only [Option.ite_none_right_eq_some, Option.some.injEq] at h
    rcases h with ⟨-, rfl⟩
    exact inv_release hinv hj rfl (fun _ => ⟨rfl, rfl, rfl, rfl⟩) fun _ => Delivery.id_of_heldBy
  | dispatch j row =>
    rcases claimed_of_step h with ⟨d, token, hj, h⟩
    simp only [Option.map_eq_some_iff] at h
    rcases h with ⟨⟨runs, run⟩, hadmit, rfl⟩
    -- the delivery was claimed, so it is known to be signed
    have hknown := hinv.workers _ (List.mem_of_getElem? hj) d.id rfl
    have hadmitted := inv_admitted hinv hadmit hknown
    exact inv_setWorker hadmitted hj fun x hx => hx
  | finish j status error =>
    cases hj : s.workers[j]? with
    | none => simp [next, hj] at h
    | some w =>
      cases w with
      | admitted d token run =>
        simp only [next, hj, Option.ite_none_right_eq_some, Option.some.injEq] at h
        rcases h with ⟨-, rfl⟩
        exact inv_release hinv hj rfl (fun _ => ⟨rfl, rfl, rfl, rfl⟩) fun _ => Delivery.id_of_heldBy
      | _ => simp [next, hj] at h
  | dropWorker j =>
    simp only [next, Option.map_eq_some_iff] at h
    rcases h with ⟨w, hj, rfl⟩
    exact inv_setWorker hinv hj fun x hx => by simp [Worker.delivery?] at hx

/-- As long as each forgery is rejected before a worker or a correctly signed request meets it,
none is ever dispatched and none stands in for a correctly signed request. -/
theorem ingress_authenticated (s : State)
    (hs : machine.ReachableUnder (fun s a => rejectsFirst s a = true) s) : Authenticated s := by
  have hinv : Inv s := by
    revert s
    refine Machine.invariant_under ?_ fun s a s' _ hinv hfirst h => inv_step hinv hfirst h
    rintro s ⟨hdeliveries, hruns, hrequests, hworkers, hduplicates⟩
    refine ⟨?_, ?_, ?_, ?_, ?_⟩
    · simp [hrequests]
    · simp [hworkers]
    · simp [hruns]
    · simp [hduplicates]
    · simp [hdeliveries]
  exact hinv.authenticated

/-! ## Runs -/

def State.empty : State := ⟨0, Table.empty, Table.empty, [], [], []⟩

theorem init_empty : machine.Init State.empty := ⟨rfl, rfl, rfl, rfl, rfl⟩

/-- The row that a webhook's admission writes. -/
def webhookRun (id : UUID) : Run := { id := id, triggerId := 7, status := .issueCreated }

/-- A forgery is rejected; the provider's own request with the same key is dispatched, and a
repetition of it is a duplicate. -/
def signedRun : List Act :=
  [.request 1 7 (some "guid") .invalid, .reject 0, .request 2 7 (some "guid") .valid,
    .claim 2 100, .admitRun 1 (webhookRun 50), .dispatch 0 (webhookRun 51), .finish 0 .dispatched none,
    .request 3 7 (some "guid") .valid]

theorem ingress_authenticated_signedRun :
    ∃ s, s.duplicates = [(.valid, 2)] ∧ s.deliveries.rows.map Delivery.autopilotRunId =
      [none, some 50] ∧ Authenticated s := by
  rcases Machine.reachableUnder_of_run machine rejectsFirst init_empty signedRun
    (fun s => s.duplicates == [(.valid, 2)] &&
      s.deliveries.rows.map Delivery.autopilotRunId == [none, some 50]) (by decide) with ⟨s, hs, h⟩
  simp only [Bool.and_eq_true, beq_iff_eq] at h
  exact ⟨s, h.1, h.2, ingress_authenticated s hs⟩

/-- A worker claims a forgery between its insertion and its rejection. -/
def forgedRun : List Act :=
  [.request 1 7 none .invalid, .claim 1 100, .dispatch 0 (webhookRun 50), .reject 0]

theorem queued_forgery_is_dispatched : ¬ ∀ s, machine.Reachable s → Authenticated s := by
  intro hclaim
  rcases Machine.reachable_of_run machine init_empty forgedRun
    (fun s => s.runs.rows.any fun r => s.deliveries.rows.any fun d =>
      r.webhookDeliveryId == some d.id && !d.signatureStatus.authentic) (by decide) with
    ⟨s, -, hs, hforged⟩
  simp only [List.any_eq_true, Bool.and_eq_true, beq_iff_eq, Bool.not_eq_true'] at hforged
  rcases hforged with ⟨r, hr, d, hd, hrun, hbad⟩
  have hsigned := (hclaim s hs).runs r hr d hd hrun
  rw [hbad] at hsigned
  simp at hsigned

end Orynx.Autopilot.Ingress
