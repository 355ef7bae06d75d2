import Mathlib.Data.List.MinMax
import Orynx.Autopilot.Run

/-! # `webhook_delivery`

One row an inbound request, with the statements of
`server/pkg/db/queries/webhook_delivery.sql` and `persistInboundDelivery` of the ingress
handler. Headers, body and the recorded response are left out.
-/

namespace Orynx.Autopilot

open Lib

inductive SignatureStatus where
  | notRequired
  | valid
  | invalid
  | missing
deriving DecidableEq, Repr

/-- The trigger needs no signature, or has got the right one. -/
def SignatureStatus.authentic : SignatureStatus → Bool
  | .notRequired | .valid => true
  | .invalid | .missing => false

inductive DeliveryStatus where
  | queued
  | dispatched
  | rejected
  | ignored
  | failed
deriving DecidableEq, Repr

/-- A row of `webhook_delivery`. -/
structure Delivery where
  id : UUID
  triggerId : UUID
  dedupeKey : Option String := none
  signatureStatus : SignatureStatus
  status : DeliveryStatus := .queued
  attemptCount : Int := 1
  autopilotRunId : Option UUID := none
  error : Option String := none
  leaseToken : Option UUID := none
  leaseExpiresAt : Option Int := none
  availableAt : Int
  dispatchAttempts : Int := 0
  createdAt : Int
deriving DecidableEq, Repr

/-- `status NOT IN ('rejected', 'failed')`. -/
def Delivery.live (d : Delivery) : Bool := d.status != .rejected && d.status != .failed

/-- Primary key and `idx_webhook_delivery_dedupe`. -/
def deliverySchema : Schema Delivery UUID (UUID × String) where
  key := Delivery.id
  index d := if d.live then d.dedupeKey.map fun k => (d.triggerId, k) else none

abbrev DeliveryTable := Table deliverySchema

@[simp] theorem deliverySchema_key (d : Delivery) : deliverySchema.key d = d.id := rfl

theorem deliverySchema_index {d : Delivery} {triggerId : UUID} {k : String} (hlive : d.live = true)
    (ht : d.triggerId = triggerId) (hk : d.dedupeKey = some k) :
    deliverySchema.index d = some (triggerId, k) := by
  simp [deliverySchema, hlive, ht, hk]

theorem eq_of_deliveryId {q : DeliveryTable} {d d' : Delivery} (hd : d ∈ q.rows) (hd' : d' ∈ q.rows)
    (h : d.id = d'.id) : d = d' :=
  q.eq_of_key hd hd' h

/-! ## Ingress -/

/-- The order of instants that computes. -/
local instance createdOrder : Preorder Int := Int.instLinearOrder.toPreorder

/-- `GetWebhookDeliveryByTriggerAndDedupe`: live rows first, then the newest. -/
def getWebhookDeliveryByTriggerAndDedupe (q : DeliveryTable) (triggerId : UUID) (k : String) :
    Option Delivery :=
  let rows := q.rows.filter fun d => d.triggerId == triggerId && d.dedupeKey == some k
  ((rows.filter Delivery.live).argmax Delivery.createdAt).or (rows.argmax Delivery.createdAt)

def bumpWebhookDeliveryAttempt (id : UUID) : Update Delivery where
  sel d := d.id == id
  set d := { d with attemptCount := d.attemptCount + 1 }

/-- `persistInboundDelivery`: the row, and whether it is an earlier one. -/
def persistInboundDelivery (q : DeliveryTable) (d : Delivery) :
    Option (DeliveryTable × Delivery × Bool) :=
  match q.insert? d with
  | some q' => some (q', d, false)
  | none =>
    match d.dedupeKey.bind (getWebhookDeliveryByTriggerAndDedupe q d.triggerId) with
    | some existing =>
      (q.update? (bumpWebhookDeliveryAttempt existing.id)).map fun q' =>
        (q', (bumpWebhookDeliveryAttempt existing.id).set existing, true)
    | none => none

/-- `UpdateWebhookDeliveryTerminal`: by id, whatever the status. -/
def updateWebhookDeliveryTerminal (id : UUID) (status : DeliveryStatus) (error : String) :
    Update Delivery where
  sel d := d.id == id
  set d := { d with status := status, error := some error }

/-! ## Workers -/

/-- `status = 'queued' AND available_at <= now() AND` the lease is not held. -/
def Delivery.due (now : Int) (d : Delivery) : Bool :=
  d.status == .queued && decide (d.availableAt ≤ now) && d.leaseExpiresAt.all (· ≤ now)

/-- Two minutes in nanoseconds. -/
def leaseInterval : Int := 120 * 1000000000

/-- `ClaimQueuedWebhookDelivery`, for the row that it picks; `SKIP LOCKED` may pick any. -/
def claimQueuedWebhookDelivery (id token : UUID) (now : Int) : Update Delivery where
  sel d := d.id == id && d.due now
  set d := { d with leaseToken := some token, leaseExpiresAt := some (now + leaseInterval) }

/-- The guard of the statements of a claim's holder. -/
def Delivery.heldBy (id token : UUID) (d : Delivery) : Bool :=
  d.id == id && d.leaseToken == some token && d.status == .queued

def deferClaimedWebhookDelivery (id token : UUID) (availableAt : Int) : Update Delivery where
  sel := Delivery.heldBy id token
  set d := { d with availableAt := availableAt, leaseToken := none, leaseExpiresAt := none }

def retryClaimedWebhookDelivery (id token : UUID) (availableAt : Int) (error : String) :
    Update Delivery where
  sel := Delivery.heldBy id token
  set d := { d with
    availableAt := availableAt, dispatchAttempts := d.dispatchAttempts + 1, error := some error
    leaseToken := none, leaseExpiresAt := none }

def completeClaimedWebhookDelivery (id token : UUID) (status : DeliveryStatus)
    (autopilotRunId : Option UUID) (error : Option String) : Update Delivery where
  sel := Delivery.heldBy id token
  set d := { d with
    status := status, autopilotRunId := autopilotRunId
    dispatchAttempts := d.dispatchAttempts + 1, error := error
    leaseToken := none, leaseExpiresAt := none }

/-- `webhookWorkerMaxAttempts`. -/
def webhookWorkerMaxAttempts : Int := 5

/-- `retryOrFail`. -/
def retryOrFail (d : Delivery) (token : UUID) (availableAt : Int) (cause : String) :
    Update Delivery :=
  if webhookWorkerMaxAttempts ≤ d.dispatchAttempts + 1 then
    completeClaimedWebhookDelivery d.id token .failed none (some cause)
  else retryClaimedWebhookDelivery d.id token availableAt cause

/-! ## Admission -/

/-- `AdmitAutopilotWebhookDelivery`: the run of the delivery, which `row` becomes if there is
none. The unique index makes the lookup and the insert one step. -/
def admitAutopilotWebhookDelivery (q : RunTable) (row : Run) (deliveryId : UUID) :
    Option (RunTable × Run) :=
  match getAutopilotRunByWebhookDelivery q deliveryId with
  | some r => some (q, r)
  | none =>
    let r := { row with webhookDeliveryId := some deliveryId, plannedAt := none }
    (q.insert? r).map fun q' => (q', r)

/-! ## What the statements do to a row -/

theorem Delivery.id_of_heldBy {id token : UUID} {d : Delivery} (h : d.heldBy id token = true) :
    d.id = id := by
  simp only [Delivery.heldBy, Bool.and_eq_true, beq_iff_eq] at h
  exact h.1.1

theorem Delivery.queued_of_heldBy {id token : UUID} {d : Delivery}
    (h : d.heldBy id token = true) : d.status = .queued := by
  simp only [Delivery.heldBy, Bool.and_eq_true, beq_iff_eq] at h
  exact h.2

/-- The row keeps its identity and its signature. -/
structure SameDelivery (d d' : Delivery) : Prop where
  id : d'.id = d.id
  triggerId : d'.triggerId = d.triggerId
  dedupeKey : d'.dedupeKey = d.dedupeKey
  signatureStatus : d'.signatureStatus = d.signatureStatus

theorem SameDelivery.refl (d : Delivery) : SameDelivery d d := ⟨rfl, rfl, rfl, rfl⟩

theorem SameDelivery.apply {u : Update Delivery} {d : Delivery} (h : SameDelivery d (u.set d)) :
    SameDelivery d (u.apply d) := by
  cases hsel : u.sel d with
  | true => rwa [Update.apply_of_sel hsel]
  | false =>
    rw [Update.apply_of_not_sel hsel]
    exact .refl d

theorem retryOrFail_sameDelivery (d : Delivery) (token : UUID) (availableAt : Int)
    (cause : String) (x : Delivery) :
    SameDelivery x ((retryOrFail d token availableAt cause).set x) := by
  unfold retryOrFail
  split <;> exact ⟨rfl, rfl, rfl, rfl⟩

theorem getWebhookDeliveryByTriggerAndDedupe_spec {q : DeliveryTable} {triggerId : UUID}
    {k : String} {d : Delivery}
    (h : getWebhookDeliveryByTriggerAndDedupe q triggerId k = some d) :
    d ∈ q.rows ∧ d.triggerId = triggerId ∧ d.dedupeKey = some k ∧
      (d.live = true ∨ ∀ d' ∈ q.rows, d'.triggerId = triggerId → d'.dedupeKey = some k →
        d'.live = false) := by
  unfold getWebhookDeliveryByTriggerAndDedupe at h
  generalize hrows : (q.rows.filter fun d => d.triggerId == triggerId && d.dedupeKey == some k) =
    rows at h
  have hmem : ∀ x, x ∈ rows ↔ x ∈ q.rows ∧ x.triggerId = triggerId ∧ x.dedupeKey = some k := by
    intro x
    rw [← hrows, List.mem_filter]
    simp
  rcases Option.or_eq_some_iff.1 h with hlive | ⟨hnone, hany⟩
  · have hd := List.argmax_mem hlive
    rw [List.mem_filter, hmem] at hd
    exact ⟨hd.1.1, hd.1.2.1, hd.1.2.2, .inl hd.2⟩
  · have hd := (hmem d).1 (List.argmax_mem hany)
    refine ⟨hd.1, hd.2.1, hd.2.2, .inr fun d' hd' ht hk => ?_⟩
    rw [List.argmax_eq_none, List.filter_eq_nil_iff] at hnone
    simpa using hnone d' ((hmem d').2 ⟨hd', ht, hk⟩)

end Orynx.Autopilot
