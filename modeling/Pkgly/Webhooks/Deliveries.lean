import Mathlib.Data.List.MinMax
import Mathlib.Data.Prod.Lex
import Pkgly.Algorithm.Pool
import Pkgly.Algorithm.Store

/-!
# The delivery queue of the webhooks

`webhook_deliveries` and the workers of `process_due_deliveries`: a worker claims a due delivery
(`claim_next_delivery`), sends its request (`deliver_once`), and writes the outcome
(`finalize_delivery_attempt`).  Each statement and each request is one step; a statement may fail, and
a worker may crash before any of its steps.  Times are in seconds; any time may pass before a step.

The job of a delivery (its target, headers and payload) is a parameter.  `sent` records for which
delivery each request was sent, and a claim carries the time at which it expires; the code keeps
neither.
-/

namespace Pkgly.Webhooks

def deliveryClaimTtl : ℕ := 300

def maxDeliveryAttempts : ℕ := 5

inductive WebhookDeliveryStatus
  | pending
  | processing
  | delivered
  | failed
deriving DecidableEq

/-- A row of `webhook_deliveries`. -/
structure Delivery (β : Type) where
  job : β
  status : WebhookDeliveryStatus
  attempts : ℕ
  nextAttemptAt : ℕ
  claimToken : Option ℕ
  claimedAt : Option ℕ
  claimExpiresAt : Option ℕ
  lastAttemptAt : Option ℕ
  deliveredAt : Option ℕ
  lastHttpStatus : Option ℕ
  lastError : Option String
  updatedAt : ℕ
deriving DecidableEq

structure ClaimedDelivery (β : Type) where
  id : ℕ
  claimToken : ℕ
  job : β
  attempts : ℕ
deriving DecidableEq

inductive DeliveryAttemptOutcome
  | delivered (httpStatus : Option ℕ)
  | retryable (httpStatus : Option ℕ) (error : String) (nextAttemptAt : ℕ)
  | failed (httpStatus : Option ℕ) (error : String)
deriving DecidableEq

/-- The queue, with the clock of the database and the numbers that come next. -/
structure Queue (β : Type) where
  now : ℕ
  deliveries : Store ℕ (Delivery β)
  nextId : ℕ
  nextToken : ℕ
  sent : List ℕ

variable {β : Type}

/-! ### Outcomes -/

def nextRetryAt (now attemptNumber : ℕ) : Option ℕ :=
  if attemptNumber ≥ maxDeliveryAttempts then none
  else some (now + 60 * 2 ^ (attemptNumber - 1))

def classifyHttpResponse (now attemptNumber status : ℕ) : DeliveryAttemptOutcome :=
  let error := "Remote endpoint returned HTTP " ++ toString status
  if 200 ≤ status ∧ status < 300 then .delivered (some status)
  else
    match (if 500 ≤ status ∧ status < 600 then nextRetryAt now attemptNumber else none) with
    | some nextAttemptAt => .retryable (some status) error nextAttemptAt
    | none => .failed (some status) error

/-- What `classify_transport_error` asks of an error. -/
structure UpstreamError where
  isEgressBlocked : Bool
  isTimeout : Bool
  isConnect : Bool
  status : Option ℕ
  message : String

def classifyTransportError (now attemptNumber : ℕ) (error : UpstreamError) :
    DeliveryAttemptOutcome :=
  if error.isEgressBlocked then
    .failed error.status "Webhook target is blocked by egress policy"
  else
    match (if error.isTimeout || error.isConnect || error.status.isNone then
        nextRetryAt now attemptNumber else none) with
    | some nextAttemptAt => .retryable error.status error.message nextAttemptAt
    | none => .failed error.status error.message

inductive Reply
  | response (status : ℕ)
  | error (e : UpstreamError)

def deliverOnce (clock : ℕ) (reply : Reply) (delivery : ClaimedDelivery β) :
    DeliveryAttemptOutcome :=
  match reply with
  | .response status => classifyHttpResponse clock (delivery.attempts + 1) status
  | .error e => classifyTransportError clock (delivery.attempts + 1) e

/-! ### Statements -/

def Delivery.isDue (now : ℕ) (d : Delivery β) : Bool :=
  decide (d.nextAttemptAt ≤ now) &&
    (d.status == .pending ||
      d.status == .processing && d.claimExpiresAt.all fun expiresAt => decide (expiresAt ≤ now))

/-- The row that is claimed next; rows that another statement has locked are skipped. -/
def Queue.candidate (q : Queue β) (skipped : List ℕ) : Option (Sigma fun _ : ℕ => Delivery β) :=
  (q.deliveries.entries.filter fun e => e.2.isDue q.now && !skipped.contains e.1).argmin
    fun e => toLex (e.2.nextAttemptAt, e.1)

def Delivery.claim (now token : ℕ) (d : Delivery β) : Delivery β :=
  { d with
    status := .processing
    claimToken := some token
    claimedAt := some now
    claimExpiresAt := some (now + deliveryClaimTtl)
    updatedAt := now }

def Queue.claimNextDelivery (q : Queue β) (skipped : List ℕ) :
    Queue β × Option (ClaimedDelivery β) :=
  match q.candidate skipped with
  | none => ({ q with nextToken := q.nextToken + 1 }, none)
  | some ⟨id, d⟩ =>
    ({ q with
      deliveries := q.deliveries.put id (d.claim q.now q.nextToken)
      nextToken := q.nextToken + 1 }, some ⟨id, q.nextToken, d.job, d.attempts⟩)

def Delivery.finalize (now : ℕ) (outcome : DeliveryAttemptOutcome) (d : Delivery β) : Delivery β :=
  let d := { d with
    attempts := d.attempts + 1
    lastAttemptAt := some now
    claimToken := none
    claimedAt := none
    claimExpiresAt := none
    updatedAt := now }
  match outcome with
  | .delivered httpStatus =>
    { d with status := .delivered, deliveredAt := some now, lastHttpStatus := httpStatus,
             lastError := none }
  | .retryable httpStatus error nextAttemptAt =>
    { d with status := .pending, nextAttemptAt, lastHttpStatus := httpStatus,
             lastError := some error }
  | .failed httpStatus error =>
    { d with status := .failed, lastHttpStatus := httpStatus, lastError := some error }

def Queue.finalizeDeliveryAttempt (q : Queue β) (delivery : ClaimedDelivery β)
    (outcome : DeliveryAttemptOutcome) : Queue β :=
  match q.deliveries.get delivery.id with
  | some d =>
    if d.claimToken = some delivery.claimToken then
      { q with deliveries := q.deliveries.put delivery.id (d.finalize q.now outcome) }
    else q
  | none => q

/-- The insertion of `enqueue_snapshot`. -/
def Queue.enqueue (q : Queue β) (job : β) : Queue β :=
  { q with
    deliveries := q.deliveries.put q.nextId
      ⟨job, .pending, 0, q.now, none, none, none, none, none, none, none, q.now⟩
    nextId := q.nextId + 1 }

/-! ### Workers -/

/-- Where a worker is in the loop of `process_due_deliveries`. -/
inductive Worker (β : Type)
  | idle
  | claimed (delivery : ClaimedDelivery β) (expiresAt : ℕ)
  | answered (delivery : ClaimedDelivery β) (expiresAt : ℕ) (outcome : DeliveryAttemptOutcome)
  | crashed

inductive Process (β : Type)
  | worker (w : Worker β)
  | enqueuing (job : β)
  | enqueued

inductive Input (β : Type)
  | worker
  | enqueue (job : β)

inductive Event
  | claims (skipped : List ℕ)
  | sends (clock : ℕ) (reply : Reply)
  | writes
  | fails
  | crashes

structure Choice where
  elapsed : ℕ
  event : Event

def Worker.next (event : Event) (q : Queue β) : Worker β → Option (Queue β × Worker β)
  | .idle =>
    match event with
    | .claims skipped =>
      match q.claimNextDelivery skipped with
      | (q', none) => some (q', .idle)
      | (q', some delivery) => some (q', .claimed delivery (q.now + deliveryClaimTtl))
    | .fails => some (q, .idle)
    | .crashes => some (q, .crashed)
    | _ => none
  | .claimed delivery expiresAt =>
    match event with
    | .sends clock reply =>
      some ({ q with sent := q.sent ++ [delivery.id] },
        .answered delivery expiresAt (deliverOnce clock reply delivery))
    | .crashes => some (q, .crashed)
    | _ => none
  | .answered delivery _ outcome =>
    match event with
    | .writes => some (q.finalizeDeliveryAttempt delivery outcome, .idle)
    | .fails => some (q, .idle)
    | .crashes => some (q, .crashed)
    | _ => none
  | .crashed => none

def Process.next (event : Event) (q : Queue β) : Process β → Option (Queue β × Process β)
  | .worker w => (w.next event q).map fun (q', w') => (q', .worker w')
  | .enqueuing job =>
    match event with
    | .writes => some (q.enqueue job, .enqueued)
    | .fails => some (q, .enqueued)
    | _ => none
  | .enqueued => none

def webhookService (β : Type) : Program (Queue β) (Process β) (Input β) Choice where
  init
    | .worker => .worker .idle
    | .enqueue job => .enqueuing job
  next choice q p := p.next choice.event { q with now := q.now + choice.elapsed }

end Pkgly.Webhooks
