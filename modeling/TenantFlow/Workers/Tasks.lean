import TenantFlow.Infra.Idempotency
import TenantFlow.Modules.Organizations
import TenantFlow.Modules.Signing
import TenantFlow.Modules.Webhooks

/-!
# Background tasks

Each task opens sessions of its own. `deliver_webhook_task` runs two transactions with the
HTTP call between them, which are two programs here. The outcome counters in Redis are left
out: they swallow their errors.
-/

namespace TenantFlow

open JsonText Transactional

variable [Platform]

/-! ## Invitation emails -/

inductive EmailOutcome where
  | success | skipped
  deriving DecidableEq, Repr

/-- `send_invitation_task`; a failed email raises and the task is retried. -/
def sendInvitationTask (invitationId : UUID) (rawToken : String) : App EmailOutcome := do
  match ← select fun db => (db .invitations).find? (·.id = invitationId) with
  | none => raise (runtimeError "Invitation is not committed yet")
  | some invitation =>
    if invitation.status ≠ .pending then return .skipped
    else
      match ← select fun db => (db .organizations).find? (·.id = invitation.organizationId) with
      | none => return .skipped
      | some organization =>
        orRaise (.unhandled "OSError")
          (← call (.sendInvitationEmail invitation.email organization.name rawToken))
        return .success

/-! ## Webhook deliveries -/

/-- The HTTP request of an attempt. -/
structure Post where
  url : String
  body : List UInt8
  signature : String
  eventType : String
  eventId : String
  deriving DecidableEq, Repr

/-- How the first transaction ends: nothing to do, the delivery is dead, or an attempt is
begun, with the row as this session then holds it. -/
inductive Begun where
  | skipped
  | dead
  | attempt (delivery : WebhookDelivery) (post : Post)

/-- The columns that a flush writes after the task assigned `new` over `loaded`. -/
def WebhookDelivery.flushed (loaded new : WebhookDelivery) (updatedAt : Datetime)
    (r : WebhookDelivery) : WebhookDelivery :=
  { r with
    state := assign loaded.state new.state r.state
    attemptCount := assign loaded.attemptCount new.attemptCount r.attemptCount
    responseStatus := assign loaded.responseStatus new.responseStatus r.responseStatus
    lastError := assign loaded.lastError new.lastError r.lastError
    nextRetryAt := assign loaded.nextRetryAt new.nextRetryAt r.nextRetryAt
    updatedAt }

def WebhookDelivery.dirty (loaded new : WebhookDelivery) : Bool :=
  new.state ≠ loaded.state || new.attemptCount ≠ loaded.attemptCount ||
    new.responseStatus ≠ loaded.responseStatus || new.lastError ≠ loaded.lastError ||
    new.nextRetryAt ≠ loaded.nextRetryAt

def saveDelivery (loaded new : WebhookDelivery) : App Unit := do
  let _ ← flush .webhookDeliveries loaded.id (WebhookDelivery.dirty loaded new)
    (WebhookDelivery.flushed loaded new)
  return ()

def findDelivery (deliveryId : UUID) (db : Db Row) : Option WebhookDelivery :=
  (db .webhookDeliveries).find? (·.id = deliveryId)

/-- The first transaction of `deliver_webhook_task`. -/
def beginAttempt (deliveryId : UUID) : App Begun := do
  match ← selectForUpdate .webhookDeliveries (findDelivery deliveryId) with
  | none => raise (runtimeError "Webhook delivery is not committed yet")
  | some delivery =>
    if delivery.state = .delivered ∨ delivery.state = .dead then return .skipped
    else
      let endpoint ← select fun db => (db .webhookEndpoints).find? (·.id = delivery.endpointId)
      match endpoint.filter (·.isActive) with
      | none =>
        saveDelivery delivery { delivery with state := .dead }
        return .dead
      | some endpoint =>
        match ← validateWebhookTarget endpoint.url with
        | .error e =>
          saveDelivery delivery { delivery with state := .dead, lastError := some e }
          return .dead
        | .ok () =>
          let secret ← orRaise (.unhandled "InvalidToken")
            (← call (.fernetDecrypt endpoint.signingSecretEncrypted))
          let body := canonicalPayload delivery.payload
          let at_ ← now
          let new := { delivery with attemptCount := delivery.attemptCount + 1 }
          saveDelivery delivery new
          return .attempt new
            { url := endpoint.url, body,
              signature := createSignature secret body none (at_ / seconds 1),
              eventType := delivery.eventType, eventId := delivery.eventId.str }

/-- What the HTTP call of an attempt gives: a response that is no error status, or the text
of an `httpx.HTTPError`. -/
inductive HttpResult where
  | response (statusCode : Nat)
  | error (text : String)

inductive DeliveryOutcome where
  | skipped | dead | retry | delivered
  deriving DecidableEq, Repr

/-- What a failed attempt assigns to the row. -/
def WebhookDelivery.failed (text : String) (at_ : Datetime) (current : WebhookDelivery) :
    WebhookDelivery :=
  if current.attemptCount ≥ 5 then
    { current with lastError := some (String.ofList (text.toList.take 2000)), state := .dead }
  else
    { current with
      lastError := some (String.ofList (text.toList.take 2000))
      state := .retrying
      nextRetryAt := some (at_ + seconds (2 ^ current.attemptCount * 5)) }

/-- What a successful attempt assigns to the row. -/
def WebhookDelivery.succeeded (statusCode : Nat) (current : WebhookDelivery) : WebhookDelivery :=
  { current with
    state := .delivered, responseStatus := some statusCode, lastError := none,
    nextRetryAt := none }

/-- The second transaction of `deliver_webhook_task`. The session still holds the row as the
first transaction left it. -/
def finishAttempt (held : WebhookDelivery) (result : HttpResult) : App DeliveryOutcome := do
  let row ← selectForUpdate .webhookDeliveries (findDelivery held.id)
  match row, result with
  | none, .error _ => return .skipped
  | none, .response _ => return .delivered
  | some row, .error text =>
    let current := if Platform.getReloads then row else held
    let at_ ← now
    saveDelivery current (current.failed text at_)
    return if current.attemptCount ≥ 5 then .dead else .retry
  | some row, .response statusCode =>
    let current := if Platform.getReloads then row else held
    saveDelivery current (current.succeeded statusCode)
    return .delivered

/-! ## Maintenance -/

/-- `cleanup_expired_state_task` -/
def cleanupExpiredState : App Unit := do
  let at_ ← now
  deleteWhere .idempotencyRecords fun r => decide (r.expiresAt < at_)
  deleteWhere .refreshTokens fun r => decide (r.expiresAt < at_)
  -- `onupdate` of the timestamp applies to this statement too.
  let updatedAt ← now
  updateWhere .invitations (fun r => decide (r.status = .pending ∧ r.expiresAt < at_))
    (Invitation.setStatus .expired updatedAt)

end TenantFlow
