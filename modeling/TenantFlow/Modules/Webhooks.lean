import TenantFlow.Modules.Audit

/-!
# Webhook endpoints, events and deliveries
-/

namespace TenantFlow

open JsonText Transactional

variable [Platform]

/-- `SUPPORTED_EVENTS` -/
def supportedEvents : List String :=
  ["project.created", "project.updated", "project.deleted", "task.created", "task.updated",
    "task.completed", "task.deleted", "member.invited"]

/-! ## Targets -/

/-- `validate_webhook_target`; a `ValueError` is given back as its text. -/
def validateWebhookTarget (url : String) : App (Except String Unit) := do
  if Platform.settings.webhookAllowPrivateTargets then return .ok ()
  else
    let parsed := Platform.urlsplit url
    match parsed.hostname with
    | none => return .error "Webhook target must contain a hostname"
    | some "" => return .error "Webhook target must contain a hostname"
    | some host =>
      match Platform.ipIsGlobal host with
      | some true => return .ok ()
      | some false => return .error "Webhook target must resolve to a public IP address"
      | none =>
        let port := (parsed.port.filter (· ≠ 0)).getD (if parsed.scheme = "https" then 443 else 80)
        match ← call (.getaddrinfo host port) with
        | none => return .error "Webhook target hostname could not be resolved"
        | some resolved =>
          if resolved.isEmpty || resolved.any (fun a => Platform.ipIsGlobal a ≠ some true) then
            return .error "Webhook target must resolve only to public IP addresses"
          else return .ok ()

/-! ## Events -/

/-- The deliveries of one event, one for each subscribed endpoint. -/
def addDeliveries (eventId : UUID) (eventType : String) (payload : List (String × Json)) :
    List WebhookEndpoint → App (List UUID)
  | [] => return []
  | endpoint :: endpoints =>
    if eventType ∈ endpoint.events then do
      let d ← rowDefaults
      insertRow (t := .webhookDeliveries)
        { id := d.id, eventId, endpointId := endpoint.id, eventType,
          payload := .obj [("id", .str eventId.str), ("type", .str eventType),
            ("data", .obj payload)],
          state := .pending, attemptCount := 0, responseStatus := none, lastError := none,
          nextRetryAt := none, createdAt := d.createdAt, updatedAt := d.updatedAt }
      let rest ← addDeliveries eventId eventType payload endpoints
      return d.id :: rest
    else addDeliveries eventId eventType payload endpoints

def deliverWebhookTaskDelay (deliveryId : UUID) : App Unit := do
  orRaise (.unhandled "OperationalError") (← call (.deliverWebhookTask deliveryId.str))

def publishDeliveries : List UUID → App Unit
  | [] => return ()
  | deliveryId :: rest => do
    deliverWebhookTaskDelay deliveryId
    publishDeliveries rest

def emitEvent (organizationId : UUID) (eventType : String) (payload : List (String × Json)) :
    App UUID := do
  let eventId ← uuid4
  let endpoints ← select fun db =>
    (db .webhookEndpoints).filter fun e => e.organizationId = organizationId ∧ e.isActive
  let deliveryIds ← addDeliveries eventId eventType payload endpoints
  publishDeliveries deliveryIds
  return eventId

/-! ## Endpoints -/

structure WebhookCreate where
  url : String
  events : List String

structure WebhookResponse where
  id : UUID
  url : String
  events : List String
  isActive : Bool
  signingSecret : Option String

/-- `sorted(set(items))` -/
def sortedSet (items : List String) : List String := items.dedup.mergeSort (· ≤ ·)

/-- `create_webhook_endpoint`; a `ValueError` is given back as its text. -/
def createWebhookEndpoint (organizationId userId : UUID) (payload : WebhookCreate) :
    App (Except String (WebhookEndpoint × String)) := do
  let unknown := payload.events.filter (· ∉ supportedEvents)
  if unknown ≠ [] then
    return .error ("Unsupported events: " ++ ", ".intercalate (sortedSet unknown))
  else
    match ← validateWebhookTarget payload.url with
    | .error e => return .error e
    | .ok () =>
      let token ← call (.tokenUrlsafe 32)
      let secret := "whsec_" ++ token
      let encrypted ← call (.fernetEncrypt secret)
      let d ← rowDefaults
      let endpoint : WebhookEndpoint :=
        { id := d.id, organizationId, url := payload.url,
          signingSecretHash := Platform.sha256 secret, signingSecretEncrypted := encrypted,
          events := sortedSet payload.events, isActive := true, createdBy := userId,
          createdAt := d.createdAt, updatedAt := d.updatedAt }
      insertRow (t := .webhookEndpoints) endpoint
      return .ok (endpoint, secret)

/-- `POST /organizations/{organization_id}/webhooks` -/
def createWebhook (organizationId userId : UUID) (args : Option WebhookCreate) :
    App WebhookResponse := do
  let context ← requirePermission .webhookManage organizationId userId
  let payload ← validated args fun p => 1 ≤ p.events.length && p.events.length ≤ 20
  match ← createWebhookEndpoint organizationId context.user.id payload with
  | .error e => raise (.http 422 e)
  | .ok (endpoint, secret) =>
    recordAudit organizationId (some context.user.id) "webhook.created" "webhook_endpoint"
      (some endpoint.id) []
    return { id := endpoint.id, url := endpoint.url, events := endpoint.events,
             isActive := endpoint.isActive, signingSecret := some secret }

/-- `GET /organizations/{organization_id}/webhooks` -/
def listWebhooks (organizationId userId : UUID) : App (List WebhookResponse) := do
  let _ ← requirePermission .webhookManage organizationId userId
  let rows ← select fun db =>
    orderByDesc (fun a b => decide (a.createdAt ≤ b.createdAt))
      ((db .webhookEndpoints).filter (·.organizationId = organizationId))
  return rows.map fun x =>
    { id := x.id, url := x.url, events := x.events, isActive := x.isActive, signingSecret := none }

def findEndpoint (organizationId endpointId : UUID) (db : Db Row) : Option WebhookEndpoint :=
  (db .webhookEndpoints).find? fun e => e.id = endpointId ∧ e.organizationId = organizationId

/-- `DELETE /organizations/{organization_id}/webhooks/{endpoint_id}` -/
def deactivateWebhook (organizationId userId : UUID) (args : Option UUID) : App Unit := do
  let context ← requirePermission .webhookManage organizationId userId
  let endpointId ← validated args fun _ => true
  match ← select (findEndpoint organizationId endpointId) with
  | none => raise (notFoundError "WEBHOOK_ENDPOINT_NOT_FOUND" "Webhook endpoint was not found")
  | some endpoint =>
    let _ ← flush .webhookEndpoints endpoint.id endpoint.isActive
      fun updatedAt r => { r with isActive := false, updatedAt }
    recordAudit organizationId (some context.user.id) "webhook.deactivated" "webhook_endpoint"
      (some endpoint.id) []

/-! ## Deliveries -/

structure WebhookDeliveryResponse where
  id : UUID
  eventId : UUID
  endpointId : UUID
  eventType : String
  state : DeliveryState
  attemptCount : Nat
  responseStatus : Option Nat
  lastError : Option String
  nextRetryAt : Option Datetime
  createdAt : Datetime
  updatedAt : Datetime

def deliveryResponse (d : WebhookDelivery) : WebhookDeliveryResponse :=
  { id := d.id, eventId := d.eventId, endpointId := d.endpointId, eventType := d.eventType,
    state := d.state, attemptCount := d.attemptCount, responseStatus := d.responseStatus,
    lastError := d.lastError, nextRetryAt := d.nextRetryAt, createdAt := d.createdAt,
    updatedAt := d.updatedAt }

/-- The join of deliveries with the endpoints of an organization. -/
def deliveriesOf (organizationId : UUID) (db : Db Row) : List (WebhookDelivery × WebhookEndpoint) :=
  (db .webhookDeliveries).flatMap fun d =>
    ((db .webhookEndpoints).filter fun e =>
      e.id = d.endpointId ∧ e.organizationId = organizationId).map fun e => (d, e)

def parseDeliveryState : String → Option DeliveryState
  | "pending" => some .pending
  | "delivered" => some .delivered
  | "retrying" => some .retrying
  | "dead" => some .dead
  | _ => none

/-- `GET /organizations/{organization_id}/webhooks/deliveries` -/
def listDeliveries (organizationId userId : UUID) (args : Option (Option String × Nat)) :
    App (List WebhookDeliveryResponse) := do
  let _ ← requirePermission .webhookManage organizationId userId
  let (state, limit) ← validated args fun a => 1 ≤ a.2 && a.2 ≤ 200
  let state ← match state with
    | none => pure none
    | some text =>
      match parseDeliveryState text with
      | none => raise (.http 422 "Unsupported delivery state")
      | some state => pure (some state)
  let rows ← select fun db =>
    (orderByDesc (fun a b => decide (a.createdAt ≤ b.createdAt))
      (((deliveriesOf organizationId db).map Prod.fst).filter fun d =>
        state.all (d.state = ·))).take limit
  return rows.map deliveryResponse

/-- What `retry_delivery` assigns. -/
def WebhookDelivery.retried (d : WebhookDelivery) : WebhookDelivery :=
  { d with state := .retrying, nextRetryAt := none, lastError := none }

/-- The columns that a flush writes after `new` was assigned over `loaded`. -/
def WebhookDelivery.patch (loaded new : WebhookDelivery) (updatedAt : Datetime)
    (r : WebhookDelivery) : WebhookDelivery :=
  { r with
    state := assign loaded.state new.state r.state
    nextRetryAt := assign loaded.nextRetryAt new.nextRetryAt r.nextRetryAt
    lastError := assign loaded.lastError new.lastError r.lastError
    updatedAt }

/-- `POST /organizations/{organization_id}/webhooks/deliveries/{delivery_id}/retry` -/
def retryDelivery (organizationId userId : UUID) (args : Option UUID) :
    App WebhookDeliveryResponse := do
  let context ← requirePermission .webhookManage organizationId userId
  let deliveryId ← validated args fun _ => true
  -- The join is locked on both sides.
  let found ← send (.selectForUpdate
    (fun db => (deliveriesOf organizationId db).find? (·.1.id = deliveryId))
    fun found => found.toList.flatMap fun (d, e) =>
      [(.webhookDeliveries, d.id), (.webhookEndpoints, e.id)])
  match found with
  | none => raise (notFoundError "WEBHOOK_DELIVERY_NOT_FOUND" "Webhook delivery was not found")
  | some (delivery, _) =>
    let endpoint ← select fun db => (db .webhookEndpoints).find? (·.id = delivery.endpointId)
    if !endpoint.any (·.isActive) then
      raise (conflictError "WEBHOOK_ENDPOINT_INACTIVE" "Webhook endpoint is inactive")
    else if delivery.state = .delivered then
      raise (conflictError "WEBHOOK_ALREADY_DELIVERED" "Delivered webhooks are not retried")
    else
      let new := delivery.retried
      let updatedAt ← flush .webhookDeliveries delivery.id
        (new.state ≠ delivery.state || new.nextRetryAt ≠ delivery.nextRetryAt ||
          new.lastError ≠ delivery.lastError) (WebhookDelivery.patch delivery new)
      recordAudit organizationId (some context.user.id) "webhook.delivery_retried"
        "webhook_delivery" (some delivery.id) []
      deliverWebhookTaskDelay delivery.id
      return deliveryResponse { new with updatedAt := updatedAt.getD delivery.updatedAt }

end TenantFlow
