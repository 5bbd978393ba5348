import TenantFlow.Modules.Organizations

/-!
# Billing: checkout, portal and Stripe events

A Stripe event is its verified JSON payload. What an event assigns to the subscription is
computed from the payload alone (`assignments`); which organization it is about may take a
look at the subscriptions (`resolveOrganizationId`).
-/

namespace TenantFlow

open JsonText Transactional

variable [Platform]

/-! ## The subscription record -/

def findSubscription (organizationId : UUID) (db : Db Row) : Option Subscription :=
  (db .subscriptions).find? (·.organizationId = organizationId)

def getOrCreateSubscription (organizationId : UUID) : App Subscription := do
  match ← select (findSubscription organizationId) with
  | some subscription => return subscription
  | none =>
    let d ← rowDefaults
    let subscription : Subscription :=
      { id := d.id, organizationId, plan := .free, status := .inactive, stripeCustomerId := none,
        stripeSubscriptionId := none, currentPeriodEnd := none, createdAt := d.createdAt,
        updatedAt := d.updatedAt }
    insertRow (t := .subscriptions) subscription
    return subscription

/-! ## Checkout and portal -/

/-- `create_checkout_session` of the Stripe client. -/
def createCheckoutSession (organizationId : UUID) (customerId : Option String)
    (priceId successUrl cancelUrl idempotencyKey : String) : App (String × String) := do
  let params : SessionCreateParams :=
    { price := priceId, successUrl, cancelUrl, clientReferenceId := organizationId.str,
      metadataOrganizationId := organizationId.str,
      subscriptionDataOrganizationId := organizationId.str,
      customer := customerId.filter (· ≠ "") }
  let session ← orRaise (.unhandled "StripeError")
    (← call (.checkoutSessionsCreate params idempotencyKey))
  match session.url with
  | none => raise (runtimeError "Stripe Checkout Session did not return a hosted URL")
  | some "" => raise (runtimeError "Stripe Checkout Session did not return a hosted URL")
  | some url => return (session.id, url)

/-- `CheckoutRequest`; the URLs are in the form Pydantic prints. -/
structure CheckoutRequest where
  plan : Plan
  successUrl : String
  cancelUrl : String
  deriving DecidableEq

def CheckoutRequest.valid (payload : CheckoutRequest) : Bool := payload.plan ≠ .free

def CheckoutRequest.modelDump (payload : CheckoutRequest) : Json :=
  .obj [("plan", .str payload.plan.str), ("success_url", .str payload.successUrl),
    ("cancel_url", .str payload.cancelUrl)]

structure CheckoutResponse where
  sessionId : String
  checkoutUrl : String
  deriving DecidableEq

def CheckoutResponse.modelDump (response : CheckoutResponse) : Json :=
  .obj [("session_id", .str response.sessionId), ("checkout_url", .str response.checkoutUrl)]

def CheckoutResponse.modelValidate (body : Json) : Except Failure CheckoutResponse :=
  match body with
  | .obj fields =>
    match lookup fields "session_id", lookup fields "checkout_url" with
    | some (.str sessionId), some (.str checkoutUrl) => .ok { sessionId, checkoutUrl }
    | _, _ => .error (.unhandled "ValidationError")
  | _ => .error (.unhandled "ValidationError")

def priceOf (plan : Plan) : String :=
  if plan = .pro then Platform.settings.stripePricePro else Platform.settings.stripePriceBusiness

def createBillingCheckout (organizationId : UUID) (payload : CheckoutRequest)
    (idempotencyKey : String) : App (String × String) := do
  if Platform.settings.stripeSecretKey = "" then
    raise (conflictError "STRIPE_NOT_CONFIGURED" "Stripe test mode is not configured")
  else if priceOf payload.plan = "" then
    raise (conflictError "STRIPE_PRICE_NOT_CONFIGURED"
      ("Stripe price for plan '" ++ payload.plan.str ++ "' is not configured"))
  else
    let subscription ← getOrCreateSubscription organizationId
    createCheckoutSession organizationId subscription.stripeCustomerId (priceOf payload.plan)
      payload.successUrl payload.cancelUrl idempotencyKey

def checkoutScope (organizationId userId : UUID) : String :=
  "billing:checkout:" ++ organizationId.str ++ ":" ++ userId.str

/-- `POST /organizations/{organization_id}/billing/checkout` -/
def checkout (organizationId userId : UUID) (args : Option (CheckoutRequest × String)) :
    App (Outcome CheckoutResponse) := do
  let context ← requirePermission .billingManage organizationId userId
  let (payload, key) ← validated args fun a => a.1.valid && validKey a.2
  idempotently context.user.id (some organizationId)
    (checkoutScope organizationId context.user.id) key payload.modelDump
    "Completed billing idempotency record is missing its response body"
    CheckoutResponse.modelValidate CheckoutResponse.modelDump do
      let session ← createBillingCheckout organizationId payload key
      return { sessionId := session.1, checkoutUrl := session.2 }

structure SubscriptionResponse where
  plan : Plan
  status : SubscriptionStatus
  currentPeriodEnd : Option Datetime

/-- `GET /organizations/{organization_id}/billing/subscription` -/
def subscriptionStatus (organizationId userId : UUID) : App SubscriptionResponse := do
  let _ ← requirePermission .billingManage organizationId userId
  let subscription ← getOrCreateSubscription organizationId
  return { plan := subscription.plan, status := subscription.status,
           currentPeriodEnd := subscription.currentPeriodEnd }

structure PortalResponse where
  sessionId : String
  portalUrl : String

/-- `POST /organizations/{organization_id}/billing/portal`, with `create_billing_portal`. -/
def portal (organizationId userId : UUID) (args : Option String) : App PortalResponse := do
  let _ ← requirePermission .billingManage organizationId userId
  let returnUrl ← validated args fun _ => true
  if Platform.settings.stripeSecretKey = "" then
    raise (conflictError "STRIPE_NOT_CONFIGURED" "Stripe test mode is not configured")
  else
    let subscription ← getOrCreateSubscription organizationId
    match subscription.stripeCustomerId.filter (· ≠ "") with
    | none =>
      raise (conflictError "STRIPE_CUSTOMER_UNAVAILABLE"
        "Complete a Stripe Checkout session before opening the customer portal")
    | some customerId =>
      let session ← orRaise (.unhandled "StripeError")
        (← call (.portalSessionsCreate customerId returnUrl))
      let url ← orRaise (.unhandled "ValidationError") session.url
      return { sessionId := session.id, portalUrl := url }

/-! ## Stripe events -/

/-- A verified event: its id, type, creation time and `data.object`; `none` where the
payload has no such object. -/
structure Event where
  id : String
  type : String
  created : Int
  object : Option (List (String × Json))

/-- `x.get(...)` on a value that may not be a dictionary. -/
def asDict : Json → Except Failure (List (String × Json))
  | .obj fields => .ok fields
  | _ => .error (.unhandled "AttributeError")

/-- `obj.get(key) or default` -/
def getOr (obj : List (String × Json)) (key : String) (default : Json) : Json :=
  match lookup obj key with
  | some x => if x.truthy then x else default
  | none => default

/-- `str(obj.get(key)) if obj.get(key) else None` -/
def getText (obj : List (String × Json)) (key : String) : Option String :=
  match lookup obj key with
  | some x => if x.truthy then some (pyStr x) else none
  | none => none

def extractCustomerId (obj : List (String × Json)) : Option String := getText obj "customer"

/-- `metadata.get("organization_id") or obj.get("client_reference_id")`, as a text. -/
def organizationIdRaw (obj : List (String × Json)) : Except Failure (Option String) := do
  let metadata ← asDict (getOr obj "metadata" (.obj []))
  return (getText metadata "organization_id").or (getText obj "client_reference_id")

def findByCustomer (customerId : String) (db : Db Row) : Option UUID :=
  ((db .subscriptions).find? (·.stripeCustomerId = some customerId)).map (·.organizationId)

def resolveOrganizationId (obj : List (String × Json)) : App (Option UUID) := do
  match ← Prog.ofExcept (organizationIdRaw obj) with
  | some text =>
    match UUID.ofString text with
    | some organizationId => return some organizationId
    | none => raise (.unhandled "ValueError")
  | none =>
    match extractCustomerId obj with
    | some customerId => select (findByCustomer customerId)
    | none => return none

/-- The attributes of the subscription that an event assigns, with their new values. -/
structure Assignments where
  plan : Option Plan := none
  status : Option SubscriptionStatus := none
  stripeCustomerId : Option (Option String) := none
  stripeSubscriptionId : Option (Option String) := none
  currentPeriodEnd : Option Datetime := none
  deriving DecidableEq

def Assignments.apply (a : Assignments) (s : Subscription) : Subscription :=
  { s with
    plan := a.plan.getD s.plan
    status := a.status.getD s.status
    stripeCustomerId := a.stripeCustomerId.getD s.stripeCustomerId
    stripeSubscriptionId := a.stripeSubscriptionId.getD s.stripeSubscriptionId
    currentPeriodEnd := a.currentPeriodEnd.or s.currentPeriodEnd }

/-- `ALLOWED_STRIPE_SUBSCRIPTION_STATES.get(raw_status, "inactive")` -/
def subscriptionState : String → SubscriptionStatus
  | "trialing" => .trialing
  | "active" => .active
  | "past_due" => .pastDue
  | "unpaid" => .pastDue
  | "paused" => .inactive
  | "incomplete" => .inactive
  | "incomplete_expired" => .inactive
  | "canceled" => .cancelled
  | _ => .inactive

/-- `(items[0].get("price") or {}).get("id")` of the first subscription item, if any. -/
def firstPriceId (obj : List (String × Json)) : Except Failure (Option Json) := do
  let items ← asDict (getOr obj "items" (.obj []))
  match getOr items "data" (.arr []) with
  | .arr [] => return none
  | .arr (item :: _) =>
    let item ← asDict item
    let price ← asDict (getOr item "price" (.obj []))
    return lookup price "id"
  | _ => throw (.unhandled "TypeError")

/-- The plan that a price stands for. -/
def planOfPrice : Option Json → Option Plan
  | some (.str price) =>
    if price = Platform.settings.stripePricePro then some .pro
    else if price = Platform.settings.stripePriceBusiness then some .business
    else none
  | _ => none

/-- `current_period_end` of a payload; booleans are integers in Python. -/
def periodEnd (obj : List (String × Json)) : Except Failure (Option Datetime) :=
  let seconds : Option ℚ := match lookup obj "current_period_end" with
    | some (.int n) => some n
    | some (.float q) => some q
    | some (.bool b) => some (if b then 1 else 0)
    | _ => none
  match seconds with
  | none => .ok none
  | some t =>
    match fromTimestamp t with
    | some at_ => .ok (some at_)
    | none => .error (.unhandled "ValueError")

def isSubscriptionEvent (eventType : String) : Bool :=
  "customer.subscription.".toList.isPrefixOf eventType.toList

/-- What `process_stripe_event` assigns to the subscription, by event type. -/
def assignments (eventType : String) (obj : List (String × Json)) : Except Failure Assignments :=
  if eventType = "checkout.session.completed" then
    .ok { stripeCustomerId := some (extractCustomerId obj), status := some .active }
  else if isSubscriptionEvent eventType then do
    let status :=
      if eventType = "customer.subscription.deleted" then .cancelled
      else subscriptionState (((lookup obj "status").map pyStr).getD "inactive")
    let price ← firstPriceId obj
    let currentPeriodEnd ← periodEnd obj
    return { stripeSubscriptionId := some (getText obj "id"),
             stripeCustomerId := some (extractCustomerId obj),
             status := some status, plan := planOfPrice price, currentPeriodEnd }
  else if eventType = "invoice.payment_failed" then .ok { status := some .pastDue }
  else .ok {}

/-- Some attribute of `new` differs from its loaded value. -/
def Subscription.dirty (loaded new : Subscription) : Bool :=
  new.plan ≠ loaded.plan || new.status ≠ loaded.status ||
    new.stripeCustomerId ≠ loaded.stripeCustomerId ||
    new.stripeSubscriptionId ≠ loaded.stripeSubscriptionId ||
    new.currentPeriodEnd ≠ loaded.currentPeriodEnd

/-- The columns that a flush writes after `new` was assigned over `loaded`. -/
def Subscription.patch (loaded new : Subscription) (updatedAt : Datetime) (r : Subscription) :
    Subscription :=
  { r with
    plan := assign loaded.plan new.plan r.plan
    status := assign loaded.status new.status r.status
    stripeCustomerId := assign loaded.stripeCustomerId new.stripeCustomerId r.stripeCustomerId
    stripeSubscriptionId :=
      assign loaded.stripeSubscriptionId new.stripeSubscriptionId r.stripeSubscriptionId
    currentPeriodEnd := assign loaded.currentPeriodEnd new.currentPeriodEnd r.currentPeriodEnd
    updatedAt }

/-- `index_elements=["stripe_event_id"]` -/
def sameStripeEventId (r s : StripeEvent) : Bool := decide (r.stripeEventId = s.stripeEventId)

/-- The business change of an event whose marker went in. -/
def applyStripeEvent (event : Event) (markerId organizationId : UUID)
    (obj : List (String × Json)) : App Unit := do
  let subscription ← getOrCreateSubscription organizationId
  let assigned ← Prog.ofExcept (assignments event.type obj)
  let new := assigned.apply subscription
  -- The assigned attributes go out with the flush of the audit row.
  let _ ← flush .subscriptions subscription.id (Subscription.dirty subscription new)
    (Subscription.patch subscription new)
  recordAudit organizationId none "billing.stripe_event_processed" "stripe_event" (some markerId)
    [("stripe_event_id", .str event.id), ("event_type", .str event.type)]

/-- What `process_stripe_event` does once the marker went in. -/
def handleStripeEvent (event : Event) (markerId : UUID) : App Unit := do
  let obj ← orRaise (.unhandled "KeyError") event.object
  match ← resolveOrganizationId obj with
  | some organizationId => applyStripeEvent event markerId organizationId obj
  | none => return ()

/-- `process_stripe_event`: whether the event was processed now. -/
def processStripeEvent (event : Event) : App Bool := do
  let processedAt ← now
  let id ← uuid4
  let inserted ← send (.insertOnConflictDoNothing .stripeEvents sameStripeEventId
    { id, stripeEventId := event.id, eventType := event.type, processedAt })
  if (← checked inserted) then
    handleStripeEvent event id
    return true
  else return false

end TenantFlow
