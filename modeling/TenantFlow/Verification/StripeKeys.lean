import TenantFlow.Verification.Idempotency
import TenantFlow.Verification.StripeOnce

/-!
# The idempotency key sent to Stripe

A checkout forwards its `Idempotency-Key` to Stripe as it came, while the local record of
the key is scoped by organization and user. Two calls with one key pass the same parameters
as long as requests share a key only if they ask for the same thing, and the customer of the
organization stays the same between the calls that share a key.
-/

namespace TenantFlow

open JsonText Transactional

section Keys

variable [Platform]

/-! ## Checkouts and Stripe events -/

inductive BillingRequest where
  | checkout (organizationId userId : UUID) (args : Option (CheckoutRequest × String))
  | event (e : Event)

/-- A request cut down to what matters here: whether a checkout was executed or replayed. -/
def BillingRequest.handler : BillingRequest → App (Option Bool)
  | .checkout organizationId userId args => do
    return some (← TenantFlow.checkout organizationId userId args).isExecuted
  | .event e => do
    let _ ← processStripeEvent e
    return none

/-- A checkout request whose parameters parse. -/
structure Checkout where
  organizationId : UUID
  userId : UUID
  payload : CheckoutRequest
  key : String

def BillingRequest.parsed : BillingRequest → Option Checkout
  | .checkout organizationId userId args =>
    args.map fun a => ⟨organizationId, userId, a.1, a.2⟩
  | .event _ => none

/-- The customer that a checkout of the organization passes to Stripe. -/
def customerOf (organizationId : UUID) (db : Db Row) : Option String :=
  ((findSubscription organizationId db).bind (·.stripeCustomerId)).filter (· ≠ "")

def Checkout.params (c : Checkout) (customer : Option String) : SessionCreateParams where
  price := priceOf c.payload.plan
  successUrl := c.payload.successUrl
  cancelUrl := c.payload.cancelUrl
  clientReferenceId := c.organizationId.str
  metadataOrganizationId := c.organizationId.str
  subscriptionDataOrganizationId := c.organizationId.str
  customer := customer

variable {ι : Type} [DecidableEq ι]

/-- Calls of `create_checkout_session` with one key pass the same parameters. -/
def KeysDetermineParams (sys : Sys Row UUID Answer Failure (Option Bool) ι) : Prop :=
  ∀ i j key params params' x x',
    (i, .called (.checkoutSessionsCreate params key) x) ∈ sys.trace →
    (j, .called (.checkoutSessionsCreate params' key) x') ∈ sys.trace → params = params'

/-! ## The condition -/

/-- Requests share a key only if they ask for the same thing. -/
def SameKeySameRequest (requests : ι → BillingRequest) : Prop :=
  ∀ i j c c', (requests i).parsed = some c → (requests j).parsed = some c' → c.key = c'.key →
    c.organizationId = c'.organizationId ∧ priceOf c.payload.plan = priceOf c'.payload.plan ∧
      c.payload.successUrl = c'.payload.successUrl ∧ c.payload.cancelUrl = c'.payload.cancelUrl

def HasCalled (sys : Sys Row UUID Answer Failure (Option Bool) ι) (i : ι) : Prop :=
  ∃ params key x, (i, .called (.checkoutSessionsCreate params key) x) ∈ sys.trace

/-- The request has begun and not ended. -/
def Running (requests : ι → BillingRequest) (sys : Sys Row UUID Answer Failure (Option Bool) ι)
    (i : ι) : Prop :=
  ∃ tx, sys.proc i = .active tx ∧ tx ≠ { prog := (requests i).handler }

def Ended (sys : Sys Row UUID Answer Failure (Option Bool) ι) (i : ι) : Prop :=
  ∀ tx, sys.proc i ≠ .active tx

def Committed (sys : Sys Row UUID Answer Failure (Option Bool) ι) (i : ι) : Prop :=
  ∃ a, sys.proc i = .committed a

/-- Of two requests with one key, one has called Stripe or is running, and the other has still
to call. The repetition of a committed request by the same user is replayed and does not call. -/
def BetweenCalls (requests : ι → BillingRequest)
    (sys : Sys Row UUID Answer Failure (Option Bool) ι) (i j : ι) (c c' : Checkout) : Prop :=
  (HasCalled sys i ∨ Running requests sys i) ∧ ¬ Ended sys j ∧ ¬ HasCalled sys j ∧
    ¬ (Committed sys i ∧ c.userId = c'.userId)

/-- The step does not change the customer of an organization between two calls with one key. -/
def KeepsCustomer (requests : ι → BillingRequest)
    (sys sys' : Sys Row UUID Answer Failure (Option Bool) ι) : Prop :=
  ∀ i j c c', i ≠ j → (requests i).parsed = some c → (requests j).parsed = some c' →
    c.key = c'.key → BetweenCalls requests sys i j c c' →
    customerOf c.organizationId sys'.db = customerOf c.organizationId sys.db

/-! ## The phases of a checkout -/

inductive CallPhase where
  | before
  /-- The idempotency record is inserted. -/
  | owner
  /-- The subscription is loaded, with this customer. -/
  | loaded (customer : Option String)
  | called (customer : Option String)

/-- Phases in which the subscription is still to be loaded. -/
def CallPhase.Early : CallPhase → Prop
  | .before => True
  | .owner => True
  | .loaded _ => False
  | .called _ => False

/-- The statement does not create a checkout session. -/
def Quiet : Stmt Row UUID Call → Prop
  | .call (.checkoutSessionsCreate _ _) => False
  | _ => True

inductive CallMove (request : BillingRequest) (view : Db Row) :
    Stmt Row UUID Call → List (Op Row UUID) → CallPhase → CallPhase → Prop where
  | quiet {s : Stmt Row UUID Call} {ops : List (Op Row UUID)} {φ : CallPhase} (hs : Quiet s)
      (hops : request.parsed.isSome → φ.Early → ∀ op ∈ ops, op.table ≠ .subscriptions) :
      CallMove request view s ops φ φ
  | own {s : Stmt Row UUID Call} {ops : List (Op Row UUID)} (hs : Quiet s)
      (hown : ∃ op ∈ ops, op.table = .idempotencyRecords)
      (hops : ∀ op ∈ ops, op.table ≠ .subscriptions) : CallMove request view s ops .before .owner
  | load {s : Stmt Row UUID Call} {c : Checkout} (hs : Quiet s)
      (hc : request.parsed = some c) :
      CallMove request view s [] .owner (.loaded (customerOf c.organizationId view))
  | call {c : Checkout} {customer : Option String} (hc : request.parsed = some c) :
      CallMove request view (.call (.checkoutSessionsCreate (c.params customer) c.key)) []
        (.loaded customer) (.called customer)

def callDiscipline (requests : ι → BillingRequest) :
    Discipline Row UUID Answer Failure ι CallPhase where
  sees _ _ _ := True
  next i φ s view ext φ' := CallMove (requests i) view s (s.eval ext view).2 φ φ'
  fails _ _ _ := True

section Obeys

variable {requests : ι → BillingRequest} {i : ι} {β : Type} {post : CallPhase → β → Prop}
  {φ : CallPhase}

/-- Reads, clock and random values, and writes elsewhere. -/
def Mild (s : Stmt Row UUID Call) : Prop := Quiet s ∧ s.Spares .subscriptions

omit [DecidableEq ι] in
theorem keys_of_mild {p : App β} {χ : β → Prop}
    (h : p.Every Stmt.Possible Mild (fun _ => True) χ) :
    (callDiscipline requests).Obeys i (fun φ' b => φ' = φ ∧ χ b) φ p :=
  Discipline.obeys_of_every
    (fun _ view ext hs => .quiet hs.1 fun _ _ => hs.2.ops_table ext view) h

omit [DecidableEq ι] in
/-- Where the subscription is loaded or no checkout runs, the table may be written. -/
theorem keys_of_quiet {p : App β} {χ : β → Prop}
    (hφ : (requests i).parsed.isSome → ¬ φ.Early)
    (h : p.Every Stmt.Possible Quiet (fun _ => True) χ) :
    (callDiscipline requests).Obeys i (fun φ' b => φ' = φ ∧ χ b) φ p :=
  Discipline.obeys_of_every
    (fun _ _ _ hs => .quiet hs fun hparsed hearly => absurd hearly (hφ hparsed)) h

omit [Platform] in
theorem mild_select {γ : Type} (q : Db Row → γ) :
    (select q).Every Stmt.Possible Mild (fun _ => True) (fun _ => True) :=
  ⟨⟨trivial, trivial⟩, fun _ _ => trivial⟩

omit [Platform] in
theorem mild_now : now.Every Stmt.Possible Mild (fun _ => True) (fun _ => True) :=
  ⟨⟨trivial, trivial⟩, fun _ _ => trivial⟩

omit [Platform] in
theorem mild_uuid4 : uuid4.Every Stmt.Possible Mild (fun _ => True) (fun _ => True) :=
  ⟨⟨trivial, trivial⟩, fun _ _ => trivial⟩

omit [Platform] in
theorem mild_getCurrentUser (userId : UUID) :
    (getCurrentUser userId).Every Stmt.Possible Mild (fun _ => True) (fun _ => True) := by
  refine Prog.every_bind (mild_select _) fun user _ => ?_
  cases user with
  | none => trivial
  | some user =>
    dsimp only
    split <;> trivial

omit [Platform] in
theorem mild_requirePermission (permission : Permission) (organizationId userId : UUID) :
    (requirePermission permission organizationId userId).Every Stmt.Possible Mild (fun _ => True)
      (fun _ => True) := by
  have hcontext : (getOrganizationContext organizationId userId).Every Stmt.Possible Mild
      (fun _ => True) (fun _ => True) := by
    refine Prog.every_bind (mild_getCurrentUser userId) fun user _ => ?_
    refine Prog.every_bind (mild_select _) fun membership _ => ?_
    cases membership <;> trivial
  refine Prog.every_bind hcontext fun context _ => ?_
  refine Prog.every_bind (χ := fun _ => True) ?_ fun _ _ => trivial
  unfold assertPermission
  split <;> trivial

omit [DecidableEq ι] in
theorem keys_claim {r : IdempotencyRecord} {k : Except DbError Bool → App β}
    (hin : (callDiscipline requests).Obeys i post .owner (k (.ok true)))
    (hout : (callDiscipline requests).Obeys i post .before (k (.ok false)))
    (hfail : ∀ e, (callDiscipline requests).Obeys i post .before (k (.error e))) :
    (callDiscipline requests).Obeys i post .before
      (.step (.insertOnConflictDoNothing .idempotencyRecords sameScopeKey r) k) := by
  intro view ext _
  have hspare : Table.idempotencyRecords ≠ .subscriptions := by decide
  have hops : ∀ op ∈ ((Stmt.insertOnConflictDoNothing .idempotencyRecords sameScopeKey r :
      Stmt Row UUID Call).eval ext view).2, op.table ≠ .subscriptions :=
    Stmt.Spares.ops_table (by exact hspare) ext view
  cases hany : (view .idempotencyRecords).any (sameScopeKey r) with
  | true => exact ⟨.before, .quiet trivial fun _ _ => hops, by simpa [Stmt.eval, hany] using hout⟩
  | false =>
    cases hins : insertable (t := Table.idempotencyRecords) view r with
    | error e =>
      refine ⟨.before, .quiet trivial fun _ _ => hops, ?_⟩
      simpa [Stmt.eval, hany, hins, Except.map] using hfail e
    | ok u =>
      refine ⟨.owner, .own trivial ⟨.insert .idempotencyRecords r, ?_, rfl⟩ hops, ?_⟩
      · simp [Stmt.eval, hany, hins, onlyIfOk]
      · simpa [Stmt.eval, hany, hins, Except.map] using hin

omit [DecidableEq ι] in
/-- After claiming, a request either owns its record or answers from another one. -/
theorem keys_acquireIdempotency {userId : UUID} {organizationId : Option UUID}
    {scope key requestHash : String} :
    (callDiscipline requests).Obeys i
      (fun φ state => (φ = .owner ∧ state.isReplay = false) ∨ state.isReplay = true) .before
      (acquireIdempotency userId organizationId scope key requestHash) := by
  refine (keys_of_mild mild_now).bind fun φ at_ h => ?_
  obtain rfl := h.1
  refine (keys_of_mild mild_uuid4).bind fun φ id h => ?_
  obtain rfl := h.1
  refine keys_claim ?_ ?_ fun _ => trivial
  · refine (keys_of_mild (mild_select _)).bind fun φ record h => ?_
    obtain rfl := h.1
    cases record with
    | none => trivial
    | some record => exact .inl ⟨rfl, rfl⟩
  · refine fun view ext _ => ⟨.before, .quiet trivial (by simp [Stmt.eval]), ?_⟩
    generalize ((Stmt.selectForUpdate _ _ : Stmt Row UUID Call).eval ext view).1 = record
    cases record with
    | none => trivial
    | some record =>
      change (callDiscipline requests).Obeys i _ _ (if record.requestHash ≠ requestHash then _ else _)
      split
      · trivial
      · split
        · exact .inr rfl
        · trivial

omit [DecidableEq ι] in
/-- Loading the subscription fixes the customer that the call will pass. -/
theorem keys_getOrCreateSubscription {c : Checkout} (hc : (requests i).parsed = some c)
    {f : Subscription → App β}
    (h : ∀ subscription customer, customer = subscription.stripeCustomerId.filter (· ≠ "") →
      (callDiscipline requests).Obeys i post (.loaded customer) (f subscription)) :
    (callDiscipline requests).Obeys i post .owner
      ((getOrCreateSubscription c.organizationId).bind f) := by
  intro view ext _
  refine ⟨.loaded (customerOf c.organizationId view), .load trivial hc, ?_⟩
  cases hfind : findSubscription c.organizationId view with
  | some subscription =>
    simp only [Stmt.eval, hfind]
    exact h subscription _ (by simp [customerOf, hfind])
  | none =>
    simp only [Stmt.eval, hfind]
    have hloaded : (requests i).parsed.isSome →
        ¬ (CallPhase.loaded (customerOf c.organizationId view)).Early := fun _ => id
    refine (keys_of_quiet hloaded (χ := fun s => s.stripeCustomerId = none) ?_).bind
      fun φ subscription hs => ?_
    · refine ⟨trivial, fun _ _ => ⟨trivial, fun _ _ => ⟨trivial, fun _ _ => ⟨trivial, ?_⟩⟩⟩⟩
      intro inserted _
      cases inserted with
      | error e => trivial
      | ok u => exact rfl
    · obtain ⟨rfl, hnone⟩ := hs
      exact h subscription _ (by simp [customerOf, hfind, hnone])

omit [Platform] in
theorem quiet_orRaise {α : Type} (e : Failure) (x : Option α) :
    (orRaise e x).Every Stmt.Possible Quiet (fun _ => True) (fun _ => True) := by
  cases x <;> trivial

omit [DecidableEq ι] in
theorem keys_createBillingCheckout {c : Checkout} (hc : (requests i).parsed = some c) :
    (callDiscipline requests).Obeys i (fun φ _ => ¬ φ.Early) .owner
      (createBillingCheckout c.organizationId c.payload c.key) := by
  unfold createBillingCheckout
  split
  · trivial
  · split
    · trivial
    · refine keys_getOrCreateSubscription hc fun subscription customer hcustomer => ?_
      subst hcustomer
      refine fun view ext _ => ⟨.called _, .call hc, ?_⟩
      have hcalled : (requests i).parsed.isSome →
          ¬ (CallPhase.called (subscription.stripeCustomerId.filter (· ≠ ""))).Early :=
        fun _ => id
      refine (keys_of_quiet hcalled (quiet_orRaise _ _)).bind fun φ session h => ?_
      obtain rfl := h.1
      split
      · trivial
      · trivial
      · exact id

omit [DecidableEq ι] in
/-- A checkout follows the phases. -/
theorem keys_checkout {organizationId userId : UUID} {args : Option (CheckoutRequest × String)}
    (hi : requests i = .checkout organizationId userId args) :
    (callDiscipline requests).Obeys i (fun _ _ => True) .before
      (checkout organizationId userId args) := by
  refine (keys_of_mild (mild_requirePermission _ _ _)).bind fun φ context h => ?_
  obtain rfl := h.1
  cases hargs : args with
  | none => trivial
  | some a =>
    obtain ⟨payload, key⟩ := a
    have hc : (requests i).parsed = some ⟨organizationId, userId, payload, key⟩ := by
      simp [hi, BillingRequest.parsed, hargs]
    simp only [validated]
    split
    · refine keys_acquireIdempotency.bind fun φ state h => ?_
      rcases h with ⟨rfl, hexec⟩ | hreplay
      · simp only [hexec, Bool.false_eq_true, ↓reduceIte]
        have hexecute : (callDiscipline requests).Obeys i (fun φ _ => ¬ φ.Early) .owner
            ((createBillingCheckout organizationId payload key).bind fun session =>
              .ret (⟨session.1, session.2⟩ : CheckoutResponse)) :=
          (keys_createBillingCheckout hc).bind fun φ session hφ => hφ
        refine hexecute.bind fun φ response hφ => ?_
        refine (keys_of_quiet (φ := φ) (χ := fun _ => True) (fun _ => hφ) ?_).bind
          fun _ _ _ => trivial
        refine ⟨trivial, fun x _ => ?_⟩
        cases x <;> trivial
      · simp only [hreplay, ↓reduceIte]
        cases state.replayBody with
        | none => trivial
        | some body =>
          dsimp only
          cases CheckoutResponse.modelValidate body <;> trivial
    · trivial

/-! Stripe events create no checkout sessions. -/

/-- The tables that event processing writes; it makes no outside call. -/
def eventScope : Scope :=
  { writes := [.stripeEvents, .subscriptions, .auditLogs], calls := fun _ => False }

theorem confined_event (e : Event) : Confined eventScope (processStripeEvent e) :=
  confined_processStripeEvent (by simp [eventScope]) (by simp [eventScope]) (by simp [eventScope]) e

omit [Platform] in
theorem quiet_of_eventScope {s : Stmt Row UUID Call} (h : eventScope.Allows s) : Quiet s := by
  cases s with
  | call c => cases c <;> trivial
  | _ => trivial

omit [DecidableEq ι] in
theorem keys_handler (i : ι) :
    (callDiscipline requests).Obeys i (fun _ _ => True) .before (requests i).handler := by
  cases hi : requests i with
  | checkout organizationId userId args => exact (keys_checkout hi).bind fun _ _ _ => trivial
  | event e =>
    have hparsed : (requests i).parsed.isSome → ¬ CallPhase.before.Early := by
      simp [hi, BillingRequest.parsed]
    have hquiet := (confined_event e).mono (fun _ hs => quiet_of_eventScope hs) (fun _ h => h)
      fun _ h => h
    exact (keys_of_quiet hparsed hquiet).bind fun _ _ _ => trivial

end Obeys

/-! ## A committed request keeps its repetitions from executing -/

abbrev billingClaim (requests : ι → BillingRequest) : Claim Row Failure (Option Bool) ι :=
  recordClaim
    (fun i => ((requests i).parsed.map fun c =>
      (checkoutScope c.organizationId c.userId, c.key)).getD ("", ""))
    (fun _ _ a => a = some true) (fun _ _ a => a = some false) (fun _ _ => True)
    (fun i a => a = none ∧ (requests i).parsed = none)

omit [Platform] [DecidableEq ι] in
theorem billingClaim_lawful (requests : ι → BillingRequest) :
    (billingClaim requests).Lawful UUID := by
  refine recordClaim_lawful ?_
  rintro i r r' a rfl
  exact ⟨by simp, by simp⟩

theorem follows_billing (requests : ι → BillingRequest) (i : ι) :
    FollowsClaim (billingClaim requests) i ((billingClaim requests).Post i) .idle
      (requests i).handler := by
  cases hi : requests i with
  | event e =>
    have hspares := (confined_event e).mono
      (fun _ hs => hs.spares (T := .idempotencyRecords) (by decide) (by decide))
      (fun _ h => h) fun _ h => h
    refine ((billingClaim requests).obeys_of_every .idle hspares).bind fun φ _ h => ?_
    obtain rfl := h.1
    exact ⟨rfl, by simp [hi, BillingRequest.parsed]⟩
  | checkout organizationId userId args =>
    refine Discipline.Obeys.bind (follows_checkout (fun _ _ => trivial) ?_) fun φ out h => ?_
    · rintro payload key rfl
      simp [hi, BillingRequest.parsed]
    · obtain ⟨payload, key, _, h⟩ := h
      cases out with
      | executed response =>
        obtain ⟨r, rfl, hr, _⟩ := h
        exact ⟨hr, rfl⟩
      | replayed response =>
        obtain ⟨r, _, rfl, _⟩ := h
        exact rfl

/-- While a request has committed, its repetitions by the same user do not insert a record. -/
def RepetitionsReplay (requests : ι → BillingRequest)
    (sys : Sys Row UUID Answer Failure (Option Bool) ι) : Prop :=
  ∀ i j c c' tx, (requests i).parsed = some c → (requests j).parsed = some c' →
    c.organizationId = c'.organizationId → c.userId = c'.userId → c.key = c'.key →
    Committed sys i → sys.proc j = .active tx → ∀ op ∈ tx.ops, op.table ≠ .idempotencyRecords

omit [Platform] [DecidableEq ι] in
/-- Nobody inserts a record of a key that is taken. -/
theorem Claim.Inv.spares_of_taken {requests : ι → BillingRequest}
    {ph : ι → ClaimPhase IdempotencyRecord} {sys : Sys Row UUID Answer Failure (Option Bool) ι}
    (hinv : (billingClaim requests).Inv ph sys) {j : ι}
    {tx : Tx Row UUID Answer Failure (Option Bool)} (hj : sys.proc j = .active tx)
    {r : IdempotencyRecord} (hr : r ∈ sys.db .idempotencyRecords)
    (hkey : (r.scope, r.key) = (billingClaim requests).procKey j) :
    ∀ op ∈ tx.ops, op.table ≠ .idempotencyRecords := by
  have hpend := hinv.pending j tx hj
  cases hph : ph j with
  | idle =>
    rw [hph] at hpend
    exact hpend
  | beaten r' =>
    rw [hph] at hpend
    exact hpend.1
  | owner r' =>
    rw [hph] at hpend
    have hfree := (billingClaim_lawful requests).clash_false.mp (hpend.2.1 r hr)
    exact absurd (hpend.1.trans hkey.symm) hfree.2

theorem repetitionsReplay {requests : ι → BillingRequest} {db : Db Row}
    (hempty : db .idempotencyRecords = []) {sys : Sys Row UUID Answer Failure (Option Bool) ι}
    (hr : Reachable (fun i => (requests i).handler) db sys) : RepetitionsReplay requests sys := by
  obtain ⟨ph, hinv, _⟩ :=
    (billingClaim_lawful requests).reachable hempty (follows_billing requests) hr
  intro i j c c' tx hc hc' horg huser hkey ⟨a, ha⟩ hj
  obtain ⟨r, hmem, hrkey, _⟩ := hinv.results i a ha (by simp [hc])
  refine Claim.Inv.spares_of_taken hinv hj hmem ?_
  have hslot : (billingClaim requests).procKey i = (billingClaim requests).procKey j := by
    simp [hc, hc', horg, huser, hkey]
  exact Eq.trans hrkey hslot

/-! ## The invariant -/

/-- The process passes this customer to Stripe, has passed it or can still do so. -/
def Fixed (ph : ι → CallPhase) (sys : Sys Row UUID Answer Failure (Option Bool) ι) (i : ι)
    (customer : Option String) : Prop :=
  ph i = .called customer ∨ (ph i = .loaded customer ∧ ∃ tx, sys.proc i = .active tx)

structure KeyInv (requests : ι → BillingRequest) (ph : ι → CallPhase)
    (sys : Sys Row UUID Answer Failure (Option Bool) ι) : Prop where
  calls : ∀ i params key x, (i, .called (.checkoutSessionsCreate params key) x) ∈ sys.trace →
    ∃ c customer, (requests i).parsed = some c ∧ ph i = .called customer ∧
      params = c.params customer ∧ key = c.key
  called : ∀ i customer, ph i = .called customer → HasCalled sys i
  early : ∀ i tx, sys.proc i = .active tx → (requests i).parsed.isSome → (ph i).Early →
    ∀ op ∈ tx.ops, op.table ≠ .subscriptions
  owns : ∀ i tx, sys.proc i = .active tx → ph i = .owner ∨ (∃ customer, ph i = .loaded customer) →
    ∃ op ∈ tx.ops, op.table = .idempotencyRecords
  agree : ∀ i j c c' v v', i ≠ j → (requests i).parsed = some c → (requests j).parsed = some c' →
    c.key = c'.key → Fixed ph sys i v → Fixed ph sys j v' → v = v'
  stable : ∀ i j c c' v tx, i ≠ j → (requests i).parsed = some c →
    (requests j).parsed = some c' → c.key = c'.key → Fixed ph sys i v →
    sys.proc j = .active tx → (ph j).Early →
    customerOf c.organizationId sys.db = v ∨ (Committed sys i ∧ c.userId = c'.userId)

omit [Platform] in
/-- The customer of an organization is read from the subscriptions. -/
theorem customerOf_congr {db db' : Db Row} (h : db .subscriptions = db' .subscriptions)
    (organizationId : UUID) : customerOf organizationId db = customerOf organizationId db' := by
  simp only [customerOf, findSubscription, h]

omit [Platform] in
theorem called_of_mem_advance {sys : Sys Row UUID Answer Failure (Option Bool) ι} {i j : ι}
    {tx : Tx Row UUID Answer Failure (Option Bool)} {s : Stmt Row UUID Call}
    {k : s.Ans Answer → App (Option Bool)} {ext : (c : Call) → Answer c}
    {params : SessionCreateParams} {key : String} {x : Option StripeSession}
    (h : (j, .called (.checkoutSessionsCreate params key) x) ∈ (sys.advance i tx s k ext).trace) :
    (j, .called (.checkoutSessionsCreate params key) x) ∈ sys.trace ∨
      (j = i ∧ s = .call (.checkoutSessionsCreate params key)) := by
  rcases List.mem_append.mp h with h | h
  · exact .inl h
  · obtain ⟨e, he, heq⟩ := List.mem_map.mp h
    obtain ⟨rfl, rfl⟩ := Prod.mk.inj heq
    obtain ⟨c, rfl, hc⟩ := mem_called.mp he
    obtain ⟨rfl, _⟩ := Entry.called.inj hc
    exact .inr ⟨rfl, rfl⟩

omit [Platform] in
theorem HasCalled.advance {sys : Sys Row UUID Answer Failure (Option Bool) ι} {i j : ι}
    (h : HasCalled sys j) (tx : Tx Row UUID Answer Failure (Option Bool))
    (s : Stmt Row UUID Call) (k : s.Ans Answer → App (Option Bool))
    (ext : (c : Call) → Answer c) : HasCalled (sys.advance i tx s k ext) j := by
  obtain ⟨params, key, x, h⟩ := h
  exact ⟨params, key, x, List.mem_append_left _ h⟩

section Steps

variable {requests : ι → BillingRequest} {ph : ι → CallPhase}
  {sys : Sys Row UUID Answer Failure (Option Bool) ι} {i : ι}
  {tx : Tx Row UUID Answer Failure (Option Bool)}

omit [DecidableEq ι] in
/-- A move keeps the customer that is fixed, except that loading fixes the current one. -/
theorem CallMove.fixed {s : Stmt Row UUID Call} {ops : List (Op Row UUID)} {φ φ' : CallPhase}
    {view : Db Row} (h : CallMove (requests i) view s ops φ φ') {v : Option String}
    (hv : φ' = .called v ∨ φ' = .loaded v) :
    (φ = .called v ∨ φ = .loaded v) ∨
      (φ = .owner ∧ ∃ c, (requests i).parsed = some c ∧ v = customerOf c.organizationId view) := by
  cases h with
  | quiet hs hops => exact .inl hv
  | own hs hown hops => rcases hv with hv | hv <;> cases hv
  | load hs hc =>
    rcases hv with hv | hv
    · cases hv
    · exact .inr ⟨rfl, _, hc, (CallPhase.loaded.inj hv).symm⟩
  | call hc =>
    rcases hv with hv | hv
    · obtain rfl := CallPhase.called.inj hv
      exact .inl (.inr rfl)
    · cases hv

omit [DecidableEq ι] in
theorem CallMove.early {s : Stmt Row UUID Call} {ops : List (Op Row UUID)} {φ φ' : CallPhase}
    {view : Db Row} (h : CallMove (requests i) view s ops φ φ') (hearly : φ'.Early) : φ.Early := by
  cases h with
  | quiet hs hops => exact hearly
  | own hs hown hops => trivial
  | load hs hc => exact hearly.elim
  | call hc => exact hearly.elim

omit [DecidableEq ι] in
/-- What an early process sees of the subscriptions is committed. -/
theorem KeyInv.customerOf_view (h : KeyInv requests ph sys) (hi : sys.proc i = .active tx)
    (hparsed : (requests i).parsed.isSome) (hearly : (ph i).Early) (organizationId : UUID) :
    customerOf organizationId (tx.view sys.db) = customerOf organizationId sys.db :=
  customerOf_congr (replay_of_table_ne _ (h.early i tx hi hparsed hearly)) _

variable {s : Stmt Row UUID Call} {k : s.Ans Answer → App (Option Bool)}
  {ext : (c : Call) → Answer c} {φ' : CallPhase}

omit [Platform] in
theorem fixed_of_advance_ne {j : ι} (hji : j ≠ i) {v : Option String}
    (hj : Fixed (Function.update ph i φ') (sys.advance i tx s k ext) j v) : Fixed ph sys j v := by
  simpa [Fixed, hji] using hj

/-- After a statement the fixed customers are those from before, or the one just loaded. -/
theorem KeyInv.fixed_of_advance (h : KeyInv requests ph sys) (hi : sys.proc i = .active tx)
    (hmove : CallMove (requests i) (tx.view sys.db) s (s.eval ext (tx.view sys.db)).2 (ph i) φ')
    {j : ι} {v : Option String}
    (hj : Fixed (Function.update ph i φ') (sys.advance i tx s k ext) j v) :
    Fixed ph sys j v ∨ (j = i ∧ ph i = .owner ∧
      ∃ c, (requests i).parsed = some c ∧ v = customerOf c.organizationId sys.db) := by
  by_cases hji : j = i
  · subst hji
    have hφ' : φ' = .called v ∨ φ' = .loaded v := by
      simp only [Fixed, Function.update_self] at hj
      exact hj.imp id And.left
    rcases hmove.fixed hφ' with (hc | hl) | ⟨howner, c, hc, hv⟩
    · exact .inl (.inl hc)
    · exact .inl (.inr ⟨hl, tx, hi⟩)
    · refine .inr ⟨rfl, howner, c, hc, ?_⟩
      rw [hv, h.customerOf_view hi (by simp [hc]) (by simp [howner, CallPhase.Early])]
  · exact .inl (fixed_of_advance_ne hji hj)

omit [DecidableEq ι] in
/-- A customer just loaded is the one that everybody else with the key has fixed. -/
theorem KeyInv.loads_fixed (hsame : SameKeySameRequest requests)
    (hreplay : RepetitionsReplay requests sys) (h : KeyInv requests ph sys)
    (hi : sys.proc i = .active tx) (howner : ph i = .owner) {c c' : Checkout} {j : ι}
    (hc : (requests i).parsed = some c) (hji : j ≠ i) (hc' : (requests j).parsed = some c')
    (hkey : c'.key = c.key) {v : Option String} (hj : Fixed ph sys j v) :
    v = customerOf c.organizationId sys.db := by
  have horg := (hsame j i c' c hc' hc hkey).1
  rcases h.stable j i c' c v tx hji hc' hc hkey hj hi (by simp [howner, CallPhase.Early]) with
    hcust | ⟨hcommitted, huser⟩
  · rw [← hcust, horg]
  · obtain ⟨op, hop, htable⟩ := h.owns i tx hi (.inl howner)
    exact absurd htable (hreplay j i c' c tx hc' hc horg huser hkey hcommitted hi op hop)

theorem KeyInv.stmt (hsame : SameKeySameRequest requests)
    (hreplay : RepetitionsReplay requests sys) (h : KeyInv requests ph sys)
    (hi : sys.proc i = .active tx)
    (hmove : CallMove (requests i) (tx.view sys.db) s (s.eval ext (tx.view sys.db)).2 (ph i) φ') :
    KeyInv requests (Function.update ph i φ') (sys.advance i tx s k ext) := by
  have hcommitted : ∀ j, Committed (sys.advance i tx s k ext) j ↔ Committed sys j := fun j =>
    exists_congr fun _ => committed_advance_iff hi
  constructor
  · intro j params key x hcall
    rcases called_of_mem_advance hcall with hold | ⟨rfl, rfl⟩
    · obtain ⟨c, customer, hc, hphj, hparams⟩ := h.calls j params key x hold
      refine ⟨c, customer, hc, ?_, hparams⟩
      by_cases hji : j = i
      · subst hji
        -- A process that has called stays in its phase.
        rw [Function.update_self]
        rw [hphj] at hmove
        generalize (s.eval ext (tx.view sys.db)).2 = ops at hmove
        cases hmove with
        | quiet hs hops => rfl
      · rw [Function.update_of_ne hji]
        exact hphj
    · generalize hφ : ph j = φ at hmove
      generalize hops : ((Stmt.call (.checkoutSessionsCreate params key) :
        Stmt Row UUID Call).eval ext (tx.view sys.db)).2 = ops at hmove
      cases hmove with
      | quiet hs hops => exact hs.elim
      | own hs hown hops => exact hs.elim
      | load hs hc => exact hs.elim
      | call hc => exact ⟨_, _, hc, by rw [Function.update_self], rfl, rfl⟩
  · intro j customer hphj
    by_cases hji : j = i
    · subst hji
      rw [Function.update_self] at hphj
      subst hphj
      generalize hφ : ph j = φ at hmove
      generalize hops : (s.eval ext (tx.view sys.db)).2 = ops at hmove
      cases hmove with
      | quiet hs hops => exact (h.called j customer hφ).advance tx s k ext
      | @call c _ hc =>
        exact ⟨c.params customer, c.key, ext _, List.mem_append_right _ (by simp [Stmt.called])⟩
    · rw [Function.update_of_ne hji] at hphj
      exact (h.called j customer hphj).advance tx s k ext
  · intro j t hj hparsed hearly op hop
    rcases active_of_advance hj with ⟨rfl, rfl⟩ | ⟨hji, hj⟩
    · rw [Function.update_self] at hearly
      rcases List.mem_append.mp hop with hop | hop
      · exact h.early j tx hi hparsed (hmove.early hearly) op hop
      · generalize ph j = φ at hmove
        generalize (s.eval ext (tx.view sys.db)).2 = ops at hmove hop
        cases hmove with
        | quiet hs hops => exact hops hparsed hearly op hop
        | own hs hown hops => exact hops op hop
        | load hs hc => exact hearly.elim
        | call hc => exact hearly.elim
    · rw [Function.update_of_ne hji] at hearly
      exact h.early j t hj hparsed hearly op hop
  · intro j t hj hown
    rcases active_of_advance hj with ⟨rfl, rfl⟩ | ⟨hji, hj⟩
    · have hmono : (∃ op ∈ tx.ops, op.table = .idempotencyRecords) →
          ∃ op ∈ (tx.advance sys.db s k ext).ops, op.table = .idempotencyRecords := by
        rintro ⟨op, hop, htable⟩
        exact ⟨op, List.mem_append_left _ hop, htable⟩
      rw [Function.update_self] at hown
      have hops : (tx.advance sys.db s k ext).ops = tx.ops ++ (s.eval ext (tx.view sys.db)).2 := rfl
      rw [hops] at hmono ⊢
      generalize hφ : ph j = φ at hmove
      generalize (s.eval ext (tx.view sys.db)).2 = ops at hmove hmono ⊢
      cases hmove with
      | quiet hs hops => exact hmono (h.owns j tx hi (by rw [hφ]; exact hown))
      | own hs hinserted hops =>
        obtain ⟨op, hop, htable⟩ := hinserted
        exact ⟨op, List.mem_append_right _ hop, htable⟩
      | load hs hc => exact hmono (h.owns j tx hi (.inl hφ))
      | call hc => exact hmono (h.owns j tx hi (.inr ⟨_, hφ⟩))
    · rw [Function.update_of_ne hji] at hown
      exact h.owns j t hj hown
  · intro j l c c' v v' hjl hc hc' hkey hj hl
    rcases h.fixed_of_advance hi hmove hj with hj' | ⟨rfl, howner, d, hd, rfl⟩
    · rcases h.fixed_of_advance hi hmove hl with hl | ⟨rfl, howner, d, hd, rfl⟩
      · exact h.agree j l c c' v v' hjl hc hc' hkey hj' hl
      · obtain rfl := Option.some.inj (hc'.symm.trans hd)
        have hj := fixed_of_advance_ne hjl hj
        exact h.loads_fixed hsame hreplay hi howner hc' hjl hc hkey hj
    · obtain rfl := Option.some.inj (hc.symm.trans hd)
      have hl := fixed_of_advance_ne hjl.symm hl
      exact (h.loads_fixed hsame hreplay hi howner hc hjl.symm hc' hkey.symm hl).symm
  · intro j l c c' v t hjl hc hc' hkey hj hl hearly
    obtain ⟨t', hl', hearly'⟩ : ∃ t', sys.proc l = .active t' ∧ (ph l).Early := by
      rcases active_of_advance hl with ⟨rfl, _⟩ | ⟨hli, hl⟩
      · rw [Function.update_self] at hearly
        exact ⟨tx, hi, hmove.early hearly⟩
      · rw [Function.update_of_ne hli] at hearly
        exact ⟨t, hl, hearly⟩
    rw [hcommitted]
    rcases h.fixed_of_advance hi hmove hj with hj | ⟨rfl, _, d, hd, rfl⟩
    · exact h.stable j l c c' v t' hjl hc hc' hkey hj hl' hearly'
    · obtain rfl := Option.some.inj (hc.symm.trans hd)
      exact .inl rfl

omit [DecidableEq ι] in
/-- Two requests with one key, of which one has fixed its customer and the other has still to
load it, are between their calls. -/
theorem KeyInv.betweenCalls (h : KeyInv requests ph sys) {j l : ι} {c c' : Checkout}
    {v : Option String} (hj : Fixed ph sys j v) (hl : sys.proc l = .active tx)
    (hearly : (ph l).Early) (hnot : ¬ (Committed sys j ∧ c.userId = c'.userId)) :
    BetweenCalls requests sys j l c c' := by
  refine ⟨?_, fun hended => hended tx hl, ?_, hnot⟩
  · rcases hj with hcalled | ⟨hloaded, t, ht⟩
    · exact .inl (h.called j v hcalled)
    · obtain ⟨op, hop, _⟩ := h.owns j t ht (.inr ⟨v, hloaded⟩)
      refine .inr ⟨t, ht, ?_⟩
      rintro rfl
      cases hop
  · rintro ⟨params, key, x, hcall⟩
    obtain ⟨_, _, _, hcalled, _⟩ := h.calls l params key x hcall
    rw [hcalled] at hearly
    exact hearly

theorem KeyInv.commit (h : KeyInv requests ph sys) (hi : sys.proc i = .active tx)
    {a : Option Bool} (hkeeps : KeepsCustomer requests sys (sys.commit i tx a)) :
    KeyInv requests ph (sys.commit i tx a) := by
  have hfixed : ∀ j v, Fixed ph (sys.commit i tx a) j v → Fixed ph sys j v := fun j v hj =>
    hj.imp id fun ⟨hloaded, t, ht⟩ => ⟨hloaded, t, (active_of_commit ht).2⟩
  have htrace : ∀ j params key x,
      (j, Entry.called (.checkoutSessionsCreate params key) x) ∈ (sys.commit i tx a).trace ↔
      (j, Entry.called (.checkoutSessionsCreate params key) x) ∈ sys.trace := by
    simp [Sys.commit]
  constructor
  · exact fun j params key x hcall => h.calls j params key x ((htrace j params key x).mp hcall)
  · intro j customer hphj
    obtain ⟨params, key, x, hcall⟩ := h.called j customer hphj
    exact ⟨params, key, x, (htrace j params key x).mpr hcall⟩
  · exact fun j t hj => h.early j t (active_of_commit hj).2
  · exact fun j t hj => h.owns j t (active_of_commit hj).2
  · intro j l c c' v v' hjl hc hc' hkey hj hl
    exact h.agree j l c c' v v' hjl hc hc' hkey (hfixed j v hj) (hfixed l v' hl)
  · intro j l c c' v t hjl hc hc' hkey hj hl hearly
    have hj := hfixed j v hj
    have hl := (active_of_commit hl).2
    by_cases hdone : Committed sys j ∧ c.userId = c'.userId
    · obtain ⟨⟨b, hb⟩, huser⟩ := hdone
      exact .inr ⟨⟨b, committed_commit hi hb⟩, huser⟩
    · rw [hkeeps j l c c' hjl hc hc' hkey (h.betweenCalls hj hl hearly hdone)]
      exact .inl ((h.stable j l c c' v t hjl hc hc' hkey hj hl hearly).resolve_right hdone)

theorem KeyInv.abort (h : KeyInv requests ph sys) (hi : sys.proc i = .active tx)
    (e : Option Failure) : KeyInv requests ph (sys.abort i e) := by
  have hfixed : ∀ j v, Fixed ph (sys.abort i e) j v → Fixed ph sys j v := fun j v hj =>
    hj.imp id fun ⟨hloaded, t, ht⟩ => ⟨hloaded, t, (active_of_abort ht).2⟩
  constructor
  · exact h.calls
  · exact h.called
  · exact fun j t hj => h.early j t (active_of_abort hj).2
  · exact fun j t hj => h.owns j t (active_of_abort hj).2
  · intro j l c c' v v' hjl hc hc' hkey hj hl
    exact h.agree j l c c' v v' hjl hc hc' hkey (hfixed j v hj) (hfixed l v' hl)
  · intro j l c c' v t hjl hc hc' hkey hj hl hearly
    have hstable := h.stable j l c c' v t hjl hc hc' hkey (hfixed j v hj)
      (active_of_abort hl).2 hearly
    refine hstable.imp id fun ⟨⟨b, hb⟩, huser⟩ => ⟨⟨b, ?_⟩, huser⟩
    exact (committed_abort_iff hi).mpr hb

end Steps

/-- In every run of checkouts and Stripe events in which requests share a key only if they ask
for the same thing, and no step changes the customer of an organization between two calls with
one key, the key determines the parameters. -/
theorem stripe_keys_determine_params {requests : ι → BillingRequest}
    (hsame : SameKeySameRequest requests) {db : Db Row} (hempty : db .idempotencyRecords = [])
    {sys : Sys Row UUID Answer Failure (Option Bool) ι}
    (hr : ReachableVia (KeepsCustomer requests) (fun i => (requests i).handler) db sys) :
    KeysDetermineParams sys := by
  have hvia := ReachableVia.assume (E := RepetitionsReplay requests)
    (fun sys hr => repetitionsReplay hempty hr.reachable) hr
  have hsound : (callDiscipline requests).Sound (fun _ _ _ => True) .before (KeyInv requests)
      (fun s t => KeepsCustomer requests s t ∧ RepetitionsReplay requests s)
      (fun i => (requests i).handler) db := by
    refine ⟨keys_handler, ?_, fun _ _ _ _ _ _ => trivial, ?_, ?_, ?_⟩
    · constructor
      · intro i params key x hcall
        cases hcall
      · intro i customer hph
        cases hph
      · intro i tx hi _ _ op hop
        obtain rfl := Proc.active.inj hi
        cases hop
      · intro i tx _ hown
        rcases hown with hown | ⟨customer, hown⟩ <;> cases hown
      · intro i j c c' v v' _ _ _ _ hfix
        rcases hfix with hfix | ⟨hfix, _⟩ <;> cases hfix
      · intro i j c c' v tx _ _ _ _ hfix
        rcases hfix with hfix | ⟨hfix, _⟩ <;> cases hfix
    · exact fun ph sys i tx s k ext φ' hJ hi _ _ hmove hok => hJ.stmt hsame hok.2 hi hmove
    · exact fun ph sys i tx a hJ hi _ _ hok => hJ.commit hi hok.1
    · exact fun ph sys i tx e hJ hi _ => hJ.abort hi e
  obtain ⟨ph, hinv, _⟩ := hsound.reachable hvia
  intro i j key params params' x x' hcall hcall'
  obtain ⟨c, v, hc, hph, rfl, rfl⟩ := hinv.calls i params key x hcall
  obtain ⟨c', v', hc', hph', rfl, hkey⟩ := hinv.calls j params' _ x' hcall'
  obtain ⟨horg, hprice, hsuccess, hcancel⟩ := hsame i j c c' hc hc' hkey
  have hv : v = v' := by
    by_cases hij : i = j
    · subst hij
      rw [hph] at hph'
      exact CallPhase.called.inj hph'
    · exact hinv.agree i j c c' v v' hij hc hc' hkey (.inl hph) (.inl hph')
  simp only [Checkout.params, horg, hprice, hsuccess, hcancel, hv]

end Keys

section Sample

attribute [local instance] samplePlatform

def sampleCheckout (organizationId : UUID) : BillingRequest :=
  .checkout organizationId sampleUser.id
    (some (⟨.pro, "https://example.com/ok", "https://example.com/no"⟩, "key-1234"))

/-- A user who owns two organizations. -/
def sampleDbTwo : Db Row
  | .users => [sampleUser]
  | .organizations => [sampleOrganization, otherOrganization]
  | .organizationMemberships =>
    [⟨⟨3⟩, sampleOrganization.id, sampleUser.id, .owner, 0, 0⟩,
      ⟨⟨5⟩, otherOrganization.id, sampleUser.id, .owner, 0, 0⟩]
  | _ => []

/-- The user sends the same key for each of them. -/
def sampleReuse : Bool → BillingRequest
  | true => sampleCheckout sampleOrganization.id
  | false => sampleCheckout otherOrganization.id

/-- The parameters that a program running alone passes to Stripe, with their keys. -/
def sessionsOf (p : App (Option Bool)) (st : Session Row) :
    List (SessionCreateParams × String × Option StripeSession) :=
  (callsOf sampleOracle p st).filterMap fun e =>
    match e with
    | .called (.checkoutSessionsCreate params key) x => some (params, key, x)
    | _ => none

theorem called_of_sessionsOf {p : App (Option Bool)} {st : Session Row}
    {params : SessionCreateParams} {key : String} {x : Option StripeSession}
    (h : sessionsOf p st = [(params, key, x)]) :
    .called (.checkoutSessionsCreate params key) x ∈ callsOf sampleOracle p st := by
  have hmem : (params, key, x) ∈ sessionsOf p st := by
    rw [h]
    exact List.mem_singleton.mpr rfl
  obtain ⟨e, he, heq⟩ := List.mem_filterMap.mp hmem
  split at heq
  · obtain ⟨rfl, rfl, rfl⟩ := heq
    exact he
  · cases heq

/-- The database after the first checkout. -/
def sampleDbThen : Db Row :=
  ((sampleReuse true).handler.run (execStmt sampleOracle) ⟨sampleDbTwo, 0⟩).2.db

def sampleParams (organizationId : UUID) : SessionCreateParams where
  price := "price_pro"
  successUrl := "https://example.com/ok"
  cancelUrl := "https://example.com/no"
  clientReferenceId := organizationId.str
  metadataOrganizationId := organizationId.str
  subscriptionDataOrganizationId := organizationId.str
  customer := none

def sampleSession : StripeSession := ⟨"cs_key-1234", some "https://checkout.stripe.com/c"⟩

theorem sampleReuse_first : Prog.endsWith (fun _ => true)
      ((sampleReuse true).handler.run (execStmt sampleOracle) ⟨sampleDbTwo, 0⟩) = true ∧
    sessionsOf (sampleReuse true).handler ⟨sampleDbTwo, 0⟩ =
      [(sampleParams sampleOrganization.id, "key-1234", some sampleSession)] := by
  decide +kernel

theorem sampleReuse_second : Prog.endsWith (fun _ => true)
      ((sampleReuse false).handler.run (execStmt sampleOracle) ⟨sampleDbThen, 100⟩) = true ∧
    sessionsOf (sampleReuse false).handler ⟨sampleDbThen, 100⟩ =
      [(sampleParams otherOrganization.id, "key-1234", some sampleSession)] := by
  decide +kernel

/-- One key for two organizations reaches Stripe with different parameters. -/
theorem stripe_key_reused_across_organizations :
    ∃ sys, Reachable (fun i => (sampleReuse i).handler) sampleDbTwo sys ∧
      ¬ KeysDetermineParams sys := by
  obtain ⟨a, st, hrun, _⟩ := Prog.exists_of_endsWith sampleReuse_first.1
  obtain ⟨b, st', hrun', _⟩ := Prog.exists_of_endsWith sampleReuse_second.1
  have hst : st.db = sampleDbThen := by rw [sampleDbThen, hrun]
  obtain ⟨sys, _, hr, hquiet, hdb, hproc, htrace⟩ := Reachable.run_next (i := true) sampleOracle
    (.refl : Reachable (fun i => (sampleReuse i).handler) sampleDbTwo _) (quiet_init _ _) rfl hrun
  have hthen : sys.db = sampleDbThen := hdb.trans hst
  obtain ⟨sys', _, hr', _, _, _, htrace'⟩ := hr.run_next (i := false) sampleOracle hquiet
    (by rw [hproc]; rfl) (by rw [hthen]; exact hrun')
  refine ⟨sys', hr', fun hkeys => ?_⟩
  have hcall := called_of_sessionsOf sampleReuse_first.2
  have hcall' := called_of_sessionsOf sampleReuse_second.2
  have hparams := hkeys true false "key-1234" (sampleParams sampleOrganization.id)
    (sampleParams otherOrganization.id) (some sampleSession) (some sampleSession)
    (by
      rw [htrace', htrace]
      simp only [List.mem_append]
      exact .inl (.inl (.inl (.inr (List.mem_map_of_mem hcall)))))
    (by
      rw [htrace', hthen]
      simp only [List.mem_append]
      exact .inl (.inr (List.mem_map_of_mem hcall')))
  exact absurd hparams (by decide +kernel)

/-- The same request sent twice. -/
def sampleRepeated (_ : Bool) : BillingRequest := sampleCheckout sampleOrganization.id

theorem sampleRepeated_executes : Prog.endsWith (fun _ => true)
      ((sampleRepeated true).handler.run (execStmt sampleOracle) ⟨sampleDb, 0⟩) = true ∧
    customerOf sampleOrganization.id
      ((sampleRepeated true).handler.run (execStmt sampleOracle) ⟨sampleDb, 0⟩).2.db =
      customerOf sampleOrganization.id sampleDb ∧
    sessionsOf (sampleRepeated true).handler ⟨sampleDb, 0⟩ =
      [(sampleParams sampleOrganization.id, "key-1234", some sampleSession)] := by
  decide +kernel

/-- One of them has called Stripe and lost its connection, the other has called Stripe again. -/
theorem stripe_keys_of_repeated_request :
    ∃ sys, ReachableVia (KeepsCustomer sampleRepeated) (fun i => (sampleRepeated i).handler)
        sampleDb sys ∧ sys.proc true = .failed none ∧ (∃ a, sys.proc false = .committed a) ∧
      HasCalled sys true ∧ HasCalled sys false ∧ KeysDetermineParams sys := by
  obtain ⟨hends, hcustomer, hsessions⟩ := sampleRepeated_executes
  obtain ⟨a, st, hrun, _⟩ := Prog.exists_of_endsWith hends
  rw [hrun] at hcustomer
  have horg : ∀ i c, (sampleRepeated i).parsed = some c →
      c.organizationId = sampleOrganization.id := by
    rintro i c ⟨⟩
    rfl
  have hstart : (Sys.init (fun i => (sampleRepeated i).handler) sampleDb).proc true =
      .active { prog := (sampleRepeated true).handler } := rfl
  have hsame : SameKeySameRequest sampleRepeated := by
    rintro i j c c' ⟨⟩ ⟨⟩ _
    exact ⟨rfl, rfl, rfl, rfl⟩
  obtain ⟨lost, hlost, hdb, hproc, htrace⟩ := run_lost_via (R := KeepsCustomer sampleRepeated)
    sampleOracle hstart rfl (fun _ _ => ⟨rfl, rfl⟩) hrun
    (fun s t hs ht i j c c' _ _ _ _ _ => by rw [hs, ht])
  have hdb : lost.db = sampleDb := hdb
  have hnext : lost.proc false = .active { prog := (sampleRepeated false).handler } := by
    rw [hproc]
    rfl
  have hview : Tx.view { prog := (sampleRepeated false).handler } lost.db = sampleDb := hdb
  have hquiet : ∀ j, j ≠ false → (lost.proc j).Quiet := by
    intro j hj
    obtain rfl : j = true := by simpa using hj
    rw [hproc, Function.update_self]
    trivial
  obtain ⟨sys, ops, hsteps, _, hproc', htrace'⟩ := run_alone_via
    (R := KeepsCustomer sampleRepeated) sampleOracle hnext rfl hquiet
    (by rw [hview]; exact hrun) (fun s t hs ht i j c c' _ _ _ _ _ => by rw [hs, ht])
    (fun s t hs ht i j c c' _ hc _ _ _ => by rw [horg i c hc, hs, ht, hdb]; exact hcustomer)
  have hr : ReachableVia (KeepsCustomer sampleRepeated) (fun i => (sampleRepeated i).handler)
      sampleDb sys := hlost.trans hsteps
  have hcall := called_of_sessionsOf hsessions
  have hcalled : HasCalled sys true := by
    refine ⟨sampleParams sampleOrganization.id, "key-1234", some sampleSession, ?_⟩
    rw [htrace', htrace]
    simp only [List.mem_append]
    exact .inl (.inl (.inr (List.mem_map_of_mem hcall)))
  have hcalled' : HasCalled sys false := by
    refine ⟨sampleParams sampleOrganization.id, "key-1234", some sampleSession, ?_⟩
    rw [htrace', hview]
    simp only [List.mem_append]
    exact .inl (.inr (List.mem_map_of_mem hcall))
  refine ⟨sys, hr, ?_, ⟨a, ?_⟩, hcalled, hcalled', stripe_keys_determine_params hsame rfl hr⟩
  · rw [hproc', Function.update_of_ne (by decide), hproc, Function.update_self]
  · rw [hproc', Function.update_self]

end Sample

end TenantFlow
