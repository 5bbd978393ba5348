import TenantFlow.Library.ClaimOnce
import TenantFlow.Modules.Billing

/-!
# What the parts of a handler write and raise

For every part of the idempotent endpoints: it writes no row of a given table `T`, and it
raises none of the failures of the idempotency layer.
-/

namespace TenantFlow

open JsonText Transactional

/-- The failures of the idempotency layer that signal a broken or unfinished record. -/
def idempotencyFaults : List Failure :=
  [conflictError "IDEMPOTENCY_IN_PROGRESS" "A request with this Idempotency-Key is in progress",
    runtimeError "Newly created idempotency record could not be loaded",
    runtimeError "Idempotency record disappeared after unique-key conflict",
    runtimeError "Completed idempotency record is missing its response body",
    runtimeError "Completed invitation idempotency record is missing its response body",
    runtimeError "Completed billing idempotency record is missing its response body"]

def Failure.Ordinary (e : Failure) : Prop := e ∉ idempotencyFaults

instance (e : Failure) : Decidable e.Ordinary := inferInstanceAs (Decidable (_ ∉ _))

/-- The refusal of a key that came with another payload before. -/
def keyReused : Failure := conflictError "IDEMPOTENCY_KEY_REUSED"
  "Idempotency-Key was already used with a different request payload"

/-- A failure that the idempotency layer never raises. -/
def Failure.Foreign (e : Failure) : Prop := e ∉ keyReused :: idempotencyFaults

instance (e : Failure) : Decidable e.Foreign := inferInstanceAs (Decidable (_ ∉ _))

theorem Failure.Foreign.ordinary {e : Failure} (h : e.Foreign) : e.Ordinary :=
  fun hmem => h (List.mem_cons_of_mem _ hmem)

/-- The program writes no row of `T` and raises no failure of the idempotency layer. -/
abbrev Leaves {α : Type} (T : Table) (χ : α → Prop) (p : App α) : Prop :=
  p.Every Stmt.Possible (Stmt.Spares T) Failure.Foreign χ

section Parts

variable {α β : Type} {T : Table} {χ : β → Prop}

@[simp] theorem send_bind (s : Stmt Row UUID Call) (f : s.Ans Answer → App β) :
    (send s).bind f = .step s f := rfl

@[simp] theorem call_bind (c : Call) (f : Answer c → App β) :
    (call c).bind f = .step (.call c) f := rfl

@[simp] theorem now_bind (f : Datetime → App β) : now.bind f = .step (.call .now) f := rfl

@[simp] theorem uuid4_bind (f : UUID → App β) : uuid4.bind f = .step (.call .uuid4) f := rfl

@[simp] theorem select_bind (q : Db Row → α) (f : α → App β) :
    (select q).bind f = .step (.select q) f := rfl

@[simp] theorem leaves_raise {e : Failure} : Leaves T χ (raise e) ↔ e.Foreign := Iff.rfl

theorem foreign_ofDbError (e : DbError) : (Failure.ofDbError e).Foreign := by
  cases e <;> decide

theorem leaves_select (q : Db Row → α) : Leaves T (fun a => ∃ db, a = q db) (select q) :=
  ⟨trivial, fun _ ⟨_, db, hx⟩ => ⟨db, hx⟩⟩

theorem leaves_call (c : Call) : Leaves T (fun _ => True) (call c) :=
  ⟨trivial, fun _ _ => trivial⟩

theorem leaves_checked (x : Except DbError α) : Leaves T (fun _ => True) (checked x) := by
  cases x with
  | ok a => trivial
  | error e => exact foreign_ofDbError e

theorem leaves_orRaise {e : Failure} (he : e.Foreign) (x : Option α) :
    Leaves T (fun a => x = some a) (orRaise e x) := by
  cases x with
  | some a => exact rfl
  | none => exact he

theorem leaves_ofExcept {x : Except Failure α} (hx : ∀ e, x = .error e → e.Foreign) :
    Leaves T (fun a => x = .ok a) (Prog.ofExcept x) := by
  cases x with
  | ok a => exact rfl
  | error e => exact hx e rfl

theorem leaves_insertRow {t : Table} (h : t ≠ T) (r : Row t) :
    Leaves T (fun _ => True) (insertRow r) :=
  ⟨h, fun x _ => leaves_checked x⟩

theorem leaves_updateRow {t : Table} (h : t ≠ T) (id : UUID) (f : Row t → Row t) :
    Leaves T (fun _ => True) (updateRow t id f) :=
  ⟨h, fun x _ => leaves_checked x⟩

theorem leaves_flush {t : Table} (h : t ≠ T) (id : UUID) (dirty : Bool)
    (patch : Datetime → Row t → Row t) : Leaves T (fun _ => True) (flush t id dirty patch) := by
  unfold flush
  split
  · refine Prog.every_bind (leaves_call _) fun at_ _ => ?_
    exact Prog.every_bind (leaves_updateRow h id (patch at_)) fun _ _ => trivial
  · trivial

theorem leaves_rowDefaults : Leaves T (fun _ => True) rowDefaults :=
  Prog.every_bind (leaves_call _) fun _ _ => Prog.every_bind (leaves_call _) fun _ _ =>
    Prog.every_bind (leaves_call _) fun _ _ => trivial

theorem leaves_validated (args : Option α) (ok : α → Bool) :
    Leaves T (fun a => args = some a ∧ ok a = true) (validated args ok) := by
  cases args with
  | none => exact (by decide : Failure.validation.Foreign)
  | some a =>
    simp only [validated]
    split
    · exact ⟨rfl, by assumption⟩
    · exact (by decide : Failure.validation.Foreign)

theorem leaves_recordAudit (h : T ≠ .auditLogs) (organizationId : UUID) (actorId : Option UUID)
    (action entityType : String) (entityId : Option UUID) (metadata : List (String × Json)) :
    Leaves T (fun _ => True)
      (recordAudit organizationId actorId action entityType entityId metadata) :=
  Prog.every_bind (leaves_call _) fun _ _ => Prog.every_bind (leaves_call _) fun _ _ =>
    leaves_insertRow h.symm _

/-- The user found is the one asked for. -/
theorem leaves_getCurrentUser (userId : UUID) :
    Leaves T (fun user => user.id = userId) (getCurrentUser userId) := by
  have hfail : (authenticationError "User account is unavailable").Foreign := by decide
  refine Prog.every_bind (leaves_select _) fun user ⟨db, huser⟩ => ?_
  cases user with
  | none => exact hfail
  | some user =>
    change Leaves T _ (if user.isActive then _ else _)
    split
    · have hid := List.find?_some huser.symm
      simpa using hid
    · exact hfail

theorem leaves_getOrganizationContext (organizationId userId : UUID) :
    Leaves T (fun c => c.user.id = userId) (getOrganizationContext organizationId userId) := by
  refine Prog.every_bind (leaves_getCurrentUser userId) fun user huser => ?_
  refine Prog.every_bind (leaves_select _) fun membership _ => ?_
  cases membership with
  | none =>
    exact (by decide :
      (notFoundError "ORGANIZATION_NOT_FOUND" "Organization was not found").Foreign)
  | some membership => exact huser

theorem leaves_requirePermission (permission : Permission) (organizationId userId : UUID) :
    Leaves T (fun c => c.user.id = userId)
      (requirePermission permission organizationId userId) := by
  refine Prog.every_bind (leaves_getOrganizationContext organizationId userId) fun c hc => ?_
  refine Prog.every_bind (χ := fun _ => True) ?_ fun _ _ => hc
  unfold assertPermission
  split
  · trivial
  · simp [Failure.Foreign, keyReused, idempotencyFaults, forbiddenError, conflictError, runtimeError]

end Parts

/-! ## Operations of the services -/

section Operations

variable {T : Table}

theorem leaves_createOrganization (hO : T ≠ .organizations) (hM : T ≠ .organizationMemberships)
    (hA : T ≠ .auditLogs) (user : User) (payload : OrganizationCreate) :
    Leaves T (fun _ => True) (createOrganization user payload) := by
  refine Prog.every_bind (leaves_select _) fun taken _ => ?_
  split
  · exact (by decide : (conflictError "ORGANIZATION_SLUG_EXISTS"
      "Organization slug is already in use").Foreign)
  · refine Prog.every_bind leaves_rowDefaults fun d _ => ?_
    refine Prog.every_bind (leaves_insertRow hO.symm _) fun _ _ => ?_
    refine Prog.every_bind leaves_rowDefaults fun d' _ => ?_
    refine Prog.every_bind (leaves_insertRow hM.symm _) fun _ _ => ?_
    exact Prog.every_bind (leaves_recordAudit hA _ _ _ _ _ _) fun _ _ => trivial

theorem leaves_isMember (organizationId : UUID) (email : String) :
    Leaves T (fun _ => True) (isMember organizationId email) := by
  refine Prog.every_bind (leaves_select _) fun id _ => ?_
  cases id with
  | none => trivial
  | some id => exact (leaves_select _).mono (fun _ h => h) (fun _ h => h) (fun _ _ => trivial)

variable [Platform]

theorem leaves_addInvitation (hI : T ≠ .invitations) (hA : T ≠ .auditLogs)
    (organizationId : UUID) (invitedBy : User) (email : String) (role : Role) :
    Leaves T (fun _ => True) (addInvitation organizationId invitedBy email role) := by
  refine Prog.every_bind (leaves_call _) fun token _ => ?_
  refine Prog.every_bind (leaves_call _) fun at_ _ => ?_
  refine Prog.every_bind leaves_rowDefaults fun d _ => ?_
  refine Prog.every_bind (leaves_insertRow hI.symm _) fun _ _ => ?_
  refine Prog.every_bind (leaves_recordAudit hA _ _ _ _ _ _) fun _ _ => ?_
  refine Prog.every_bind (leaves_call _) fun sent _ => ?_
  exact Prog.every_bind (leaves_orRaise (by decide) sent) fun _ _ => trivial

theorem leaves_inviteMember (hI : T ≠ .invitations) (hA : T ≠ .auditLogs)
    (organizationId : UUID) (invitedBy : User) (payload : InviteMemberRequest) :
    Leaves T (fun _ => True) (inviteMember organizationId invitedBy payload) := by
  refine Prog.every_bind (leaves_isMember _ _) fun member _ => ?_
  split
  · exact (by decide : (conflictError "ALREADY_A_MEMBER"
      "This user already belongs to the organization").Foreign)
  · refine Prog.every_bind (leaves_select _) fun pending _ => ?_
    cases pending with
    | none => exact leaves_addInvitation hI hA _ _ _ _
    | some pending =>
      refine Prog.every_bind (leaves_call _) fun at_ _ => ?_
      split
      · exact (by decide : (conflictError "INVITATION_ALREADY_PENDING"
          "A pending invitation already exists for this email").Foreign)
      · exact Prog.every_bind (leaves_flush hI.symm _ _ _) fun _ _ =>
          leaves_addInvitation hI hA _ _ _ _

omit [Platform] in
theorem leaves_getOrCreateSubscription (hS : T ≠ .subscriptions) (organizationId : UUID) :
    Leaves T (fun _ => True) (getOrCreateSubscription organizationId) := by
  refine Prog.every_bind (leaves_select _) fun found _ => ?_
  cases found with
  | some subscription => trivial
  | none =>
    refine Prog.every_bind leaves_rowDefaults fun d _ => ?_
    exact Prog.every_bind (leaves_insertRow hS.symm _) fun _ _ => trivial

omit [Platform] in
theorem leaves_createCheckoutSession (organizationId : UUID) (customerId : Option String)
    (priceId successUrl cancelUrl idempotencyKey : String) :
    Leaves T (fun _ => True) (createCheckoutSession organizationId customerId priceId successUrl
      cancelUrl idempotencyKey) := by
  have hurl : (runtimeError "Stripe Checkout Session did not return a hosted URL").Foreign := by
    decide
  refine Prog.every_bind (leaves_call _) fun answer _ => ?_
  refine Prog.every_bind (leaves_orRaise (by decide) answer) fun session _ => ?_
  split
  · exact hurl
  · exact hurl
  · trivial

theorem leaves_createBillingCheckout (hS : T ≠ .subscriptions) (organizationId : UUID)
    (payload : CheckoutRequest) (idempotencyKey : String) :
    Leaves T (fun _ => True) (createBillingCheckout organizationId payload idempotencyKey) := by
  unfold createBillingCheckout
  split
  · exact (by decide : (conflictError "STRIPE_NOT_CONFIGURED"
      "Stripe test mode is not configured").Foreign)
  · split
    · simp [Failure.Foreign, keyReused, idempotencyFaults, conflictError, runtimeError]
    · exact Prog.every_bind (leaves_getOrCreateSubscription hS _) fun _ _ =>
        leaves_createCheckoutSession _ _ _ _ _ _

end Operations

end TenantFlow
