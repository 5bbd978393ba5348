import TenantFlow.Verification.TenantIsolation

/-!
# Requests of many tenants

A database is `Attributed` if no two rows clash, object keys and scopes name their organization, and
deliveries have their endpoint; every request keeps it so. In a sequence of requests on the routes
of many organizations, those of one of them get the responses, and make of its rows, what they
would without the others.
-/

namespace TenantFlow

open JsonText Transactional

/-! ## Attributed rows -/

/-- Every delivery has its endpoint. -/
def Anchored (db : Db Row) : Prop :=
  ∀ d ∈ db .webhookDeliveries, ∃ e ∈ db .webhookEndpoints, e.id = d.endpointId

structure Attributed (db : Db Row) : Prop where
  unclashing : Unclashing db
  tagged : Tagged db
  anchored : Anchored db

section Attributed

variable {α : Type} {db : Db Row}

theorem endpointId_of_blank {d d' : Row .webhookDeliveries} (h : blank d' = blank d) :
    d'.endpointId = d.endpointId := by
  simp only [blank, WebhookDelivery.mk.injEq] at h
  exact h.2.2.1

/-- A statement that deletes no endpoints leaves every delivery its endpoint. -/
theorem Scope.Allows.anchored {F : Scope} (hF : Table.webhookEndpoints ∉ F.deletes)
    {s : Stmt Row UUID Call} (hs : F.Allows s) (h : Anchored db)
    (env : (c : Call) → Answer c) : Anchored (replay (s.eval env db).2 db) := by
  have hkept : ∀ id, (∃ e ∈ db .webhookEndpoints, e.id = id) →
      ∃ e ∈ replay (s.eval env db).2 db .webhookEndpoints, e.id = id := by
    rintro _ ⟨e, he, rfl⟩
    obtain ⟨e', he', hblank⟩ := hs.keeps_rows hF env db he
    exact ⟨e', he', pk_of_blank hblank⟩
  intro d hd
  refine hkept _ ?_
  by_cases hold : d ∈ db .webhookDeliveries
  · exact h d hold
  · rcases mem_view_of_stmt hd hold with ⟨hins, _⟩ | ⟨id, f, rfl, hup, x, hx, hid, rfl⟩
    · have hcheck := (check_eq_none_iff.mp (insertable_ok hins).1).2.2
      simpa [referencesOk] using hcheck
    · rw [endpointId_of_blank (hs.2 x)]
      exact h x hx

/-! ## Scopes of idempotency records -/

/-- The part writes records with scopes of their own only. -/
abbrev KeepsScopes (p : App α) : Prop := WritesGood OwnScope (fun _ => True) p

theorem keepsScopes_of_confined {F : Scope} (hF : Table.idempotencyRecords ∉ F.writes) {p : App α}
    (hp : Confined F p) : KeepsScopes p := by
  refine hp.writesGood fun t ht r => ?_
  cases t with
  | idempotencyRecords => exact absurd ht hF
  | _ => trivial

theorem keepsScopes_idempotently [Platform] {ρ : Type} (slot : Slot) {userId : UUID}
    {payload : Json} {missingBody : String} {modelValidate : Json → Except Failure ρ}
    {modelDump : ρ → Json}
    {execute : App ρ} (hexecute : KeepsScopes execute) :
    KeepsScopes (idempotently userId slot.organization slot.scopeKey.1 slot.scopeKey.2 payload
      missingBody modelValidate modelDump execute) := by
  have hnone : ∀ {γ : Type} {p : App γ}, Confined {} p → KeepsScopes p :=
    fun hp => keepsScopes_of_confined (by simp) hp
  refine Prog.every_bind (χ := fun _ => True) ?_ fun state _ => ?_
  · refine Prog.every_bind (hnone confined_now) fun at_ _ => ?_
    refine Prog.every_bind (hnone confined_uuid4) fun id _ => ?_
    refine Prog.every_bind (χ := fun _ => True) ?_ fun result _ => ?_
    · exact ⟨ownScope_of_slot slot rfl rfl, fun _ _ => trivial⟩
    refine Prog.every_bind (hnone (confined_checked result)) fun created _ => ?_
    split
    · refine Prog.every_bind (hnone (confined_select _)) fun record _ => ?_
      cases record <;> trivial
    · refine Prog.every_bind (hnone (confined_lockFound _ _)) fun record _ => ?_
      cases record with
      | none => trivial
      | some record =>
        dsimp only
        split
        · trivial
        · split <;> trivial
  · split
    · cases state.replayBody with
      | none => trivial
      | some body => exact Prog.every_bind (hnone (confined_ofExcept _)) fun _ _ => trivial
    · refine Prog.every_bind hexecute fun response _ => ?_
      refine Prog.every_bind (χ := fun _ => True) ?_ fun _ _ => trivial
      exact ⟨fun _ hr => hr, fun x _ => hnone (confined_checked x)⟩

theorem keepsScopes_request [Platform] (request : Request) : KeepsScopes request.handler := by
  have hnone : ∀ {γ : Type} {p : App γ}, Confined {} p → KeepsScopes p :=
    fun hp => keepsScopes_of_confined (by simp) hp
  cases request with
  | createOrganization userId args =>
    refine Prog.every_bind (χ := fun _ => True) ?_ fun _ _ => trivial
    refine Prog.every_bind (hnone (confined_getCurrentUser _)) fun user _ => ?_
    refine Prog.every_bind (hnone (confined_validated _ _)) fun a _ => ?_
    refine keepsScopes_idempotently (.createOrganization user.id a.2) ?_
    let F : Scope := { writes := [.organizations, .organizationMemberships, .auditLogs] }
    exact keepsScopes_of_confined (F := F) (by simp [F])
      (Prog.every_bind (confined_createOrganization (by simp [F]) (by simp [F]) (by simp [F]) _ _)
        fun _ _ => trivial)
  | organization organizationId userId request =>
    cases request with
    | createInvitation args =>
      refine Prog.every_bind (χ := fun _ => True) ?_ fun _ _ => trivial
      refine Prog.every_bind (hnone (confined_requirePermission _ _ _)) fun context _ => ?_
      refine Prog.every_bind (hnone (confined_validated _ _)) fun a _ => ?_
      refine keepsScopes_idempotently (.createInvitation organizationId context.user.id a.2) ?_
      let F : Scope := { writes := [.invitations, .auditLogs], calls := fun _ => True }
      exact keepsScopes_of_confined (F := F) (by simp [F])
        (Prog.every_bind
          (confined_inviteMember (by simp [F]) (by simp [F]) (fun _ => trivial) _ _ _)
          fun _ _ => confined_ofExcept _)
    | checkout args =>
      refine Prog.every_bind (χ := fun _ => True) ?_ fun _ _ => trivial
      refine Prog.every_bind (hnone (confined_requirePermission _ _ _)) fun context _ => ?_
      refine Prog.every_bind (hnone (confined_validated _ _)) fun a _ => ?_
      refine keepsScopes_idempotently (.checkout organizationId context.user.id a.2) ?_
      let F : Scope := { writes := [.subscriptions] }
      exact keepsScopes_of_confined (F := F) (by simp [F])
        (Prog.every_bind (confined_createBillingCheckout (by simp [F]) (fun _ h => h) _ _ _)
          fun _ _ => trivial)
    | _ =>
      exact keepsScopes_of_confined (by simp [Request.scope, OrganizationRequest.scope])
        (confined_request _)
  | _ => exact keepsScopes_of_confined (by simp [Request.scope]) (confined_request _)

theorem Request.scope_endpoints (request : Request) :
    Table.webhookEndpoints ∉ request.scope.deletes := by
  cases request with
  | organization organizationId userId request =>
    cases request <;> simp [Request.scope, OrganizationRequest.scope]
  | _ => simp [Request.scope]

/-- Every request keeps the rows attributed. -/
theorem attributed_respond [Platform] (h : Attributed db) (oracle : Oracle Answer)
    (request : Request) :
    Attributed (respond oracle request db).2 where
  unclashing := (confined_request request).transaction_unclashing h.unclashing
  tagged := by
    have hkeys : WritesGood OwnKey (fun _ => True) request.handler :=
      (keepsKeys_request request).mono (fun _ hs => hs.1) (fun _ h => h) fun _ h => h
    exact ⟨hkeys.transaction h.tagged.keys oracle,
      (keepsScopes_request request).transaction h.tagged.scopes oracle⟩
  anchored := (confined_request request).runs.transaction_invariant (I := Anchored)
    (fun _ _ env hs hI => hs.anchored request.scope_endpoints hI env) h.anchored

theorem Request.scope_users (organizationId userId : UUID) (request : OrganizationRequest) :
    Table.users ∉ (Request.organization organizationId userId request).scope.writes ∧
      Table.users ∉ (Request.organization organizationId userId request).scope.deletes := by
  cases request <;> simp [Request.scope, OrganizationRequest.scope]

end Attributed

/-! ## The rows of another tenant -/

section Others

variable {organizationId other : UUID} {db : Db Row} {t : Table}

/-- The endpoint of a delivery tells its tenant. -/
theorem tenantPart_of_endpoint (h : Unclashing db) (organizationId : UUID) {d : WebhookDelivery}
    {e : WebhookEndpoint} (he : e ∈ db .webhookEndpoints) (hid : e.id = d.endpointId) :
    tenantPart organizationId db .webhookDeliveries d =
      decide (e.organizationId = organizationId) := by
  have honly : ∀ e' ∈ db .webhookEndpoints, e'.id = d.endpointId → e' = e :=
    fun e' he' hid' => h.eq_of_pk he' he (hid'.trans hid.symm)
  simp only [tenantPart, partOf, foreignEndpoint]
  by_cases horganization : e.organizationId = organizationId
  · simp only [horganization, decide_true, Bool.not_eq_true', List.any_eq_false, decide_eq_true_eq]
    rintro e' he' ⟨hother, hid'⟩
    exact hother (honly e' he' hid' ▸ horganization)
  · simp only [horganization, decide_false, Bool.not_eq_false', List.any_eq_true,
      decide_eq_true_eq]
    exact ⟨e, he, horganization, hid⟩

/-- A row of one tenant is not a row of another. -/
theorem Attributed.tenantPart_ne (h : Attributed db) (hne : organizationId ≠ other)
    (ht : t ≠ .users) {r : Row t} (hr : r ∈ db t) (hP : tenantPart organizationId db t r = true) :
    tenantPart other db t r = false := by
  cases t with
  | users => exact absurd rfl ht
  | refreshTokens => rfl
  | stripeEvents => rfl
  | idempotencyRecords =>
    simp only [tenantPart, partOf, decide_eq_true_eq] at hP
    simp [tenantPart, partOf, hP, hne]
  | webhookDeliveries =>
    obtain ⟨e, he, hid⟩ := h.anchored r hr
    rw [tenantPart_of_endpoint h.unclashing organizationId he hid, decide_eq_true_eq] at hP
    rw [tenantPart_of_endpoint h.unclashing other he hid, hP]
    exact decide_eq_false hne
  | _ =>
    simp only [tenantPart, partOf, decide_eq_true_eq] at hP
    simp [tenantPart, partOf, hP, hne]

/-- The rows of a tenant are elsewhere for every other. -/
theorem Attributed.tenantRows_eq (h : Attributed db) (hne : organizationId ≠ other)
    (ht : t ≠ .users) :
    tenantRows organizationId db t =
      (elsewhere other db t).filter (tenantPart organizationId db t) := by
  refine filter_eq_filter_filter fun r hr => ?_
  obtain ⟨hr, hother⟩ := List.mem_filter.mp hr
  by_contra hP
  have hfalse := h.tenantPart_ne hne ht hr (by simpa using hP)
  rw [hfalse] at hother
  cases hother

variable [Platform]

/-- A request on the routes of another organization leaves the rows of a tenant. -/
theorem Attributed.tenantRows_respond (h : Attributed db) (hne : organizationId ≠ other)
    {oracle : Oracle Answer} (hunused : ∀ n, Unused db (oracle n)) (userId : UUID)
    (request : OrganizationRequest) :
    tenantRows organizationId (respond oracle (.organization other userId request) db).2 =
      tenantRows organizationId db := by
  have hafter : Attributed (respond oracle (.organization other userId request) db).2 :=
    attributed_respond h oracle _
  have helsewhere : elsewhere other (respond oracle (.organization other userId request) db).2 =
      elsewhere other db :=
    (respond_shared h.unclashing h.unclashing h.tagged h.tagged rfl
      (fun n => (hunused n).elsewhere) (fun n => (hunused n).elsewhere) userId request).2.2.1
  funext t
  by_cases ht : t = .users
  · subst ht
    obtain ⟨hw, hd⟩ := Request.scope_users other userId request
    exact congrArg (List.filter _) ((confined_request _).transaction_table hw hd)
  rw [hafter.tenantRows_eq hne ht, h.tenantRows_eq hne ht, helsewhere]
  refine List.filter_congr fun r hr => ?_
  obtain ⟨hmem, hother⟩ := Part.mem_rest.mp hr
  cases t with
  | webhookDeliveries =>
    -- Its endpoint is elsewhere as well, and there is no other of its id.
    obtain ⟨e, he, hid⟩ := h.anchored r hmem
    rw [tenantPart_of_endpoint h.unclashing other he hid] at hother
    have hkept : e ∈ elsewhere other (respond oracle (.organization other userId request) db).2
        .webhookEndpoints := by
      rw [helsewhere]
      exact Part.mem_rest.mpr ⟨he, hother⟩
    rw [tenantPart_of_endpoint h.unclashing organizationId he hid,
      tenantPart_of_endpoint hafter.unclashing organizationId (mem_of_elsewhere hkept) hid]
  | _ => rfl

end Others

/-! ## Sequences of requests -/

/-- A request on the routes of an organization, with what it gets from outside. -/
structure TenantRequest where
  organizationId : UUID
  userId : UUID
  request : OrganizationRequest
  oracle : Oracle Answer

section Sequences

variable [Platform] {organizationId : UUID} {requests : List TenantRequest} {db db' : Db Row}

def TenantRequest.serve (r : TenantRequest) (db : Db Row) : Except Failure Response × Db Row :=
  respond r.oracle (.organization r.organizationId r.userId r.request) db

theorem Attributed.serve (h : Attributed db) (r : TenantRequest) : Attributed (r.serve db).2 :=
  attributed_respond h r.oracle _

/-- The responses to the requests, one after the other, with their organizations, and the database
at the end. -/
def respondEach : List TenantRequest → Db Row → List (UUID × Except Failure Response) × Db Row
  | [], db => ([], db)
  | r :: requests, db =>
    ((r.organizationId, (r.serve db).1) :: (respondEach requests (r.serve db).2).1,
      (respondEach requests (r.serve db).2).2)

/-- Ids and tokens that a request draws are used nowhere when it is sent. -/
def DrawsUnused : List TenantRequest → Db Row → Prop
  | [], _ => True
  | r :: requests, db => (∀ n, Unused db (r.oracle n)) ∧ DrawsUnused requests (r.serve db).2

/-- The requests of a tenant alone, next to the requests of all. -/
theorem respondEach_filter (hdb : Attributed db) (hdb' : Attributed db')
    (hsame : tenantRows organizationId db' = tenantRows organizationId db)
    (hdraws : DrawsUnused requests db)
    (hdraws' : ∀ r ∈ requests, ∀ n, Unused (elsewhere organizationId db') (r.oracle n)) :
    (respondEach (requests.filter (·.organizationId = organizationId)) db').1 =
        (respondEach requests db).1.filter (·.1 = organizationId) ∧
      tenantRows organizationId
          (respondEach (requests.filter (·.organizationId = organizationId)) db').2 =
        tenantRows organizationId (respondEach requests db).2 := by
  induction requests generalizing db db' with
  | nil => exact ⟨rfl, hsame⟩
  | cons r requests ih =>
    obtain ⟨hunused, hdraws⟩ := hdraws
    have hlater := fun r' hr' => hdraws' r' (List.mem_cons_of_mem r hr')
    by_cases horganization : r.organizationId = organizationId
    · subst horganization
      obtain ⟨hresponse, hrows, _, helsewhere⟩ : (r.serve db').1 = (r.serve db).1 ∧
          tenantRows r.organizationId (r.serve db').2 = tenantRows r.organizationId (r.serve db).2 ∧
          elsewhere r.organizationId (r.serve db).2 = elsewhere r.organizationId db ∧
          elsewhere r.organizationId (r.serve db').2 = elsewhere r.organizationId db' :=
        respond_shared hdb.unclashing hdb'.unclashing hdb.tagged hdb'.tagged hsame
          (fun n => (hunused n).elsewhere) (hdraws' r List.mem_cons_self) r.userId r.request
      obtain ⟨hresponses, hfinal⟩ := ih (hdb.serve r) (hdb'.serve r) hrows hdraws
        (by rwa [← helsewhere] at hlater)
      simp only [List.filter_cons, decide_true, ↓reduceIte, respondEach]
      exact ⟨by rw [hresponse, hresponses], hfinal⟩
    · have hrows : tenantRows organizationId (r.serve db).2 = tenantRows organizationId db :=
        hdb.tenantRows_respond (Ne.symm horganization) hunused r.userId r.request
      obtain ⟨hresponses, hfinal⟩ := ih (hdb.serve r) hdb' (hsame.trans hrows.symm) hdraws
        hlater
      simp only [List.filter_cons, horganization, decide_false, Bool.false_eq_true, ↓reduceIte,
        respondEach]
      exact ⟨hresponses, hfinal⟩

/-- Attributed are the databases that requests reach from empty tables. -/
theorem Served.attributed {ok : Request → Db Row → Prop} (h : Served ok db) : Attributed db := by
  induction h with
  | empty =>
    have hnone : ∀ t, ∀ r : Row t, r ∉ (fun _ => [] : Db Row) t := fun _ _ => List.not_mem_nil
    exact ⟨(Served.empty : Served ok _).unclashing, ⟨fun t r hr => absurd hr (hnone t r),
      fun t r hr => absurd hr (hnone t r)⟩, fun d hd => absurd hd (hnone _ d)⟩
  | request _ request oracle _ ih => exact attributed_respond ih oracle request

/-- Requests on the routes of many organizations, one after the other. Those of one organization
get the responses, and make of its rows, what they would if all others were left out. -/
theorem tenants_do_not_interfere (organizationId : UUID) {requests : List TenantRequest}
    {db : Db Row} (hdb : Attributed db) (hdraws : DrawsUnused requests db)
    (hstart : ∀ r ∈ requests, ∀ n, Unused db (r.oracle n)) :
    let own := requests.filter (·.organizationId = organizationId)
    (respondEach own db).1 = (respondEach requests db).1.filter (·.1 = organizationId) ∧
      tenantRows organizationId (respondEach own db).2 =
        tenantRows organizationId (respondEach requests db).2 :=
  respondEach_filter hdb hdb rfl hdraws fun r hr n => (hstart r hr n).elsewhere

end Sequences

section Sample

attribute [local instance] samplePlatform

theorem attributed_neighbourDb : Attributed neighbourDb :=
  ⟨unclashing_neighbourDb, tagged_of_empty rfl rfl, fun d hd => by cases hd⟩

/-- The neighbour gets a project, the sample organization loses its own, the neighbour's first one
is deleted. -/
def neighbourRequests : List TenantRequest :=
  [⟨neighbour.id, sampleUser.id, .createProject (some ⟨"Loom", none⟩), boundedOracle 0⟩,
    ⟨sampleOrganization.id, sampleUser.id, .deleteProject (some sampleProject.id), boundedOracle 1⟩,
    ⟨neighbour.id, sampleUser.id, .deleteProject (some ⟨17⟩), boundedOracle 2⟩]

theorem drawsUnused_neighbourRequests : DrawsUnused neighbourRequests neighbourDb := by
  refine ⟨unused_boundedOracle (by decide) (fun t => ?_) (by decide +kernel),
    unused_boundedOracle (by decide) (fun t => ?_) (by decide +kernel),
    unused_boundedOracle (by decide) (fun t => ?_) (by decide +kernel), trivial⟩ <;>
  cases t <;> decide +kernel

theorem sample_tenants_do_not_interfere :
    let own := neighbourRequests.filter (·.organizationId = sampleOrganization.id)
    (respondEach own neighbourDb).1 =
        (respondEach neighbourRequests neighbourDb).1.filter (·.1 = sampleOrganization.id) ∧
      tenantRows sampleOrganization.id (respondEach own neighbourDb).2 =
        tenantRows sampleOrganization.id (respondEach neighbourRequests neighbourDb).2 := by
  refine tenants_do_not_interfere sampleOrganization.id attributed_neighbourDb
    drawsUnused_neighbourRequests fun r hr => ?_
  have hsmall : ∀ t, ∀ r ∈ neighbourDb t, (pk r).bits.toNat < 1000 := by
    intro t
    cases t <;> decide +kernel
  obtain ⟨k, hk, horacle⟩ : ∃ k, k < 3 ∧ r.oracle = boundedOracle k := by
    simp only [neighbourRequests, List.mem_cons, List.not_mem_nil, or_false] at hr
    rcases hr with rfl | rfl | rfl
    · exact ⟨0, by decide, rfl⟩
    · exact ⟨1, by decide, rfl⟩
    · exact ⟨2, by decide, rfl⟩
  rw [horacle]
  exact unused_boundedOracle (by omega) (fun t r hr => by have := hsmall t r hr; omega) rfl

end Sample

end TenantFlow
