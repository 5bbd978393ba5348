import TenantFlow.Verification.Sample
import TenantFlow.Verification.Sequential
import TenantFlow.Verification.TenantParts

/-!
# Tenants do not see or touch each other

A request on the routes of an organization leaves the rows elsewhere as they are, and neither its
response nor what it makes of its own rows depends on them.
-/

namespace TenantFlow

open JsonText Transactional

section Routes

variable [Platform] {organizationId : UUID} {B : TenantBorder organizationId}

/-- Every route goes the same way wherever the tenant is shared. -/
theorem inTenant_request (request : OrganizationRequest) (userId : UUID) :
    InTenant B (fun _ => True) (request.handler organizationId userId) := by
  cases request with
  | createInvitation args =>
    refine Prog.every_bind (χ := fun _ => True) ?_ fun _ _ => trivial
    refine inTenant_route fun context a =>
      inTenant_idempotently ⟨context.user.id, .inl rfl⟩ ?_
    exact Prog.every_bind (inTenant_inviteMember _ _) fun _ _ => inTenant_ofExcept _
  | listMembers => exact Prog.every_bind (inTenant_listMembers userId) fun _ _ => trivial
  | changeMemberRole args =>
    exact Prog.every_bind (inTenant_changeMemberRole userId args) fun _ _ => trivial
  | deleteMember args =>
    refine Prog.every_bind (χ := fun _ => True) ?_ fun _ _ => trivial
    exact inTenant_route fun context a => inTenant_removeMembership _ _
  | createProject args =>
    refine Prog.every_bind (χ := fun _ => True) ?_ fun _ _ => trivial
    exact inTenant_route fun context payload =>
      Prog.every_bind (inTenant_createProject _ _) fun _ _ => inTenant_ofExcept _
  | listProjects args =>
    refine Prog.every_bind (χ := fun _ => True) ?_ fun _ _ => trivial
    refine inTenant_route fun context a => ?_
    refine Prog.every_bind (inTenant_cursorPosition _) fun position _ => ?_
    refine Prog.every_bind (inTenant_select fun db db' h => congrArg _
      (TenantSharing.filter h (t := .projects) fun _ hp => hp)) fun rows _ => ?_
    exact Prog.every_bind (inTenant_ofExcept _) fun _ _ => trivial
  | retrieveProject args =>
    refine Prog.every_bind (χ := fun _ => True) ?_ fun _ _ => trivial
    exact inTenant_route fun context a =>
      Prog.every_bind (inTenant_getProject _) fun _ _ => inTenant_ofExcept _
  | updateProject args =>
    refine Prog.every_bind (χ := fun _ => True) ?_ fun _ _ => trivial
    exact inTenant_route fun context a =>
      Prog.every_bind (inTenant_updateProject _ _ _) fun _ _ => inTenant_ofExcept _
  | deleteProject args =>
    refine Prog.every_bind (χ := fun _ => True) ?_ fun _ _ => trivial
    exact inTenant_route fun context a => inTenant_deleteProject _ _
  | createTask args =>
    refine Prog.every_bind (χ := fun _ => True) ?_ fun _ _ => trivial
    exact inTenant_route fun context payload =>
      Prog.every_bind (inTenant_createTask _ _) fun _ _ => inTenant_ofExcept _
  | listTasks args =>
    refine Prog.every_bind (χ := fun _ => True) ?_ fun _ _ => trivial
    refine inTenant_route fun context a => ?_
    refine Prog.every_bind (inTenant_cursorPosition _) fun position _ => ?_
    refine Prog.every_bind (inTenant_select fun db db' h => congrArg _
      (TenantSharing.filter h (t := .tasks) fun _ hp => ?_)) fun rows _ => ?_
    · simp only [decide_eq_true_eq] at hp
      simpa [TenantBorder.part, partOf] using hp.1
    exact Prog.every_bind (inTenant_ofExcept _) fun _ _ => trivial
  | retrieveTask args =>
    refine Prog.every_bind (χ := fun _ => True) ?_ fun _ _ => trivial
    exact inTenant_route fun context a =>
      Prog.every_bind (inTenant_getTask _) fun _ _ => inTenant_ofExcept _
  | updateTask args =>
    refine Prog.every_bind (χ := fun _ => True) ?_ fun _ _ => trivial
    exact inTenant_route fun context a =>
      Prog.every_bind (inTenant_updateTask _ _ _) fun _ _ => inTenant_ofExcept _
  | deleteTask args =>
    refine Prog.every_bind (χ := fun _ => True) ?_ fun _ _ => trivial
    exact inTenant_route fun context a => inTenant_deleteTask _ _
  | createUpload args =>
    exact Prog.every_bind (inTenant_createUpload userId args) fun _ _ => trivial
  | getDownload args =>
    exact Prog.every_bind (inTenant_getDownload userId args) fun _ _ => trivial
  | createWebhook args =>
    exact Prog.every_bind (inTenant_createWebhook userId args) fun _ _ => trivial
  | listWebhooks => exact Prog.every_bind (inTenant_listWebhooks userId) fun _ _ => trivial
  | deactivateWebhook args =>
    exact Prog.every_bind (inTenant_deactivateWebhook userId args) fun _ _ => trivial
  | listDeliveries args =>
    exact Prog.every_bind (inTenant_listDeliveries userId args) fun _ _ => trivial
  | retryDelivery args =>
    exact Prog.every_bind (inTenant_retryDelivery userId args) fun _ _ => trivial
  | listAudit args =>
    refine Prog.every_bind (χ := fun _ => True) ?_ fun _ _ => trivial
    refine inTenant_route fun context limit => ?_
    refine Prog.every_bind (inTenant_select fun db db' h => congrArg (List.take _)
      (congrArg _ (TenantSharing.filter h (t := .auditLogs) fun _ hp => hp))) fun _ _ => trivial
  | subscriptionStatus =>
    refine Prog.every_bind (χ := fun _ => True) ?_ fun _ _ => trivial
    refine Prog.every_bind (inTenant_requirePermission _ _) fun _ _ => ?_
    exact Prog.every_bind inTenant_getOrCreateSubscription fun _ _ => trivial
  | checkout args =>
    refine Prog.every_bind (χ := fun _ => True) ?_ fun _ _ => trivial
    refine inTenant_route fun context a =>
      inTenant_idempotently ⟨context.user.id, .inr rfl⟩ ?_
    exact Prog.every_bind (inTenant_createBillingCheckout _ _) fun _ _ => trivial
  | portal args => exact Prog.every_bind (inTenant_portal userId args) fun _ _ => trivial

end Routes

/-! ## Requests -/

section Requests

variable {organizationId : UUID} {db db' : Db Row}

theorem mem_of_elsewhere {t : Table} {r : Row t} (hr : r ∈ elsewhere organizationId db t) :
    r ∈ db t :=
  (Part.mem_rest.mp hr).1

theorem Unused.elsewhere [Platform] {env : (c : Call) → Answer c} (h : Unused db env) :
    Unused (elsewhere organizationId db) env :=
  ⟨fun t r hr => h.ids t r (mem_of_elsewhere hr), fun n r hr => h.tokens n r (mem_of_elsewhere hr)⟩

/-- The endpoints elsewhere decide which deliveries are the tenant's. -/
theorem tenantPart_congr (h : TenantFlow.elsewhere organizationId db' .webhookEndpoints =
    TenantFlow.elsewhere organizationId db .webhookEndpoints) :
    tenantPart organizationId db' = tenantPart organizationId db := by
  have hother : ∀ (db : Db Row) (id : UUID), foreignEndpoint organizationId db id =
      (TenantFlow.elsewhere organizationId db .webhookEndpoints).any fun e => e.id = id := by
    intro db id
    change _ = ((db .webhookEndpoints).filter
      fun e => !decide (e.organizationId = organizationId)).any _
    rw [List.any_filter, foreignEndpoint]
    congr 1
    funext e
    simp
  unfold tenantPart
  congr 1
  funext id
  rw [hother, hother, h]

/-! ## Databases that share a tenant -/

/-- Databases with the same rows of the tenant. -/
structure Neighbours (organizationId : UUID) (D : Db Row → Prop) : Prop where
  unclashing : ∀ d, D d → Unclashing d
  tagged : ∀ d, D d → Tagged d
  same : ∀ d d', D d → D d' → tenantRows organizationId d' = tenantRows organizationId d

open Classical in
/-- What none of the databases has elsewhere is the tenant's. -/
noncomputable def borderOf (organizationId : UUID) (D : Db Row → Prop) :
    TenantBorder organizationId where
  Key t id := ∀ d, D d → ∀ r ∈ TenantFlow.elsewhere organizationId d t, pk r ≠ id
  Hash hash := ∀ d, D d → ∀ r ∈ TenantFlow.elsewhere organizationId d .invitations,
    r.tokenHash ≠ hash
  foreign id := decide (∃ d, D d ∧ foreignEndpoint organizationId d id = true)

section Neighbours

variable {D : Db Row → Prop} {d d' : Db Row} {t : Table}

theorem Neighbours.mem (h : Neighbours organizationId D) (hd : D d) (hd' : D d') {r : Row t}
    (hr : r ∈ d t) (hP : tenantPart organizationId d t r = true) :
    r ∈ d' t ∧ tenantPart organizationId d' t r = true := by
  have hmine : r ∈ tenantRows organizationId d' t := by
    rw [h.same d d' hd hd']
    exact Part.mem_mine.mpr ⟨hr, hP⟩
  exact Part.mem_mine.mp hmine

/-- No row elsewhere is a row of the tenant. -/
theorem Neighbours.eq_false (h : Neighbours organizationId D) (hd : D d) (hd' : D d') {r x : Row t}
    (hr : r ∈ d t) (hP : tenantPart organizationId d t r = true)
    (hx : x ∈ TenantFlow.elsewhere organizationId d' t) : pk x ≠ pk r ∧ clash r x = false := by
  obtain ⟨hr', hP'⟩ := h.mem hd hd' hr hP
  obtain ⟨hx, hother⟩ := Part.mem_rest.mp hx
  have hne : pk x ≠ pk r := by
    intro hpk
    rw [(h.unclashing d' hd').eq_of_pk hx hr' hpk, hP'] at hother
    cases hother
  exact ⟨hne, (h.unclashing d' hd').unique t r hr' x hx hne.symm⟩

theorem foreign_of_elsewhere {e : WebhookEndpoint}
    (he : e ∈ TenantFlow.elsewhere organizationId d .webhookEndpoints) :
    foreignEndpoint organizationId d e.id = true := by
  obtain ⟨he, hother⟩ := Part.mem_rest.mp he
  have hne : e.organizationId ≠ organizationId := by simpa [tenantPart, partOf] using hother
  exact List.any_eq_true.mpr ⟨e, he, by simp [hne]⟩

theorem tenantPart_of_part {r : Row t} (hd : D d)
    (hP : (borderOf organizationId D).part t r = true) :
    tenantPart organizationId d t r = true := by
  cases t with
  | webhookDeliveries =>
    simp only [TenantBorder.part, partOf, borderOf, Bool.not_eq_true', decide_eq_false_iff_not,
      not_exists, not_and, Bool.not_eq_true] at hP
    simp [tenantPart, partOf, hP d hd]
  | _ => exact hP

theorem Neighbours.part_eq (h : Neighbours organizationId D) (hd : D d) {r : Row t}
    (hr : r ∈ d t) : (borderOf organizationId D).part t r = tenantPart organizationId d t r := by
  cases t with
  | webhookDeliveries =>
    cases hP : tenantPart organizationId d .webhookDeliveries r with
    | true =>
      simp only [TenantBorder.part, partOf, borderOf, Bool.not_eq_true', decide_eq_false_iff_not,
        not_exists, not_and, Bool.not_eq_true]
      intro d' hd'
      simpa [tenantPart, partOf] using (h.mem hd hd' hr hP).2
    | false =>
      by_contra hpart
      rw [tenantPart_of_part hd (by simpa using hpart)] at hP
      cases hP
  | _ => rfl

theorem Neighbours.good (h : Neighbours organizationId D) (hd : D d) :
    AllGood (borderOf organizationId D).Good d := by
  intro t r hr
  have hpart := h.part_eq hd hr
  have helsewhere : tenantPart organizationId d t r = false →
      r ∈ TenantFlow.elsewhere organizationId d t := fun hP => Part.mem_rest.mpr ⟨hr, hP⟩
  refine ⟨⟨fun hkey => ?_, fun hP d' hd' x hx => ?_⟩, ?_, (h.tagged d hd).keys t r hr,
    (h.tagged d hd).scopes t r hr⟩
  · rw [hpart]
    by_contra hP
    exact hkey d hd r (helsewhere (by simpa using hP)) rfl
  · exact (h.eq_false hd hd' hr (hpart ▸ hP) hx).1
  · cases t with
    | invitations =>
      refine ⟨fun hhash => ?_, fun horganization d' hd' x hx => ?_⟩
      · by_contra hne
        exact hhash d hd r (helsewhere (by simpa [tenantPart, partOf] using hne)) rfl
      · have hP : tenantPart organizationId d .invitations r = true := by
          simpa [tenantPart, partOf] using horganization
        have hclash := (h.eq_false hd hd' hr hP hx).2
        simp only [clash, uniqueClash, Bool.or_eq_false_iff, decide_eq_false_iff_not,
          not_or] at hclash
        exact fun heq => hclash.2.1 heq.symm
    | webhookEndpoints =>
      simp only [TenantBorder.Marked, borderOf, decide_eq_false_iff_not, not_exists, not_and,
        Bool.not_eq_true]
      refine ⟨fun hforeign => ?_, fun horganization d' hd' => ?_⟩
      · by_contra hne
        have htrue := foreign_of_elsewhere (helsewhere (by simpa [tenantPart, partOf] using hne))
        rw [hforeign d hd] at htrue
        cases htrue
      · have hP : tenantPart organizationId d .webhookEndpoints r = true := by
          simpa [tenantPart, partOf] using horganization
        by_contra hforeign
        simp only [foreignEndpoint, Bool.not_eq_false, List.any_eq_true, decide_eq_true_eq]
          at hforeign
        obtain ⟨e, he, hne, hid⟩ := hforeign
        have hx : e ∈ TenantFlow.elsewhere organizationId d' .webhookEndpoints :=
          Part.mem_rest.mpr ⟨he, by simpa [tenantPart, partOf] using hne⟩
        exact (h.eq_false hd hd' hr hP hx).1 hid
    | _ => trivial

theorem Neighbours.mine_eq (h : Neighbours organizationId D) (hd : D d) :
    (borderOf organizationId D).part.mine d = tenantRows organizationId d := by
  funext t
  exact List.filter_congr fun r hr => h.part_eq hd hr

theorem Neighbours.sharing [Platform] (h : Neighbours organizationId D) (hd : D d) (hd' : D d') :
    TenantSharing (borderOf organizationId D) d d' := by
  refine ⟨?_, h.good hd, h.good hd', h.unclashing d hd, h.unclashing d' hd'⟩
  exact (h.mine_eq hd').trans ((h.same d d' hd hd').trans (h.mine_eq hd).symm)

/-- Writes inside the border are writes to the rows of the tenant. -/
theorem Neighbours.replay [Platform] (h : Neighbours organizationId D) (hd : D d)
    {ops : List (Op Row UUID)} (hops : ∀ op ∈ ops, op.Inside (borderOf organizationId D).border) :
    tenantRows organizationId (Transactional.replay ops d) =
        Transactional.replay ops (tenantRows organizationId d) ∧
      TenantFlow.elsewhere organizationId (Transactional.replay ops d) =
        TenantFlow.elsewhere organizationId d := by
  obtain ⟨_, hmine, hrest⟩ := inside_replay (h.good hd) hops
  have hpart : tenantPart organizationId (Transactional.replay ops d) =
      tenantPart organizationId d := tenantPart_congr (congrFun hrest .webhookEndpoints)
  have hsame : ∀ t, ∀ r ∈ Transactional.replay ops d t,
      tenantPart organizationId d t r = (borderOf organizationId D).part t r := by
    intro t r hr
    cases hP : (borderOf organizationId D).part t r with
    | true => exact tenantPart_of_part hd hP
    | false =>
      have hold : r ∈ (borderOf organizationId D).part.rest d t :=
        congrFun hrest t ▸ Part.mem_rest.mpr ⟨hr, hP⟩
      rw [← h.part_eq hd (Part.mem_rest.mp hold).1, hP]
  constructor
  · rw [← h.mine_eq hd]
    refine Eq.trans (funext fun t => ?_) hmine
    exact List.filter_congr fun r hr => (congrFun (congrFun hpart t) r).trans (hsame t r hr)
  · have helsewhere : TenantFlow.elsewhere organizationId d =
        (borderOf organizationId D).part.rest d :=
      funext fun t => List.filter_congr fun r hr => by rw [h.part_eq hd hr]
    rw [helsewhere]
    refine Eq.trans (funext fun t => ?_) hrest
    refine List.filter_congr fun r hr => ?_
    exact congrArg Bool.not ((congrFun (congrFun hpart t) r).trans (hsame t r hr))

end Neighbours

/-- What a request makes of two databases that share its tenant. -/
theorem respond_shared [Platform] (hdb : Unclashing db) (hdb' : Unclashing db')
    (htagged : Tagged db) (htagged' : Tagged db')
    (hsame : tenantRows organizationId db' = tenantRows organizationId db)
    {oracle : Oracle Answer}
    (hunused : ∀ n, Unused (TenantFlow.elsewhere organizationId db) (oracle n))
    (hunused' : ∀ n, Unused (TenantFlow.elsewhere organizationId db') (oracle n)) (userId : UUID)
    (request : OrganizationRequest) :
    let after := respond oracle (.organization organizationId userId request) db
    let after' := respond oracle (.organization organizationId userId request) db'
    after'.1 = after.1 ∧ tenantRows organizationId after'.2 = tenantRows organizationId after.2 ∧
      TenantFlow.elsewhere organizationId after.2 = TenantFlow.elsewhere organizationId db ∧
      TenantFlow.elsewhere organizationId after'.2 = TenantFlow.elsewhere organizationId db' := by
  let D : Db Row → Prop := fun d => d = db ∨ d = db'
  have hD : Neighbours organizationId D := by
    refine ⟨?_, ?_, ?_⟩
    · rintro d (rfl | rfl)
      · exact hdb
      · exact hdb'
    · rintro d (rfl | rfl)
      · exact htagged
      · exact htagged'
    · rintro d d' (rfl | rfl) (rfl | rfl)
      · rfl
      · exact hsame
      · exact hsame.symm
      · rfl
  have hdraws : ∀ n c, (borderOf organizationId D).Draws c (oracle n c) := by
    have hunusedD : ∀ n d, D d → Unused (TenantFlow.elsewhere organizationId d) (oracle n) := by
      rintro n d (rfl | rfl)
      · exact hunused n
      · exact hunused' n
    intro n c
    cases c with
    | uuid4 =>
      refine ⟨fun t d hd => (hunusedD n d hd).ids t, ?_⟩
      simp only [borderOf, decide_eq_false_iff_not]
      rintro ⟨d, hd, hforeign⟩
      obtain ⟨e, he, h⟩ := List.any_eq_true.mp hforeign
      obtain ⟨hne, hid⟩ := of_decide_eq_true h
      have hx : e ∈ TenantFlow.elsewhere organizationId d .webhookEndpoints :=
        Part.mem_rest.mpr ⟨he, by simpa [tenantPart, partOf] using hne⟩
      exact (hunusedD n d hd).ids .webhookEndpoints e hx hid
    | tokenUrlsafe nbytes => exact fun d hd => (hunusedD n d hd).tokens nbytes
    | _ => trivial
  obtain ⟨hresponse, ops, hops, hafter, hafter'⟩ :=
    (inTenant_request (B := borderOf organizationId D) request userId).transaction hdraws
      (hD.sharing (.inl rfl) (.inr rfl))
  obtain ⟨hrows, helsewhere⟩ := hD.replay (.inl rfl) hops
  obtain ⟨hrows', helsewhere'⟩ := hD.replay (.inr rfl) hops
  intro after after'
  change after.2 = _ at hafter
  change after'.2 = _ at hafter'
  rw [hafter, hafter']
  exact ⟨hresponse, by rw [hrows, hrows', hsame], helsewhere, helsewhere'⟩

/-- Tenant isolation. A request on the routes of an organization changes no row elsewhere; and in
two databases that share the organization it gets the same response and makes the same of the
organization's rows, whatever else they hold. -/
theorem tenant_isolation [Platform] (organizationId userId : UUID) (request : OrganizationRequest)
    (oracle : Oracle Answer) {db db' : Db Row} (hdb : Unclashing db) (hdb' : Unclashing db')
    (htagged : Tagged db) (htagged' : Tagged db')
    (hsame : tenantRows organizationId db' = tenantRows organizationId db)
    (hunused : ∀ n, Unused (TenantFlow.elsewhere organizationId db) (oracle n))
    (hunused' : ∀ n, Unused (TenantFlow.elsewhere organizationId db') (oracle n)) :
    let after := respond oracle (.organization organizationId userId request) db
    let after' := respond oracle (.organization organizationId userId request) db'
    TenantFlow.elsewhere organizationId after.2 = TenantFlow.elsewhere organizationId db ∧
      after'.1 = after.1 ∧
      tenantRows organizationId after'.2 = tenantRows organizationId after.2 := by
  intro after after'
  obtain ⟨hresponse, hrows, helsewhere, _⟩ :=
    respond_shared hdb hdb' htagged htagged' hsame hunused hunused' userId request
  exact ⟨helsewhere, hresponse, hrows⟩

end Requests

/-! ## Two organizations -/

section Sample

attribute [local instance] samplePlatform

/-- The neighbour of the sample organization. -/
def neighbour : Organization :=
  { sampleOrganization with id := ⟨12⟩, name := "Weaving", slug := "weaving" }

/-- The sample database, and next to its organization another with an endpoint and a project. -/
def neighbourDb : Db Row
  | .organizations => [sampleOrganization, neighbour]
  | .organizationMemberships =>
    [⟨⟨3⟩, sampleOrganization.id, sampleUser.id, .owner, 0, 0⟩,
      ⟨⟨13⟩, neighbour.id, sampleUser.id, .owner, 0, 0⟩]
  | .projects => [sampleProject, { sampleProject with id := ⟨17⟩, organizationId := neighbour.id }]
  | .webhookEndpoints =>
    [sampleEndpoint, { sampleEndpoint with id := ⟨14⟩, organizationId := neighbour.id }]
  | t => taskedDb t

theorem unclashing_neighbourDb : Unclashing neighbourDb := by
  have hdb : Consistent neighbourDb := by
    refine ⟨fun t => ?_, fun t => ?_, fun t => ?_⟩ <;> cases t <;> decide +kernel
  exact hdb.unclashing

theorem tagged_of_empty {db : Db Row} (hfiles : db .attachments = [])
    (hrecords : db .idempotencyRecords = []) : Tagged db := by
  refine ⟨fun t r hr => ?_, fun t r hr => ?_⟩
  · cases t with
    | attachments => simp [hfiles] at hr
    | _ => trivial
  · cases t with
    | idempotencyRecords => simp [hrecords] at hr
    | _ => trivial

/-- External answers with random values of their own, over and over. -/
def boundedOracle (k : Nat) : Oracle Answer := fun n => sampleOracle (1000 * k + n % 1000)

theorem unused_boundedOracle {k : Nat} (hk : k < 1000) {d : Db Row}
    (hids : ∀ t, ∀ r ∈ d t, (pk r).bits.toNat < 1000 * (k + 1))
    (hinvitations : (d .invitations).isEmpty = true) (n : Nat) : Unused d (boundedOracle k n) := by
  refine ⟨fun t r hr hpk => ?_, fun nbytes r hr => ?_⟩
  · have hlt := hids t r hr
    have hbits : (boundedOracle k n .uuid4).bits.toNat = 1000 + (1000 * k + n % 1000) := by
      simp only [boundedOracle, sampleOracle, BitVec.toNat_ofNat]
      omega
    rw [hpk, hbits] at hlt
    omega
  · rw [List.isEmpty_iff] at hinvitations
    rw [hinvitations] at hr
    cases hr

theorem sample_tenant_isolation :
    let request := Request.organization sampleOrganization.id sampleUser.id
      (.deleteProject (some sampleProject.id))
    let after := respond (boundedOracle 0) request neighbourDb
    let after' := respond (boundedOracle 0) request taskedDb
    elsewhere sampleOrganization.id after.2 = elsewhere sampleOrganization.id neighbourDb ∧
      after'.1 = after.1 ∧
      tenantRows sampleOrganization.id after'.2 = tenantRows sampleOrganization.id after.2 := by
  have hsmall : ∀ t, ∀ r ∈ neighbourDb t, (pk r).bits.toNat < 1000 := by
    intro t
    cases t <;> decide +kernel
  have hsmall' : ∀ t, ∀ r ∈ taskedDb t, (pk r).bits.toNat < 1000 := by
    intro t
    cases t <;> decide +kernel
  refine tenant_isolation sampleOrganization.id sampleUser.id _ (boundedOracle 0)
    unclashing_neighbourDb unclashing_taskedDb (tagged_of_empty rfl rfl) (tagged_of_empty rfl rfl) ?_
    (fun n => (unused_boundedOracle (by decide) hsmall rfl n).elsewhere)
    fun n => (unused_boundedOracle (by decide) hsmall' rfl n).elsewhere
  funext t
  cases t <;> rfl

end Sample

end TenantFlow
