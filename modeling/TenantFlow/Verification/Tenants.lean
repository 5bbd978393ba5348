import TenantFlow.Library.Sharing
import TenantFlow.Verification.ObjectKeys
import TenantFlow.Verification.Idempotency

/-!
# The rows of a tenant

A tenant is an organization with its rows: those that carry its id, and the deliveries to its
endpoints. The users belong to every tenant. Rows elsewhere are those of the other
organizations. Two databases share a tenant if it has the same rows in both; parts of the
program that read and write its rows only go the same way in both.
-/

namespace TenantFlow

open JsonText Transactional

/-- The rows of a tenant, when `foreign` are the endpoints of others. -/
def partOf (organizationId : UUID) (foreign : UUID → Bool) : Part Row
  | .users, _ => true
  | .organizations, r => r.id = organizationId
  | .organizationMemberships, r => r.organizationId = organizationId
  | .invitations, r => r.organizationId = organizationId
  | .projects, r => r.organizationId = organizationId
  | .tasks, r => r.organizationId = organizationId
  | .attachments, r => r.organizationId = organizationId
  | .refreshTokens, _ => false
  | .idempotencyRecords, r => r.organizationId = some organizationId
  | .webhookEndpoints, r => r.organizationId = organizationId
  | .webhookDeliveries, r => !foreign r.endpointId
  | .subscriptions, r => r.organizationId = organizationId
  | .stripeEvents, _ => false
  | .auditLogs, r => r.organizationId = organizationId

def foreignEndpoint (organizationId : UUID) (db : Db Row) (id : UUID) : Bool :=
  (db .webhookEndpoints).any fun e => e.organizationId ≠ organizationId ∧ e.id = id

/-- A delivery belongs to the tenant unless its endpoint is another's. -/
def tenantPart (organizationId : UUID) (db : Db Row) : Part Row :=
  partOf organizationId (foreignEndpoint organizationId db)

def tenantRows (organizationId : UUID) (db : Db Row) : Db Row :=
  (tenantPart organizationId db).mine db

def elsewhere (organizationId : UUID) (db : Db Row) : Db Row :=
  (tenantPart organizationId db).rest db

/-- The scope of an idempotency record names its organization. -/
def OwnScope : (t : Table) → Row t → Prop
  | .idempotencyRecords, r => ∀ organizationId userId,
    r.scope = invitationScope organizationId userId ∨ r.scope = checkoutScope organizationId userId →
      r.organizationId = some organizationId
  | _, _ => True

/-- Object keys and scopes name the organization of their row. -/
structure Tagged (db : Db Row) : Prop where
  keys : AllGood OwnKey db
  scopes : AllGood OwnScope db

theorem Under.organization_eq {organizationId organizationId' : UUID} {key : String}
    (h : Under organizationId key) (h' : Under organizationId' key) :
    organizationId = organizationId' := by
  obtain ⟨tail, htail⟩ := h
  obtain ⟨tail', htail'⟩ := h'
  have heq := htail.trans htail'.symm
  simp only [String.toList_append, List.append_assoc] at heq
  have hrest := List.append_cancel_left heq
  exact UUID.str_injective (String.toList_injective (List.append_inj hrest (by simp)).1)

section Tenant

variable {organizationId : UUID} {db db' : Db Row} {t : Table}

def Slot.organization : Slot → Option UUID
  | .createOrganization _ _ => none
  | .createInvitation organizationId _ _ => some organizationId
  | .checkout organizationId _ _ => some organizationId

theorem ownScope_of_slot (slot : Slot) {r : IdempotencyRecord} (hscope : r.scope = slot.scopeKey.1)
    (horganization : r.organizationId = slot.organization) :
    OwnScope .idempotencyRecords r := by
  intro organizationId userId h
  rw [horganization]
  rw [hscope] at h
  rcases h with h | h
  · have hslot : slot = .createInvitation organizationId userId slot.scopeKey.2 :=
      Slot.scopeKey_injective (Prod.ext h rfl)
    rw [hslot]
    rfl
  · have hslot : slot = .checkout organizationId userId slot.scopeKey.2 :=
      Slot.scopeKey_injective (Prod.ext h rfl)
    rw [hslot]
    rfl

/-- Ids and tokens that no row of the database has. -/
structure Unused [Platform] (d : Db Row) (env : (c : Call) → Answer c) : Prop where
  ids : ∀ t, ∀ r ∈ d t, pk r ≠ env .uuid4
  tokens : ∀ nbytes, ∀ r ∈ d .invitations,
    r.tokenHash ≠ tokenFingerprint (env (.tokenUrlsafe nbytes))

/-- What tells a tenant from the others: its keys, the hashes of its invitation tokens, and the
endpoints of the others. -/
structure TenantBorder (organizationId : UUID) where
  Key : Table → UUID → Prop
  Hash : String → Prop
  foreign : UUID → Bool

namespace TenantBorder

variable (B : TenantBorder organizationId)

def part : Part Row := partOf organizationId B.foreign

/-- Hashes and endpoints are on the side of their row. -/
def Marked : (t : Table) → Row t → Prop
  | .invitations, r => B.Hash r.tokenHash ↔ r.organizationId = organizationId
  | .webhookEndpoints, r => B.foreign r.id = false ↔ r.organizationId = organizationId
  | _, _ => True

structure Good (t : Table) (r : Row t) : Prop where
  key_iff : B.Key t (pk r) ↔ B.part t r = true
  marked : B.Marked t r
  ownKey : OwnKey t r
  ownScope : OwnScope t r

def border : Border Row UUID where
  part := B.part
  Good := B.Good
  Key := B.Key
  key_iff _ _ h := h.key_iff

/-- What is drawn for the tenant is its own. -/
def Draws [Platform] : (c : Call) → Answer c → Prop
  | .uuid4, id => (∀ t, B.Key t id) ∧ B.foreign id = false
  | .tokenUrlsafe _, token => B.Hash (tokenFingerprint token)
  | _, _ => True

end TenantBorder

variable {B : TenantBorder organizationId}

abbrev TenantSharing (B : TenantBorder organizationId) : Db Row → Db Row → Prop := Sharing B.border

/-- The part of a program goes the same way wherever the tenant is shared. -/
abbrev InTenant [Platform] {α : Type} (B : TenantBorder organizationId) (χ : α → Prop) (p : App α) :
    Prop :=
  Coupled B.Draws B.border χ p

/-! ## Queries -/

/-- A condition that only rows of the tenant meet selects the same rows. -/
theorem TenantSharing.filter (h : TenantSharing B db db') {p : Row t → Bool}
    (hp : ∀ r, p r = true → B.part t r = true) : (db' t).filter p = (db t).filter p :=
  Sharing.filter h fun r _ => hp r

theorem TenantSharing.find (h : TenantSharing B db db') {p : Row t → Bool}
    (hp : ∀ r, p r = true → B.part t r = true) : (db' t).find? p = (db t).find? p :=
  Sharing.find h fun r _ => hp r

theorem TenantSharing.any (h : TenantSharing B db db') {p : Row t → Bool}
    (hp : ∀ r, p r = true → B.part t r = true) : (db' t).any p = (db t).any p :=
  Sharing.any h fun r _ => hp r

theorem TenantSharing.key (h : TenantSharing B db db') {r : Row t} (hr : r ∈ db t)
    (hP : B.part t r = true) : B.Key t (pk r) :=
  Sharing.key h hr hP

theorem TenantSharing.users (h : TenantSharing B db db') : db' .users = db .users := by
  have hall : (db' .users).filter (fun _ => true) = (db .users).filter fun _ => true :=
    TenantSharing.filter h fun _ _ => rfl
  simpa using hall

/-! ## Constraints -/

/-- The endpoint of a delivery of the tenant is the tenant's. -/
theorem TenantBorder.Good.endpoint {e : WebhookEndpoint} (he : B.Good .webhookEndpoints e)
    {id : UUID} (hid : B.foreign id = false) (heq : decide (e.id = id) = true) :
    B.part .webhookEndpoints e = true := by
  have horganization : e.organizationId = organizationId :=
    he.marked.mp (by rwa [of_decide_eq_true heq])
  simpa [TenantBorder.part, partOf] using horganization

/-- A row of the tenant refers to rows of the tenant, so it passes its checks in both. -/
theorem TenantSharing.check (h : TenantSharing B db db') {r : Row t} (hP : B.part t r = true) :
    Schema.check db' r = Schema.check db r := by
  have hu : hasUser db' = hasUser db := by
    funext id
    rw [hasUser, hasUser, h.users]
  have ho : hasOrganization db' organizationId = hasOrganization db organizationId :=
    TenantSharing.any h (t := .organizations) fun _ hp => hp
  have hp : ∀ id, (db' .projects).any (fun p => p.organizationId = organizationId ∧ p.id = id) =
      (db .projects).any fun p => p.organizationId = organizationId ∧ p.id = id :=
    fun id => TenantSharing.any h (t := .projects) fun _ hp => by
      simp only [decide_eq_true_eq] at hp
      simpa [TenantBorder.part, partOf] using hp.1
  have ht : ∀ id, (db' .tasks).any (fun p => p.organizationId = organizationId ∧ p.id = id) =
      (db .tasks).any fun p => p.organizationId = organizationId ∧ p.id = id :=
    fun id => TenantSharing.any h (t := .tasks) fun _ hp => by
      simp only [decide_eq_true_eq] at hp
      simpa [TenantBorder.part, partOf] using hp.1
  have hreferences : referencesOk db' r = referencesOk db r := by
    cases t with
    | users => rfl
    | refreshTokens => cases hP
    | stripeEvents => cases hP
    | organizations => simp only [referencesOk, hu]
    | idempotencyRecords =>
      simp only [TenantBorder.part, partOf, decide_eq_true_eq] at hP
      simp only [referencesOk, hP, Option.all_some, ho, hu]
    | webhookDeliveries =>
      simp only [TenantBorder.part, partOf, Bool.not_eq_true'] at hP
      have hown : ∀ e, B.Good .webhookEndpoints e → decide (e.id = r.endpointId) = true →
          B.part .webhookEndpoints e = true := fun e he heq => he.endpoint hP heq
      exact Sharing.any h hown
    | attachments =>
      simp only [TenantBorder.part, partOf, decide_eq_true_eq] at hP
      simp only [referencesOk, hP, ho, hp, ht, hu]
    | tasks =>
      simp only [TenantBorder.part, partOf, decide_eq_true_eq] at hP
      simp only [referencesOk, hP, ho, hp, hu]
    | _ =>
      simp only [TenantBorder.part, partOf, decide_eq_true_eq] at hP
      simp only [referencesOk, hP, ho, hu]
  simp only [Schema.check, hreferences]

/-- The rows differ in the unique values that do not tell their organization. -/
def Unlike : {t : Table} → Row t → Row t → Prop
  | .organizations, r, s => r.slug ≠ s.slug
  | .invitations, r, s => r.tokenHash ≠ s.tokenHash
  | .attachments, r, s => r.objectKey ≠ s.objectKey
  | .idempotencyRecords, r, s => (r.scope, r.key) ≠ (s.scope, s.key)
  | .subscriptions, r, _ => r.stripeCustomerId = none ∧ r.stripeSubscriptionId = none
  | _, _, _ => True

/-- A row of the tenant does not clash with one elsewhere. -/
theorem clash_elsewhere {r s : Row t} (hP : B.part t r = true) (hother : B.part t s = false)
    (hpk : pk s ≠ pk r) (hunlike : Unlike r s) : clash r s = false := by
  have hpk' : ¬ primaryKey r = primaryKey s := fun h => hpk h.symm
  have hunique : uniqueClash r s = false := by
    cases t with
    | users => cases hother
    | refreshTokens => cases hP
    | stripeEvents => cases hP
    | organizations => simpa [uniqueClash, Unlike] using hunlike
    | attachments => simpa [uniqueClash, Unlike] using hunlike
    | idempotencyRecords => simpa [uniqueClash, Unlike] using hunlike
    | invitations =>
      simp only [TenantBorder.part, partOf, decide_eq_true_eq, decide_eq_false_iff_not] at hP hother
      simp only [Unlike] at hunlike
      simp [uniqueClash, hP, hunlike, Ne.symm hother]
    | webhookDeliveries =>
      simp only [TenantBorder.part, partOf, Bool.not_eq_true', Bool.not_eq_false'] at hP hother
      simp only [uniqueClash, decide_eq_false_iff_not]
      rintro ⟨_, heq⟩
      rw [heq, hother] at hP
      cases hP
    | subscriptions =>
      simp only [TenantBorder.part, partOf, decide_eq_true_eq, decide_eq_false_iff_not] at hP hother
      simp [uniqueClash, hP, Ne.symm hother, hunlike.1, hunlike.2, sameValue]
    | organizationMemberships =>
      simp only [TenantBorder.part, partOf, decide_eq_true_eq, decide_eq_false_iff_not] at hP hother
      simp [uniqueClash, hP, Ne.symm hother]
    | projects =>
      simp only [TenantBorder.part, partOf, decide_eq_true_eq, decide_eq_false_iff_not] at hP hother
      simp [uniqueClash, hP, Ne.symm hother]
    | _ => rfl
  simp [clash, hpk', hunique]

theorem partOf_of_blank {foreign : UUID → Bool} {r s : Row t} (h : blank s = blank r) :
    partOf organizationId foreign t s = partOf organizationId foreign t r := by
  have hblank : ∀ r : Row t,
      partOf organizationId foreign t (blank r) = partOf organizationId foreign t r := by
    intro r
    cases t <;> rfl
  rw [← hblank s, h, hblank]

/-- An update of other columns leaves the row on its side. -/
theorem TenantBorder.Good.of_blank {r s : Row t} (hr : B.Good t r) (h : blank s = blank r) :
    B.Good t s := by
  have hmarked : ∀ r : Row t, B.Marked t (blank r) = B.Marked t r := by
    intro r
    cases t <;> rfl
  have hkey : ∀ r : Row t, OwnKey t (blank r) = OwnKey t r := by
    intro r
    cases t <;> rfl
  have hscope : ∀ r : Row t, OwnScope t (blank r) = OwnScope t r := by
    intro r
    cases t <;> rfl
  refine ⟨?_, ?_, ?_, ?_⟩
  · rw [pk_of_blank h, TenantBorder.part, partOf_of_blank h]
    exact hr.key_iff
  · rw [← hmarked s, h, hmarked]
    exact hr.marked
  · rw [← hkey s, h, hkey]
    exact hr.ownKey
  · rw [← hscope s, h, hscope]
    exact hr.ownScope

/-- An update of other columns does not make the row like another. -/
theorem unlike_of_blank {r s x : Row t} (ht : t ≠ .subscriptions) (hclash : clash r x = false)
    (h : blank s = blank r) : Unlike s x := by
  have hunique : uniqueClash r x = false := by
    simp only [clash, Bool.or_eq_false_iff] at hclash
    exact hclash.2
  cases t with
  | subscriptions => exact absurd rfl ht
  | organizations =>
    simp only [blank] at h
    simpa [uniqueClash, Unlike, h] using hunique
  | invitations =>
    simp only [blank, Invitation.mk.injEq] at h
    simp only [uniqueClash, decide_eq_false_iff_not, not_or] at hunique
    simpa [Unlike, h.2.2.2.2.1] using hunique.1
  | attachments =>
    simp only [blank] at h
    simpa [uniqueClash, Unlike, h] using hunique
  | idempotencyRecords =>
    simp only [blank, IdempotencyRecord.mk.injEq] at h
    simpa [uniqueClash, Unlike, h.2.2.2.1, h.2.2.2.2.1] using hunique
  | _ => trivial

/-! ## Rules -/

section Rules

variable {α β : Type}

theorem inTenant_call [Platform] (c : Call) : InTenant B (B.Draws c) (call c) :=
  ⟨couples_call c, fun _ ⟨_, hadmits, _, _, _, hx⟩ => hx ▸ hadmits⟩

theorem inTenant_now [Platform] : InTenant B (fun _ => True) now :=
  (inTenant_call .now).mono (fun _ h => h) (fun _ h => h) fun _ _ => trivial

theorem inTenant_uuid4 [Platform] :
    InTenant B (fun id => (∀ t, B.Key t id) ∧ B.foreign id = false) uuid4 :=
  inTenant_call .uuid4

theorem inTenant_rowDefaults [Platform] :
    InTenant B (fun d => (∀ t, B.Key t d.id) ∧ B.foreign d.id = false) rowDefaults :=
  Prog.every_bind inTenant_uuid4 fun _ hid => Prog.every_bind inTenant_now fun _ _ =>
    Prog.every_bind inTenant_now fun _ _ => hid

theorem inTenant_select [Platform] {q : Db Row → α}
    (h : ∀ db db', TenantSharing B db db' → q db' = q db) :
    InTenant B (fun a => ∃ db db', TenantSharing B db db' ∧ a = q db) (select q) :=
  ⟨couples_select h, fun _ ⟨_, _, db, db', hR, hx⟩ => ⟨db, db', hR, hx⟩⟩

theorem inTenant_checked [Platform] (x : Except DbError α) :
    InTenant B (fun _ => True) (checked x) := by
  cases x <;> trivial

theorem inTenant_ofExcept [Platform] (x : Except Failure α) :
    InTenant B (fun _ => True) (Prog.ofExcept x) := by
  cases x <;> trivial

theorem inTenant_orRaise [Platform] (e : Failure) (x : Option α) :
    InTenant B (fun a => x = some a) (orRaise e x) := by
  cases x <;> trivial

theorem inTenant_validated [Platform] (args : Option α) (ok : α → Bool) :
    InTenant B (fun _ => True) (validated args ok) := by
  cases args with
  | none => trivial
  | some a =>
    simp only [validated]
    split <;> trivial

/-- A search that good rows meet in the tenant only finds a row of the tenant. -/
theorem TenantSharing.found (h : TenantSharing B db db') {p : Row t → Bool}
    (hp : ∀ r, B.Good t r → p r = true → B.part t r = true) {r : Row t}
    (hr : (db t).find? p = some r) : p r = true ∧ B.Key t (pk r) := by
  have hpr : p r = true := List.find?_some hr
  have hmem : r ∈ db t := List.mem_of_find?_eq_some hr
  exact ⟨hpr, h.key hmem (hp r (h.good t r hmem) hpr)⟩

theorem inTenant_search [Platform] {p : Row t → Bool}
    (hp : ∀ r, B.Good t r → p r = true → B.part t r = true) :
    InTenant B (fun found => ∀ r ∈ found, p r = true ∧ B.Key t (pk r))
      (select fun db => (db t).find? p) := by
  refine ⟨couples_select fun db db' h => Sharing.find h hp, ?_⟩
  rintro _ ⟨_, _, db, db', h, rfl⟩ r hr
  exact TenantSharing.found h hp hr

theorem inTenant_lockSearch [Platform] {p : Row t → Bool}
    (hp : ∀ r, B.Good t r → p r = true → B.part t r = true) :
    InTenant B (fun found => ∀ r ∈ found, p r = true ∧ B.Key t (pk r))
      (selectForUpdate t fun db => (db t).find? p) := by
  refine ⟨couples_selectForUpdate fun db db' h => Sharing.find h hp, ?_⟩
  rintro _ ⟨_, _, db, db', h, rfl⟩ r hr
  exact TenantSharing.found h hp hr

theorem inTenant_find [Platform] {p : Row t → Bool} (hp : ∀ r, p r = true → B.part t r = true) :
    InTenant B (fun found => ∀ r ∈ found, p r = true ∧ B.Key t (pk r))
      (select fun db => (db t).find? p) :=
  inTenant_search fun r _ => hp r

theorem TenantBorder.part_of_key {id : UUID} (hid : B.Key t id) {r : Row t} (hr : B.Good t r)
    (hpk : pk r = id) : B.part t r = true := by
  subst hpk
  exact hr.key_iff.mp hid

/-- Rows on two sides have two keys. -/
theorem TenantBorder.pk_ne {r x : Row t} (hr : B.Key t (pk r)) (hx : B.Good t x)
    (hother : B.part t x = false) : pk x ≠ pk r := by
  intro heq
  rw [← heq, hx.key_iff, hother] at hr
  cases hr

theorem inTenant_insertRow [Platform] {r : Row t} (hP : B.part t r = true) (hid : B.Key t (pk r))
    (hmarked : B.Marked t r) (hkey : OwnKey t r) (hscope : OwnScope t r)
    (hunlike : ∀ x, B.Good t x → B.part t x = false → Unlike r x) :
    InTenant B (fun _ => True) (insertRow r) := by
  refine ⟨couples_insert hP ⟨⟨fun _ => hP, fun _ => hid⟩, hmarked, hkey, hscope⟩
    (fun db db' h => TenantSharing.check h hP) fun x hx hother => ?_, fun x _ => inTenant_checked x⟩
  exact clash_elsewhere hP hother (TenantBorder.pk_ne hid hx hother) (hunlike x hx hother)

theorem inTenant_updateRow [Platform] (ht : t ≠ .subscriptions) {id : UUID} (hid : B.Key t id)
    {f : Row t → Row t} (hf : ∀ r, blank (f r) = blank r) :
    InTenant B (fun _ => True) (updateRow t id f) := by
  have hside : ∀ r, B.part t (f r) = B.part t r := fun r => partOf_of_blank (hf r)
  refine ⟨couples_update hid
    (fun r => ⟨pk_of_blank (hf r), hside r, fun hr => hr.of_blank (hf r)⟩)
    (fun db db' h r hr hP => ?_) fun db db' h r hr hP x hx hother => ?_,
    fun x _ => inTenant_checked x⟩
  · exact TenantSharing.check h ((hside r).trans hP)
  · have hne : pk x ≠ pk r := TenantBorder.pk_ne (h.key hr hP) (h.good_of_mem hx) hother
    have hclash : clash r x = false := by
      rcases hx with hx | hx
      · exact h.unclashing.unique t r hr x hx hne.symm
      · exact h.unclashing'.unique t r (h.mem hr hP) x hx hne.symm
    exact clash_elsewhere ((hside r).trans hP) hother (by rwa [pk_of_blank (hf r)])
      (unlike_of_blank ht hclash (hf r))

theorem inTenant_flush [Platform] (ht : t ≠ .subscriptions) {id : UUID} (hid : B.Key t id)
    (dirty : Bool) {patch : Datetime → Row t → Row t}
    (hf : ∀ at_ r, blank (patch at_ r) = blank r) :
    InTenant B (fun _ => True) (flush t id dirty patch) := by
  unfold flush
  split
  · refine Prog.every_bind inTenant_now fun at_ _ => ?_
    exact Prog.every_bind (inTenant_updateRow ht hid (hf at_)) fun _ _ => trivial
  · trivial

end Rules

end Tenant

end TenantFlow
