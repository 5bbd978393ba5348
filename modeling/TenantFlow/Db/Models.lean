import TenantFlow.Core.Platform
import TenantFlow.Library.Store

/-!
# The tables

The rows of the fourteen tables and their constraints. A column with an enumerating
`CHECK` has an inductive type; a `NOT NULL` column that a `PATCH` body may set to null is
an `Option`, and its constraint is checked when the row is written.
-/

namespace TenantFlow

open JsonText Transactional

/-! ## Enumerated columns -/

inductive Role where
  | owner | admin | member | viewer
  deriving DecidableEq, Repr

inductive InvitationStatus where
  | pending | accepted | revoked | expired
  deriving DecidableEq, Repr

inductive ProjectStatus where
  | active | archived
  deriving DecidableEq, Repr

inductive TaskStatus where
  | todo | inProgress | done | cancelled
  deriving DecidableEq, Repr

inductive Priority where
  | low | medium | high | urgent
  deriving DecidableEq, Repr

inductive IdempotencyStatus where
  | processing | completed | failed
  deriving DecidableEq, Repr

inductive DeliveryState where
  | pending | delivered | retrying | dead
  deriving DecidableEq, Repr

inductive Plan where
  | free | pro | business
  deriving DecidableEq, Repr

inductive SubscriptionStatus where
  | inactive | trialing | active | pastDue | cancelled
  deriving DecidableEq, Repr

def Role.str : Role → String
  | .owner => "owner" | .admin => "admin" | .member => "member" | .viewer => "viewer"

def InvitationStatus.str : InvitationStatus → String
  | .pending => "pending" | .accepted => "accepted" | .revoked => "revoked"
  | .expired => "expired"

def ProjectStatus.str : ProjectStatus → String
  | .active => "active" | .archived => "archived"

def TaskStatus.str : TaskStatus → String
  | .todo => "todo" | .inProgress => "in_progress" | .done => "done" | .cancelled => "cancelled"

def Plan.str : Plan → String
  | .free => "free" | .pro => "pro" | .business => "business"

/-! ## Rows -/

structure User where
  id : UUID
  email : String
  passwordHash : String
  fullName : String
  isActive : Bool

structure Organization where
  id : UUID
  name : String
  slug : String
  createdBy : UUID
  createdAt : Datetime
  updatedAt : Datetime

structure OrganizationMembership where
  id : UUID
  organizationId : UUID
  userId : UUID
  role : Role
  createdAt : Datetime
  updatedAt : Datetime

structure Invitation where
  id : UUID
  organizationId : UUID
  email : String
  role : Role
  tokenHash : String
  status : InvitationStatus
  invitedBy : UUID
  expiresAt : Datetime
  createdAt : Datetime
  updatedAt : Datetime

structure Project where
  id : UUID
  organizationId : UUID
  name : Option String
  description : Option String
  status : Option ProjectStatus
  createdBy : UUID
  createdAt : Datetime
  updatedAt : Datetime

structure Task where
  id : UUID
  organizationId : UUID
  projectId : UUID
  title : Option String
  description : Option String
  status : Option TaskStatus
  priority : Option Priority
  assigneeId : Option UUID
  createdBy : UUID
  dueAt : Option PyDatetime
  createdAt : Datetime
  updatedAt : Datetime

structure Attachment where
  id : UUID
  organizationId : UUID
  projectId : Option UUID
  taskId : Option UUID
  objectKey : String
  originalFilename : String
  contentType : String
  sizeBytes : Int
  createdBy : UUID
  createdAt : Datetime
  updatedAt : Datetime

structure RefreshToken where
  id : UUID
  userId : UUID
  tokenHash : String
  familyId : UUID
  expiresAt : Datetime
  revokedAt : Option Datetime
  replacedByHash : Option String
  createdAt : Datetime

structure IdempotencyRecord where
  id : UUID
  organizationId : Option UUID
  userId : UUID
  scope : String
  key : String
  requestHash : String
  status : IdempotencyStatus
  responseStatus : Option Nat
  responseBody : Option Json
  createdAt : Datetime
  expiresAt : Datetime

structure WebhookEndpoint where
  id : UUID
  organizationId : UUID
  url : String
  signingSecretHash : String
  signingSecretEncrypted : String
  events : List String
  isActive : Bool
  createdBy : UUID
  createdAt : Datetime
  updatedAt : Datetime

structure WebhookDelivery where
  id : UUID
  eventId : UUID
  endpointId : UUID
  eventType : String
  payload : Json
  state : DeliveryState
  attemptCount : Nat
  responseStatus : Option Nat
  lastError : Option String
  nextRetryAt : Option Datetime
  createdAt : Datetime
  updatedAt : Datetime

structure Subscription where
  id : UUID
  organizationId : UUID
  plan : Plan
  status : SubscriptionStatus
  stripeCustomerId : Option String
  stripeSubscriptionId : Option String
  currentPeriodEnd : Option Datetime
  createdAt : Datetime
  updatedAt : Datetime
  deriving DecidableEq

structure StripeEvent where
  id : UUID
  stripeEventId : String
  eventType : String
  processedAt : Datetime

structure AuditLog where
  id : UUID
  organizationId : UUID
  actorId : Option UUID
  action : String
  entityType : String
  entityId : Option UUID
  metadata : List (String × Json)
  createdAt : Datetime

inductive Table where
  | users | organizations | organizationMemberships | invitations | projects | tasks
  | attachments | refreshTokens | idempotencyRecords | webhookEndpoints | webhookDeliveries
  | subscriptions | stripeEvents | auditLogs
  deriving DecidableEq, Repr

abbrev Row : Table → Type
  | .users => User
  | .organizations => Organization
  | .organizationMemberships => OrganizationMembership
  | .invitations => Invitation
  | .projects => Project
  | .tasks => Task
  | .attachments => Attachment
  | .refreshTokens => RefreshToken
  | .idempotencyRecords => IdempotencyRecord
  | .webhookEndpoints => WebhookEndpoint
  | .webhookDeliveries => WebhookDelivery
  | .subscriptions => Subscription
  | .stripeEvents => StripeEvent
  | .auditLogs => AuditLog

/-! ## Constraints -/

/-- A text that PostgreSQL can store: no NUL character. -/
def storable (s : String) : Bool := Char.ofNat 0 ∉ s.toList

mutual
/-- A JSON value that a `JSONB` column can store. -/
def storableJson : Json → Bool
  | .str s => storable s
  | .arr items => storableItems items
  | .obj fields => storableFields fields
  | _ => true
def storableItems : List Json → Bool
  | [] => true
  | x :: xs => storableJson x && storableItems xs
def storableFields : List (String × Json) → Bool
  | [] => true
  | (k, x) :: fs => storable k && storableJson x && storableFields fs
end

/-- A value of a `String(n)` column. -/
def varchar (n : Nat) (s : String) : Bool := s.length ≤ n && storable s

/-- Every value can be converted to the type of its column. -/
def columnsOk : {t : Table} → Row t → Bool
  | .users, r => varchar 320 r.email && varchar 255 r.passwordHash && varchar 160 r.fullName
  | .organizations, r => varchar 160 r.name && varchar 80 r.slug
  | .organizationMemberships, _ => true
  | .invitations, r => varchar 320 r.email && varchar 64 r.tokenHash
  | .projects, r => r.name.all (varchar 160) && r.description.all storable
  | .tasks, r => r.title.all (varchar 200) && r.description.all storable &&
      r.dueAt.all PyDatetime.inRange
  | .attachments, r => varchar 512 r.objectKey && varchar 255 r.originalFilename &&
      varchar 160 r.contentType && decide (r.sizeBytes < 2 ^ 63)
  | .refreshTokens, r => varchar 64 r.tokenHash && r.replacedByHash.all (varchar 64)
  | .idempotencyRecords, r => varchar 120 r.scope && varchar 160 r.key &&
      varchar 64 r.requestHash && r.responseBody.all storableJson
  | .webhookEndpoints, r => varchar 2048 r.url && varchar 64 r.signingSecretHash &&
      storable r.signingSecretEncrypted && r.events.all storable
  | .webhookDeliveries, r => varchar 120 r.eventType && storableJson r.payload &&
      r.lastError.all storable && decide (r.attemptCount < 2 ^ 31)
  | .subscriptions, r => r.stripeCustomerId.all (varchar 255) &&
      r.stripeSubscriptionId.all (varchar 255)
  | .stripeEvents, r => varchar 255 r.stripeEventId && varchar 160 r.eventType
  | .auditLogs, r => varchar 160 r.action && varchar 120 r.entityType &&
      storableFields r.metadata

/-- `NOT NULL` and `CHECK` constraints that the column types leave open. -/
def constraintsOk : {t : Table} → Row t → Bool
  | .invitations, r => r.role ≠ .owner
  | .projects, r => r.name.isSome && r.status.isSome
  | .tasks, r => r.title.isSome && r.status.isSome && r.priority.isSome
  | .attachments, r => (r.projectId.isSome != r.taskId.isSome) && decide (0 < r.sizeBytes)
  | _, _ => true

def hasUser (db : Db Row) (id : UUID) : Bool := (db .users).any (·.id = id)

def hasOrganization (db : Db Row) (id : UUID) : Bool := (db .organizations).any (·.id = id)

/-- Foreign keys. -/
def referencesOk (db : Db Row) : {t : Table} → Row t → Bool
  | .users, _ => true
  | .organizations, r => hasUser db r.createdBy
  | .organizationMemberships, r => hasOrganization db r.organizationId && hasUser db r.userId
  | .invitations, r => hasOrganization db r.organizationId && hasUser db r.invitedBy
  | .projects, r => hasOrganization db r.organizationId && hasUser db r.createdBy
  | .tasks, r => hasOrganization db r.organizationId &&
      (db .projects).any (fun p => p.organizationId = r.organizationId ∧ p.id = r.projectId) &&
      r.assigneeId.all (hasUser db) && hasUser db r.createdBy
  | .attachments, r => hasOrganization db r.organizationId &&
      r.projectId.all (fun id =>
        (db .projects).any fun p => p.organizationId = r.organizationId ∧ p.id = id) &&
      r.taskId.all (fun id =>
        (db .tasks).any fun t => t.organizationId = r.organizationId ∧ t.id = id) &&
      hasUser db r.createdBy
  | .refreshTokens, r => hasUser db r.userId
  | .idempotencyRecords, r => r.organizationId.all (hasOrganization db) && hasUser db r.userId
  | .webhookEndpoints, r => hasOrganization db r.organizationId && hasUser db r.createdBy
  | .webhookDeliveries, r => (db .webhookEndpoints).any (·.id = r.endpointId)
  | .subscriptions, r => hasOrganization db r.organizationId
  | .stripeEvents, _ => true
  | .auditLogs, r => hasOrganization db r.organizationId && r.actorId.all (hasUser db)

def primaryKey : {t : Table} → Row t → UUID
  | .users, r => r.id
  | .organizations, r => r.id
  | .organizationMemberships, r => r.id
  | .invitations, r => r.id
  | .projects, r => r.id
  | .tasks, r => r.id
  | .attachments, r => r.id
  | .refreshTokens, r => r.id
  | .idempotencyRecords, r => r.id
  | .webhookEndpoints, r => r.id
  | .webhookDeliveries, r => r.id
  | .subscriptions, r => r.id
  | .stripeEvents, r => r.id
  | .auditLogs, r => r.id

/-- Equal values of a nullable unique column; nulls are never equal. -/
def sameValue (a b : Option String) : Bool := a.isSome && a == b

/-- Unique constraints and unique indexes other than the primary key. -/
def uniqueClash : {t : Table} → Row t → Row t → Bool
  | .users, r, s => r.email == s.email
  | .organizations, r, s => r.slug == s.slug
  | .organizationMemberships, r, s => r.organizationId = s.organizationId ∧ r.userId = s.userId
  | .invitations, r, s => r.tokenHash = s.tokenHash ∨ r.status = .pending ∧ s.status = .pending ∧
      r.organizationId = s.organizationId ∧ r.email = s.email
  | .projects, r, s => decide (r.organizationId = s.organizationId) && sameValue r.name s.name
  | .tasks, _, _ => false
  | .attachments, r, s => r.objectKey == s.objectKey
  | .refreshTokens, r, s => r.tokenHash == s.tokenHash
  | .idempotencyRecords, r, s => r.scope = s.scope ∧ r.key = s.key
  | .webhookEndpoints, _, _ => false
  | .webhookDeliveries, r, s => r.eventId = s.eventId ∧ r.endpointId = s.endpointId
  | .subscriptions, r, s => decide (r.organizationId = s.organizationId) ||
      sameValue r.stripeCustomerId s.stripeCustomerId ||
      sameValue r.stripeSubscriptionId s.stripeSubscriptionId
  | .stripeEvents, r, s => r.stripeEventId == s.stripeEventId
  | .auditLogs, _, _ => false

/-- Attachments whose parent is the given task. -/
def attachmentsOfTask (db : Db Row) (task : Task) : List (Table × UUID) :=
  ((db .attachments).filter fun a =>
    a.organizationId = task.organizationId ∧ a.taskId = some task.id).map fun a =>
      (.attachments, a.id)

/-- `ON DELETE CASCADE` from projects and tasks; the program deletes no other parent rows. -/
def cascadeOf (db : Db Row) : Table → UUID → List (Table × UUID)
  | .projects, id =>
    ((db .projects).filter (·.id = id)).flatMap fun p =>
      let tasks := (db .tasks).filter fun t =>
        t.organizationId = p.organizationId ∧ t.projectId = p.id
      tasks.flatMap (attachmentsOfTask db) ++ tasks.map (fun t => (.tasks, t.id)) ++
        ((db .attachments).filter fun a =>
          a.organizationId = p.organizationId ∧ a.projectId = some p.id).map fun a =>
            (.attachments, a.id)
  | .tasks, id => ((db .tasks).filter (·.id = id)).flatMap (attachmentsOfTask db)
  | _, _ => []

instance : Schema Row UUID where
  pk := primaryKey
  clash r s := decide (primaryKey r = primaryKey s) || uniqueClash r s
  check db _ r :=
    if !columnsOk r then some .data
    else if !constraintsOk r || !referencesOk db r then some .integrity
    else none
  cascade := cascadeOf

@[simp] theorem pk_organizationMemberships (r : Row .organizationMemberships) : pk r = r.id := rfl

/-- A row version passes its checks exactly if it passes each kind of them. -/
theorem check_eq_none_iff {db : Db Row} {t : Table} {r : Row t} :
    Schema.check db r = none ↔
      columnsOk r = true ∧ constraintsOk r = true ∧ referencesOk db r = true := by
  simp only [Schema.check]
  cases columnsOk r <;> cases constraintsOk r <;> cases referencesOk db r <;> simp

end TenantFlow
