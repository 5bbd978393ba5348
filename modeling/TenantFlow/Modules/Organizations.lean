import TenantFlow.Infra.Idempotency
import TenantFlow.Modules.Audit
import TenantFlow.Modules.Auth

/-!
# Organizations, members and invitations
-/

namespace TenantFlow

open JsonText Transactional

variable [Platform]

/-! ## Schemas -/

structure OrganizationCreate where
  name : String
  slug : String
  deriving DecidableEq

/-- `^[a-z0-9][a-z0-9-]{1,78}[a-z0-9]$` -/
def validSlug (slug : String) : Bool :=
  let edge (c : Char) : Bool := ('a' ≤ c && c ≤ 'z') || ('0' ≤ c && c ≤ '9')
  let cs := slug.toList
  3 ≤ cs.length && cs.length ≤ 80 && cs.all (fun c => edge c || c == '-') &&
    cs.head?.any edge && cs.getLast?.any edge

def OrganizationCreate.valid (payload : OrganizationCreate) : Bool :=
  2 ≤ payload.name.length && payload.name.length ≤ 160 && validSlug payload.slug

def OrganizationCreate.modelDump (payload : OrganizationCreate) : Json :=
  .obj [("name", .str payload.name), ("slug", .str payload.slug)]

structure OrganizationResponse where
  id : UUID
  name : String
  slug : String
  role : String
  deriving DecidableEq

def OrganizationResponse.modelDump (response : OrganizationResponse) : Json :=
  .obj [("id", .str response.id.str), ("name", .str response.name),
    ("slug", .str response.slug), ("role", .str response.role)]

def OrganizationResponse.modelValidate (body : Json) : Except Failure OrganizationResponse :=
  match body with
  | .obj fields =>
    match lookup fields "id", lookup fields "name", lookup fields "slug", lookup fields "role" with
    | some (.str id), some (.str name), some (.str slug), some (.str role) =>
      match UUID.ofString id with
      | some id => .ok { id, name, slug, role }
      | none => .error (.unhandled "ValidationError")
    | _, _, _, _ => .error (.unhandled "ValidationError")
  | _ => .error (.unhandled "ValidationError")

/-- A parsed body: the address is the one `EmailStr` normalised. -/
structure InviteMemberRequest where
  email : String
  role : Role
  deriving DecidableEq

def InviteMemberRequest.valid (payload : InviteMemberRequest) : Bool := payload.role ≠ .owner

def InviteMemberRequest.modelDump (payload : InviteMemberRequest) : Json :=
  .obj [("email", .str payload.email), ("role", .str payload.role.str)]

structure InvitationResponse where
  id : UUID
  email : String
  role : String
  status : String
  deriving DecidableEq

def InvitationResponse.modelDump (response : InvitationResponse) : Json :=
  .obj [("id", .str response.id.str), ("email", .str response.email),
    ("role", .str response.role), ("status", .str response.status)]

/-- The constructor of the model: the address passes `EmailStr` once more. -/
def InvitationResponse.make (id : UUID) (email role status : String) :
    Except Failure InvitationResponse :=
  match Platform.validateEmail email with
  | some email => .ok { id, email, role, status }
  | none => .error (.unhandled "ValidationError")

def InvitationResponse.modelValidate (body : Json) : Except Failure InvitationResponse :=
  match body with
  | .obj fields =>
    match lookup fields "id", lookup fields "email", lookup fields "role",
      lookup fields "status" with
    | some (.str id), some (.str email), some (.str role), some (.str status) =>
      match UUID.ofString id with
      | some id => InvitationResponse.make id email role status
      | none => .error (.unhandled "ValidationError")
    | _, _, _, _ => .error (.unhandled "ValidationError")
  | _ => .error (.unhandled "ValidationError")

structure MembershipResponse where
  id : UUID
  userId : UUID
  email : String
  fullName : String
  role : Role
  deriving DecidableEq

def membershipResponse (membership : OrganizationMembership) (user : User) :
    Except Failure MembershipResponse :=
  match Platform.validateEmail user.email with
  | some email =>
    .ok { id := membership.id, userId := user.id, email, fullName := user.fullName,
          role := membership.role }
  | none => .error (.unhandled "ValidationError")

/-! ## Service -/

def createOrganization (user : User) (payload : OrganizationCreate) : App Organization := do
  let taken ← select fun db => (db .organizations).any (·.slug = payload.slug)
  if taken then
    raise (conflictError "ORGANIZATION_SLUG_EXISTS" "Organization slug is already in use")
  else
    let d ← rowDefaults
    let organization : Organization :=
      { id := d.id, name := strip payload.name, slug := payload.slug,
        createdBy := user.id, createdAt := d.createdAt, updatedAt := d.updatedAt }
    insertRow (t := .organizations) organization
    let d ← rowDefaults
    insertRow (t := .organizationMemberships)
      { id := d.id, organizationId := organization.id, userId := user.id, role := .owner,
        createdAt := d.createdAt, updatedAt := d.updatedAt }
    recordAudit organization.id (some user.id) "organization.created" "organization"
      (some organization.id) []
    return organization

def Invitation.setStatus (status : InvitationStatus) (updatedAt : Datetime) (r : Invitation) :
    Invitation :=
  { r with status, updatedAt }

def findPending (organizationId : UUID) (email : String) (db : Db Row) : Option Invitation :=
  (db .invitations).find? fun i =>
    i.organizationId = organizationId ∧ i.email = email ∧ i.status = .pending

/-- A user with this address belongs to the organization. -/
def isMember (organizationId : UUID) (email : String) : App Bool := do
  let existingUserId ← select fun db => ((db .users).find? (·.email = email)).map (·.id)
  match existingUserId with
  | none => return false
  | some existingUserId => select fun db => (findMembership organizationId existingUserId db).isSome

/-- The second half of `invite_member`: insert, audit and publish. -/
def addInvitation (organizationId : UUID) (invitedBy : User) (email : String) (role : Role) :
    App Invitation := do
  let rawToken ← call (.tokenUrlsafe 32)
  let at_ ← now
  let d ← rowDefaults
  let invitation : Invitation :=
    { id := d.id, organizationId, email, role, tokenHash := tokenFingerprint rawToken,
      status := .pending, invitedBy := invitedBy.id, expiresAt := at_ + days 7,
      createdAt := d.createdAt, updatedAt := d.updatedAt }
  insertRow (t := .invitations) invitation
  recordAudit organizationId (some invitedBy.id) "member.invited" "invitation"
    (some invitation.id) [("email", .str email), ("role", .str role.str)]
  orRaise (.unhandled "OperationalError")
    (← call (.sendInvitationTask invitation.id.str rawToken))
  return invitation

def inviteMember (organizationId : UUID) (invitedBy : User) (payload : InviteMemberRequest) :
    App Invitation := do
  let normalizedEmail := Platform.lower payload.email
  if (← isMember organizationId normalizedEmail) then
    raise (conflictError "ALREADY_A_MEMBER" "This user already belongs to the organization")
  else
    match ← select (findPending organizationId normalizedEmail) with
    | some pending =>
      if pending.expiresAt > (← now) then
        raise (conflictError "INVITATION_ALREADY_PENDING"
          "A pending invitation already exists for this email")
      else
        let _ ← flush .invitations pending.id true (Invitation.setStatus .expired)
        addInvitation organizationId invitedBy normalizedEmail payload.role
    | none => addInvitation organizationId invitedBy normalizedEmail payload.role

def findInvitation (rawToken : String) (db : Db Row) : Option Invitation :=
  (db .invitations).find? (·.tokenHash = tokenFingerprint rawToken)

/-- The membership of a user who accepts an invitation: the one there is, or a new one. -/
def joinOrganization (user : User) (invitation : Invitation) : App OrganizationMembership := do
  match ← select (findMembership invitation.organizationId user.id) with
  | some membership => return membership
  | none =>
    let d ← rowDefaults
    let membership : OrganizationMembership :=
      { id := d.id, organizationId := invitation.organizationId, userId := user.id,
        role := invitation.role, createdAt := d.createdAt, updatedAt := d.updatedAt }
    insertRow (t := .organizationMemberships) membership
    return membership

def acceptInvitation (user : User) (rawToken : String) : App OrganizationMembership := do
  match ← selectForUpdate .invitations (findInvitation rawToken) with
  | none => raise (notFoundError "INVITATION_NOT_FOUND" "Invitation was not found")
  | some invitation =>
    if invitation.status ≠ .pending then
      raise (conflictError "INVITATION_NOT_ACTIVE" "Invitation is no longer active")
    else if invitation.expiresAt ≤ (← now) then
      -- The exception rolls this write back.
      let _ ← flush .invitations invitation.id true (Invitation.setStatus .expired)
      raise (conflictError "INVITATION_EXPIRED" "Invitation has expired")
    else if invitation.email ≠ Platform.lower user.email then
      raise (.app 403 "INVITATION_EMAIL_MISMATCH" "Invitation belongs to a different account")
    else
      let membership ← joinOrganization user invitation
      -- The new status goes out with the flush of the audit row.
      let _ ← flush .invitations invitation.id true (Invitation.setStatus .accepted)
      recordAudit invitation.organizationId (some user.id) "member.joined"
        "organization_membership" (some membership.id) [("role", .str membership.role.str)]
      return membership

def findMembershipById (organizationId membershipId : UUID) (db : Db Row) :
    Option OrganizationMembership :=
  (db .organizationMemberships).find? fun m =>
    m.id = membershipId ∧ m.organizationId = organizationId

def updateMembershipRole (organizationId membershipId : UUID) (actor : User) (role : Role) :
    App OrganizationMembership := do
  match ← select (findMembershipById organizationId membershipId) with
  | none => raise (notFoundError "MEMBERSHIP_NOT_FOUND" "Membership was not found")
  | some membership =>
    if membership.role = .owner then
      raise (forbiddenError
        "The organization owner role cannot be changed through this endpoint")
    else
      let _ ← flush .organizationMemberships membership.id (role ≠ membership.role)
        fun updatedAt r => { r with role, updatedAt }
      recordAudit organizationId (some actor.id) "member.role_changed" "organization_membership"
        (some membership.id) [("from", .str membership.role.str), ("to", .str role.str)]
      return { membership with role }

def removeMembership (organizationId membershipId : UUID) (actor : User) : App Unit := do
  match ← select (findMembershipById organizationId membershipId) with
  | none => raise (notFoundError "MEMBERSHIP_NOT_FOUND" "Membership was not found")
  | some membership =>
    if membership.role = .owner then
      raise (forbiddenError "The organization owner cannot be removed")
    else
      recordAudit organizationId (some actor.id) "member.removed" "organization_membership"
        (some membership.id)
        [("user_id", .str membership.userId.str), ("role", .str membership.role.str)]
      deleteRow .organizationMemberships membership.id

/-! ## Routes -/

/-- `Header(alias="Idempotency-Key", min_length=8, max_length=160)` -/
def validKey (key : String) : Bool := 8 ≤ key.length && key.length ≤ 160

def organizationScope (userId : UUID) : String := "organization:create:" ++ userId.str

/-- `POST /organizations` -/
def create (userId : UUID) (args : Option (OrganizationCreate × String)) :
    App (Outcome OrganizationResponse) := do
  let user ← getCurrentUser userId
  let (payload, key) ← validated args fun a => a.1.valid && validKey a.2
  idempotently user.id none (organizationScope user.id) key payload.modelDump
    "Completed idempotency record is missing its response body"
    OrganizationResponse.modelValidate OrganizationResponse.modelDump do
      let organization ← createOrganization user payload
      return { id := organization.id, name := organization.name, slug := organization.slug,
               role := "owner" }

def invitationScope (organizationId userId : UUID) : String :=
  "invitation:create:" ++ organizationId.str ++ ":" ++ userId.str

/-- `POST /organizations/{organization_id}/invitations` -/
def createInvitation (organizationId userId : UUID)
    (args : Option (InviteMemberRequest × String)) : App (Outcome InvitationResponse) := do
  let context ← requirePermission .membersManage organizationId userId
  let (payload, key) ← validated args fun a => a.1.valid && validKey a.2
  idempotently context.user.id (some organizationId)
    (invitationScope organizationId context.user.id) key payload.modelDump
    "Completed invitation idempotency record is missing its response body"
    InvitationResponse.modelValidate InvitationResponse.modelDump do
      let invitation ← inviteMember organizationId context.user payload
      Prog.ofExcept (InvitationResponse.make invitation.id invitation.email invitation.role.str
        invitation.status.str)

/-- `GET /organizations` -/
def listOrganizations (userId : UUID) : App (List OrganizationResponse) := do
  let user ← getCurrentUser userId
  select fun db =>
    ((((db .organizationMemberships).filter (·.userId = user.id)).flatMap fun m =>
      ((db .organizations).filter (·.id = m.organizationId)).map fun o => (o, m.role)).mergeSort
        fun a b => decide (a.1.name ≤ b.1.name)).map fun (o, role) =>
          { id := o.id, name := o.name, slug := o.slug, role := role.str }

/-- `POST /organizations/invitations/accept` -/
def acceptMemberInvitation (userId : UUID) (args : Option String) : App MembershipResponse := do
  let user ← getCurrentUser userId
  let rawToken ← validated args fun token => 32 ≤ token.length && token.length ≤ 256
  let membership ← acceptInvitation user rawToken
  Prog.ofExcept (membershipResponse membership user)

/-- `GET /organizations/{organization_id}/members` -/
def listMembers (organizationId userId : UUID) : App (List MembershipResponse) := do
  let _ ← requirePermission .membersManage organizationId userId
  let rows ← select fun db =>
    (((db .organizationMemberships).filter (·.organizationId = organizationId)).flatMap fun m =>
      ((db .users).filter (·.id = m.userId)).map fun user => (m, user)).mergeSort fun a b =>
        decide (a.1.createdAt < b.1.createdAt) ||
          (decide (a.1.createdAt = b.1.createdAt) && decide (a.2.email ≤ b.2.email))
  Prog.ofExcept (rows.mapM fun r => membershipResponse r.1 r.2)

/-- `PATCH /organizations/{organization_id}/members/{membership_id}` -/
def changeMemberRole (organizationId userId : UUID) (args : Option (UUID × Role)) :
    App MembershipResponse := do
  let context ← requirePermission .membersManage organizationId userId
  let (membershipId, role) ← validated args fun a => a.2 ≠ .owner
  let membership ← updateMembershipRole organizationId membershipId context.user role
  let member ← select fun db => (db .users).find? (·.id = membership.userId)
  match member with
  | none => raise (runtimeError "Membership references a missing user")
  | some member => Prog.ofExcept (membershipResponse membership member)

/-- `DELETE /organizations/{organization_id}/members/{membership_id}` -/
def deleteMember (organizationId userId : UUID) (args : Option UUID) : App Unit := do
  let context ← requirePermission .membersManage organizationId userId
  let membershipId ← validated args fun _ => true
  removeMembership organizationId membershipId context.user

end TenantFlow
