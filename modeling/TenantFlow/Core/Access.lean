import TenantFlow.Core.Request

/-!
# Roles, permissions and the dependencies of organization routes
-/

namespace TenantFlow

open JsonText Transactional

inductive Permission where
  | orgManage | membersManage | billingManage | projectRead | projectWrite | projectDelete
  | webhookManage | auditRead
  deriving DecidableEq, Repr

def Permission.str : Permission → String
  | .orgManage => "org:manage"
  | .membersManage => "members:manage"
  | .billingManage => "billing:manage"
  | .projectRead => "project:read"
  | .projectWrite => "project:write"
  | .projectDelete => "project:delete"
  | .webhookManage => "webhook:manage"
  | .auditRead => "audit:read"

/-- `ROLE_PERMISSIONS` -/
def rolePermissions : Role → List Permission
  | .owner => [.orgManage, .membersManage, .billingManage, .projectRead, .projectWrite,
      .projectDelete, .webhookManage, .auditRead]
  | .admin => [.membersManage, .projectRead, .projectWrite, .projectDelete, .webhookManage,
      .auditRead]
  | .member => [.projectRead, .projectWrite]
  | .viewer => [.projectRead]

def hasPermission (role : Role) (permission : Permission) : Bool :=
  permission ∈ rolePermissions role

def assertPermission (role : Role) (permission : Permission) : App Unit :=
  if hasPermission role permission then .ret ()
  else raise (forbiddenError
    ("Role '" ++ role.str ++ "' lacks permission '" ++ permission.str ++ "'"))

structure OrganizationContext where
  user : User
  membership : OrganizationMembership

/-- `get_current_user`, from the user id of a verified access token. -/
def getCurrentUser (userId : UUID) : App User := do
  let user ← select fun db => (db .users).find? (·.id = userId)
  match user with
  | some user =>
    if user.isActive then return user
    else raise (authenticationError "User account is unavailable")
  | none => raise (authenticationError "User account is unavailable")

def findMembership (organizationId userId : UUID) (db : Db Row) : Option OrganizationMembership :=
  (db .organizationMemberships).find? fun m =>
    m.organizationId = organizationId ∧ m.userId = userId

def getOrganizationContext (organizationId userId : UUID) : App OrganizationContext := do
  let user ← getCurrentUser userId
  let membership ← select (findMembership organizationId user.id)
  match membership with
  | some membership => return ⟨user, membership⟩
  | none => raise (notFoundError "ORGANIZATION_NOT_FOUND" "Organization was not found")

def requirePermission (permission : Permission) (organizationId userId : UUID) :
    App OrganizationContext := do
  let context ← getOrganizationContext organizationId userId
  assertPermission context.membership.role permission
  return context

end TenantFlow
