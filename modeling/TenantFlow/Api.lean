import TenantFlow.Modules.Billing
import TenantFlow.Modules.Files
import TenantFlow.Workers.Tasks

/-!
# The routes and the background tasks together

`OrganizationRequest` are the routes under `/organizations/{organization_id}/`, with the
permission that each route's dependency asks for. `Request` adds the other routes, verified
Stripe events and the transactions of the background tasks.
-/

namespace TenantFlow

open JsonText Transactional

/-- A request on a route under `/organizations/{organization_id}/`: its other parameters and
its body, `none` where they do not parse. A body that is no JSON at all is refused by the
framework before any dependency runs, and is left out. -/
inductive OrganizationRequest where
  | createInvitation (args : Option (InviteMemberRequest × String))
  | listMembers
  | changeMemberRole (args : Option (UUID × Role))
  | deleteMember (args : Option UUID)
  | createProject (args : Option ProjectCreate)
  | listProjects (args : Option (Option String × Nat))
  | retrieveProject (args : Option UUID)
  | updateProject (args : Option (UUID × ProjectUpdate))
  | deleteProject (args : Option UUID)
  | createTask (args : Option TaskCreate)
  | listTasks (args : Option TaskFilter)
  | retrieveTask (args : Option UUID)
  | updateTask (args : Option (UUID × TaskUpdate))
  | deleteTask (args : Option UUID)
  | createUpload (args : Option PresignUploadRequest)
  | getDownload (args : Option UUID)
  | createWebhook (args : Option WebhookCreate)
  | listWebhooks
  | deactivateWebhook (args : Option UUID)
  | listDeliveries (args : Option (Option String × Nat))
  | retryDelivery (args : Option UUID)
  | listAudit (args : Option Nat)
  | subscriptionStatus
  | checkout (args : Option (CheckoutRequest × String))
  | portal (args : Option String)

/-- The body of a successful response. -/
inductive Response where
  | invitation (r : InvitationResponse)
  | members (r : List MembershipResponse)
  | membership (r : MembershipResponse)
  | project (r : ProjectResponse)
  | projects (r : ProjectPage)
  | task (r : TaskResponse)
  | tasks (r : TaskPage)
  | upload (r : PresignUploadResponse)
  | download (r : DownloadResponse)
  | webhook (r : WebhookResponse)
  | webhooks (r : List WebhookResponse)
  | delivery (r : WebhookDeliveryResponse)
  | deliveries (r : List WebhookDeliveryResponse)
  | audit (r : List AuditResponse)
  | subscription (r : SubscriptionResponse)
  | checkout (r : CheckoutResponse)
  | portal (r : PortalResponse)
  | organization (r : OrganizationResponse)
  | organizations (r : List OrganizationResponse)
  | user (r : UserResponse)
  | tokens (r : TokenPair)
  | noContent

/-- The permission in the route's `Depends(require_permission(...))`. -/
def OrganizationRequest.permission : OrganizationRequest → Permission
  | .createInvitation _ => .membersManage
  | .listMembers => .membersManage
  | .changeMemberRole _ => .membersManage
  | .deleteMember _ => .membersManage
  | .createProject _ => .projectWrite
  | .listProjects _ => .projectRead
  | .retrieveProject _ => .projectRead
  | .updateProject _ => .projectWrite
  | .deleteProject _ => .projectDelete
  | .createTask _ => .projectWrite
  | .listTasks _ => .projectRead
  | .retrieveTask _ => .projectRead
  | .updateTask _ => .projectWrite
  | .deleteTask _ => .projectWrite
  | .createUpload _ => .projectWrite
  | .getDownload _ => .projectRead
  | .createWebhook _ => .webhookManage
  | .listWebhooks => .webhookManage
  | .deactivateWebhook _ => .webhookManage
  | .listDeliveries _ => .webhookManage
  | .retryDelivery _ => .webhookManage
  | .listAudit _ => .auditRead
  | .subscriptionStatus => .billingManage
  | .checkout _ => .billingManage
  | .portal _ => .billingManage

variable [Platform]

def OrganizationRequest.handler (request : OrganizationRequest) (organizationId userId : UUID) :
    App Response :=
  match request with
  | .createInvitation args => do
    return .invitation (← TenantFlow.createInvitation organizationId userId args).response
  | .listMembers => do return .members (← TenantFlow.listMembers organizationId userId)
  | .changeMemberRole args => do
    return .membership (← TenantFlow.changeMemberRole organizationId userId args)
  | .deleteMember args => do
    TenantFlow.deleteMember organizationId userId args
    return .noContent
  | .createProject args => do return .project (← createProjectRoute organizationId userId args)
  | .listProjects args => do
    return .projects (← TenantFlow.listProjects organizationId userId args)
  | .retrieveProject args => do
    return .project (← TenantFlow.retrieveProject organizationId userId args)
  | .updateProject args => do return .project (← updateProjectRoute organizationId userId args)
  | .deleteProject args => do
    deleteProjectRoute organizationId userId args
    return .noContent
  | .createTask args => do return .task (← createTaskRoute organizationId userId args)
  | .listTasks args => do return .tasks (← TenantFlow.listTasks organizationId userId args)
  | .retrieveTask args => do return .task (← TenantFlow.retrieveTask organizationId userId args)
  | .updateTask args => do return .task (← updateTaskRoute organizationId userId args)
  | .deleteTask args => do
    deleteTaskRoute organizationId userId args
    return .noContent
  | .createUpload args => do return .upload (← TenantFlow.createUpload organizationId userId args)
  | .getDownload args => do return .download (← TenantFlow.getDownload organizationId userId args)
  | .createWebhook args => do
    return .webhook (← TenantFlow.createWebhook organizationId userId args)
  | .listWebhooks => do return .webhooks (← TenantFlow.listWebhooks organizationId userId)
  | .deactivateWebhook args => do
    TenantFlow.deactivateWebhook organizationId userId args
    return .noContent
  | .listDeliveries args => do
    return .deliveries (← TenantFlow.listDeliveries organizationId userId args)
  | .retryDelivery args => do
    return .delivery (← TenantFlow.retryDelivery organizationId userId args)
  | .listAudit args => do return .audit (← TenantFlow.listAudit organizationId userId args)
  | .subscriptionStatus => do
    return .subscription (← TenantFlow.subscriptionStatus organizationId userId)
  | .checkout args => do
    return .checkout (← TenantFlow.checkout organizationId userId args).response
  | .portal args => do return .portal (← TenantFlow.portal organizationId userId args)

/-- Everything that opens a transaction. -/
inductive Request where
  | register (args : Option RegisterRequest)
  | login (clientIp : Option String) (args : Option (String × String))
  | refresh (args : Option String)
  | logout (args : Option String)
  | me (userId : UUID)
  | createOrganization (userId : UUID) (args : Option (OrganizationCreate × String))
  | listOrganizations (userId : UUID)
  | acceptInvitation (userId : UUID) (args : Option String)
  | organization (organizationId userId : UUID) (request : OrganizationRequest)
  | stripeEvent (event : Event)
  | sendInvitation (invitationId : UUID) (rawToken : String)
  | beginAttempt (deliveryId : UUID)
  | finishAttempt (held : WebhookDelivery) (result : HttpResult)
  | cleanup

def Request.handler : Request → App Response
  | .register args => do return .user (← TenantFlow.register args)
  | .login clientIp args => do return .tokens (← issueLoginTokens clientIp args)
  | .refresh args => do return .tokens (← TenantFlow.refresh args)
  | .logout args => do
    TenantFlow.logout args
    return .noContent
  | .me userId => do return .user (← TenantFlow.me userId)
  | .createOrganization userId args => do
    return .organization (← TenantFlow.create userId args).response
  | .listOrganizations userId => do
    return .organizations (← TenantFlow.listOrganizations userId)
  | .acceptInvitation userId args => do
    return .membership (← acceptMemberInvitation userId args)
  | .organization organizationId userId request => request.handler organizationId userId
  | .stripeEvent event => do
    let _ ← processStripeEvent event
    return .noContent
  | .sendInvitation invitationId rawToken => do
    let _ ← sendInvitationTask invitationId rawToken
    return .noContent
  | .beginAttempt deliveryId => do
    let _ ← TenantFlow.beginAttempt deliveryId
    return .noContent
  | .finishAttempt held result => do
    let _ ← TenantFlow.finishAttempt held result
    return .noContent
  | .cleanup => do
    cleanupExpiredState
    return .noContent

end TenantFlow
