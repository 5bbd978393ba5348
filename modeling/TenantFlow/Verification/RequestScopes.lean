import TenantFlow.Verification.Confinement

/-!
# Which tables a request writes

The scope of every request, and that its handler keeps to it.
-/

namespace TenantFlow

open JsonText Transactional

/-- The tables that a request on an organization route writes. -/
def OrganizationRequest.scope : OrganizationRequest → Scope
  | .createInvitation _ =>
    { writes := [.idempotencyRecords, .invitations, .auditLogs], audits := (· = "member.invited"),
      calls := fun _ => True }
  | .listMembers => {}
  | .changeMemberRole _ =>
    { writes := [.organizationMemberships, .auditLogs], inserts := [.auditLogs],
      audits := (· = "member.role_changed") }
  | .deleteMember _ =>
    { writes := [.auditLogs], deletes := [.organizationMemberships],
      audits := (· = "member.removed") }
  | .createProject _ =>
    { writes := [.projects, .auditLogs, .webhookDeliveries], audits := (· = "project.created"),
      calls := fun _ => True }
  | .listProjects _ => {}
  | .retrieveProject _ => {}
  | .updateProject _ =>
    { writes := [.projects, .auditLogs, .webhookDeliveries],
      inserts := [.auditLogs, .webhookDeliveries], audits := (· = "project.updated"),
      calls := fun _ => True }
  | .deleteProject _ =>
    { writes := [.auditLogs, .webhookDeliveries], deletes := [.projects, .tasks, .attachments],
      audits := (· = "project.deleted"), calls := fun _ => True }
  | .createTask _ =>
    { writes := [.tasks, .auditLogs, .webhookDeliveries], audits := (· = "task.created"),
      calls := fun _ => True }
  | .listTasks _ => {}
  | .retrieveTask _ => {}
  | .updateTask _ =>
    { writes := [.tasks, .auditLogs, .webhookDeliveries],
      inserts := [.auditLogs, .webhookDeliveries], audits := (· = "task.updated"),
      calls := fun _ => True }
  | .deleteTask _ =>
    { writes := [.auditLogs, .webhookDeliveries], deletes := [.tasks, .attachments],
      audits := (· = "task.deleted"), calls := fun _ => True }
  | .createUpload _ => { writes := [.attachments] }
  | .getDownload _ => {}
  | .createWebhook _ =>
    { writes := [.webhookEndpoints, .auditLogs], audits := (· = "webhook.created") }
  | .listWebhooks => {}
  | .deactivateWebhook _ =>
    { writes := [.webhookEndpoints, .auditLogs], inserts := [.auditLogs],
      audits := (· = "webhook.deactivated") }
  | .listDeliveries _ => {}
  | .retryDelivery _ =>
    { writes := [.webhookDeliveries, .auditLogs], inserts := [.auditLogs],
      audits := (· = "webhook.delivery_retried"), calls := fun _ => True }
  | .listAudit _ => {}
  | .subscriptionStatus => { writes := [.subscriptions] }
  | .checkout _ => { writes := [.idempotencyRecords, .subscriptions] }
  | .portal _ => { writes := [.subscriptions] }

def Request.scope : Request → Scope
  | .register _ => { writes := [.users] }
  | .login _ _ => { writes := [.refreshTokens] }
  | .refresh _ => { writes := [.refreshTokens] }
  | .logout _ => { writes := [.refreshTokens], inserts := [] }
  | .me _ => {}
  | .createOrganization _ _ =>
    { writes := [.idempotencyRecords, .organizations, .organizationMemberships, .auditLogs],
      audits := (· = "organization.created") }
  | .listOrganizations _ => {}
  | .acceptInvitation _ _ =>
    { writes := [.invitations, .organizationMemberships, .auditLogs],
      inserts := [.organizationMemberships, .auditLogs], audits := (· = "member.joined") }
  | .organization _ _ request => request.scope
  | .stripeEvent _ =>
    { writes := [.stripeEvents, .subscriptions, .auditLogs],
      audits := (· = "billing.stripe_event_processed") }
  | .sendInvitation _ _ => { calls := fun _ => True }
  | .beginAttempt _ => { writes := [.webhookDeliveries], inserts := [] }
  | .finishAttempt _ _ => { writes := [.webhookDeliveries], inserts := [] }
  | .cleanup =>
    { writes := [.invitations], inserts := [], deletes := [.idempotencyRecords, .refreshTokens] }

section Requests

theorem confined_createProjectRoute {F : Scope} (hP : F.Inserts .projects)
    (hA : F.Audits "project.created") (hD : F.Inserts .webhookDeliveries)
    (hcalls : ∀ c, F.calls c) (organizationId userId : UUID) (args : Option ProjectCreate) :
    Confined F (createProjectRoute organizationId userId args) := by
  refine confined_route fun context payload => ?_
  refine Prog.every_bind (χ := fun _ => True) ?_ fun _ _ => confined_ofExcept _
  refine Prog.every_bind confined_rowDefaults fun d _ => ?_
  refine Prog.every_bind (confined_insertRow hP _) fun _ _ => ?_
  refine Prog.every_bind (confined_recordAudit hA _ _ _ _ _) fun _ _ => ?_
  exact Prog.every_bind (confined_emitEvent hD hcalls _ _ _) fun _ _ => trivial

theorem confined_getProject {F : Scope} (organizationId projectId : UUID) :
    Confined F (getProject organizationId projectId) :=
  Prog.every_bind (confined_select _) fun _ _ => confined_orRaise _ _

theorem confined_getTask {F : Scope} (organizationId taskId : UUID) :
    Confined F (getTask organizationId taskId) :=
  Prog.every_bind (confined_select _) fun _ _ => confined_orRaise _ _

theorem confined_cursorPosition [Platform] {F : Scope} (cursor : Option String) :
    Confined F (cursorPosition cursor) := by
  unfold cursorPosition
  split
  · trivial
  · trivial
  · exact Prog.every_bind (confined_ofExcept _) fun _ _ => trivial

theorem confined_updateProject {F : Scope} (hP : Table.projects ∈ F.writes)
    (hA : F.Audits "project.updated") (hD : F.Inserts .webhookDeliveries)
    (hcalls : ∀ c, F.calls c) (organizationId projectId : UUID) (user : User)
    (payload : ProjectUpdate) :
    Confined F (updateProject organizationId projectId user payload) := by
  refine Prog.every_bind (confined_getProject _ _) fun project _ => ?_
  refine Prog.every_bind (confined_flush hP _ _ fun _ _ => rfl) fun _ _ => ?_
  refine Prog.every_bind (confined_recordAudit hA _ _ _ _ _) fun _ _ => ?_
  exact Prog.every_bind (confined_emitEvent hD hcalls _ _ _) fun _ _ => trivial

theorem confined_updateProjectRoute {F : Scope} (hP : Table.projects ∈ F.writes)
    (hA : F.Audits "project.updated") (hD : F.Inserts .webhookDeliveries)
    (hcalls : ∀ c, F.calls c) (organizationId userId : UUID)
    (args : Option (UUID × ProjectUpdate)) :
    Confined F (updateProjectRoute organizationId userId args) :=
  confined_route fun _ _ =>
    Prog.every_bind (confined_updateProject hP hA hD hcalls _ _ _ _) fun _ _ => confined_ofExcept _

theorem confined_deleteProjectRoute {F : Scope} (hP : Table.projects ∈ F.deletes)
    (hT : Table.tasks ∈ F.deletes) (hF : Table.attachments ∈ F.deletes)
    (hA : F.Audits "project.deleted") (hD : F.Inserts .webhookDeliveries)
    (hcalls : ∀ c, F.calls c) (organizationId userId : UUID) (args : Option UUID) :
    Confined F (deleteProjectRoute organizationId userId args) := by
  refine confined_route fun context a => ?_
  refine Prog.every_bind (confined_getProject _ _) fun project _ => ?_
  refine Prog.every_bind (confined_recordAudit hA _ _ _ _ _) fun _ _ => ?_
  refine Prog.every_bind (confined_emitEvent hD hcalls _ _ _) fun _ _ => ?_
  exact confined_deleteRow hP (by simp [cascadeTables, hT, hF]) _

theorem confined_validateAssignee {F : Scope} (organizationId : UUID) (userId : Option UUID) :
    Confined F (validateAssignee organizationId userId) := by
  cases userId with
  | none => trivial
  | some userId =>
    refine Prog.every_bind (confined_select _) fun found _ => ?_
    split <;> trivial

theorem confined_validateProject {F : Scope} (organizationId projectId : UUID) :
    Confined F (validateProject organizationId projectId) := by
  refine Prog.every_bind (confined_select _) fun found _ => ?_
  split <;> trivial

theorem confined_createTaskRoute {F : Scope} (hT : F.Inserts .tasks)
    (hA : F.Audits "task.created") (hD : F.Inserts .webhookDeliveries)
    (hcalls : ∀ c, F.calls c) (organizationId userId : UUID) (args : Option TaskCreate) :
    Confined F (createTaskRoute organizationId userId args) := by
  refine confined_route fun context payload => ?_
  refine Prog.every_bind (χ := fun _ => True) ?_ fun _ _ => confined_ofExcept _
  refine Prog.every_bind (confined_validateProject _ _) fun _ _ => ?_
  refine Prog.every_bind (confined_validateAssignee _ _) fun _ _ => ?_
  refine Prog.every_bind confined_rowDefaults fun d _ => ?_
  refine Prog.every_bind (confined_insertRow hT _) fun _ _ => ?_
  refine Prog.every_bind (confined_recordAudit hA _ _ _ _ _) fun _ _ => ?_
  exact Prog.every_bind (confined_emitEvent hD hcalls _ _ _) fun _ _ => trivial

theorem confined_updateTask {F : Scope} (hT : Table.tasks ∈ F.writes)
    (hA : F.Audits "task.updated") (hD : F.Inserts .webhookDeliveries)
    (hcalls : ∀ c, F.calls c) (organizationId taskId : UUID) (user : User) (payload : TaskUpdate) :
    Confined F (updateTask organizationId taskId user payload) := by
  refine Prog.every_bind (confined_getTask _ _) fun task _ => ?_
  have hrest : ∀ new : Task, ∀ dirty : Bool, ∀ eventType : String,
      ∀ data : List (String × Json), Confined F (do
        let updatedAt ← flush .tasks task.id dirty (Task.patch task new)
        recordAudit organizationId (some user.id) "task.updated" "task" (some task.id) []
        let _ ← emitEvent organizationId eventType data
        return { new with updatedAt := updatedAt.getD task.updatedAt }) := by
    intro new dirty eventType data
    refine Prog.every_bind (confined_flush hT _ _ fun _ _ => rfl) fun _ _ => ?_
    refine Prog.every_bind (confined_recordAudit hA _ _ _ _ _) fun _ _ => ?_
    exact Prog.every_bind (confined_emitEvent hD hcalls _ _ _) fun _ _ => trivial
  cases payload.assigneeId with
  | none => exact hrest _ _ _ _
  | some assigneeId =>
    exact Prog.every_bind (confined_validateAssignee _ _) fun _ _ => hrest _ _ _ _

theorem confined_updateTaskRoute {F : Scope} (hT : Table.tasks ∈ F.writes)
    (hA : F.Audits "task.updated") (hD : F.Inserts .webhookDeliveries)
    (hcalls : ∀ c, F.calls c) (organizationId userId : UUID)
    (args : Option (UUID × TaskUpdate)) :
    Confined F (updateTaskRoute organizationId userId args) :=
  confined_route fun _ a => by
    obtain ⟨taskId, payload⟩ := a
    exact Prog.every_bind (confined_updateTask hT hA hD hcalls _ _ _ _) fun _ _ =>
      confined_ofExcept _

theorem confined_deleteTaskRoute {F : Scope} (hT : Table.tasks ∈ F.deletes)
    (hF : Table.attachments ∈ F.deletes) (hA : F.Audits "task.deleted")
    (hD : F.Inserts .webhookDeliveries) (hcalls : ∀ c, F.calls c)
    (organizationId userId : UUID) (args : Option UUID) :
    Confined F (deleteTaskRoute organizationId userId args) := by
  refine confined_route fun context a => ?_
  refine Prog.every_bind (confined_getTask _ _) fun task _ => ?_
  refine Prog.every_bind (confined_recordAudit hA _ _ _ _ _) fun _ _ => ?_
  refine Prog.every_bind (confined_emitEvent hD hcalls _ _ _) fun _ _ => ?_
  exact confined_deleteRow hT (by simp [cascadeTables, hF]) _

theorem confined_requireParent {F : Scope} (id : Option UUID) (found : UUID → Db Row → Bool)
    (e : Failure) : Confined F (requireParent id found e) := by
  cases id with
  | none => trivial
  | some id =>
    refine Prog.every_bind (confined_select _) fun x _ => ?_
    split <;> trivial

theorem confined_createUpload [Platform] {F : Scope} (hF : F.Inserts .attachments)
    (hcalls : ∀ c, c.notifies = false → F.calls c) (organizationId userId : UUID)
    (args : Option PresignUploadRequest) :
    Confined F (createUpload organizationId userId args) := by
  refine confined_route fun context payload => ?_
  cases validateUpload payload.contentType payload.sizeBytes with
  | error e => trivial
  | ok u =>
    refine Prog.every_bind (confined_requireParent _ _ _) fun _ _ => ?_
    refine Prog.every_bind (confined_requireParent _ _ _) fun _ _ => ?_
    refine Prog.every_bind (χ := fun _ => True) ?_ fun key _ => ?_
    · exact Prog.every_bind confined_uuid4 fun _ _ => trivial
    refine Prog.every_bind confined_rowDefaults fun d _ => ?_
    refine Prog.every_bind (confined_insertRow hF _) fun _ _ => ?_
    refine Prog.every_bind (confined_call _ (hcalls _ rfl)) fun url _ => ?_
    exact Prog.every_bind (confined_orRaise _ _) fun _ _ => trivial

theorem confined_createWebhook [Platform] {F : Scope} (hE : F.Inserts .webhookEndpoints)
    (hA : F.Audits "webhook.created") (hcalls : ∀ c, c.notifies = false → F.calls c) (organizationId userId : UUID)
    (args : Option WebhookCreate) : Confined F (createWebhook organizationId userId args) := by
  refine confined_route fun context payload => ?_
  refine Prog.every_bind (χ := fun _ => True) ?_ fun created _ => ?_
  · unfold createWebhookEndpoint
    dsimp only
    split
    · trivial
    · refine Prog.every_bind (confined_validateWebhookTarget hcalls _) fun target _ => ?_
      cases target with
      | error e => trivial
      | ok u =>
        refine Prog.every_bind (confined_call _ (hcalls _ rfl)) fun token _ => ?_
        refine Prog.every_bind (confined_call _ (hcalls _ rfl)) fun encrypted _ => ?_
        refine Prog.every_bind confined_rowDefaults fun d _ => ?_
        exact Prog.every_bind (confined_insertRow hE _) fun _ _ => trivial
  · cases created with
    | error e => trivial
    | ok created =>
      exact Prog.every_bind (confined_recordAudit hA _ _ _ _ _) fun _ _ => trivial

theorem confined_deactivateWebhook {F : Scope} (hE : Table.webhookEndpoints ∈ F.writes)
    (hA : F.Audits "webhook.deactivated") (organizationId userId : UUID) (args : Option UUID) :
    Confined F (deactivateWebhook organizationId userId args) := by
  refine confined_route fun context endpointId => ?_
  refine Prog.every_bind (confined_select _) fun endpoint _ => ?_
  cases endpoint with
  | none => trivial
  | some endpoint =>
    refine Prog.every_bind (confined_flush hE _ _ fun _ _ => rfl) fun _ _ => ?_
    exact confined_recordAudit hA _ _ _ _ _

theorem mem_deliveriesOf {organizationId : UUID} {db : Db Row}
    {x : WebhookDelivery × WebhookEndpoint} (h : x ∈ deliveriesOf organizationId db) :
    x.1 ∈ db .webhookDeliveries ∧ x.2 ∈ db .webhookEndpoints := by
  obtain ⟨d, hd, h⟩ := List.mem_flatMap.mp h
  obtain ⟨e, he, rfl⟩ := List.mem_map.mp h
  exact ⟨hd, (List.mem_filter.mp he).1⟩

theorem confined_lockJoined {F : Scope} (organizationId deliveryId : UUID) :
    Confined F (send (.selectForUpdate
      (fun db => (deliveriesOf organizationId db).find? (·.1.id = deliveryId))
      fun found => found.toList.flatMap fun (d, e) =>
        [(.webhookDeliveries, d.id), (.webhookEndpoints, e.id)])) := by
  refine ⟨fun db k hk => ?_, fun _ _ => trivial⟩
  obtain ⟨⟨d, e⟩, hfound, hk⟩ := List.mem_flatMap.mp hk
  have hmem := List.mem_of_find?_eq_some (Option.mem_toList.mp hfound)
  obtain ⟨hd, he⟩ := mem_deliveriesOf hmem
  simp only [List.mem_cons, List.not_mem_nil, or_false] at hk
  rcases hk with rfl | rfl
  · exact ⟨d, hd, rfl⟩
  · exact ⟨e, he, rfl⟩

theorem confined_retryDelivery {F : Scope} (hD : Table.webhookDeliveries ∈ F.writes)
    (hA : F.Audits "webhook.delivery_retried") (hcalls : ∀ c, F.calls c) (organizationId userId : UUID)
    (args : Option UUID) : Confined F (retryDelivery organizationId userId args) := by
  refine confined_route fun context deliveryId => ?_
  refine Prog.every_bind (confined_lockJoined organizationId deliveryId) fun found _ => ?_
  cases found with
  | none => trivial
  | some found =>
    refine Prog.every_bind (confined_select _) fun endpoint _ => ?_
    split
    · trivial
    · split
      · trivial
      · refine Prog.every_bind (confined_flush hD _ _ fun _ _ => rfl) fun _ _ => ?_
        refine Prog.every_bind (confined_recordAudit hA _ _ _ _ _) fun _ _ => ?_
        exact Prog.every_bind (confined_deliverWebhookTaskDelay hcalls _) fun _ _ => trivial

theorem confined_portal [Platform] {F : Scope} (hS : F.Inserts .subscriptions)
    (hcalls : ∀ c, c.notifies = false → F.calls c) (organizationId userId : UUID) (args : Option String) :
    Confined F (portal organizationId userId args) := by
  refine confined_route fun context returnUrl => ?_
  split
  · trivial
  · refine Prog.every_bind (confined_getOrCreateSubscription hS _) fun subscription _ => ?_
    cases subscription.stripeCustomerId.filter (· ≠ "") with
    | none => trivial
    | some customerId =>
      refine Prog.every_bind (confined_call _ (hcalls _ rfl)) fun answer _ => ?_
      refine Prog.every_bind (confined_orRaise _ _) fun session _ => ?_
      exact Prog.every_bind (confined_orRaise _ _) fun _ _ => trivial

theorem confined_listDeliveries {F : Scope} (organizationId userId : UUID)
    (args : Option (Option String × Nat)) :
    Confined F (listDeliveries organizationId userId args) := by
  refine confined_route fun context a => ?_
  obtain ⟨state, limit⟩ := a
  cases state with
  | none =>
    refine Prog.every_bind (χ := fun _ => True) trivial fun _ _ => ?_
    exact Prog.every_bind (confined_select _) fun _ _ => trivial
  | some text =>
    dsimp only
    cases parseDeliveryState text with
    | none => trivial
    | some state =>
      refine Prog.every_bind (χ := fun _ => True) trivial fun _ _ => ?_
      exact Prog.every_bind (confined_select _) fun _ _ => trivial

theorem confined_organizationRequest [Platform] (request : OrganizationRequest)
    (organizationId userId : UUID) :
    Confined request.scope (request.handler organizationId userId) := by
  cases request with
  | createInvitation args =>
    refine Prog.every_bind (χ := fun _ => True) ?_ fun _ _ => trivial
    refine confined_route fun context a => confined_idempotently (by simp [OrganizationRequest.scope]) ?_
    refine Prog.every_bind (confined_inviteMember (by simp [OrganizationRequest.scope])
      (by simp [OrganizationRequest.scope]) (fun _ => trivial) _ _ _) fun _ _ => ?_
    exact confined_ofExcept _
  | listMembers =>
    refine Prog.every_bind (χ := fun _ => True) ?_ fun _ _ => trivial
    refine Prog.every_bind (confined_requirePermission _ _ _) fun _ _ => ?_
    exact Prog.every_bind (confined_select _) fun _ _ => confined_ofExcept _
  | changeMemberRole args =>
    refine Prog.every_bind (χ := fun _ => True) ?_ fun _ _ => trivial
    refine confined_route fun context a => ?_
    refine Prog.every_bind (confined_updateMembershipRole (by simp [OrganizationRequest.scope])
      (by simp [OrganizationRequest.scope]) _ _ _ _) fun membership _ => ?_
    refine Prog.every_bind (confined_select _) fun member _ => ?_
    cases member with
    | none => trivial
    | some member => exact confined_ofExcept _
  | deleteMember args =>
    refine Prog.every_bind (χ := fun _ => True) ?_ fun _ _ => trivial
    refine confined_route fun context a => ?_
    exact confined_removeMembership (by simp [OrganizationRequest.scope])
      (by simp [OrganizationRequest.scope]) _ _ _
  | createProject args =>
    exact Prog.every_bind (confined_createProjectRoute (by simp [OrganizationRequest.scope])
      (by simp [OrganizationRequest.scope]) (by simp [OrganizationRequest.scope])
      (fun _ => trivial) _ _ _) fun _ _ => trivial
  | listProjects args =>
    refine Prog.every_bind (χ := fun _ => True) ?_ fun _ _ => trivial
    refine confined_route fun context a => ?_
    refine Prog.every_bind (confined_cursorPosition _) fun position _ => ?_
    refine Prog.every_bind (confined_select _) fun rows _ => ?_
    exact Prog.every_bind (confined_ofExcept _) fun _ _ => trivial
  | retrieveProject args =>
    refine Prog.every_bind (χ := fun _ => True) ?_ fun _ _ => trivial
    refine confined_route fun context a => ?_
    exact Prog.every_bind (confined_getProject _ _) fun _ _ => confined_ofExcept _
  | updateProject args =>
    exact Prog.every_bind (confined_updateProjectRoute (by simp [OrganizationRequest.scope])
      (by simp [OrganizationRequest.scope]) (by simp [OrganizationRequest.scope])
      (fun _ => trivial) _ _ _) fun _ _ => trivial
  | deleteProject args =>
    exact Prog.every_bind (confined_deleteProjectRoute (by simp [OrganizationRequest.scope])
      (by simp [OrganizationRequest.scope]) (by simp [OrganizationRequest.scope])
      (by simp [OrganizationRequest.scope]) (by simp [OrganizationRequest.scope])
      (fun _ => trivial) _ _ _) fun _ _ => trivial
  | createTask args =>
    exact Prog.every_bind (confined_createTaskRoute (by simp [OrganizationRequest.scope])
      (by simp [OrganizationRequest.scope]) (by simp [OrganizationRequest.scope])
      (fun _ => trivial) _ _ _) fun _ _ => trivial
  | listTasks args =>
    refine Prog.every_bind (χ := fun _ => True) ?_ fun _ _ => trivial
    refine confined_route fun context a => ?_
    refine Prog.every_bind (confined_cursorPosition _) fun position _ => ?_
    refine Prog.every_bind (confined_select _) fun rows _ => ?_
    exact Prog.every_bind (confined_ofExcept _) fun _ _ => trivial
  | retrieveTask args =>
    refine Prog.every_bind (χ := fun _ => True) ?_ fun _ _ => trivial
    refine confined_route fun context a => ?_
    exact Prog.every_bind (confined_getTask _ _) fun _ _ => confined_ofExcept _
  | updateTask args =>
    exact Prog.every_bind (confined_updateTaskRoute (by simp [OrganizationRequest.scope])
      (by simp [OrganizationRequest.scope]) (by simp [OrganizationRequest.scope])
      (fun _ => trivial) _ _ _) fun _ _ => trivial
  | deleteTask args =>
    exact Prog.every_bind (confined_deleteTaskRoute (by simp [OrganizationRequest.scope])
      (by simp [OrganizationRequest.scope]) (by simp [OrganizationRequest.scope])
      (by simp [OrganizationRequest.scope]) (fun _ => trivial) _ _ _) fun _ _ => trivial
  | createUpload args =>
    exact Prog.every_bind (confined_createUpload (by simp [OrganizationRequest.scope])
      (fun _ h => h) _ _ _) fun _ _ => trivial
  | getDownload args =>
    refine Prog.every_bind (χ := fun _ => True) ?_ fun _ _ => trivial
    refine confined_route fun context a => ?_
    refine Prog.every_bind (confined_select _) fun found _ => ?_
    refine Prog.every_bind (confined_orRaise _ _) fun attachment _ => ?_
    refine Prog.every_bind (confined_call _ rfl) fun url _ => ?_
    exact Prog.every_bind (confined_orRaise _ _) fun _ _ => trivial
  | createWebhook args =>
    exact Prog.every_bind (confined_createWebhook (by simp [OrganizationRequest.scope])
      (by simp [OrganizationRequest.scope]) (fun _ h => h) _ _ _) fun _ _ => trivial
  | listWebhooks =>
    refine Prog.every_bind (χ := fun _ => True) ?_ fun _ _ => trivial
    refine Prog.every_bind (confined_requirePermission _ _ _) fun _ _ => ?_
    exact Prog.every_bind (confined_select _) fun _ _ => trivial
  | deactivateWebhook args =>
    exact Prog.every_bind (confined_deactivateWebhook (by simp [OrganizationRequest.scope])
      (by simp [OrganizationRequest.scope]) _ _ _) fun _ _ => trivial
  | listDeliveries args => exact Prog.every_bind (confined_listDeliveries _ _ _) fun _ _ => trivial
  | retryDelivery args =>
    exact Prog.every_bind (confined_retryDelivery (by simp [OrganizationRequest.scope])
      (by simp [OrganizationRequest.scope]) (fun _ => trivial) _ _ _) fun _ _ => trivial
  | listAudit args =>
    refine Prog.every_bind (χ := fun _ => True) ?_ fun _ _ => trivial
    refine confined_route fun context limit => ?_
    exact Prog.every_bind (confined_select _) fun _ _ => trivial
  | subscriptionStatus =>
    refine Prog.every_bind (χ := fun _ => True) ?_ fun _ _ => trivial
    refine Prog.every_bind (confined_requirePermission _ _ _) fun _ _ => ?_
    exact Prog.every_bind (confined_getOrCreateSubscription (by simp [OrganizationRequest.scope]) _)
      fun _ _ => trivial
  | checkout args =>
    refine Prog.every_bind (χ := fun _ => True) ?_ fun _ _ => trivial
    refine confined_route fun context a => confined_idempotently (by simp [OrganizationRequest.scope]) ?_
    exact Prog.every_bind (confined_createBillingCheckout (by simp [OrganizationRequest.scope])
      (fun _ h => h) _ _ _) fun _ _ => trivial
  | portal args =>
    exact Prog.every_bind (confined_portal (by simp [OrganizationRequest.scope])
      (fun _ h => h) _ _ _) fun _ _ => trivial

/-- Every request keeps to its scope. -/
theorem confined_request [Platform] (request : Request) :
    Confined request.scope request.handler := by
  cases request with
  | register args =>
    refine Prog.every_bind (χ := fun _ => True) ?_ fun _ _ => trivial
    refine Prog.every_bind (confined_validated _ _) fun payload _ => ?_
    exact Prog.every_bind (confined_registerUser (by simp [Request.scope]) (fun _ h => h) _)
      fun _ _ => confined_ofExcept _
  | login clientIp args =>
    refine Prog.every_bind (χ := fun _ => True) ?_ fun _ _ => trivial
    refine Prog.every_bind (confined_validated _ _) fun a _ => ?_
    refine Prog.every_bind (confined_call _ rfl) fun limit _ => ?_
    refine Prog.every_bind (confined_orRaise _ _) fun result _ => ?_
    split
    · trivial
    · refine Prog.every_bind (confined_authenticate _ _) fun user _ => ?_
      exact confined_issueTokenPair (by simp [Request.scope]) (fun _ h => h) _ _
  | refresh args =>
    refine Prog.every_bind (χ := fun _ => True) ?_ fun _ _ => trivial
    refine Prog.every_bind (confined_validated _ _) fun rawToken _ => ?_
    exact confined_rotateRefreshToken (by simp [Request.scope]) (fun _ h => h) _
  | logout args =>
    refine Prog.every_bind (χ := fun _ => True) ?_ fun _ _ => trivial
    refine Prog.every_bind (confined_validated _ _) fun rawToken _ => ?_
    exact confined_revokeRefreshToken (by simp [Request.scope]) _
  | me userId =>
    refine Prog.every_bind (χ := fun _ => True) ?_ fun _ _ => trivial
    exact Prog.every_bind (confined_getCurrentUser _) fun _ _ => confined_ofExcept _
  | createOrganization userId args =>
    refine Prog.every_bind (χ := fun _ => True) ?_ fun _ _ => trivial
    refine Prog.every_bind (confined_getCurrentUser _) fun user _ => ?_
    refine Prog.every_bind (confined_validated _ _) fun a _ => ?_
    refine confined_idempotently (by simp [Request.scope]) ?_
    exact Prog.every_bind (confined_createOrganization (by simp [Request.scope])
      (by simp [Request.scope]) (by simp [Request.scope]) _ _) fun _ _ => trivial
  | listOrganizations userId =>
    refine Prog.every_bind (χ := fun _ => True) ?_ fun _ _ => trivial
    exact Prog.every_bind (confined_getCurrentUser _) fun _ _ => confined_select _
  | acceptInvitation userId args =>
    refine Prog.every_bind (χ := fun _ => True) ?_ fun _ _ => trivial
    refine Prog.every_bind (confined_getCurrentUser _) fun user _ => ?_
    refine Prog.every_bind (confined_validated _ _) fun rawToken _ => ?_
    exact Prog.every_bind (confined_acceptInvitation (by simp [Request.scope])
      (by simp [Request.scope]) (by simp [Request.scope]) _ _) fun _ _ => confined_ofExcept _
  | organization organizationId userId request =>
    exact confined_organizationRequest request organizationId userId
  | stripeEvent event =>
    exact Prog.every_bind (confined_processStripeEvent (by simp [Request.scope])
      (by simp [Request.scope]) (by simp [Request.scope]) _) fun _ _ => trivial
  | sendInvitation invitationId rawToken =>
    exact Prog.every_bind (confined_sendInvitationTask (fun _ => trivial) _ _) fun _ _ => trivial
  | beginAttempt deliveryId =>
    exact Prog.every_bind (confined_beginAttempt (by simp [Request.scope]) (fun _ h => h) _)
      fun _ _ => trivial
  | finishAttempt held result =>
    exact Prog.every_bind (confined_finishAttempt (by simp [Request.scope]) _ _)
      fun _ _ => trivial
  | cleanup =>
    exact Prog.every_bind (confined_cleanupExpiredState (by simp [Request.scope])
      (by simp [Request.scope]) (by simp [Request.scope])) fun _ _ => trivial

theorem Request.scope_disjoint (request : Request) (t : Table) (h : t ∈ request.scope.writes) :
    t ∉ request.scope.deletes := by
  cases request with
  | organization organizationId userId request =>
    cases request <;> simp [Request.scope, OrganizationRequest.scope] at h ⊢ <;> grind
  | cleanup => simp [Request.scope] at h ⊢ ; grind
  | _ => simp [Request.scope]

/-- Every request inserts and updates in some tables and deletes from others. -/
theorem orderly_request [Platform] (request : Request) :
    Orderly (· ∈ request.scope.writes) (· ∈ request.scope.deletes) request.handler :=
  ⟨request.scope_disjoint, (confined_request request).mono (fun _ hs => hs.within)
    (fun _ h => h) (fun _ h => h)⟩

end Requests

end TenantFlow
