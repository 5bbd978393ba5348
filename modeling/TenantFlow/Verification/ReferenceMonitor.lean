import TenantFlow.Verification.Sample
import TenantFlow.Verification.Sequential

/-!
# The organization routes behind one monitor

Every route under `/organizations/{organization_id}/` starts with the dependency that looks
up the membership of the user and checks the permission of the route. Who is no member
learns nothing about the organization, and a role changes only what its permissions open.
-/

namespace TenantFlow

open JsonText Transactional

section Monitor

variable {oracle : Oracle Answer} {db : Db Row} {organizationId userId : UUID}

/-- The bearer of a valid access token: the account exists and is active. -/
def Authenticated (db : Db Row) (userId : UUID) : Prop :=
  ∃ user, (db .users).find? (·.id = userId) = some user ∧ user.isActive = true

/-- The role of the user in the organization. -/
def HasRole (db : Db Row) (organizationId userId : UUID) (role : Role) : Prop :=
  ∃ m, findMembership organizationId userId db = some m ∧ m.role = role

/-- A request on a route of the organization, in its own transaction: the response, and the
database afterwards. -/
def serve [Platform] (oracle : Oracle Answer) (request : OrganizationRequest)
    (organizationId userId : UUID) (db : Db Row) : Except Failure Response × Db Row :=
  transaction oracle (request.handler organizationId userId) db

/-! ## The dependency comes first -/

theorem bind_route {α β γ : Type} (p : App α) (f : α → App β) (g : β → App γ) :
    ∃ h, (p.bind f).bind g = p.bind h := ⟨_, Prog.bind_assoc p f g⟩

/-- Every handler starts with the permission check of its route. -/
theorem handler_eq [Platform] (request : OrganizationRequest) (organizationId userId : UUID) :
    ∃ f, request.handler organizationId userId =
      (requirePermission request.permission organizationId userId).bind f := by
  cases request <;> exact bind_route _ _ _

/-- If the dependency raises, the response is its error and nothing is written. -/
theorem serve_of_error [Platform] {request : OrganizationRequest} {e : Failure}
    (h : contextOf request.permission organizationId userId db = .error e) :
    serve oracle request organizationId userId db = (.error e, db) := by
  obtain ⟨f, hf⟩ := handler_eq request organizationId userId
  obtain ⟨n, hrun⟩ :=
    run_requirePermission oracle request.permission organizationId userId ⟨db, 0⟩
  rw [h] at hrun
  simp only [serve, transaction, hf, Prog.run_bind_error hrun]

theorem contextOf_of_no_membership {permission : Permission} (hu : Authenticated db userId)
    (h : findMembership organizationId userId db = none) :
    contextOf permission organizationId userId db =
      .error (notFoundError "ORGANIZATION_NOT_FOUND" "Organization was not found") := by
  obtain ⟨user, huser, hactive⟩ := hu
  simp [contextOf, huser, Option.filter, hactive, h]

theorem contextOf_of_no_permission {permission : Permission} (hu : Authenticated db userId)
    {role : Role} (hrole : HasRole db organizationId userId role)
    (hno : hasPermission role permission = false) :
    contextOf permission organizationId userId db = .error (forbiddenError
      ("Role '" ++ role.str ++ "' lacks permission '" ++ permission.str ++ "'")) := by
  obtain ⟨user, huser, hactive⟩ := hu
  obtain ⟨m, hm, rfl⟩ := hrole
  simp [contextOf, huser, Option.filter, hactive, hm, hno]

/-- Nobody is a member of an organization that does not exist. -/
theorem no_membership_of_no_organization (hdb : Consistent db)
    (h : hasOrganization db organizationId = false) :
    findMembership organizationId userId db = none := by
  refine List.find?_eq_none.mpr fun m hm hsame => ?_
  have hrefs := (check_eq_none_iff.mp (hdb.checks .organizationMemberships m hm)).2.2
  simp only [referencesOk, Bool.and_eq_true] at hrefs
  obtain ⟨rfl, _⟩ : m.organizationId = organizationId ∧ m.userId = userId := by simpa using hsame
  rw [h] at hrefs
  exact absurd hrefs.1 (by simp)

/-! ## What a role can change -/

/-- The memberships of owners. -/
def owners (db : Db Row) : List OrganizationMembership :=
  (db .organizationMemberships).filter (·.role = .owner)

theorem serve_agree [Platform] (oracle : Oracle Answer) (request : OrganizationRequest)
    (organizationId userId : UUID) (db : Db Row) :
    request.scope.Agree db (serve oracle request organizationId userId db).2 := fun _ hw hd =>
  (confined_organizationRequest request organizationId userId).transaction_table hw hd

theorem scope_of_read {request : OrganizationRequest} (h : request.permission = .projectRead) :
    request.scope.writes = [] ∧ request.scope.deletes = [] := by
  cases request <;> first | exact ⟨rfl, rfl⟩ | cases h

/-- The tables that no route for members writes. -/
def managedTables : List Table :=
  [.organizationMemberships, .invitations, .webhookEndpoints, .subscriptions, .idempotencyRecords]

theorem scope_of_member {request : OrganizationRequest}
    (h : hasPermission .member request.permission = true) :
    Table.projects ∉ request.scope.deletes ∧
      ∀ T ∈ managedTables, T ∉ request.scope.writes ∧ T ∉ request.scope.deletes := by
  cases request <;> simp [hasPermission, rolePermissions, OrganizationRequest.permission,
    OrganizationRequest.scope, managedTables] at h ⊢

theorem scope_of_admin {request : OrganizationRequest}
    (h : hasPermission .admin request.permission = true) :
    Table.subscriptions ∉ request.scope.writes ∧ Table.subscriptions ∉ request.scope.deletes := by
  cases request <;> simp [hasPermission, rolePermissions, OrganizationRequest.permission,
    OrganizationRequest.scope] at h ⊢

/-- Assigning a role other than owner to a row that is no owner's keeps the owners' rows. -/
theorem owners_update {m : OrganizationMembership} {g : OrganizationMembership → OrganizationMembership}
    (hdb : Consistent db) (hm : m ∈ db .organizationMemberships) (hrole : m.role ≠ .owner)
    (hg : ∀ r, (g r).role ≠ .owner) :
    owners ((Op.update .organizationMemberships m.id g).apply db) = owners db := by
  unfold owners
  rw [apply_update_self]
  refine filter_map_eq fun r hr => ?_
  by_cases hid : r.id = m.id
  · obtain rfl : r = m := hdb.eq_of_pk hr hm hid
    right
    simp [hrole, hg]
  · simp [hid]

theorem owners_delete {m : OrganizationMembership} (hdb : Consistent db)
    (hm : m ∈ db .organizationMemberships) (hrole : m.role ≠ .owner) :
    owners ((Op.delete .organizationMemberships m.id).apply db) = owners db := by
  unfold owners
  rw [apply_delete_self, List.filter_filter]
  refine List.filter_congr fun r hr => ?_
  by_cases hid : r.id = m.id
  · obtain rfl : r = m := hdb.eq_of_pk hr hm hid
    simp [hrole]
  · simp [hid]

theorem owners_of_agree {F : Scope} {db' : Db Row} (h : F.Agree db db')
    (hw : Table.organizationMemberships ∉ F.writes)
    (hd : Table.organizationMemberships ∉ F.deletes) : owners db' = owners db := by
  simp only [owners, h .organizationMemberships hw hd]

theorem ends_updateMembershipRole {membershipId : UUID} {actor : User} {role : Role}
    (hdb : Consistent db) (hnew : role ≠ .owner) :
    Ends oracle (fun _ db' => owners db' = owners db)
      (updateMembershipRole organizationId membershipId actor role) db := by
  refine ends_select ?_
  cases hm : findMembershipById organizationId membershipId db with
  | none => exact runs_raise _
  | some m =>
    have hmem := (mem_of_findMembershipById hm).1
    dsimp only
    split
    · exact runs_raise _
    · rename_i hrole
      have haudit : ∀ (db' : Db Row) (metadata : List (String × Json)), owners db' = owners db →
          Ends oracle (fun _ db' => owners db' = owners db)
            ((recordAudit organizationId (some actor.id) "member.role_changed"
              "organization_membership" (some m.id) metadata).bind fun _ =>
                .ret { m with role }) db' := by
        intro db' metadata hdb'
        refine ends_confined (F := { writes := [.auditLogs] })
          (confined_recordAudit (by simp) _ _ _ _ _) fun _ db₂ hdb₂ => runs_ret ?_
        exact (owners_of_agree hdb₂ (by simp) (by simp)).trans hdb'
      refine ends_flush (fun at_ _ _ => haudit _ _ ?_) fun _ => haudit _ _ rfl
      exact owners_update hdb hmem hrole fun _ => hnew

theorem ends_removeMembership {membershipId : UUID} {actor : User} (hdb : Consistent db) :
    Ends oracle (fun _ db' => owners db' = owners db)
      (removeMembership organizationId membershipId actor) db := by
  refine ends_select ?_
  cases hm : findMembershipById organizationId membershipId db with
  | none => exact runs_raise _
  | some m =>
    have hmem := (mem_of_findMembershipById hm).1
    dsimp only
    split
    · exact runs_raise _
    · rename_i hrole
      refine ends_confined (F := { writes := [.auditLogs] })
        (confined_recordAudit (by simp) _ _ _ _ _) fun _ db₁ hdb₁ => ?_
      have hkeep : db₁ .organizationMemberships = db .organizationMemberships :=
        hdb₁ .organizationMemberships (by simp) (by simp)
      refine runs_delete trivial (runs_ret ?_)
      rw [replay_deleteOps (rfl : Schema.cascade db₁ .organizationMemberships m.id = []),
        ← owners_delete hdb hmem hrole]
      simp only [owners, apply_delete_self, hkeep]

/-- No request on these routes changes the membership of an owner. -/
theorem serve_keeps_owners [Platform] (hdb : Consistent db) (oracle : Oracle Answer)
    (request : OrganizationRequest) (organizationId userId : UUID) :
    owners (serve oracle request organizationId userId db).2 = owners db := by
  have hframe := serve_agree oracle request organizationId userId db
  cases request with
  | changeMemberRole args =>
    refine Runs.transaction_either (I := fun db' => owners db' = owners db) ?_ rfl
    refine runs_bind (ends_requirePermission fun context _ => ends_validated fun a _ hrole => ?_)
    refine runs_bind ((ends_updateMembershipRole hdb (by simpa using hrole)).mono fun m db₁ h₁ => ?_)
    refine ends_select ?_
    cases (db₁ .users).find? (·.id = m.userId) with
    | none => exact runs_raise _
    | some member => exact ends_of_ofExcept fun _ _ => runs_ret h₁
  | deleteMember args =>
    refine Runs.transaction_either (I := fun db' => owners db' = owners db) ?_ rfl
    refine runs_bind (ends_requirePermission fun context _ => ends_validated fun a _ _ => ?_)
    exact (ends_removeMembership hdb).mono fun _ _ h₁ => runs_ret h₁
  | _ =>
    exact owners_of_agree hframe (by simp [OrganizationRequest.scope])
      (by simp [OrganizationRequest.scope])

/-- If the role lacks the permission of the route, nothing is written. -/
theorem serve_of_forbidden [Platform] (oracle : Oracle Answer) {request : OrganizationRequest}
    {role : Role} (hu : Authenticated db userId) (hrole : HasRole db organizationId userId role)
    (hno : hasPermission role request.permission = false) :
    ∃ message, serve oracle request organizationId userId db =
      (.error (forbiddenError message), db) :=
  ⟨_, serve_of_error (contextOf_of_no_permission hu hrole hno)⟩

theorem serve_viewer [Platform] (hu : Authenticated db userId)
    (hrole : HasRole db organizationId userId .viewer) (request : OrganizationRequest) :
    (serve oracle request organizationId userId db).2 = db := by
  cases hp : hasPermission .viewer request.permission with
  | false =>
    obtain ⟨message, hserve⟩ := serve_of_forbidden oracle hu hrole hp
    rw [hserve]
  | true =>
    have hread : request.permission = .projectRead := by
      simpa [hasPermission, rolePermissions] using hp
    obtain ⟨hw, hd⟩ := scope_of_read hread
    funext T
    exact serve_agree oracle request organizationId userId db T (by simp [hw]) (by simp [hd])

theorem serve_member [Platform] (hu : Authenticated db userId)
    (hrole : HasRole db organizationId userId .member) (request : OrganizationRequest) :
    (∀ T ∈ managedTables, (serve oracle request organizationId userId db).2 T = db T) ∧
      ∀ project ∈ db .projects, ∃ project' ∈ (serve oracle request organizationId userId db).2
        .projects, project'.id = project.id := by
  cases hp : hasPermission .member request.permission with
  | false =>
    obtain ⟨message, hserve⟩ := serve_of_forbidden oracle hu hrole hp
    rw [hserve]
    exact ⟨fun _ _ => rfl, fun project hmem => ⟨project, hmem, rfl⟩⟩
  | true =>
    obtain ⟨hprojects, htables⟩ := scope_of_member hp
    have hconfined := confined_organizationRequest request organizationId userId
    refine ⟨fun T hT => hconfined.transaction_table (htables T hT).1 (htables T hT).2, ?_⟩
    intro project hmem
    obtain ⟨project', hmem', hblank⟩ := hconfined.transaction_keeps_rows hprojects hmem
    exact ⟨project', hmem', pk_of_blank hblank⟩

theorem serve_admin [Platform] (hu : Authenticated db userId)
    (hrole : HasRole db organizationId userId .admin) (request : OrganizationRequest) :
    (serve oracle request organizationId userId db).2 .subscriptions = db .subscriptions := by
  cases hp : hasPermission .admin request.permission with
  | false =>
    obtain ⟨message, hserve⟩ := serve_of_forbidden oracle hu hrole hp
    rw [hserve]
  | true =>
    obtain ⟨hw, hd⟩ := scope_of_admin hp
    exact serve_agree oracle request organizationId userId db .subscriptions hw hd

/-- The monitor of the organization routes. Who is no member gets the answer that an id of no
organization gets, whatever either database holds; who lacks the permission gets 403; neither
changes anything. So viewers change no row, members no managed table and no project's
existence, and admins neither subscriptions nor the membership of an owner. -/
theorem organization_routes_monitored [Platform] (hdb : Consistent db)
    (hu : Authenticated db userId) (oracle : Oracle Answer) (request : OrganizationRequest)
    (organizationId : UUID) :
    (findMembership organizationId userId db = none →
      (serve oracle request organizationId userId db).2 = db ∧
      ∀ oracle' db' organizationId', Consistent db' → Authenticated db' userId →
        hasOrganization db' organizationId' = false →
        (serve oracle request organizationId userId db).1 =
          (serve oracle' request organizationId' userId db').1) ∧
    (∀ role, HasRole db organizationId userId role →
      hasPermission role request.permission = false →
      (serve oracle request organizationId userId db).2 = db ∧
      ∃ e, (serve oracle request organizationId userId db).1 = .error e ∧ e.statusCode = 403) ∧
    (HasRole db organizationId userId .viewer →
      (serve oracle request organizationId userId db).2 = db) ∧
    (HasRole db organizationId userId .member →
      (∀ T ∈ managedTables, (serve oracle request organizationId userId db).2 T = db T) ∧
      ∀ project ∈ db .projects, ∃ project' ∈ (serve oracle request organizationId userId db).2
        .projects, project'.id = project.id) ∧
    (HasRole db organizationId userId .admin →
      (serve oracle request organizationId userId db).2 .subscriptions = db .subscriptions ∧
      owners (serve oracle request organizationId userId db).2 = owners db) := by
  refine ⟨fun hnone => ?_, fun role hrole hno => ?_, fun hrole => serve_viewer hu hrole request,
    fun hrole => serve_member hu hrole request, fun hrole => ⟨serve_admin hu hrole request,
    serve_keeps_owners hdb oracle request organizationId userId⟩⟩
  · rw [serve_of_error (contextOf_of_no_membership hu hnone)]
    refine ⟨rfl, fun oracle' db' organizationId' hdb' hu' hno => ?_⟩
    have hnone' : findMembership organizationId' userId db' = none :=
      no_membership_of_no_organization hdb' hno
    rw [serve_of_error (contextOf_of_no_membership hu' hnone')]
  · obtain ⟨message, hserve⟩ := serve_of_forbidden oracle hu hrole hno
    rw [hserve]
    exact ⟨rfl, _, rfl, rfl⟩

end Monitor

/-! ## A team -/

/-- The sample organization with a member of every role and a user who is no member. -/
def teamDb : Db Row
  | .users => [sampleUser, ⟨⟨11⟩, "bob@example.com", "argon2", "Bob", true⟩,
      ⟨⟨12⟩, "cy@example.com", "argon2", "Cy", true⟩, ⟨⟨13⟩, "di@example.com", "argon2", "Di", true⟩,
      ⟨⟨14⟩, "eve@example.com", "argon2", "Eve", true⟩]
  | .organizations => [sampleOrganization]
  | .organizationMemberships => [⟨⟨3⟩, sampleOrganization.id, sampleUser.id, .owner, 0, 0⟩,
      ⟨⟨21⟩, sampleOrganization.id, ⟨11⟩, .admin, 0, 0⟩,
      ⟨⟨22⟩, sampleOrganization.id, ⟨12⟩, .member, 0, 0⟩,
      ⟨⟨23⟩, sampleOrganization.id, ⟨13⟩, .viewer, 0, 0⟩]
  | _ => []

theorem teamDb_consistent : Consistent teamDb where
  checks := by
    intro t
    cases t <;> decide +kernel
  keys := by
    intro t
    cases t <;> decide +kernel
  unique := by
    intro t
    cases t <;> decide +kernel

section Sample

attribute [local instance] samplePlatform

/-- A viewer who tries to remove the admin, and a user without membership who does. -/
theorem team_monitored :
    (HasRole teamDb sampleOrganization.id ⟨13⟩ .viewer ∧
      (serve sampleOracle (.deleteMember (some ⟨21⟩)) sampleOrganization.id ⟨13⟩ teamDb).2 =
        teamDb) ∧
    findMembership sampleOrganization.id ⟨14⟩ teamDb = none ∧
      (serve sampleOracle (.deleteMember (some ⟨21⟩)) sampleOrganization.id ⟨14⟩ teamDb).1 =
        (serve sampleOracle (.deleteMember (some ⟨21⟩)) ⟨99⟩ ⟨14⟩ teamDb).1 := by
  have hviewer : HasRole teamDb sampleOrganization.id ⟨13⟩ .viewer := ⟨_, rfl, rfl⟩
  have hnone : findMembership sampleOrganization.id ⟨14⟩ teamDb = none := rfl
  have hdi : Authenticated teamDb ⟨13⟩ := ⟨_, rfl, rfl⟩
  have heve : Authenticated teamDb ⟨14⟩ := ⟨_, rfl, rfl⟩
  have hmonitored (userId : UUID) (hu : Authenticated teamDb userId) :=
    organization_routes_monitored teamDb_consistent hu sampleOracle (.deleteMember (some ⟨21⟩))
      sampleOrganization.id
  refine ⟨⟨hviewer, (hmonitored ⟨13⟩ hdi).2.2.1 hviewer⟩, hnone, ?_⟩
  exact ((hmonitored ⟨14⟩ heve).1 hnone).2 sampleOracle teamDb ⟨99⟩ teamDb_consistent heve rfl

end Sample

end TenantFlow
