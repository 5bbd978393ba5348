import TenantFlow.Core.Pagination
import TenantFlow.Modules.Webhooks

/-!
# Projects
-/

namespace TenantFlow

open JsonText Transactional

variable [Platform]

/-! ## Schemas -/

/-- A length bound of a Pydantic field. -/
def lengthIn (lo hi : Nat) (s : String) : Bool := lo ≤ s.length && s.length ≤ hi

structure ProjectCreate where
  name : String
  description : Option String

def ProjectCreate.valid (p : ProjectCreate) : Bool :=
  lengthIn 2 160 p.name && p.description.all (lengthIn 0 5000)

/-- A `PATCH` body: the outer option says whether the field was sent, the inner one
whether it is null. -/
structure ProjectUpdate where
  name : Option (Option String)
  description : Option (Option String)
  status : Option (Option ProjectStatus)

def ProjectUpdate.valid (p : ProjectUpdate) : Bool :=
  p.name.all (·.all (lengthIn 2 160)) && p.description.all (·.all (lengthIn 0 5000))

structure ProjectResponse where
  id : UUID
  organizationId : UUID
  name : String
  description : Option String
  status : ProjectStatus
  createdBy : UUID
  createdAt : Datetime
  updatedAt : Datetime

structure ProjectPage where
  items : List ProjectResponse
  nextCursor : Option String

def Project.toResponse (p : Project) : Except Failure ProjectResponse :=
  match p.name, p.status with
  | some name, some status =>
    .ok { id := p.id, organizationId := p.organizationId, name, description := p.description,
          status, createdBy := p.createdBy, createdAt := p.createdAt, updatedAt := p.updatedAt }
  | _, _ => .error (.unhandled "ValidationError")

/-! ## Service -/

def findProject (organizationId projectId : UUID) (db : Db Row) : Option Project :=
  (db .projects).find? fun p => p.id = projectId ∧ p.organizationId = organizationId

def getProject (organizationId projectId : UUID) : App Project := do
  orRaise (notFoundError "PROJECT_NOT_FOUND" "Project was not found")
    (← select (findProject organizationId projectId))

/-- A nullable text as a JSON value. -/
def jsonText : Option String → Json
  | some s => .str s
  | none => .null

def createProject (organizationId : UUID) (user : User) (payload : ProjectCreate) :
    App Project := do
  let d ← rowDefaults
  let project : Project :=
    { id := d.id, organizationId, name := some (strip payload.name),
      description := payload.description, status := some .active, createdBy := user.id,
      createdAt := d.createdAt, updatedAt := d.updatedAt }
  insertRow (t := .projects) project
  recordAudit organizationId (some user.id) "project.created" "project" (some project.id) []
  let _ ← emitEvent organizationId "project.created"
    [("project_id", .str project.id.str), ("name", jsonText project.name)]
  return project

/-- The `setattr` loop over the fields that were sent. -/
def ProjectUpdate.apply (payload : ProjectUpdate) (p : Project) : Project :=
  { p with
    name := payload.name.getD p.name
    description := payload.description.getD p.description
    status := payload.status.getD p.status }

/-- The columns that a flush writes after `new` was assigned over `loaded`. -/
def Project.patch (loaded new : Project) (updatedAt : Datetime) (r : Project) : Project :=
  { r with
    name := assign loaded.name new.name r.name
    description := assign loaded.description new.description r.description
    status := assign loaded.status new.status r.status
    updatedAt }

def updateProject (organizationId projectId : UUID) (user : User) (payload : ProjectUpdate) :
    App Project := do
  let project ← getProject organizationId projectId
  let new := payload.apply project
  let updatedAt ← flush .projects project.id
    (new.name ≠ project.name || new.description ≠ project.description ||
      new.status ≠ project.status) (Project.patch project new)
  recordAudit organizationId (some user.id) "project.updated" "project" (some project.id) []
  let _ ← emitEvent organizationId "project.updated"
    [("project_id", .str project.id.str), ("status", jsonText (new.status.map (·.str)))]
  return { new with updatedAt := updatedAt.getD project.updatedAt }

def deleteProject (organizationId projectId : UUID) (user : User) : App Unit := do
  let project ← getProject organizationId projectId
  recordAudit organizationId (some user.id) "project.deleted" "project" (some project.id)
    [("name", jsonText project.name)]
  let _ ← emitEvent organizationId "project.deleted"
    [("project_id", .str project.id.str), ("name", jsonText project.name)]
  deleteRow .projects project.id

/-! ## Routes -/

/-- `POST /organizations/{organization_id}/projects` -/
def createProjectRoute (organizationId userId : UUID) (args : Option ProjectCreate) :
    App ProjectResponse := do
  let context ← requirePermission .projectWrite organizationId userId
  let payload ← validated args ProjectCreate.valid
  let project ← createProject organizationId context.user payload
  Prog.ofExcept project.toResponse

/-- `GET /organizations/{organization_id}/projects` -/
def listProjects (organizationId userId : UUID) (args : Option (Option String × Nat)) :
    App ProjectPage := do
  let _ ← requirePermission .projectRead organizationId userId
  let (cursor, limit) ← validated args fun a => 1 ≤ a.2 && a.2 ≤ 100
  let position ← cursorPosition cursor
  let rows ← select fun db =>
    keysetPage Project.createdAt Project.id position limit
      ((db .projects).filter (·.organizationId = organizationId))
  let items ← Prog.ofExcept ((rows.take limit).mapM Project.toResponse)
  return { items, nextCursor := nextCursor Project.createdAt Project.id limit rows }

/-- `GET /organizations/{organization_id}/projects/{project_id}` -/
def retrieveProject (organizationId userId : UUID) (args : Option UUID) : App ProjectResponse := do
  let _ ← requirePermission .projectRead organizationId userId
  let projectId ← validated args fun _ => true
  let project ← getProject organizationId projectId
  Prog.ofExcept project.toResponse

/-- `PATCH /organizations/{organization_id}/projects/{project_id}` -/
def updateProjectRoute (organizationId userId : UUID) (args : Option (UUID × ProjectUpdate)) :
    App ProjectResponse := do
  let context ← requirePermission .projectWrite organizationId userId
  let (projectId, payload) ← validated args fun a => a.2.valid
  let project ← updateProject organizationId projectId context.user payload
  Prog.ofExcept project.toResponse

/-- `DELETE /organizations/{organization_id}/projects/{project_id}` -/
def deleteProjectRoute (organizationId userId : UUID) (args : Option UUID) : App Unit := do
  let context ← requirePermission .projectDelete organizationId userId
  let projectId ← validated args fun _ => true
  deleteProject organizationId projectId context.user

end TenantFlow
