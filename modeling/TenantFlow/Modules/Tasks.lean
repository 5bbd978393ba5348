import TenantFlow.Modules.Projects

/-!
# Tasks
-/

namespace TenantFlow

open JsonText Transactional

variable [Platform]

/-! ## Schemas -/

structure TaskCreate where
  projectId : UUID
  title : String
  description : Option String
  priority : Priority
  assigneeId : Option UUID
  dueAt : Option PyDatetime

def TaskCreate.valid (p : TaskCreate) : Bool :=
  lengthIn 1 200 p.title && p.description.all (lengthIn 0 5000)

/-- A `PATCH` body, as in `ProjectUpdate`. -/
structure TaskUpdate where
  title : Option (Option String)
  description : Option (Option String)
  status : Option (Option TaskStatus)
  priority : Option (Option Priority)
  assigneeId : Option (Option UUID)
  dueAt : Option (Option PyDatetime)

def TaskUpdate.valid (p : TaskUpdate) : Bool :=
  p.title.all (·.all (lengthIn 1 200)) && p.description.all (·.all (lengthIn 0 5000))

structure TaskResponse where
  id : UUID
  organizationId : UUID
  projectId : UUID
  title : String
  description : Option String
  status : TaskStatus
  priority : Priority
  assigneeId : Option UUID
  createdBy : UUID
  dueAt : Option PyDatetime
  createdAt : Datetime
  updatedAt : Datetime

structure TaskPage where
  items : List TaskResponse
  nextCursor : Option String

def Task.toResponse (t : Task) : Except Failure TaskResponse :=
  match t.title, t.status, t.priority with
  | some title, some status, some priority =>
    .ok { id := t.id, organizationId := t.organizationId, projectId := t.projectId, title,
          description := t.description, status, priority, assigneeId := t.assigneeId,
          createdBy := t.createdBy, dueAt := t.dueAt, createdAt := t.createdAt,
          updatedAt := t.updatedAt }
  | _, _, _ => .error (.unhandled "ValidationError")

/-! ## Service -/

def validateProject (organizationId projectId : UUID) : App Unit := do
  if (← select fun db => (findProject organizationId projectId db).isSome) then return ()
  else raise (notFoundError "PROJECT_NOT_FOUND" "Project was not found")

def validateAssignee (organizationId : UUID) : Option UUID → App Unit
  | none => return ()
  | some userId => do
    if (← select fun db => (findMembership organizationId userId db).isSome) then return ()
    else raise (conflictError "INVALID_ASSIGNEE" "Assignee must belong to this organization")

def findTask (organizationId taskId : UUID) (db : Db Row) : Option Task :=
  (db .tasks).find? fun t => t.id = taskId ∧ t.organizationId = organizationId

def getTask (organizationId taskId : UUID) : App Task := do
  orRaise (notFoundError "TASK_NOT_FOUND" "Task was not found")
    (← select (findTask organizationId taskId))

def createTask (organizationId : UUID) (user : User) (payload : TaskCreate) : App Task := do
  validateProject organizationId payload.projectId
  validateAssignee organizationId payload.assigneeId
  let d ← rowDefaults
  let task : Task :=
    { id := d.id, organizationId, projectId := payload.projectId,
      title := some (strip payload.title), description := payload.description,
      status := some .todo, priority := some payload.priority, assigneeId := payload.assigneeId,
      createdBy := user.id, dueAt := payload.dueAt, createdAt := d.createdAt,
      updatedAt := d.updatedAt }
  insertRow (t := .tasks) task
  recordAudit organizationId (some user.id) "task.created" "task" (some task.id) []
  let _ ← emitEvent organizationId "task.created"
    [("task_id", .str task.id.str), ("project_id", .str task.projectId.str),
      ("title", jsonText task.title)]
  return task

/-- The `setattr` loop over the fields that were sent. -/
def TaskUpdate.apply (payload : TaskUpdate) (t : Task) : Task :=
  { t with
    title := payload.title.getD t.title
    description := payload.description.getD t.description
    status := payload.status.getD t.status
    priority := payload.priority.getD t.priority
    assigneeId := payload.assigneeId.getD t.assigneeId
    dueAt := payload.dueAt.getD t.dueAt }

/-- Some attribute of `new` differs from its loaded value. -/
def Task.dirty (loaded new : Task) : Bool :=
  new.title ≠ loaded.title || new.description ≠ loaded.description ||
    new.status ≠ loaded.status || new.priority ≠ loaded.priority ||
    new.assigneeId ≠ loaded.assigneeId || new.dueAt ≠ loaded.dueAt

/-- The columns that a flush writes after `new` was assigned over `loaded`. -/
def Task.patch (loaded new : Task) (updatedAt : Datetime) (r : Task) : Task :=
  { r with
    title := assign loaded.title new.title r.title
    description := assign loaded.description new.description r.description
    status := assign loaded.status new.status r.status
    priority := assign loaded.priority new.priority r.priority
    assigneeId := assign loaded.assigneeId new.assigneeId r.assigneeId
    dueAt := assign loaded.dueAt new.dueAt r.dueAt
    updatedAt }

def updateTask (organizationId taskId : UUID) (user : User) (payload : TaskUpdate) :
    App Task := do
  let task ← getTask organizationId taskId
  match payload.assigneeId with
  | some assigneeId => validateAssignee organizationId assigneeId
  | none => pure ()
  let new := payload.apply task
  let updatedAt ← flush .tasks task.id (Task.dirty task new) (Task.patch task new)
  recordAudit organizationId (some user.id) "task.updated" "task" (some task.id) []
  let eventType := if new.status = some .done then "task.completed" else "task.updated"
  let _ ← emitEvent organizationId eventType
    [("task_id", .str task.id.str), ("project_id", .str task.projectId.str),
      ("status", jsonText (new.status.map (·.str)))]
  return { new with updatedAt := updatedAt.getD task.updatedAt }

def deleteTask (organizationId taskId : UUID) (user : User) : App Unit := do
  let task ← getTask organizationId taskId
  recordAudit organizationId (some user.id) "task.deleted" "task" (some task.id)
    [("title", jsonText task.title), ("project_id", .str task.projectId.str)]
  let _ ← emitEvent organizationId "task.deleted"
    [("task_id", .str task.id.str), ("project_id", .str task.projectId.str)]
  deleteRow .tasks task.id

/-! ## Routes -/

/-- `POST /organizations/{organization_id}/tasks` -/
def createTaskRoute (organizationId userId : UUID) (args : Option TaskCreate) :
    App TaskResponse := do
  let context ← requirePermission .projectWrite organizationId userId
  let payload ← validated args TaskCreate.valid
  let task ← createTask organizationId context.user payload
  Prog.ofExcept task.toResponse

/-- The query parameters of the task list. -/
structure TaskFilter where
  projectId : Option UUID
  status : Option TaskStatus
  assigneeId : Option UUID
  priority : Option Priority
  cursor : Option String
  limit : Nat

def TaskFilter.accepts (f : TaskFilter) (t : Task) : Bool :=
  f.projectId.all (t.projectId = ·) && f.status.all (t.status = some ·) &&
    f.assigneeId.all (t.assigneeId = some ·) && f.priority.all (t.priority = some ·)

/-- `GET /organizations/{organization_id}/tasks` -/
def listTasks (organizationId userId : UUID) (args : Option TaskFilter) : App TaskPage := do
  let _ ← requirePermission .projectRead organizationId userId
  let filter ← validated args fun f => 1 ≤ f.limit && f.limit ≤ 100
  let position ← cursorPosition filter.cursor
  let rows ← select fun db =>
    keysetPage Task.createdAt Task.id position filter.limit
      ((db .tasks).filter fun t => t.organizationId = organizationId ∧ filter.accepts t)
  let items ← Prog.ofExcept ((rows.take filter.limit).mapM Task.toResponse)
  return { items, nextCursor := nextCursor Task.createdAt Task.id filter.limit rows }

/-- `GET /organizations/{organization_id}/tasks/{task_id}` -/
def retrieveTask (organizationId userId : UUID) (args : Option UUID) : App TaskResponse := do
  let _ ← requirePermission .projectRead organizationId userId
  let taskId ← validated args fun _ => true
  let task ← getTask organizationId taskId
  Prog.ofExcept task.toResponse

/-- `PATCH /organizations/{organization_id}/tasks/{task_id}` -/
def updateTaskRoute (organizationId userId : UUID) (args : Option (UUID × TaskUpdate)) :
    App TaskResponse := do
  let context ← requirePermission .projectWrite organizationId userId
  let (taskId, payload) ← validated args fun a => a.2.valid
  let task ← updateTask organizationId taskId context.user payload
  Prog.ofExcept task.toResponse

/-- `DELETE /organizations/{organization_id}/tasks/{task_id}` -/
def deleteTaskRoute (organizationId userId : UUID) (args : Option UUID) : App Unit := do
  let context ← requirePermission .projectWrite organizationId userId
  let taskId ← validated args fun _ => true
  deleteTask organizationId taskId context.user

end TenantFlow
