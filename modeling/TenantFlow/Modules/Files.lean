import TenantFlow.Modules.Tasks

/-!
# Attachments
-/

namespace TenantFlow

open JsonText Transactional

variable [Platform]

/-- `ALLOWED_CONTENT_TYPES` -/
def allowedContentTypes : List String :=
  ["application/pdf", "image/jpeg", "image/png", "text/plain", "text/csv"]

/-- `MAX_FILE_SIZE` -/
def maxFileSize : Int := 20 * 1024 * 1024

/-- `validate_upload`; a `ValueError` is given back as its text. -/
def validateUpload (contentType : String) (sizeBytes : Int) : Except String Unit :=
  if contentType ∉ allowedContentTypes then .error "Unsupported content type"
  else if sizeBytes ≤ 0 ∨ sizeBytes > maxFileSize then
    .error "File size is outside the allowed range"
  else .ok ()

/-- `filename.rsplit(".", 1)[-1]`, or `none` if there is no dot. -/
def lastSuffix (filename : String) : Option String :=
  if '.' ∈ filename.toList then
    some (String.ofList (filename.toList.rtakeWhile (· ≠ '.')))
  else none

def safeSuffix (filename : String) : String :=
  let suffix := match lastSuffix filename with
    | some s => Platform.lower s
    | none => "bin"
  if !isalnum suffix || suffix.length > 10 then "bin" else suffix

def objectKey (organizationId id : UUID) (suffix : String) : String :=
  "organizations/" ++ organizationId.str ++ "/" ++ id.str ++ "." ++ suffix

def buildObjectKey (organizationId : UUID) (filename : String) : App String := do
  let id ← uuid4
  return objectKey organizationId id (safeSuffix filename)

structure PresignUploadRequest where
  filename : String
  contentType : String
  sizeBytes : Int
  projectId : Option UUID
  taskId : Option UUID

def PresignUploadRequest.valid (p : PresignUploadRequest) : Bool :=
  lengthIn 1 255 p.filename && lengthIn 3 160 p.contentType && decide (0 < p.sizeBytes) &&
    (p.projectId.isNone != p.taskId.isNone)

structure PresignUploadResponse where
  attachmentId : UUID
  objectKey : String
  uploadUrl : String
  expiresIn : Nat := 900

structure DownloadResponse where
  downloadUrl : String
  expiresIn : Nat := 900

/-- `if payload.project_id and not await session.scalar(...)`, and likewise for a task. -/
def requireParent (id : Option UUID) (found : UUID → Db Row → Bool) (e : Failure) : App Unit :=
  match id with
  | none => return ()
  | some id => do
    if (← select (found id)) then return () else raise e

/-- `POST /organizations/{organization_id}/files/presign` -/
def createUpload (organizationId userId : UUID) (args : Option PresignUploadRequest) :
    App PresignUploadResponse := do
  let context ← requirePermission .projectWrite organizationId userId
  let payload ← validated args PresignUploadRequest.valid
  match validateUpload payload.contentType payload.sizeBytes with
  | .error e => raise (.http 422 e)
  | .ok () =>
    requireParent payload.projectId (fun id db => (findProject organizationId id db).isSome)
      (notFoundError "PROJECT_NOT_FOUND" "Project was not found")
    requireParent payload.taskId (fun id db => (findTask organizationId id db).isSome)
      (notFoundError "TASK_NOT_FOUND" "Task was not found")
    let key ← buildObjectKey organizationId payload.filename
    let d ← rowDefaults
    insertRow (t := .attachments)
      { id := d.id, organizationId, projectId := payload.projectId, taskId := payload.taskId,
        objectKey := key, originalFilename := payload.filename,
        contentType := payload.contentType, sizeBytes := payload.sizeBytes,
        createdBy := context.user.id, createdAt := d.createdAt, updatedAt := d.updatedAt }
    let url ← orRaise (.unhandled "BotoCoreError") (← call (.presignPut key payload.contentType))
    return { attachmentId := d.id, objectKey := key, uploadUrl := url }

def findAttachment (organizationId attachmentId : UUID) (db : Db Row) : Option Attachment :=
  (db .attachments).find? fun a => a.id = attachmentId ∧ a.organizationId = organizationId

/-- `GET /organizations/{organization_id}/files/{attachment_id}/download` -/
def getDownload (organizationId userId : UUID) (args : Option UUID) : App DownloadResponse := do
  let _ ← requirePermission .projectRead organizationId userId
  let attachmentId ← validated args fun _ => true
  let attachment ← orRaise (notFoundError "ATTACHMENT_NOT_FOUND" "Attachment was not found")
    (← select (findAttachment organizationId attachmentId))
  let url ← orRaise (.unhandled "BotoCoreError") (← call (.presignGet attachment.objectKey))
  return { downloadUrl := url }

end TenantFlow
