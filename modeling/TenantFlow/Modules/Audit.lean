import TenantFlow.Core.Access

/-!
# Audit log
-/

namespace TenantFlow

open JsonText Transactional

/-- `session.add(log)` and the flush that follows it. -/
def recordAudit (organizationId : UUID) (actorId : Option UUID) (action entityType : String)
    (entityId : Option UUID) (metadata : List (String × Json)) : App Unit := do
  let createdAt ← now
  let id ← uuid4
  insertRow (t := .auditLogs)
    { id, organizationId, actorId, action, entityType, entityId, metadata, createdAt }

structure AuditResponse where
  id : UUID
  action : String
  entityType : String
  entityId : Option UUID
  actorId : Option UUID
  metadata : List (String × Json)
  createdAt : Datetime

/-- Rows ordered by a descending key; rows of one key stay in physical order. -/
def orderByDesc {ρ : Type} (le : ρ → ρ → Bool) (rows : List ρ) : List ρ :=
  rows.mergeSort fun a b => le b a

def listAudit (organizationId userId : UUID) (args : Option Nat) : App (List AuditResponse) := do
  let _ ← requirePermission .auditRead organizationId userId
  let limit ← validated args fun limit => 1 ≤ limit && limit ≤ 200
  let rows ← select fun db =>
    (orderByDesc (fun a b => decide (a.createdAt ≤ b.createdAt))
      ((db .auditLogs).filter (·.organizationId = organizationId))).take limit
  return rows.map fun row =>
    { id := row.id, action := row.action, entityType := row.entityType,
      entityId := row.entityId, actorId := row.actorId, metadata := row.metadata,
      createdAt := row.createdAt }

end TenantFlow
