import TenantFlow.Core.Request

/-!
# Idempotency records

A request claims its `(scope, key)` by inserting a record with `ON CONFLICT DO NOTHING`,
runs its operation, and completes the record in the same transaction. A request that finds
the key taken locks the record and answers from it.
-/

namespace TenantFlow

open JsonText Transactional

variable [Platform]

/-- The canonical text of a payload. -/
def canonicalJson (payload : Json) : String :=
  String.ofList (dumps escapeChar (fun q => (Platform.reprValue (.float q)).toList) payload)

def canonicalRequestHash (payload : Json) : String := Platform.sha256 (canonicalJson payload)

structure IdempotencyState where
  record : IdempotencyRecord
  replayStatus : Option Nat := none
  replayBody : Option Json := none

def IdempotencyState.isReplay (state : IdempotencyState) : Bool := state.replayStatus.isSome

/-- `index_elements=["scope", "key"]` -/
def sameScopeKey (r s : IdempotencyRecord) : Bool := decide ((r.scope, r.key) = (s.scope, s.key))

def acquireIdempotency (userId : UUID) (organizationId : Option UUID)
    (scope key requestHash : String) : App IdempotencyState := do
  let ttlHours := 24
  let at_ ← now
  let id ← uuid4
  let created ← send (.insertOnConflictDoNothing .idempotencyRecords sameScopeKey
    { id, organizationId, userId, scope, key, requestHash, status := .processing,
      responseStatus := none, responseBody := none, createdAt := at_,
      expiresAt := at_ + hours ttlHours })
  if (← checked created) then
    let record ← select fun db => (db .idempotencyRecords).find? (·.id = id)
    match record with
    | none => raise (runtimeError "Newly created idempotency record could not be loaded")
    | some record => return { record }
  else
    let record ← selectForUpdate .idempotencyRecords fun db =>
      (db .idempotencyRecords).find? fun r => r.scope = scope ∧ r.key = key
    match record with
    | none => raise (runtimeError "Idempotency record disappeared after unique-key conflict")
    | some record =>
      if record.requestHash ≠ requestHash then
        raise (conflictError "IDEMPOTENCY_KEY_REUSED"
          "Idempotency-Key was already used with a different request payload")
      else match record.status, record.responseStatus, record.responseBody with
        | .completed, some status, some body =>
          return { record, replayStatus := some status, replayBody := some body }
        | _, _, _ =>
          raise (conflictError "IDEMPOTENCY_IN_PROGRESS"
            "A request with this Idempotency-Key is in progress")

/-- The columns that `complete_idempotency` sets. -/
def IdempotencyRecord.complete (statusCode : Nat) (responseBody : Json) (r : IdempotencyRecord) :
    IdempotencyRecord :=
  { r with status := .completed, responseStatus := some statusCode,
           responseBody := some responseBody }

def completeIdempotency (record : IdempotencyRecord) (statusCode : Nat) (responseBody : Json) :
    App Unit :=
  updateRow .idempotencyRecords record.id (IdempotencyRecord.complete statusCode responseBody)

/-- The two ways in which an idempotent endpoint answers. -/
inductive Outcome (α : Type) where
  | executed (response : α)
  | replayed (response : α)

def Outcome.response {α : Type} : Outcome α → α
  | .executed r => r
  | .replayed r => r

def Outcome.isExecuted {α : Type} : Outcome α → Bool
  | .executed _ => true
  | .replayed _ => false

def Outcome.map {α β : Type} (f : α → β) : Outcome α → Outcome β
  | .executed r => .executed (f r)
  | .replayed r => .replayed (f r)

/-- The frame shared by the idempotent endpoints: claim the key, then answer from the
record or execute, complete the record and answer. -/
def idempotently {ρ : Type} (userId : UUID) (organizationId : Option UUID)
    (scope key : String) (payload : Json) (missingBody : String)
    (modelValidate : Json → Except Failure ρ) (modelDump : ρ → Json) (execute : App ρ) :
    App (Outcome ρ) := do
  let state ← acquireIdempotency userId organizationId scope key (canonicalRequestHash payload)
  if state.isReplay then
    match state.replayBody with
    | none => raise (runtimeError missingBody)
    | some body =>
      let response ← Prog.ofExcept (modelValidate body)
      return .replayed response
  else
    let response ← execute
    completeIdempotency state.record 201 (modelDump response)
    return .executed response

end TenantFlow
