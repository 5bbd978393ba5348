import TenantFlow.Db.Models

/-!
# Requests as programs

A request handler is a program over one database session: its statements are those that
SQLAlchemy sends, and what it asks of the outside world (the clock, random values, Stripe,
S3, the broker) are calls. `get_session` opens one transaction around it, which commits if
the handler returns and rolls back if it raises.
-/

namespace TenantFlow

open JsonText Transactional

/-- How a request fails, by the exception handler of `main.py` that answers it. -/
inductive Failure where
  | app (statusCode : Nat) (code message : String)
  | http (statusCode : Nat) (detail : String)
  | validation
  | integrity
  | unhandled (exception : String)
  deriving DecidableEq, Repr

def notFoundError (code message : String) : Failure := .app 404 code message

def forbiddenError (message : String) : Failure := .app 403 "FORBIDDEN" message

def conflictError (code message : String) : Failure := .app 409 code message

def authenticationError (message : String) : Failure := .app 401 "AUTHENTICATION_FAILED" message

def runtimeError (message : String) : Failure := .unhandled ("RuntimeError: " ++ message)

def Failure.statusCode : Failure → Nat
  | .app n _ _ => n
  | .http n _ => n
  | .validation => 422
  | .integrity => 409
  | .unhandled _ => 500

/-! ## Calls -/

/-- `SessionCreateParams`, the parameters of a Stripe checkout session. -/
structure SessionCreateParams where
  mode : String := "subscription"
  price : String
  quantity : Nat := 1
  successUrl : String
  cancelUrl : String
  clientReferenceId : String
  metadataOrganizationId : String
  subscriptionDataOrganizationId : String
  customer : Option String
  deriving DecidableEq, Repr

inductive Call where
  | now
  | uuid4
  | tokenUrlsafe (nbytes : Nat)
  | hashPassword (password : String)
  | createAccessToken (userId : String)
  | checkRateLimit (key : String) (limit windowSeconds : Nat)
  | fernetEncrypt (secret : String)
  | fernetDecrypt (value : String)
  | getaddrinfo (host : String) (port : Nat)
  | checkoutSessionsCreate (params : SessionCreateParams) (idempotencyKey : String)
  | portalSessionsCreate (customer returnUrl : String)
  | presignPut (objectKey contentType : String)
  | presignGet (objectKey : String)
  | sendInvitationTask (invitationId rawToken : String)
  | deliverWebhookTask (deliveryId : String)
  | sendInvitationEmail (toEmail organizationName invitationToken : String)
  deriving DecidableEq

/-- A session object of Stripe: its id and its hosted URL. -/
structure StripeSession where
  id : String
  url : Option String
  deriving DecidableEq, Repr

structure RateLimitResult where
  allowed : Bool
  remaining : Nat
  retryAfter : Nat
  deriving DecidableEq, Repr

/-- What a call gives back; `none` where it raises. -/
abbrev Answer : Call → Type
  | .now => Datetime
  | .uuid4 => UUID
  | .tokenUrlsafe _ => String
  | .hashPassword _ => String
  | .createAccessToken _ => String
  | .checkRateLimit _ _ _ => Option RateLimitResult
  | .fernetEncrypt _ => String
  | .fernetDecrypt _ => Option String
  | .getaddrinfo _ _ => Option (List String)
  | .checkoutSessionsCreate _ _ => Option StripeSession
  | .portalSessionsCreate _ _ => Option StripeSession
  | .presignPut _ _ => Option String
  | .presignGet _ => Option String
  | .sendInvitationTask _ _ => Option Unit
  | .deliverWebhookTask _ => Option Unit
  | .sendInvitationEmail _ _ _ => Option Unit

/-- A handler, or a part of one. -/
abbrev App (α : Type) : Type 1 := TxProg Row UUID Answer Failure α

/-- Send one statement. -/
def send (s : Stmt Row UUID Call) : App (s.Ans Answer) := Prog.perform s

def call (c : Call) : App (Answer c) := send (.call c)

def now : App Datetime := call .now

def uuid4 : App UUID := call .uuid4

def raise {α : Type} (e : Failure) : App α := .raise e

/-- The value of a call that raised nothing. -/
def orRaise {α : Type} (e : Failure) : Option α → App α
  | some a => .ret a
  | none => .raise e

/-! ## Statements -/

/-- How the ORM reports that the database refused a statement. -/
def Failure.ofDbError : DbError → Failure
  | .integrity => .integrity
  | .data => .unhandled "DBAPIError"
  | .stale => .unhandled "StaleDataError"

def checked {α : Type} : Except DbError α → App α
  | .ok a => .ret a
  | .error e => .raise (.ofDbError e)

def select {α : Type} (q : Db Row → α) : App α := send (.select q)

/-- `SELECT ... FOR UPDATE` of at most one row. -/
def selectForUpdate (t : Table) (q : Db Row → Option (Row t)) : App (Option (Row t)) :=
  send (.selectForUpdate q fun r => (r.map fun r => (t, pk r)).toList)

def insertRow {t : Table} (r : Row t) : App Unit := (send (.insert t r)).bind checked

def updateRow (t : Table) (id : UUID) (f : Row t → Row t) : App Unit :=
  (send (.update t id f)).bind checked

def deleteRow (t : Table) (id : UUID) : App Unit := send (.delete t id)

def updateRows (t : Table) (f : Row t → Row t) : List UUID → App Unit
  | [] => .ret ()
  | id :: ids => (updateRow t id f).bind fun _ => updateRows t f ids

def deleteRows (t : Table) : List UUID → App Unit
  | [] => .ret ()
  | id :: ids => (deleteRow t id).bind fun _ => deleteRows t ids

/-- The rows that an `UPDATE` or `DELETE` with this condition matches. It locks them, waiting
for whoever holds one of them, before it writes. -/
def lockWhere (t : Table) (p : Row t → Bool) : App (List UUID) :=
  send (.selectForUpdate (fun db => ((db t).filter p).map pk) fun ids => ids.map fun id => (t, id))

/-- `UPDATE ... WHERE` -/
def updateWhere (t : Table) (p : Row t → Bool) (f : Row t → Row t) : App Unit :=
  (lockWhere t p).bind fun ids => updateRows t f ids

/-- `DELETE ... WHERE` -/
def deleteWhere (t : Table) (p : Row t → Bool) : App Unit :=
  (lockWhere t p).bind fun ids => deleteRows t ids

/-- Flush of a loaded row: an `UPDATE` by primary key, sent only if some attribute differs
from its loaded value. Gives the new `updated_at`, if there is one. -/
def flush (t : Table) (id : UUID) (dirty : Bool) (patch : Datetime → Row t → Row t) :
    App (Option Datetime) :=
  if dirty then do
    let updatedAt ← now
    updateRow t id (patch updatedAt)
    return some updatedAt
  else return none

/-- An attribute is part of an `UPDATE` only if its new value differs from the loaded one. -/
def assign {α : Type} [DecidableEq α] (loaded new current : α) : α :=
  if new = loaded then current else new

/-- Without a concurrent write the column gets the new value. -/
@[simp] theorem assign_self {α : Type} [DecidableEq α] {loaded new : α} :
    assign loaded new loaded = new := by
  unfold assign
  split
  · rename_i heq
    exact heq.symm
  · rfl

/-- An assignment keeps a property of the column if the new value has it. -/
theorem assign_iff {α : Type} [DecidableEq α] {P : α → Prop} {loaded new current : α}
    (hloaded : P loaded) (hcurrent : P current) : P (assign loaded new current) ↔ P new := by
  unfold assign
  split
  · rename_i heq
    rw [heq]
    exact iff_of_true hcurrent hloaded
  · exact Iff.rfl

/-- The defaults of `UUIDPrimaryKeyMixin` and `TimestampMixin`. -/
structure RowDefaults where
  id : UUID
  createdAt : Datetime
  updatedAt : Datetime

def rowDefaults : App RowDefaults := do
  let id ← uuid4
  let createdAt ← now
  let updatedAt ← now
  return ⟨id, createdAt, updatedAt⟩

/-- Parameters and bodies as FastAPI hands them over; `none` if they do not parse. -/
def validated {α : Type} (args : Option α) (ok : α → Bool) : App α :=
  match args with
  | some a => if ok a then .ret a else .raise .validation
  | none => .raise .validation

end TenantFlow
