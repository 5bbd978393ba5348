import TenantFlow.Core.Request
import TenantFlow.Library.Base64

/-!
# Keyset cursors
-/

namespace TenantFlow

open JsonText Transactional

variable [Platform]

structure Cursor where
  createdAt : Datetime
  entityId : UUID

/-- `base64.urlsafe_b64encode(payload).decode().rstrip("=")` -/
def cursorText (payload : List UInt8) : String :=
  String.ofList (((Base64.urlsafeEncode payload).map fun b => Char.ofNat b.toNat).rdropWhile
    (· = '='))

/-- `base64.urlsafe_b64decode` of the text with its padding; `none` for a `binascii.Error`. -/
def cursorBytes (value : String) : Option (List UInt8) :=
  let padded := value ++ String.ofList (List.replicate ((-(value.length : Int)) % 4).toNat '=')
  Base64.urlsafeDecode (utf8 padded)

/-- `encode_cursor`; the timestamp has an offset from UTC in minutes. -/
def encodeCursor (createdAt : Datetime) (offset : Int) (entityId : UUID) : String :=
  cursorText (utf8 (String.ofList ("\x7b\"created_at\":".toList ++
    quote escapeCharAscii (Platform.isoformat createdAt offset) ++ ",\"id\":".toList ++
    quote escapeCharAscii entityId.str ++ ['}'])))

/-- The `ValueError` of the `try` block, as the list routes answer it. -/
def invalidCursor : Failure := .http 422 "Invalid pagination cursor"

/-- `decode_cursor`: the `ValueError` text, which the list routes answer with 422, or the
name of an exception that escapes them. -/
def decodeCursor (value : String) : Except Failure Cursor :=
  match cursorBytes value with
  | none => .error invalidCursor
  | some raw =>
    match Platform.jsonLoads raw with
    | .error .value => .error invalidCursor
    | .error .recursion => .error (.unhandled "RecursionError")
    | .ok (.obj data) =>
      match lookup data "created_at" with
      | some (.str text) =>
        match Platform.fromisoformat text with
        | none => .error invalidCursor
        | some createdAt =>
          match lookup data "id" with
          | none => .error invalidCursor
          | some .null => .error invalidCursor
          | some (.str text) =>
            match UUID.ofString text with
            | none => .error invalidCursor
            | some entityId =>
              if createdAt.aware then .ok ⟨createdAt.micros, entityId⟩
              else .error (.http 422 "Pagination cursor timestamp must be timezone-aware")
          -- `UUID(x)` calls a string method on whatever it is given.
          | some _ => .error (.unhandled "AttributeError")
      | _ => .error invalidCursor
    | .ok _ => .error invalidCursor

/-- One page in descending order of `(created_at, id)`, starting after the cursor; one row
more than the limit is read to see whether there is a next page. -/
def keysetPage {ρ : Type} (createdAt : ρ → Datetime) (id : ρ → UUID) (position : Option Cursor)
    (limit : Nat) (rows : List ρ) : List ρ :=
  let after (r : ρ) : Bool := position.all fun p =>
    createdAt r < p.createdAt ∨ createdAt r = p.createdAt ∧ id r < p.entityId
  let le (a b : ρ) : Bool :=
    createdAt b < createdAt a ∨ createdAt a = createdAt b ∧ ¬ id a < id b
  ((rows.filter after).mergeSort le).take (limit + 1)

/-- The cursor after the rows of a page, if more rows were read than it shows. The rows have
their timestamps in UTC. -/
def nextCursor {ρ : Type} (createdAt : ρ → Datetime) (id : ρ → UUID) (limit : Nat)
    (rows : List ρ) : Option String :=
  if rows.length > limit then
    (rows.take limit).getLast?.map fun last => encodeCursor (createdAt last) 0 (id last)
  else none

/-- `if cursor:`, with the exceptions of `decode_cursor` as the list routes answer them. -/
def cursorPosition : Option String → App (Option Cursor)
  | none => .ret none
  | some "" => .ret none
  | some cursor => (Prog.ofExcept (decodeCursor cursor)).bind fun position => .ret (some position)

end TenantFlow
