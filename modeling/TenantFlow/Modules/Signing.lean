import TenantFlow.Core.Platform

/-!
# Signatures of outbound webhooks
-/

namespace TenantFlow

open JsonText

/-! ## Text functions of Python -/

/-- `text.split(sep, 1)`, if there are two parts. -/
def splitOnce (sep : List Char) : List Char → Option (List Char × List Char)
  | [] => none
  | c :: cs =>
    if sep.isPrefixOf (c :: cs) then some ([], (c :: cs).drop sep.length)
    else (splitOnce sep cs).map fun p => (c :: p.1, p.2)

/-- The last value of a key, as in a dictionary made from the pairs. -/
def lastValue (parts : List (List Char × List Char)) (key : String) : Option (List Char) :=
  (parts.reverse.find? fun p => p.1 = key.toList).map Prod.snd

/-- `hmac.compare_digest` of two texts, which must be ASCII. -/
def compareDigest (a b : String) : Except String Bool :=
  if a.toList.all (·.toNat < 128) && b.toList.all (·.toNat < 128) then .ok (a = b)
  else .error "TypeError"

/-! ## Signing -/

variable [Platform]

/-- `canonical_payload` -/
def canonicalPayload (payload : Json) : List UInt8 :=
  utf8 (String.ofList
    (dumps escapeCharAscii (fun q => (Platform.reprValue (.float q)).toList) payload))

/-- What is signed: the printed timestamp, a dot, and the payload. -/
def signedMessage (timestamp : Int) (payload : List UInt8) : List UInt8 :=
  utf8 (toString timestamp ++ ".") ++ payload

/-- `create_signature` at `time`. A timestamp of zero counts as none. -/
def createSignature (secret : String) (payload : List UInt8) (timestamp : Option Int) (time : Int) :
    String :=
  let ts := (timestamp.filter (· ≠ 0)).getD time
  "t=" ++ toString ts ++ ",v1=" ++ Platform.hmacSha256 secret (signedMessage ts payload)

/-- The timestamp and the signature of a header; `none` for the errors that are caught. `limit` is
the interpreter's limit on the digits of a number, if it is switched on. -/
def headerFields (header : String) (limit : Option Nat := none) : Option (Int × String) := do
  let parts ← (header.toList.splitOn ',').mapM (splitOnce ['='])
  let timestamp ← (lastValue parts "t").bind fun t => readDecimal limit (String.ofList t)
  let supplied ← lastValue parts "v1"
  return (timestamp, String.ofList supplied)

/-- `verify_signature`; `time` is the clock when it starts, `time'` when it signs. -/
def verifySignature (secret : String) (payload : List UInt8) (header : String)
    (toleranceSeconds time time' : Int) (limit : Option Nat := none) : Except String Bool :=
  match headerFields header limit with
  | none => .ok false
  | some (timestamp, supplied) =>
    if |time - timestamp| > toleranceSeconds then .ok false
    else
      let signed := createSignature secret payload (some timestamp) time'
      match splitOnce "v1=".toList signed.toList with
      | some (_, expected) => compareDigest (String.ofList expected) supplied
      | none => .error "IndexError"

end TenantFlow
