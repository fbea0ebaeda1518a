import Quadruple.Cbor.Reading
import Quadruple.Image.Policy
import Quadruple.Image.Store

/-!
What is said between a server and its clients: requests, the reasons for which one is refused, and
the records of runs.
-/

namespace Quadruple.Server

/-- Asks for a run of a program, given as an image or as the hash of a stored one. -/
structure RunRequest where
  image : Bytes := []
  hash : String := ""
  input : String := ""
  maxSteps : Nat := 0
  keep : Bool := false
deriving DecidableEq

def RunRequest.ofItem? (item : Cbor.Item) : Option RunRequest := do
  let fields ← item.record?
  return {
    image := ← (Cbor.Item.field 1 fields).bytes?
    hash := ← (Cbor.Item.field 2 fields).string?
    input := ← (Cbor.Item.field 3 fields).string?
    maxSteps := ← (Cbor.Item.field 4 fields).word64?
    keep := ← (Cbor.Item.field 5 fields).bool? }

def runNameOfItem? (item : Cbor.Item) : Option String := do
  let fields ← item.record?
  (Cbor.Item.field 1 fields).string?

structure RunRecord where
  name : String
  hash : Hash
  steps : Nat
  error : Option Report
  ended : Int
deriving DecidableEq

/-- A run that is over, and what it wrote. -/
structure Response where
  record : RunRecord
  output : String
deriving DecidableEq

/-- The kinds of refusal that clients tell apart. -/
inductive RefusalCode where
  | invalidArgument
  | notFound
  | permissionDenied
  | failedPrecondition
  | internal
deriving DecidableEq

namespace RefusalCode

def name : RefusalCode → String
  | invalidArgument => "invalid_argument"
  | notFound => "not_found"
  | permissionDenied => "permission_denied"
  | failedPrecondition => "failed_precondition"
  | internal => "internal"

def status : RefusalCode → Nat
  | invalidArgument | failedPrecondition => 400
  | notFound => 404
  | permissionDenied => 403
  | internal => 500

end RefusalCode

inductive Refusal where
  | unreadable
  | imageAndHash
  | nothingToRun
  | invalidImage (cause : Image.Error)
  | unpackable (cause : Address.Unpackable)
  | noStore
  | invalidHash (cause : Hash.ParseError)
  | store (cause : Image.Store.Error)
  | notPermitted (cause : Image.Policy.Violation)
  | noRunName
  | unknownRun (name : String)

namespace Refusal

def code : Refusal → RefusalCode
  | unreadable | imageAndHash | nothingToRun | invalidImage _ | invalidHash _ | noRunName =>
    .invalidArgument
  | unpackable _ => .internal
  | noStore => .failedPrecondition
  | store (.notFound _) | unknownRun _ => .notFound
  | store _ => .internal
  | notPermitted _ => .permissionDenied

def message : Refusal → String
  | unreadable => "unmarshal message"
  | imageAndHash => "set either image or hash, not both"
  | nothingToRun => "image or hash is required"
  | invalidImage cause => cause.report.message
  | unpackable cause => cause.report.message
  | noStore => "server has no image store"
  | invalidHash cause => cause.report.message
  | store cause => cause.report.message
  | notPermitted cause => cause.report.message
  | noRunName => "run id is required"
  | unknownRun name => "run " ++ Text.quoted name ++ " not found"

end Refusal

end Quadruple.Server
