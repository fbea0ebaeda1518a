import Quadruple.Image.Record
import Quadruple.Sha256

/-!
Images: programs as they are kept and sent. An image is encoded in one way only, and the digest of
its encoding is its identity. Decoding accepts an image of the present version whose jumps and calls
stay inside the program.
-/

namespace Quadruple

structure Hash where
  bytes : Bytes
  length_eq : bytes.length = 32
deriving DecidableEq

namespace Hash

def ofContent (content : Bytes) : Hash :=
  ⟨Sha256.digest content, Sha256.length_digest content⟩

def text (hash : Hash) : String :=
  hash.bytes.hex

inductive ParseError where
  | badDigits (text : String) (cause : Bytes.HexError)
  | badLength (text : String) (length : Nat)
deriving DecidableEq

def ParseError.report : ParseError → Report
  | badDigits text cause => .plain ("image: bad hash " ++ Text.quoted text ++ ": " ++ cause.message)
  | badLength text length =>
    .plain ("image: bad hash " ++ Text.quoted text ++ ": " ++ Text.digits 10 length ++ " bytes")

def ofText (text : String) : Except ParseError Hash :=
  match Bytes.ofHex text with
  | .error cause => .error (.badDigits text cause)
  | .ok bytes =>
    if length_eq : bytes.length = 32 then .ok ⟨bytes, length_eq⟩
    else .error (.badLength text bytes.length)

end Hash

structure Image where
  version : Int
  name : String
  /-- The instructions; an image may also say nothing about them. -/
  instructions : Option (List InstructionRecord)
  /-- The native functions that the image declares to call. -/
  natives : List String
  optimized : Bool
deriving DecidableEq

namespace Image

def currentVersion : Int := 1

def records (image : Image) : List InstructionRecord :=
  image.instructions.getD []

def code (image : Image) : Code :=
  (image.records.map InstructionRecord.toInstruction).toArray

def program (image : Image) : Code :=
  (image.records.map InstructionRecord.executed).toArray

def calledNatives (records : List InstructionRecord) : List String :=
  ((records.filterMap InstructionRecord.native?).mergeSort (· ≤ ·)).eraseDups

/-- An image of the present version. A program without instructions says nothing about them. -/
def ofRecords (name : String) (records : List InstructionRecord) (optimized : Bool) : Image :=
  { version := currentVersion
    name
    instructions := if records.isEmpty then none else some records
    natives := calledNatives records
    optimized }

def ofCode (name : String) (code : Code) (optimized : Bool) : Image :=
  ofRecords name (code.toList.map InstructionRecord.ofInstruction) optimized

def toItem (image : Image) : Except Address.Unpackable Cbor.Item := do
  let instructions ←
    match image.instructions with
    | none => pure Cbor.Item.null
    | some records => do pure (.array (← records.mapM InstructionRecord.toItem))
  return .map (
    Cbor.entry 1 (.ofInt image.version) ++
    Cbor.entryUnless (image.name = "") 2 (.ofText image.name) ++
    Cbor.entry 3 instructions ++
    Cbor.entryUnless image.natives.isEmpty 4 (.array (image.natives.map .ofText)) ++
    Cbor.entryUnless (!image.optimized) 5 (.ofBool image.optimized))

def encode (image : Image) : Except Address.Unpackable Bytes :=
  image.toItem.map Cbor.Item.encode

def hash (image : Image) : Except Address.Unpackable Hash :=
  image.encode.map Hash.ofContent

def ofItem? (item : Cbor.Item) : Option Image := do
  let fields ← item.record?
  let instructions ← (Cbor.Item.field 3 fields).array?
  let natives ← (Cbor.Item.field 4 fields).array?
  return {
    version := ← (Cbor.Item.field 1 fields).int64?
    name := ← (Cbor.Item.field 2 fields).string?
    instructions := ← instructions.mapM (·.mapM InstructionRecord.ofItem?)
    natives := ← (natives.getD []).mapM Cbor.Item.string?
    optimized := ← (Cbor.Item.field 5 fields).bool? }

inductive Error where
  | unreadable
  | unsupportedVersion (version : Int)
  | missingTarget (opcode : Opcode) (position : Nat)
  | targetOutside (opcode : Opcode) (position : Nat) (target : Int) (size : Nat)
deriving DecidableEq

def Error.report : Error → Report
  | unreadable => .plain "image: unmarshal"
  | unsupportedVersion version =>
    .plain ("image: unsupported version " ++ Text.decimal version ++ " (want " ++
      Text.decimal currentVersion ++ ")")
  | missingTarget opcode position =>
    .plain ("image: " ++ opcode.name ++ " at " ++ Text.digits 10 position ++ " has no target")
  | targetOutside opcode position target size =>
    .plain ("image: " ++ opcode.name ++ " at " ++ Text.digits 10 position ++ " targets " ++
      Text.decimal target ++ " outside [0, " ++ Text.digits 10 size ++ "]")

/-- The first instruction that continues nowhere, or outside a program of the size. A program may
continue right behind its last instruction. -/
def checkTargets (size : Nat) : Nat → List Instruction → Except Error Unit
  | _, [] => .ok ()
  | position, instruction :: rest =>
    if instruction.opcode.hasTarget then
      match instruction.target? with
      | none => .error (.missingTarget instruction.opcode position)
      | some target =>
        if target < 0 || size < target then
          .error (.targetOutside instruction.opcode position target size)
        else checkTargets size (position + 1) rest
    else checkTargets size (position + 1) rest

def validate (image : Image) : Except Error Unit :=
  checkTargets image.code.size 0 image.code.toList

def decode (bytes : Bytes) : Except Error Image := do
  match (Cbor.decode? bytes).bind ofItem? with
  | none => throw .unreadable
  | some image =>
    if image.version ≠ currentVersion then throw (.unsupportedVersion image.version)
    image.validate
    return image

end Image

end Quadruple
