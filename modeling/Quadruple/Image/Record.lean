import Quadruple.Cbor.Reading
import Quadruple.Code.Instruction

/-!
Instructions as an image keeps them. An operand's record has a place for everything that an operand
of any kind may carry, and so has the record of a value. What its kind does not use says nothing
about the operand, but it is part of the image.
-/

namespace Quadruple

namespace Address

inductive ReadError where
  | notAWord
  | noStorage (word : UInt32)
deriving DecidableEq

def ReadError.report : ReadError → Report
  | notAWord => .plain "address"
  | noStorage word => .plain ("address: 0x" ++ Text.digits 16 word.toNat ++ " has no arena type")

def ofItem (item : Cbor.Item) : Except ReadError Address :=
  match item.word32? with
  | none => .error .notAWord
  | some word =>
    let address := unpack word
    if address.isValid then .ok address else .error (.noStorage word)

def decode (bytes : Bytes) : Except ReadError Address :=
  match Cbor.decode? bytes with
  | none => .error .notAWord
  | some item => ofItem item

def toItem (address : Address) : Except Unpackable Cbor.Item :=
  address.pack.map fun word => .unsigned word.toNat

def encode (address : Address) : Except Unpackable Bytes :=
  address.toItem.map Cbor.Item.encode

end Address

def Cbor.entry (number : Nat) (item : Cbor.Item) : List (Cbor.Item × Cbor.Item) :=
  [(.unsigned number, item)]

def Cbor.entryUnless (omitted : Bool) (number : Nat) (item : Cbor.Item) :
    List (Cbor.Item × Cbor.Item) :=
  if omitted then [] else entry number item

structure ValueRecord where
  type : DataType := .int
  int : Int64 := 0
  float : Float := 0
  text : String := ""
  truth : Bool := false
  pointer : Address := .origin
deriving DecidableEq

namespace ValueRecord

def ofValue : Value → ValueRecord
  | .int number => { type := .int, int := number }
  | .float number => { type := .float, float := number }
  | .string content => { type := .string, text := content }
  | .object cell => { type := .object, pointer := cell }
  | .bool holds => { type := .bool, truth := holds }
  | .bare type _ => { type }

def toValue (record : ValueRecord) : Value :=
  match record.type with
  | .int => .int record.int
  | .float => .float record.float
  | .string => .string record.text
  | .object => .object record.pointer
  | .bool => .bool record.truth
  | other => .zero other

def toItem (record : ValueRecord) : Except Address.Unpackable Cbor.Item := do
  let pointer ← record.pointer.toItem
  return .map (
    Cbor.entry 1 (.unsigned record.type.code.toNat) ++
    Cbor.entryUnless (record.int = 0) 2 (.ofInt record.int.toInt) ++
    Cbor.entryUnless (record.float == 0) 3 (.float record.float) ++
    Cbor.entryUnless (record.text = "") 4 (.ofText record.text) ++
    Cbor.entryUnless (!record.truth) 5 (.ofBool record.truth) ++
    Cbor.entry 6 pointer)

def ofItem? (item : Cbor.Item) : Option ValueRecord := do
  let fields ← item.record?
  return {
    type := .ofCode (← (Cbor.Item.field 1 fields).byte?)
    int := Int64.ofInt (← (Cbor.Item.field 2 fields).int64?)
    float := ← (Cbor.Item.field 3 fields).float?
    text := ← (Cbor.Item.field 4 fields).string?
    truth := ← (Cbor.Item.field 5 fields).bool?
    pointer := ← (Address.ofItem (Cbor.Item.field 6 fields)).toOption }

@[simp]
theorem toValue_ofValue (value : Value) : (ofValue value).toValue = value := by
  cases value with
  | bare type unstored =>
    cases type with
    | void | reserved => rfl
    | _ => cases unstored
  | _ => rfl

end ValueRecord

structure OperandRecord where
  kind : UInt8 := 0
  cell : Address := .origin
  literal : ValueRecord := {}
  index : Int := 0
  name : String := ""
deriving DecidableEq

namespace OperandRecord

def ofOperand : Operand → OperandRecord
  | .none => {}
  | .address cell => { kind := 1, cell }
  | .literal value => { kind := 2, literal := .ofValue value }
  | .target index => { kind := 3, index }
  | .name text => { kind := 4, name := text }
  | .unknown kind _ => { kind }

def toOperand (record : OperandRecord) : Operand :=
  match record.kind with
  | 1 => .address record.cell
  | 2 => .literal record.literal.toValue
  | 3 => .target record.index
  | 4 => .name record.name
  | other => .ofKindCode other

def toItem (record : OperandRecord) : Except Address.Unpackable Cbor.Item := do
  let cell ← record.cell.toItem
  let literal ← record.literal.toItem
  return .map (
    Cbor.entry 1 (.unsigned record.kind.toNat) ++ Cbor.entry 2 cell ++ Cbor.entry 3 literal ++
    Cbor.entryUnless (record.index = 0) 4 (.ofInt record.index) ++
    Cbor.entryUnless (record.name = "") 5 (.ofText record.name))

def ofItem? (item : Cbor.Item) : Option OperandRecord := do
  let fields ← item.record?
  return {
    kind := ← (Cbor.Item.field 1 fields).byte?
    cell := ← (Address.ofItem (Cbor.Item.field 2 fields)).toOption
    literal := ← ValueRecord.ofItem? (Cbor.Item.field 3 fields)
    index := ← (Cbor.Item.field 4 fields).int64?
    name := ← (Cbor.Item.field 5 fields).string? }

end OperandRecord

structure InstructionRecord where
  opcode : Opcode
  left : OperandRecord := {}
  right : OperandRecord := {}
  result : OperandRecord := {}
deriving DecidableEq

namespace InstructionRecord

def ofInstruction (instruction : Instruction) : InstructionRecord :=
  ⟨instruction.opcode, .ofOperand instruction.left, .ofOperand instruction.right,
    .ofOperand instruction.result⟩

def toInstruction (record : InstructionRecord) : Instruction :=
  ⟨record.opcode, record.left.toOperand, record.right.toOperand, record.result.toOperand⟩

/-- The native function that the instruction calls. Its name counts even where the operand's kind
would not use it. -/
def native? (record : InstructionRecord) : Option String :=
  if record.opcode = .nativeCall then some record.left.name else none

def executed (record : InstructionRecord) : Instruction :=
  match record.native? with
  | some name => { record.toInstruction with left := .name name }
  | none => record.toInstruction

def toItem (record : InstructionRecord) : Except Address.Unpackable Cbor.Item := do
  let left ← record.left.toItem
  let right ← record.right.toItem
  let result ← record.result.toItem
  return .map (
    Cbor.entry 1 (.unsigned record.opcode.code.toNat) ++ Cbor.entry 2 left ++
    Cbor.entry 3 right ++ Cbor.entry 4 result)

def ofItem? (item : Cbor.Item) : Option InstructionRecord := do
  let fields ← item.record?
  return {
    opcode := .ofCode (← (Cbor.Item.field 1 fields).byte?)
    left := ← OperandRecord.ofItem? (Cbor.Item.field 2 fields)
    right := ← OperandRecord.ofItem? (Cbor.Item.field 3 fields)
    result := ← OperandRecord.ofItem? (Cbor.Item.field 4 fields) }

end InstructionRecord

end Quadruple
