import Quadruple.Code.Opcode
import Quadruple.DataType

/-!
The types of operators in source programs. Assignment is typed by its target and its value. Types
that no rule combines are refused.
-/

namespace Quadruple

namespace Opcode

structure TypeError where
  opcode : Opcode
  left : DataType
  right : Option DataType
deriving DecidableEq

def TypeError.report (failure : TypeError) : Report :=
  .of .typeError <|
    match failure.right with
    | none => "invalid operand " ++ failure.left.name ++ " to operator " ++
        Text.quoted failure.opcode.symbol
    | some right => "invalid operands \x7b" ++ failure.left.name ++ ", " ++ right.name ++
        "\x7d to operator " ++ Text.quoted failure.opcode.symbol

def unaryType? (opcode : Opcode) (operand : DataType) : Option DataType :=
  match opcode, operand with
  | bitNot, .int => some .int
  | bitNot, .float => some .float
  | not, .int | not, .float | not, .bool => some .bool
  | _, _ => none

def isScalar : DataType → Bool
  | .int | .float | .bool => true
  | _ => false

def arithmeticType? : DataType → DataType → Option DataType
  | .int, .int => some .int
  | .int, .float | .float, .int | .float, .float => some .float
  | _, _ => none

def binaryType? (opcode : Opcode) (left right : DataType) : Option DataType :=
  match opcode with
  | add => if left = .string ∧ right = .string then some .string else arithmeticType? left right
  | sub | mul | div | mod => arithmeticType? left right
  | bitOr | bitXor | bitAnd | shl | shr =>
    if left = .int ∧ right = .int then some .int else none
  | or | and => if isScalar left && isScalar right then some .bool else none
  | eq | ne =>
    if isScalar left && isScalar right || left = .string ∧ right = .string then some .bool else none
  | gt | ge | lt | le =>
    if left.isNumeric && right.isNumeric || left = .string ∧ right = .string then some .bool
    else none
  | assign =>
    if left.isStored && left = right || left.isNumeric && right.isNumeric then some left else none
  | _ => none

/-- The type of an operator's value. An operator of one operand looks at the left type only. -/
def resultType (opcode : Opcode) (left right : DataType) : Except TypeError DataType :=
  if opcode.arity = 1 then
    match unaryType? opcode left with
    | some type => .ok type
    | none => .error ⟨opcode, left, none⟩
  else
    match binaryType? opcode left right with
    | some type => .ok type
    | none => .error ⟨opcode, left, some right⟩

end Opcode

end Quadruple
