import Quadruple.Code.Opcode
import Quadruple.Value

/-!
Instructions: an opcode with a left, a right and a result operand.
-/

namespace Quadruple

inductive Operand where
  | none
  | address (cell : Address)
  | literal (value : Value)
  | target (index : Int)
  | name (text : String)
  | unknown (kind : UInt8) (unassigned : 5 ≤ kind)
deriving DecidableEq

namespace Operand

def ofKindCode (kind : UInt8) : Operand :=
  if free : 5 ≤ kind then unknown kind free
  else
    match kind with
    | 1 => address .origin
    | 2 => literal .absent
    | 3 => target 0
    | 4 => name ""
    | _ => none

/-- The type of a cell or literal; an operand that is neither has no value. -/
def type : Operand → DataType
  | address cell => cell.type
  | literal value => value.type
  | _ => .void

def text : Operand → String
  | none | unknown .. => "_"
  | address cell => cell.text
  | literal value => value.literal
  | target index => Text.decimal index
  | name text => text

end Operand

structure Instruction where
  opcode : Opcode
  left : Operand := .none
  right : Operand := .none
  result : Operand := .none
deriving DecidableEq

namespace Instruction

def target? (instruction : Instruction) : Option Int :=
  match instruction.result with
  | .target index => if instruction.opcode.hasTarget then some index else none
  | _ => none

def text (instruction : Instruction) : String :=
  Text.padRight ' ' 7 instruction.opcode.name ++ " " ++
    Text.padRight ' ' 18 instruction.left.text ++ " " ++
    Text.padRight ' ' 18 instruction.right.text ++ " " ++ instruction.result.text

def tabbed (instruction : Instruction) : String :=
  instruction.opcode.name ++ "\t" ++ instruction.left.text ++ "\t" ++ instruction.right.text ++ "\t" ++
    instruction.result.text

end Instruction

/-- A program: its instructions in the order of their indices. -/
abbrev Code := Array Instruction

end Quadruple
