import Quadruple.Code.Opcode
import Quadruple.Value

/-!
What operators and conversions compute. Integer arithmetic wraps; a float operand makes arithmetic
and comparison one of floats; texts are joined and compared as texts, and objects by their address.
An operator of one operand reads the right one.
-/

namespace Quadruple

namespace Opcode

inductive EvalError where
  | divisionByZero
  | moduloByZero
  | noEvaluation (opcode : Opcode)
deriving DecidableEq

def EvalError.report : EvalError → Report
  | divisionByZero => .of .runtime "integer division by zero"
  | moduloByZero => .of .runtime "integer modulo by zero"
  | noEvaluation opcode => .of .runtime ("no evaluation for " ++ opcode.name)

def floating (left right : Value) : Bool :=
  left.type = .float || right.type = .float

/-- Arithmetic on integers or floats; two texts are joined. -/
def arithmetic (ints : Int64 → Int64 → Int64) (floats : Float → Float → Float)
    (left right : Value) : Value :=
  match left, right with
  | .string front, .string back => .string (front ++ back)
  | _, _ =>
    if floating left right then .float (floats left.toFloat right.toFloat)
    else .int (ints left.toInt right.toInt)

/-- How two floats are ordered; what cannot be ordered counts as equal. -/
def compareFloats (left right : Float) : Ordering :=
  if left < right then .lt else if right < left then .gt else .eq

/-- How two values are ordered. Of two different objects the first counts as greater. -/
def compareValues (left right : Value) : Ordering :=
  match left, right with
  | .string front, .string back => compare front back
  | .object first, .object second => if first = second then .eq else .gt
  | _, _ =>
    if floating left right then compareFloats left.toFloat right.toFloat
    else compare left.toInt.toInt right.toInt.toInt

/-- The places of a shift are counted modulo the width of a word. -/
def shiftAmount (places : Int64) : Int64 :=
  places &&& 63

def divideInts (left right : Value) : Except EvalError Value :=
  if right.toInt = 0 then .error .divisionByZero else .ok (.int (left.toInt / right.toInt))

def divideFloats (left right : Value) : Value :=
  .float (left.toFloat / right.toFloat)

def modulo (left right : Value) : Except EvalError Value :=
  if floating left right then .ok (.float (Number.remainder left.toFloat right.toFloat))
  else if right.toInt = 0 then .error .moduloByZero
  else .ok (.int (left.toInt % right.toInt))

/-- The complement of the bits; that of a float is taken of its whole part. -/
def complement : Value → Value
  | .float number => .float (Number.widen (~~~(Value.float number).toInt))
  | value => .int (~~~value.toInt)

def isPure : Opcode → Bool
  | floatToInt | intToFloat | or | and | bitOr | bitXor | bitAnd | eq | ne | gt | ge | lt | le | shl
  | shr | add | sub | mul | div | mod | not | bitNot | intDiv | floatDiv => true
  | _ => false

def eval (opcode : Opcode) (left right : Value) : Except EvalError Value :=
  match opcode with
  | add => .ok (arithmetic (· + ·) (· + ·) left right)
  | sub => .ok (arithmetic (· - ·) (· - ·) left right)
  | mul => .ok (arithmetic (· * ·) (· * ·) left right)
  | div => if floating left right then .ok (divideFloats left right) else divideInts left right
  | intDiv => divideInts left right
  | floatDiv => .ok (divideFloats left right)
  | mod => modulo left right
  | bitOr => .ok (.int (left.toInt ||| right.toInt))
  | bitXor => .ok (.int (left.toInt ^^^ right.toInt))
  | bitAnd => .ok (.int (left.toInt &&& right.toInt))
  | shl => .ok (.int (left.toInt <<< shiftAmount right.toInt))
  | shr => .ok (.int (left.toInt >>> shiftAmount right.toInt))
  | or => .ok (.bool (left.holds || right.holds))
  | and => .ok (.bool (left.holds && right.holds))
  | eq => .ok (.bool (compareValues left right == .eq))
  | ne => .ok (.bool (compareValues left right != .eq))
  | gt => .ok (.bool (compareValues left right).isGT)
  | ge => .ok (.bool (compareValues left right).isGE)
  | lt => .ok (.bool (compareValues left right).isLT)
  | le => .ok (.bool (compareValues left right).isLE)
  | not => .ok (.bool (!right.holds))
  | bitNot => .ok (complement right)
  | floatToInt => .ok (.int right.toInt)
  | intToFloat => .ok (.float right.toFloat)
  | _ => .error (.noEvaluation opcode)

end Opcode

end Quadruple
