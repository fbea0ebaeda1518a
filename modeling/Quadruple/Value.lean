import Quadruple.Address
import Quadruple.Number.FloatText

/-!
Values: the literals of a program and the contents of its cells. A type without storage has one
value, which carries nothing but the type.
-/

namespace Quadruple

inductive Value where
  | int (number : Int64)
  | float (number : Float)
  | string (text : String)
  | object (pointer : Address)
  | bool (truth : Bool)
  | bare (type : DataType) (unstored : type.isStored = false)
deriving DecidableEq

namespace Value

def type : Value → DataType
  | int _ => .int
  | float _ => .float
  | string _ => .string
  | object _ => .object
  | bool _ => .bool
  | bare type _ => type

def zero : DataType → Value
  | .int => int 0
  | .float => float 0
  | .string => string ""
  | .object => object .origin
  | .bool => bool false
  | .void => bare .void rfl
  | .reserved code unassigned => bare (.reserved code unassigned) rfl

def absent : Value := int 0

def isNumeric (value : Value) : Bool :=
  value.type.isNumeric

/-- The number as a float; truth counts as one, and what is no number as zero. -/
def toFloat : Value → Float
  | int number => Number.widen number
  | float number => number
  | bool true => 1
  | _ => 0

/-- The number without its fraction; truth counts as one, and what is no number as zero. -/
def toInt : Value → Int64
  | int number => number
  | float number => Number.truncate number
  | bool true => 1
  | _ => 0

def hasWholePart : Value → Bool
  | float number =>
    number.isNaN || (-9223372036854775808.0 ≤ number && number < 9223372036854775808.0)
  | _ => true

/-- Zero, the empty text and falsehood do not hold; an object always does. -/
def holds : Value → Bool
  | int number => number != 0
  | float number => number != 0
  | string text => text != ""
  | object _ => true
  | bool truth => truth
  | bare .. => false

/-- The value as one of another type. Numbers and truth values convert among themselves, except
that truth is not made of other truth; all else stays as it is. -/
def coerce (target : DataType) (value : Value) : Value :=
  match target, value with
  | .int, float _ | .int, bool _ => int value.toInt
  | .float, int _ | .float, bool _ => float value.toFloat
  | .bool, int _ | .bool, float _ => bool value.holds
  | _, _ => value

def text : Value → String
  | int number => Text.decimal number.toInt
  | float number => Number.positional number
  | string text => text
  | bool true => "true"
  | bool false => "false"
  | object pointer => "<object " ++ pointer.text ++ ">"
  | bare .. => "<void>"

/-- The value as a listing shows it: like its text, but with texts in quotes. -/
def literal : Value → String
  | string text => Text.quoted text
  | value => value.text

@[simp]
theorem type_zero (type : DataType) : (zero type).type = type := by
  cases type <;> rfl

end Value

end Quadruple
