import Quadruple.Text.Casing
import Quadruple.Text.Quoted

/-!
Types of values and areas of storage. Five types have storage; `VOID` is the result type of a
function that gives nothing. Both are known by a byte, and a byte without a meaning is kept as it is.
-/

namespace Quadruple

inductive DataType where
  | int
  | float
  | string
  | object
  | bool
  | void
  | reserved (code : UInt8) (unassigned : 8 ≤ code ∨ code = 5 ∨ code = 6)
deriving DecidableEq

namespace DataType

def code : DataType → UInt8
  | int => 0
  | float => 1
  | string => 2
  | object => 3
  | bool => 4
  | void => 7
  | reserved code _ => code

def ofCode (code : UInt8) : DataType :=
  if free : 8 ≤ code ∨ code = 5 ∨ code = 6 then reserved code free
  else
    match code with
    | 0 => int
    | 1 => float
    | 2 => string
    | 3 => object
    | 4 => bool
    | _ => void

def name : DataType → String
  | int => "INT"
  | float => "FLOAT"
  | string => "STRING"
  | object => "OBJECT"
  | bool => "BOOL"
  | void => "VOID"
  | reserved code _ => "DataType(" ++ Text.digits 10 code.toNat ++ ")"

def isStored : DataType → Bool
  | int | float | string | object | bool => true
  | void | reserved .. => false

def isNumeric : DataType → Bool
  | int | float => true
  | _ => false

def named : List DataType :=
  [int, float, string, object, bool, void]

def ofName? (text : String) : Option DataType :=
  named.find? fun type => type.name.toList == text.toList.map Text.upperPlain

theorem ofCode_code (type : DataType) : ofCode type.code = type := by
  cases type with
  | reserved _ unassigned => exact dif_pos unassigned
  | _ => rfl

end DataType

/-- The areas of storage: variables of the program, variables of the running function, intermediate
results, and objects. -/
inductive Area where
  | global
  | locals
  | temps
  | stack
  | reserved (code : UInt8) (unassigned : 4 ≤ code)
deriving DecidableEq

namespace Area

def code : Area → UInt8
  | global => 0
  | locals => 1
  | temps => 2
  | stack => 3
  | reserved code _ => code

def ofCode (code : UInt8) : Area :=
  if free : 4 ≤ code then reserved code free
  else
    match code with
    | 0 => global
    | 1 => locals
    | 2 => temps
    | _ => stack

def name : Area → String
  | global => "GLOBAL"
  | locals => "LOCAL"
  | temps => "TEMP"
  | stack => "STACK"
  | reserved code _ => "Scope(" ++ Text.digits 10 code.toNat ++ ")"

def isAssigned : Area → Bool
  | reserved .. => false
  | _ => true

theorem ofCode_code (area : Area) : ofCode area.code = area := by
  cases area with
  | reserved _ unassigned => exact dif_pos unassigned
  | _ => rfl

end Area

end Quadruple
