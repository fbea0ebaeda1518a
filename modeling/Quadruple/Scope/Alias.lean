import Quadruple.Value

/-!
What a name can stand for: a variable, a function or a class. Functions are referred to by a
number, since a function's arguments are declared after its name; classes are referred to by name,
since no two classes of a program have the same one.
-/

namespace Quadruple.Scope

abbrev ScopeId := Nat

abbrev FunctionId := Nat

/-- A scalar, an array or a reference to an object. -/
structure Variable where
  name : String
  type : DataType
  address : Address
  /-- The extents of an array; none for a scalar. -/
  dimensions : List Int
  /-- The class of the object, for a reference. -/
  className : String
  /-- The class to whose objects a field belongs; empty for any other variable. -/
  owner : String
  /-- The first cell of a field inside its object. -/
  slot : Int64
deriving DecidableEq

def extent (dimensions : List Int) : Int64 :=
  dimensions.foldl (fun product dimension => product * Int64.ofInt dimension) 1

def Variable.size (variable_ : Variable) : Int64 :=
  extent variable_.dimensions

def Variable.isField (variable_ : Variable) : Bool :=
  variable_.owner != ""

structure Function where
  name : String
  returns : DataType
  /-- The cell in which the value is left; none if there is no value or the host computes it. -/
  result : Option Address
  /-- The first instruction of the body; negative for a function of the host. -/
  start : Int
  arguments : List Variable
  native : Bool
  /-- The class of a method; empty for any other function. -/
  owner : String
deriving DecidableEq

def Function.isVoid (function : Function) : Bool :=
  function.returns = .void

def Function.isMethod (function : Function) : Bool :=
  function.owner != ""

structure Class where
  name : String
  /-- The scope of its members. -/
  scope : ScopeId
  /-- Its fields in the order of their slots. -/
  fields : List Variable
  constructor : Option FunctionId
  methods : List FunctionId
  /-- Cells of all fields together, as a machine word. -/
  cells : Int64
deriving DecidableEq

def Class.size (class_ : Class) : Int64 :=
  if class_.cells = 0 then 1 else class_.cells

inductive Alias where
  | variable (variable_ : Variable)
  | function (function : FunctionId)
  | class (name : String)
deriving DecidableEq

def constructorName : String := "construct"

def receiverName : String := "this"

end Quadruple.Scope
