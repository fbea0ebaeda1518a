import Quadruple.Code.Buffer
import Quadruple.Operator.Typing
import Quadruple.Scope.Declaration

/-!
The state of a compilation: scopes, code, and two stacks. The operand stack holds the values of the
expressions read so far; the name stack holds names that wait for what is done with them, and the
object on which a member is about to be named. An operation that fails keeps what it did before.
-/

namespace Quadruple

inductive Entry where
  /-- The value of a cell; for an object, with its class where it is known. -/
  | cell (address : Address) (className : String)
  /-- The value of an element: of an array, or of the object that a cell points to. -/
  | element (base : Address) (index : Operand) (type : DataType) (className : String)
deriving DecidableEq

namespace Entry

def type : Entry → DataType
  | cell address _ => address.type
  | element _ _ type _ => type

def className : Entry → String
  | cell _ className => className
  | element _ _ _ className => className

end Entry

/-- A name that waits for its use, with the object whose member it is. Without a name it is an
object alone, whose member is still to be named. -/
structure PendingName where
  name : String
  base : Option Address
  className : Option String
deriving DecidableEq

structure Generator where
  tree : Scope.Tree
  buffer : CodeBuffer
  operands : List Entry
  names : List PendingName
  started : Bool

namespace Generator

inductive Error where
  | scope (cause : Scope.Error)
  | memory (cause : Memory.Error)
  | code (cause : Code.Error)
  | typing (cause : Opcode.TypeError)
  | underflow
  | underflowOf (needed available : Nat)
  | noName
  | noLiteral (type : DataType)
  | notAnObject (name : String) (type : DataType)
  | noReceiver (member owner : String)
  | indexType (name : String) (type : DataType)
  | assignmentAsOperator
  | notAnOperator (opcode : Opcode)
  | notCompound (opcode : Opcode)
  | classMismatch (have_ want : String)
  | arrayArgument (name : String)
  | nativeInClass (name class_ : String)
  | closeOutside
  | operandsLeft (count : Nat) (function : String)
  | methodWithoutReceiver (name : String)
  | tooFewArguments (name : String) (needed available : Nat)
  | argument (name function : String) (cause : Error)
  | returnOutside
  | valueMissing (function : String) (type : DataType)
  | valueUnwanted (function : String) (type : DataType)
  | wrongReturn (function : String) (given declared : DataType)
  | conditionType (type : DataType)
  | startedTwice
  | startInDeclaration
  | exitBeforeStart
  | jumpsLeft (count : Nat)

def Error.report : Error → Report
  | scope cause => cause.report
  | memory cause => cause.report
  | code cause => cause.report
  | typing cause => cause.report
  | underflow => .plain "operand stack underflow"
  | underflowOf needed available =>
    .plain ("operand stack underflow: need " ++ Text.digits 10 needed ++ " values, have " ++
      Text.digits 10 available)
  | noName => .plain "no identifier pending resolution"
  | noLiteral type => .of .typeError ("no literal of type " ++ type.name)
  | notAnObject name type =>
    .of .typeError (Text.quoted name ++ " is " ++ type.name ++ ", not an object")
  | noReceiver member owner =>
    .of .unresolvedAlias ("member " ++ Text.quoted member ++ " of class " ++ Text.quoted owner ++
      " used without a receiver")
  | indexType name type =>
    .of .typeError ("index of " ++ Text.quoted name ++ " is " ++ type.name ++ ", want INT")
  | assignmentAsOperator => .of .typeError "assignment used as an expression operator"
  | notAnOperator opcode => .plain (opcode.name ++ " is not an operator")
  | notCompound opcode => .plain (opcode.name ++ " cannot form a compound assignment")
  | classMismatch have_ want =>
    .of .typeError ("cannot store a " ++ have_ ++ " object into a " ++ want)
  | arrayArgument name =>
    .of .dimensionMismatch ("argument " ++ Text.quoted name ++ ": array arguments are not supported")
  | nativeInClass name class_ =>
    .plain ("native " ++ Text.quoted name ++ " declared inside class " ++ Text.quoted class_)
  | closeOutside => .plain "close function outside of a function"
  | operandsLeft count function =>
    .of .structuralJump (Text.digits 10 count ++ " operands left on the stack at the end of " ++
      Text.quoted function)
  | methodWithoutReceiver name =>
    .of .unresolvedAlias ("method " ++ Text.quoted name ++ " called without a receiver")
  | tooFewArguments name needed available =>
    .of .typeError (Text.quoted name ++ " takes " ++ Text.digits 10 needed ++ " arguments, " ++
      Text.digits 10 available ++ " available")
  | argument name function cause =>
    cause.report.within ("argument " ++ Text.quoted name ++ " of " ++ Text.quoted function)
  | returnOutside => .plain "return outside of a function"
  | valueMissing function type =>
    .of .typeError (Text.quoted function ++ " must return a " ++ type.name ++ " value")
  | valueUnwanted function type =>
    .of .typeError ("void function " ++ Text.quoted function ++ " returns a " ++ type.name ++ " value")
  | wrongReturn function given declared =>
    .of .typeError (Text.quoted function ++ " returns " ++ given.name ++ ", declared " ++ declared.name)
  | conditionType type => .of .typeError ("condition of type " ++ type.name)
  | startedTwice => .of .structuralJump "program entry declared twice"
  | startInDeclaration => .plain "program entry inside a declaration"
  | exitBeforeStart => .of .structuralJump "program exit without an entry"
  | jumpsLeft count =>
    .of .structuralJump (Text.digits 10 count ++ " backpatch entries left open at exit")

/-- How an operation ends early: with an error that it reports, or abruptly, because it reached for
a result cell or an argument that is not there. -/
inductive Failure where
  | error (cause : Error)
  | crash

/-- What a failure tells; an abrupt end tells nothing. -/
def Failure.report? : Failure → Option Report
  | error cause => some cause.report
  | crash => none

abbrev Action := ExceptT Failure (StateM Generator)

/-- Tries an operation. What it did before it failed stays. -/
def attempt (generator : Generator) (action : Action Unit) : Except Failure Unit × Generator :=
  action.run.run generator

def fail {α : Type} (cause : Error) : Action α :=
  throw (.error cause)

/-- A compilation at its start: the code begins with the jump to the program's start. -/
def ofCapacities (capacities : Capacities) : Generator :=
  { tree := .ofMemory (.ofCapacities capacities)
    buffer := CodeBuffer.emit {} { opcode := .goto }
    operands := []
    names := []
    started := false }

def emit (instruction : Instruction) : Action Nat := do
  let index := (← get).buffer.code.size
  modify fun generator => { generator with buffer := generator.buffer.emit instruction }
  return index

def onTree {α : Type} (operation : Scope.Tree → Except Scope.Error (α × Scope.Tree)) :
    Action α := do
  match operation (← get).tree with
  | .ok (value, tree) =>
    modify fun generator => { generator with tree }
    return value
  | .error cause => fail (.scope cause)

def onBuffer (operation : CodeBuffer → Except Code.Error Unit × CodeBuffer) : Action Unit := do
  let (outcome, buffer) := operation (← get).buffer
  modify fun generator => { generator with buffer }
  match outcome with
  | .ok () => return
  | .error cause => fail (.code cause)

def allocateTemp (type : DataType) (reference : Bool) : Action Address := do
  match (← get).tree.memory.allocate .temps type 1 reference with
  | .ok (address, memory) =>
    modify fun generator => { generator with tree := { generator.tree with memory } }
    return address
  | .error cause => fail (.memory cause)

def temp (type : DataType) : Action Address :=
  allocateTemp type false

def setTree (change : Scope.Tree → Scope.Tree) : Action Unit :=
  modify fun generator => { generator with tree := change generator.tree }

/-! ### The operand stack -/

def push (entry : Entry) : Action Unit :=
  modify fun generator => { generator with operands := entry :: generator.operands }

def pop : Action Entry := do
  match (← get).operands with
  | [] => fail .underflow
  | entry :: operands =>
    modify fun generator => { generator with operands }
    return entry

/-- A cell that holds the value of an entry; an element is read into a fresh one. -/
def valueOf : Entry → Action Address
  | .cell address _ => return address
  | .element base index type _ => do
    let destination ← temp type
    let _ ← emit ⟨.loadElement, .address base, index, .address destination⟩
    return destination

def popValue : Action Address := do
  valueOf (← pop)

/-- A value, and the class of the object that it is, where that is known. -/
structure Classed where
  address : Address
  className : String

def popMore (taken : List Classed) : Nat → Action (List Classed)
  | 0 => return taken
  | more + 1 => do
    let entry ← pop
    let address ← valueOf entry
    popMore (⟨address, entry.className⟩ :: taken) more

def popValues (count : Nat) : Action (List Classed) := do
  let available := (← get).operands.length
  if available < count then fail (.underflowOf count available)
  else popMore [] count

/-- Refuses an object of one class where one of another is wanted. A class that is not known fits
everywhere. -/
def checkClass (want have_ : String) : Except Error Unit :=
  if want ≠ "" && have_ ≠ "" && want ≠ have_ then .error (.classMismatch have_ want) else .ok ()

def typeOf (opcode : Opcode) (left right : DataType) : Except Error DataType :=
  (opcode.resultType left right).mapError .typing

def settle {α : Type} : Except Error α → Action α
  | .ok value => return value
  | .error cause => fail cause

def conversion? (target source : DataType) : Option Opcode :=
  match target, source with
  | .int, .float => some .floatToInt
  | .float, .int => some .intToFloat
  | _, _ => none

def convert (target : DataType) (source : Address) : Action Address := do
  match conversion? target source.type with
  | none => return source
  | some opcode =>
    let destination ← temp target
    let _ ← emit ⟨opcode, .none, .address source, .address destination⟩
    return destination

/-! ### The name stack -/

def takeBase : Action (Option Address × Option String) := do
  match (← get).names with
  | top :: names =>
    if top.name = "" then
      modify fun generator => { generator with names }
      return (top.base, top.className)
    else return (none, none)
  | [] => return (none, none)

/-- Takes the name off that waits for its use. -/
def popName : Action PendingName := do
  match (← get).names with
  | top :: names =>
    if top.name = "" then fail .noName
    else
      modify fun generator => { generator with names }
      return top
  | [] => fail .noName

def pushName (name : PendingName) : Action Unit :=
  modify fun generator => { generator with names := name :: generator.names }

end Generator

end Quadruple
