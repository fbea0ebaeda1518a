import Quadruple.Generator.Call
import Quadruple.Generator.Control
import Quadruple.Generator.StandardNatives
import Quadruple.Text.Casing
import Quadruple.Transcript.Event

/-!
The code of a transcript: its events are delivered to a generator one after the other. The kind of
an event is read in any letter case.
-/

namespace Quadruple

namespace Event

inductive Error where
  | generator (cause : Generator.Error)
  | unknownType (name : String)
  | unknownOperator (symbol : String)
  | unknownKind (kind : String)
  | unsupportedConstant (text kind : String)
  | untypable (text : String) (type : DataType)

def Error.report : Error → Report
  | generator cause => cause.report
  | unknownType name => .plain ("unknown type " ++ Text.quoted name)
  | unknownOperator symbol => .plain ("unknown operator " ++ Text.quoted symbol)
  | unknownKind kind => .plain ("unknown event kind " ++ Text.quoted kind)
  | unsupportedConstant text kind =>
    .plain ("constant value " ++ text ++ " of unsupported kind " ++ kind)
  | untypable text type => .plain ("constant " ++ text ++ " cannot be typed " ++ type.name)

inductive Command where
  | constant (value : Value)
  | identifier (name : String)
  | member (name : String)
  | clearContext
  | variable (indices : Int)
  | call
  | operator (opcode : Opcode)
  | assign (opcode : Opcode)
  | expression
  | declareVariable (name : String) (type : DataType) (dimensions : List Int)
  | declareObject (name class_ : String)
  | declareArgument (name : String) (type : DataType) (dimensions : List Int)
  | declareObjectArgument (name class_ : String)
  | declareFunction (name : String) (returns : DataType)
  | declareNative (name : String) (returns : DataType)
  | closeFunction
  | declareClass (name : String)
  | closeClass
  | newObject
  | returnValue
  | pushScope
  | popScope
  | pushDelimiter
  | patchPending
  | conditionalJump
  | jump
  | patchJump (depth : Int)
  | loopStart
  | loopJump (depth : Int)
  | start
  | exit

def Command.perform : Command → Generator.Action Unit
  | constant value => Generator.constant value
  | identifier name => Generator.identifier name
  | member name => Generator.memberContext name
  | clearContext => Generator.clearContext
  | .variable indices => Generator.variableOperand indices
  | call => Generator.call
  | operator opcode => Generator.operator opcode
  | assign opcode => Generator.assign opcode
  | expression => Generator.expressionStatement
  | declareVariable name type dimensions => Generator.declareVariable name type dimensions
  | declareObject name class_ => Generator.declareObject name class_
  | declareArgument name type dimensions => Generator.declareArgument name type dimensions
  | declareObjectArgument name class_ => Generator.declareObjectArgument name class_
  | declareFunction name returns => Generator.declareFunction name returns
  | declareNative name returns => Generator.declareNative name returns
  | closeFunction => Generator.closeFunction
  | declareClass name => Generator.declareClass name
  | closeClass => Generator.closeClass
  | newObject => Generator.newObject
  | returnValue => Generator.returnValue
  | pushScope => Generator.pushScope
  | popScope => Generator.popScope
  | pushDelimiter => Generator.pushDelimiter
  | patchPending => Generator.patchPending
  | conditionalJump => Generator.conditionalJump
  | jump => Generator.jump
  | patchJump depth => Generator.patchJump depth
  | loopStart => Generator.loopStart
  | loopJump depth => Generator.loopJump depth
  | start => Generator.start
  | exit => Generator.exit

def typeNamed (name : String) : Except Error DataType :=
  match DataType.ofName? name with
  | some type => .ok type
  | none => .error (.unknownType name)

/-- The type of a function's value; without a name it has none. -/
def returnType (name : String) : Except Error DataType :=
  if name = "" then .ok .void else typeNamed name

def operatorNamed (symbol : String) : Except Error Opcode :=
  match Opcode.ofSymbol? symbol with
  | some opcode => .ok opcode
  | none => .error (.unknownOperator symbol)

/-- The operator of an assignment: the one in front of the equals sign of a compound assignment. -/
def assignmentOperator (symbol : String) : Except Error Opcode :=
  if symbol = "" || symbol = "=" then .ok .assign
  else
    match symbol.toList.reverse with
    | '=' :: front => operatorNamed (String.ofList front.reverse)
    | _ => operatorNamed symbol

def literal (event : Event) : Except Error Value := do
  match event.value with
  | none => .error (.unsupportedConstant "<nil>" "<nil>")
  | some (.other text kind) => .error (.unsupportedConstant text kind)
  | some constant =>
    match constant.value? with
    | none => .error (.unsupportedConstant constant.text "")
    | some value =>
      if event.type = "" then .ok value
      else
        let type ← typeNamed event.type
        let coerced := value.coerce type
        if coerced.type = type then .ok coerced else .error (.untypable constant.text type)

def command (event : Event) : Except Error Command := do
  match String.ofList (event.kind.toList.map Text.lowerPlain) with
  | "constant" => return .constant (← event.literal)
  | "identifier" => return .identifier event.name
  | "member" => return .member event.name
  | "context_clear" => return .clearContext
  | "variable" => return .variable event.count
  | "call" => return .call
  | "operator" => return .operator (← operatorNamed event.operator)
  | "assign" => return .assign (← assignmentOperator event.operator)
  | "expression" => return .expression
  | "declare_variable" =>
    if event.className ≠ "" then return .declareObject event.name event.className
    return .declareVariable event.name (← typeNamed event.type) (event.dimensions.getD [])
  | "declare_argument" =>
    if event.className ≠ "" then return .declareObjectArgument event.name event.className
    return .declareArgument event.name (← typeNamed event.type) (event.dimensions.getD [])
  | "declare_function" => return .declareFunction event.name (← returnType event.type)
  | "declare_native" => return .declareNative event.name (← returnType event.type)
  | "close_function" => return .closeFunction
  | "declare_class" => return .declareClass event.name
  | "close_class" => return .closeClass
  | "new" => return .newObject
  | "return" => return .returnValue
  | "push_scope" => return .pushScope
  | "pop_scope" => return .popScope
  | "push_delimiter" => return .pushDelimiter
  | "patch_pending" => return .patchPending
  | "conditional_jump" => return .conditionalJump
  | "jump" => return .jump
  | "patch_jump" => return .patchJump event.count
  | "loop_start" => return .loopStart
  | "loop_jump" => return .loopJump event.count
  | "init" => return .start
  | "exit" => return .exit
  | _ => .error (.unknownKind event.kind)

inductive Failure where
  | error (cause : Error)
  | crash

def deliver (event : Event) (generator : Generator) : Except Failure Unit × Generator :=
  match event.command with
  | .error cause => (.error (.error cause), generator)
  | .ok command =>
    match generator.attempt command.perform with
    | (.ok (), after) => (.ok (), after)
    | (.error (.error cause), after) => (.error (.error (.generator cause)), after)
    | (.error .crash, after) => (.error .crash, after)

end Event

namespace Transcript

inductive Failure where
  | natives (cause : Generator.Error)
  | event (position : Nat) (kind : String) (cause : Event.Error)
  | crash

def Failure.report? : Failure → Option Report
  | natives cause => some cause.report
  | event position kind cause =>
    some (cause.report.within ("event " ++ Text.digits 10 position ++ " (" ++ kind ++ ")"))
  | crash => none

def replay (position : Nat) : List Event → Generator → Except Failure Unit × Generator
  | [], generator => (.ok (), generator)
  | event :: events, generator =>
    match event.deliver generator with
    | (.ok (), after) => replay (position + 1) events after
    | (.error (.error cause), after) => (.error (.event position event.kind cause), after)
    | (.error .crash, after) => (.error .crash, after)

def declareNatives (generator : Generator) : Except Failure Unit × Generator :=
  match generator.attempt Generator.declareStandardNatives with
  | (.ok (), after) => (.ok (), after)
  | (.error (.error cause), after) => (.error (.natives cause), after)
  | (.error .crash, after) => (.error .crash, after)

def compile (transcript : Transcript) (capacities : Capacities) : Except Failure Code := do
  let fresh := Generator.ofCapacities capacities
  let prepared ←
    if transcript.natives then
      match declareNatives fresh with
      | (.ok (), generator) => .ok generator
      | (.error failure, _) => .error failure
    else .ok fresh
  match replay 0 transcript.events prepared with
  | (.ok (), generator) => .ok generator.buffer.code
  | (.error failure, _) => .error failure

end Transcript

end Quadruple
