import Quadruple.Code.Instruction
import Quadruple.Machine.Native
import Quadruple.Machine.Profile
import Quadruple.Memory
import Quadruple.Operator.Evaluation

/-!
The state of a running program, and how its instructions can fail.
-/

namespace Quadruple

/-- An argument that waits for its call: the value, and the cell that it goes to. -/
structure Passed where
  value : Value
  destination : Address

structure Machine where
  program : Code
  memory : Memory
  console : Console
  position : Nat
  halted : Bool
  steps : Nat
  limit : Nat
  openRecords : Nat
  returns : List Nat
  passed : List Passed
  nativeArguments : List Value
  profile : Option Profile

namespace Machine

structure Options where
  capacities : Capacities := {}
  input : String := ""
  limit : Nat := 0
  profiled : Bool := false

def ofProgram (program : Code) (options : Options) : Machine :=
  { program
    memory := .ofCapacities options.capacities
    console := .ofInput options.input
    position := 0
    halted := false
    steps := 0
    limit := options.limit
    openRecords := 0
    returns := []
    passed := []
    nativeArguments := []
    profile := if options.profiled then some (.ofThreshold Profile.defaultThreshold) else none }

inductive Fault where
  | memory (cause : Memory.Error)
  | evaluation (cause : Opcode.EvalError)
  | native (cause : Native.Error)
  | noValue (operand : Operand)
  | notWritable (operand : Operand)
  | baseWithoutAddress (operand : Operand)
  | negativeIndex (index : Int64)
  | nilObject (cell : Address)
  | indexOutside (index : Int64)
  | noTarget (opcode : Opcode)
  | targetOutside (index : Int)
  | loadOfNonLiteral (operand : Operand)
  | elementInto (operand : Operand)
  | paramInto (operand : Operand)
  | exitInside (depth : Nat)
  | callWithoutRecord (operand : Operand)
  | returnWithoutCaller (operand : Operand)
  | unknownNative (name : String)

def Fault.report : Fault → Report
  | memory cause => cause.report
  | evaluation cause => cause.report
  | native cause => cause.report
  | noValue operand => .of .runtime ("operand " ++ operand.text ++ " has no value")
  | notWritable operand => .of .runtime ("operand " ++ operand.text ++ " is not writable")
  | baseWithoutAddress operand =>
    .of .runtime ("array base " ++ operand.text ++ " is not an address")
  | negativeIndex index => .of .runtime ("negative index " ++ Text.decimal index.toInt)
  | nilObject cell => .of .runtime ("dereference of nil object " ++ cell.text)
  | indexOutside index =>
    .of .runtime ("index " ++ Text.decimal index.toInt ++ " out of the address space")
  | noTarget opcode => .of .runtime (opcode.name ++ " without a target")
  | targetOutside index => .of .runtime ("target " ++ Text.decimal index ++ " outside the program")
  | loadOfNonLiteral operand => .of .runtime ("LOAD of non-literal " ++ operand.text)
  | elementInto operand => .of .runtime ("ALOAD into " ++ operand.text)
  | paramInto operand => .of .runtime ("PARAM into " ++ operand.text)
  | exitInside depth =>
    .of .activationImbalance ("exit with " ++ Text.digits 10 depth ++ " open activation records")
  | callWithoutRecord operand =>
    .of .activationImbalance ("call of " ++ operand.text ++ " without an activation record")
  | returnWithoutCaller operand =>
    .of .activationImbalance ("return from " ++ operand.text ++ " with no caller")
  | unknownNative name => .of .runtime ("unknown native function " ++ Text.quoted name)

inductive Error where
  | stepLimit (limit position : Nat)
  | unknownOpcode (position : Nat) (opcode : Opcode)
  | fault (position : Nat) (opcode : Opcode) (cause : Fault)
  | cancelled (position : Nat)

def Error.report : Error → Report
  | stepLimit limit position =>
    .of .runtime ("step limit " ++ Text.digits 10 limit ++ " exceeded at ip " ++
      Text.digits 10 position)
  | unknownOpcode position opcode =>
    .of .runtime ("ip " ++ Text.digits 10 position ++ ": unknown opcode " ++ opcode.name)
  | fault position opcode cause =>
    cause.report.within ("ip " ++ Text.digits 10 position ++ " (" ++ opcode.name ++ ")")
  | cancelled position => .plain ("ip " ++ Text.digits 10 position ++ ": context canceled")

end Machine

end Quadruple
