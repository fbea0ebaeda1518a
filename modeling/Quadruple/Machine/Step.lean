import Quadruple.Machine.Basic

/-!
The execution of one instruction. An instruction that fails leaves the machine at its place, with
what it changed before failing.
-/

namespace Quadruple.Machine

def read (machine : Machine) : Operand → Except Fault Value
  | .literal value => .ok value
  | .address cell => (machine.memory.load cell.plain).mapError .memory
  | operand => .error (.noValue operand)

def readIfAny (machine : Machine) : Operand → Except Fault Value
  | .none => .ok .absent
  | operand => machine.read operand

def storeAt (memory : Memory) (cell : Address) (value : Value) : Except Fault Memory :=
  (memory.store cell.plain (value.coerce cell.type)).mapError .memory

def write (machine : Machine) (operand : Operand) (value : Value) : Except Fault Machine :=
  match operand with
  | .address cell => (storeAt machine.memory cell value).map fun memory => { machine with memory }
  | _ => .error (.notWritable operand)

/-- Where the elements of a base start: at the base itself, or for the reference to an object at the
object. -/
def originOf (machine : Machine) (base : Address) : Except Fault Address := do
  if base.type = .object then
    match ← (machine.memory.load base).mapError Fault.memory with
    | .object pointer => if pointer.area = .stack then return pointer else .error (.nilObject base)
    | _ => .error (.nilObject base)
  else return base

def element (machine : Machine) (base index : Operand) (type : DataType) :
    Except Fault Address := do
  match base with
  | .address cell =>
    let place := (← machine.read index).toInt
    if place < 0 then .error (.negativeIndex place)
    else
      let origin ← machine.originOf cell.plain
      let offset := Int64.ofInt origin.offset.toNat + place
      if Int64.ofInt Address.maxOffset < offset then .error (.indexOutside place)
      else return ⟨origin.area, type, false, offset.toUInt64.toUInt32⟩
  | _ => .error (.baseWithoutAddress base)

/-- The instruction at which a jump or call continues; the end of the program is one. -/
def targetOf (machine : Machine) (instruction : Instruction) : Except Fault Nat :=
  match instruction.target? with
  | none => .error (.noTarget instruction.opcode)
  | some index =>
    if index < 0 || (machine.program.size : Int) < index then .error (.targetOutside index)
    else .ok index.toNat

/-- What executing an instruction leads to: a machine, and the instruction with which it goes on. -/
structure Next where
  machine : Machine
  position : Nat

def follow (machine : Machine) : Next :=
  ⟨machine, machine.position + 1⟩

def jump (machine : Machine) (instruction : Instruction) : Except Fault Next :=
  (machine.targetOf instruction).map fun target => ⟨machine, target⟩

def branch (machine : Machine) (instruction : Instruction) (sense : Bool) : Except Fault Next := do
  let condition ← machine.read instruction.left
  if condition.holds = sense then machine.jump instruction else return machine.follow

def exit (machine : Machine) : Except Fault Next :=
  let depth := machine.memory.depth
  if 0 < depth || !machine.returns.isEmpty then .error (.exitInside depth)
  else .ok ⟨{ machine with halted := true }, machine.position⟩

def loadLiteral (machine : Machine) (instruction : Instruction) : Except Fault Machine :=
  match instruction.left with
  | .literal value => machine.write instruction.result value
  | operand => .error (.loadOfNonLiteral operand)

def copy (machine : Machine) (instruction : Instruction) : Except Fault Machine := do
  let value ← machine.read instruction.left
  machine.write instruction.result value

def loadElement (machine : Machine) (instruction : Instruction) : Except Fault Machine := do
  match instruction.result with
  | .address destination =>
    let cell ← machine.element instruction.left instruction.right destination.type
    let value ← (machine.memory.load cell).mapError Fault.memory
    machine.write instruction.result value
  | operand => .error (.elementInto operand)

def storeElement (machine : Machine) (instruction : Instruction) : Except Fault Machine := do
  let value ← machine.read instruction.result
  let cell ← machine.element instruction.left instruction.right instruction.result.type
  let memory ← storeAt machine.memory cell value
  return { machine with memory }

/-- Cells for an object, of which there is at least one. What the pointer cannot be stored in does
not give the cells back. -/
def allocateObject (machine : Machine) (instruction : Instruction) :
    Except Fault Machine × Machine :=
  match machine.read instruction.left with
  | .error fault => (.error fault, machine)
  | .ok size =>
    match machine.memory.allocate .stack .object size.toInt.toInt false with
    | .error cause => (.error (.memory cause), machine)
    | .ok (pointer, memory) =>
      let allocated := { machine with memory }
      (allocated.write instruction.result (.object pointer), allocated)

def operate (machine : Machine) (instruction : Instruction) : Except Fault Machine := do
  let left ← machine.readIfAny instruction.left
  let right ← machine.readIfAny instruction.right
  let value ← (instruction.opcode.eval left right).mapError Fault.evaluation
  machine.write instruction.result value

def openRecord (machine : Machine) : Machine :=
  { machine with memory := machine.memory.snapshot, openRecords := machine.openRecords + 1 }

def passParam (machine : Machine) (instruction : Instruction) : Except Fault Machine := do
  let value ← machine.read instruction.left
  match instruction.result with
  | .address destination =>
    return { machine with passed := machine.passed ++ [⟨value, destination⟩] }
  | operand => .error (.paramInto operand)

def bindAll (memory : Memory) : List Passed → Except Fault Unit × Memory
  | [] => (.ok (), memory)
  | argument :: rest =>
    match storeAt memory argument.destination argument.value with
    | .ok bound => bindAll bound rest
    | .error fault => (.error fault, memory)

def call (machine : Machine) (instruction : Instruction) : Except Fault Next × Machine :=
  if machine.openRecords = 0 then (.error (.callWithoutRecord instruction.left), machine)
  else
    match bindAll machine.memory machine.passed with
    | (.error fault, memory) => (.error fault, { machine with memory })
    | (.ok (), memory) =>
      let entered :=
        { machine with
          memory
          passed := []
          openRecords := machine.openRecords - 1
          returns := (machine.position + 1) :: machine.returns }
      match entered.targetOf instruction with
      | .error fault => (.error fault, entered)
      | .ok target =>
        let counted :=
          { entered with profile := entered.profile.map fun profile => profile.recordCall target }
        (.ok ⟨counted, target⟩, counted)

def ret (machine : Machine) (instruction : Instruction) : Except Fault Next := do
  match machine.returns with
  | [] => .error (.returnWithoutCaller instruction.left)
  | caller :: returns =>
    let memory ← machine.memory.restore.mapError Fault.memory
    return ⟨{ machine with memory, returns }, caller⟩

def passNative (machine : Machine) (instruction : Instruction) : Except Fault Machine := do
  let value ← machine.read instruction.left
  return { machine with nativeArguments := machine.nativeArguments ++ [value] }

def nativeName : Operand → String
  | .name text => text
  | _ => ""

def callNative (machine : Machine) (instruction : Instruction) : Except Fault Machine × Machine :=
  let name := nativeName instruction.left
  match Native.ofName? name with
  | none => (.error (.unknownNative name), machine)
  | some native =>
    let (outcome, console) := native.execute machine.nativeArguments machine.console
    let called := { machine with nativeArguments := [], console }
    match outcome with
    | .error cause => (.error (.native cause), called)
    | .ok value =>
      match instruction.result with
      | .address _ => (called.write instruction.result value, called)
      | _ => (.ok called, called)

def orUnchanged (machine : Machine) (outcome : Except Fault Machine) : Except Fault Next × Machine :=
  (outcome.map follow, machine)

def thenFollow (outcome : Except Fault Machine × Machine) : Except Fault Next × Machine :=
  (outcome.1.map follow, outcome.2)

/-- Executes an instruction. The second part is the machine that a failure leaves behind; there is
nothing at all for an opcode that no machine executes. -/
def execute? (machine : Machine) (instruction : Instruction) :
    Option (Except Fault Next × Machine) :=
  match instruction.opcode with
  | .nop | .init => some (.ok machine.follow, machine)
  | .exit => some (machine.exit, machine)
  | .goto => some (machine.jump instruction, machine)
  | .gotoTrue => some (machine.branch instruction true, machine)
  | .gotoFalse => some (machine.branch instruction false, machine)
  | .load => some (machine.orUnchanged (machine.loadLiteral instruction))
  | .store => some (machine.orUnchanged (machine.copy instruction))
  | .loadElement => some (machine.orUnchanged (machine.loadElement instruction))
  | .storeElement => some (machine.orUnchanged (machine.storeElement instruction))
  | .malloc => some (thenFollow (machine.allocateObject instruction))
  | .openRecord => some (.ok machine.openRecord.follow, machine)
  | .param => some (machine.orUnchanged (machine.passParam instruction))
  | .call => some (machine.call instruction)
  | .ret => some (machine.ret instruction, machine)
  | .nativeParam => some (machine.orUnchanged (machine.passNative instruction))
  | .nativeCall => some (thenFollow (machine.callNative instruction))
  | opcode =>
    if opcode.isPure then some (machine.orUnchanged (machine.operate instruction)) else none

def advance (next : Next) (opcode : Opcode) : Machine :=
  { next.machine with
    position := next.position
    steps := next.machine.steps + 1
    profile := next.machine.profile.map fun profile => profile.recordOpcode opcode }

/-- Executes the next instruction. Beyond the last one the machine halts. -/
def step (machine : Machine) : Except Error Unit × Machine :=
  if machine.halted then (.ok (), machine)
  else
    match machine.program[machine.position]? with
    | none => (.ok (), { machine with halted := true })
    | some instruction =>
      if 0 < machine.limit && machine.limit ≤ machine.steps then
        (.error (.stepLimit machine.limit machine.position), machine)
      else
        match machine.execute? instruction with
        | none => (.error (.unknownOpcode machine.position instruction.opcode), machine)
        | some (.ok next, _) => (.ok (), advance next instruction.opcode)
        | some (.error fault, after) =>
          (.error (.fault machine.position instruction.opcode fault), after)

end Quadruple.Machine
