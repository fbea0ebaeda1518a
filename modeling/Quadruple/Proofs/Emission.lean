import Quadruple.Proofs.Cells
import Quadruple.Proofs.Operations
import Mathlib.Logic.Relation

/-!
The instructions that compilation emits. An event appends instructions one by one, or the whole
sequence of a call; then, if it is about jumps, a jump is left waiting or waiting jumps get their
target. What is said here of an instruction is what its place of emission makes sure of.
-/

namespace Quadruple

open Generator (conversion? emitted)
open Scope (Function)

/-- What generated code is asked to keep to: the cells that it may name, and the functions that the
host may be asked for. Cells that the memory has may be named; marking an address changes nothing. -/
structure Rules where
  capacities : Capacities
  usable : Address → Prop
  hosts : String → DataType → Prop
  usable_of_has : ∀ address, (Memory.ofCapacities capacities).Has address → usable address
  usable_mark : ∀ address reference,
    usable (address.withReference reference) ↔ usable address

namespace Rules

variable (rules : Rules)

/-- Places inside objects may be named as if they were cells. -/
def Loose : Prop :=
  ∀ address : Address, address.area = .stack → address.type.isStored = true → rules.usable address

structure Refers (address : Address) : Prop where
  isObject : address.type = .object
  usable : rules.usable address

def Reads : Operand → Prop
  | .address cell => rules.usable cell
  | .literal value => value.type ≠ .object
  | _ => False

/-- Where the elements of an array, or those of an object, start. -/
structure Holds (base : Address) : Prop where
  aside : base.area ≠ .temps ∨ base.type = .object
  usable : rules.usable base

/-- The instructions that compute values and move them, and the return. -/
inductive Plain : Instruction → Prop where
  | load {value : Value} {cell : Address} (typed : value.type = cell.type)
      (literal : value.type ≠ .object) (usable : rules.usable cell) :
      Plain ⟨.load, .literal value, .none, .address cell⟩
  | store {source cell : Address} (typed : source.type = cell.type) (reads : rules.usable source)
      (usable : rules.usable cell) : Plain ⟨.store, .address source, .none, .address cell⟩
  | loadElement {base cell : Address} {index : Operand} (holds : rules.Holds base)
      (reads : rules.Reads index) (usable : rules.usable cell) :
      Plain ⟨.loadElement, .address base, index, .address cell⟩
  | storeElement {base source : Address} {index : Operand} (holds : rules.Holds base)
      (reads : rules.Reads index) (usable : rules.usable source) :
      Plain ⟨.storeElement, .address base, index, .address source⟩
  | convert {opcode : Opcode} {source cell : Address}
      (converts : conversion? cell.type source.type = some opcode) (reads : rules.usable source)
      (usable : rules.usable cell) : Plain ⟨opcode, .none, .address source, .address cell⟩
  | unary {opcode : Opcode} {operand cell : Address}
      (typed : opcode.unaryType? operand.type = some cell.type) (reads : rules.usable operand)
      (usable : rules.usable cell) :
      Plain ⟨emitted opcode cell.type, .none, .address operand, .address cell⟩
  | binary {opcode : Opcode} {left right : Operand} {cell : Address}
      (typed : opcode.binaryType? left.type right.type = some cell.type)
      (readsLeft : rules.Reads left) (readsRight : rules.Reads right)
      (usable : rules.usable cell) :
      Plain ⟨emitted opcode cell.type, left, right, .address cell⟩
  | ret (name : String) : Plain { opcode := .ret, left := .name name }

end Rules

/-! ### Calls -/

def Instruction.passing (argument : Address × Address) : Instruction :=
  ⟨.param, .address argument.1, .none, .address argument.2⟩

def Instruction.passingHost (argument : Address) : Instruction :=
  { opcode := .nativeParam, left := .address argument }

/-- The sequence that calls a function with values for the cells of its arguments. -/
def Scope.Function.calling (function : Function) (passed : List (Address × Address)) :
    List Instruction :=
  { opcode := .openRecord, left := .name function.name } :: passed.map .passing ++
    [⟨.call, .name function.name, .none, .target function.start⟩]

def Scope.Function.callingHost (function : Function) (arguments : List Address) (result : Operand) :
    List Instruction :=
  arguments.map .passingHost ++ [⟨.nativeCall, .name function.name, .none, result⟩]

structure Rules.Passes (rules : Rules) (function : Function) (passed : List (Address × Address)) :
    Prop where
  complete : passed.map Prod.snd = function.arguments.map Scope.Variable.address
  typed : ∀ argument ∈ passed, argument.1.type = argument.2.type
  reads : ∀ argument ∈ passed, rules.usable argument.1
  usable : ∀ argument ∈ passed, rules.usable argument.2

/-- What is left of the value of a host's function. -/
inductive Rules.Receives (rules : Rules) (function : Function) : Operand → Prop where
  | nothing (isVoid : function.isVoid = true) : Receives rules function .none
  | value {cell : Address} (typed : cell.type = function.returns) (usable : rules.usable cell) :
      Receives rules function (.address cell)

namespace CodeBuffer

def emitAll (buffer : CodeBuffer) (instructions : List Instruction) : CodeBuffer :=
  { buffer with code := buffer.code ++ instructions.toArray }

section

variable (buffer : CodeBuffer)
include buffer

@[simp]
theorem emitAll_nil : buffer.emitAll [] = buffer := by
  simp [emitAll]

theorem emitAll_cons (instr : Instruction) (instructions : List Instruction) :
    buffer.emitAll (instr :: instructions) =
      (buffer.emit instr).emitAll instructions := by
  simp [emitAll, emit]

theorem emitAll_append (first second : List Instruction) :
    buffer.emitAll (first ++ second) = (buffer.emitAll first).emitAll second := by
  simp [emitAll]

theorem emitAll_singleton (instr : Instruction) : buffer.emitAll [instr] = buffer.emit instr := by
  rw [emitAll_cons, emitAll_nil]

end

/-- What an event that may call one function and make objects of one class can append. -/
inductive Append (rules : Rules) (callee : Option Function) (made : Option Scope.Class) :
    CodeBuffer → CodeBuffer → Prop where
  | plain {buffer : CodeBuffer} {instr : Instruction} (plain : rules.Plain instr) :
      Append rules callee made buffer (buffer.emit instr)
  | malloc {buffer : CodeBuffer} {class_ : Scope.Class} {cell : Address} (makes : made = some class_)
      (refers : rules.Refers cell) :
      Append rules callee made buffer
        (buffer.emit ⟨.malloc, .literal (.int class_.size), .none, .address cell⟩)
  | call {buffer : CodeBuffer} {function : Function} {passed : List (Address × Address)}
      (calls : callee = some function) (ours : function.native = false)
      (passes : rules.Passes function passed) :
      Append rules callee made buffer (buffer.emitAll (function.calling passed))
  | callHost {buffer : CodeBuffer} {function : Function} {arguments : List Address}
      {result : Operand} (calls : callee = some function) (native : function.native = true)
      (hosts : rules.hosts function.name function.returns)
      (complete : arguments.length = function.arguments.length)
      (reads : ∀ argument ∈ arguments, rules.usable argument)
      (receives : rules.Receives function result) :
      Append rules callee made buffer (buffer.emitAll (function.callingHost arguments result))

end CodeBuffer

namespace Event.Command

def steers : Event.Command → Bool
  | pushDelimiter | patchPending | conditionalJump | jump | patchJump _ | loopStart | loopJump _
  | start | exit => true
  | _ => false

/-- What a command about jumps does to the code; another one does nothing of the kind. -/
inductive Steers (rules : Rules) : Event.Command → CodeBuffer → CodeBuffer → Prop where
  | other {command : Event.Command} {buffer : CodeBuffer} (other : command.steers = false) :
      Steers rules command buffer buffer
  | delimiter {buffer : CodeBuffer} : Steers rules .pushDelimiter buffer buffer.pushDelimiter
  | branch {buffer : CodeBuffer} {condition : Address} (reads : rules.usable condition) :
      Steers rules .conditionalJump buffer
        ((buffer.emit { opcode := .gotoFalse, left := .address condition }).pushPending
          buffer.code.size)
  | jump {buffer : CodeBuffer} :
      Steers rules .jump buffer ((buffer.emit { opcode := .goto }).pushPending buffer.code.size)
  | head {buffer : CodeBuffer} : Steers rules .loopStart buffer (buffer.pushPending buffer.code.size)
  | patchAll {buffer after : CodeBuffer} (patched : buffer.patchPending = (.ok (), after)) :
      Steers rules .patchPending buffer after
  | patchOne {buffer after : CodeBuffer} {depth : Int}
      (patched : buffer.patchOne depth = (.ok (), after)) :
      Steers rules (.patchJump depth) buffer after
  | loop {buffer rest : CodeBuffer} {depth head : Int}
      (taken : buffer.take depth = .ok (head, rest)) :
      Steers rules (.loopJump depth) buffer
        (rest.emit { opcode := .goto, result := .target head })
  | start {buffer : CodeBuffer} {code : Code}
      (patched : Code.setTarget buffer.code 0 buffer.code.size = .ok code) :
      Steers rules .start buffer (CodeBuffer.emit { buffer with code } { opcode := .init })
  | exit {buffer : CodeBuffer} (closed : buffer.pending = []) :
      Steers rules .exit buffer (buffer.emit { opcode := .exit })

end Event.Command

end Quadruple
