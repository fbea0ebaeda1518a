import Quadruple.Generator.Expression

/-!
Calls, new objects and returns. A function of the program is called by opening an activation
record, passing every argument to its cell, the object of a method first, and continuing at the
body; a function of the host gets its arguments one after the other.
-/

namespace Quadruple.Generator

open Scope (Function Variable)

/-- The arguments that a call takes from the operand stack: all but the object of a method. -/
def formalsOf (function : Function) (object : Option Address) : Action (List Variable) := do
  if !function.isMethod then return function.arguments
  else
    match object, function.arguments with
    | none, _ => fail (.methodWithoutReceiver function.name)
    | some _, [] => throw .crash
    | some _, _ :: formals => return formals

def callNative (function : Function) (arguments : List Classed) : Action Unit := do
  for argument in arguments do
    let _ ← emit { opcode := .nativeParam, left := .address argument.address }
  if function.isVoid then
    let _ ← emit { opcode := .nativeCall, left := .name function.name }
  else
    let destination ← temp function.returns
    let _ ← emit ⟨.nativeCall, .name function.name, .none, .address destination⟩
    push (.cell destination "")

def convertArguments (function : String) :
    List (Variable × Classed) → Action (List (Address × Address))
  | [] => return []
  | (formal, argument) :: rest => do
    let fits := do
      let _ ← typeOf .assign formal.type argument.address.type
      checkClass formal.className argument.className
    settle (fits.mapError (.argument formal.name function))
    let converted ← convert formal.type argument.address
    let others ← convertArguments function rest
    return (converted, formal.address) :: others

def passArgument (value formal : Address) : Action Unit := do
  let _ ← emit ⟨.param, .address value, .none, .address formal⟩

def passReceiver (function : Function) : Option Address → Action Unit
  | none => return
  | some object =>
    match function.arguments with
    | [] => throw .crash
    | this :: _ => passArgument object this.address

/-- Calls a function with the values on top of the operand stack, and leaves its value, if it has
one, on the stack. -/
def callFunction (function : Function) (object : Option Address) : Action Unit := do
  let formals ← formalsOf function object
  let available := (← get).operands.length
  if available < formals.length then
    fail (.tooFewArguments function.name formals.length available)
  let arguments ← popValues formals.length
  if function.native then callNative function arguments
  else
    let passed ← convertArguments function.name (formals.zip arguments)
    let _ ← emit { opcode := .openRecord, left := .name function.name }
    passReceiver function object
    for (value, formal) in passed do
      passArgument value formal
    let _ ← emit ⟨.call, .name function.name, .none, .target function.start⟩
    if !function.isVoid then
      let destination ← temp function.returns
      match function.result with
      | none => throw .crash
      | some result =>
        let _ ← emit ⟨.store, .address result, .none, .address destination⟩
        push (.cell destination "")

def resolveFunction (name : String) (className : Option String) : Action Function := do
  if let some class_ := className then setTree fun tree => tree.setContext class_
  let tree := (← get).tree
  setTree Scope.Tree.clearContext
  match tree.resolveFunction name with
  | .error cause => fail (.scope cause)
  | .ok id =>
    match tree.function? id with
    | some function => return function
    | none => throw .crash

def call : Action Unit := do
  let pending ← popName
  let function ← resolveFunction pending.name pending.className
  if function.isMethod then
    match pending.base with
    | some object => callFunction function (some object)
    | none =>
      let this ← receiver function.owner function.name
      callFunction function (some this)
  else callFunction function none

/-- Makes an object of the class of the waiting name, and lets the class set it up. The object is
left on the operand stack. -/
def newObject : Action Unit := do
  let pending ← popName
  let tree := (← get).tree
  match tree.getClass pending.name with
  | .error cause => fail (.scope cause)
  | .ok class_ =>
    let pointer ← allocateTemp .object true
    let _ ← emit ⟨.malloc, .literal (.int class_.size), .none, .address pointer⟩
    if let some constructor := class_.constructor.bind tree.function? then
      callFunction constructor (some pointer)
      if !constructor.isVoid then
        let _ ← pop
    push (.cell pointer class_.name)

/-- Returns from the current function, with the value on top of the operand stack if there is one. -/
def returnValue : Action Unit := do
  let generator ← get
  match generator.tree.currentFunction? with
  | none => fail .returnOutside
  | some function =>
    if generator.operands.isEmpty then
      if !function.isVoid then fail (.valueMissing function.name function.returns)
      let _ ← emit { opcode := .ret, left := .name function.name }
    else
      let value ← popValue
      if function.isVoid then fail (.valueUnwanted function.name value.type)
      if value.type ≠ function.returns then
        fail (.wrongReturn function.name value.type function.returns)
      match function.result with
      | none => throw .crash
      | some result =>
        let _ ← emit ⟨.store, .address value, .none, .address result⟩
        let _ ← emit { opcode := .ret, left := .name function.name }

end Quadruple.Generator
