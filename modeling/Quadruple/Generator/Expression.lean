import Quadruple.Generator.Basic

/-!
Expressions: constants, variables and members, indices, operators and assignments. The elements of
an array follow each other row by row.
-/

namespace Quadruple.Generator

def constant (value : Value) : Action Unit := do
  if !value.type.isStored || value.type = .object then fail (.noLiteral value.type)
  let destination ← temp value.type
  let _ ← emit ⟨.load, .literal value, .none, .address destination⟩
  push (.cell destination "")

def identifier (name : String) : Action Unit := do
  let (base, className) ← takeBase
  setTree Scope.Tree.clearContext
  pushName ⟨name, base, className⟩

def resolveVariable (name : String) (indices : Int) (className : Option String) :
    Action Scope.Variable := do
  if let some class_ := className then setTree fun tree => tree.setContext class_
  let found := (← get).tree.resolveVariable name indices
  setTree Scope.Tree.clearContext
  match found with
  | .ok variable_ => return variable_
  | .error cause => fail (.scope cause)

def receiver (owner member : String) : Action Address := do
  match (← get).tree.resolveVariable Scope.receiverName 0 with
  | .ok this =>
    if this.className = owner then return this.address else fail (.noReceiver member owner)
  | .error _ => fail (.noReceiver member owner)

/-- Multiplies an offset by the next extent and adds the next index, for each further dimension. -/
def foldIndices (offset : Address) : List (Int × Address) → Action Address
  | [] => return offset
  | (extent, index) :: rest => do
    let scaled ← temp .int
    let _ ← emit ⟨.mul, .address offset, .literal (.int (Int64.ofInt extent)), .address scaled⟩
    let sum ← temp .int
    let _ ← emit ⟨.add, .address scaled, .address index, .address sum⟩
    foldIndices sum rest

def flatten (variable_ : Scope.Variable) : Action Address := do
  let taken ← popValues variable_.dimensions.length
  let indices := taken.map Classed.address
  match indices.find? fun index => index.type ≠ .int with
  | some index => fail (.indexType variable_.name index.type)
  | none =>
    match indices with
    | [] => throw .crash
    | first :: rest => foldIndices first ((variable_.dimensions.drop 1).zip rest)

def plainEntry (variable_ : Scope.Variable) (indices : Int) : Action Entry := do
  if indices = 0 then return .cell variable_.address variable_.className
  else
    let offset ← flatten variable_
    return .element variable_.address.plain (.address (offset.withReference true)) variable_.type ""

def fieldIndex (variable_ : Scope.Variable) (indices : Int) : Action Operand := do
  let slot : Operand := .literal (.int variable_.slot)
  if indices ≤ 0 then return slot
  else
    let offset ← flatten variable_
    if 0 < variable_.slot then
      let sum ← temp .int
      let _ ← emit ⟨.add, .address offset, slot, .address sum⟩
      return .address (sum.withReference true)
    else return .address (offset.withReference true)

/-- The entry of a variable or member. A member without an object is one of the object of the
method that is being declared. -/
def entryOf (name : String) (indices : Int) (base : Option Address) (className : Option String) :
    Action Entry := do
  let variable_ ← resolveVariable name indices className
  if !variable_.isField then plainEntry variable_ indices
  else
    let object ←
      match base with
      | some object => pure object
      | none => receiver variable_.owner name
    let index ← fieldIndex variable_ indices
    return .element object index variable_.type variable_.className

def memberContext (name : String) : Action Unit := do
  let (base, className) ← takeBase
  let entry ← entryOf name 0 base className
  if entry.type ≠ .object then fail (.notAnObject name entry.type)
  match (← get).tree.getClass entry.className with
  | .error cause => fail (.scope cause)
  | .ok class_ =>
    let pointer ← valueOf entry
    pushName ⟨"", some pointer, some class_.name⟩
    setTree fun tree => tree.setContext class_.name

def clearContext : Action Unit :=
  modify fun generator =>
    { generator with
      names := generator.names.dropWhile fun pending => pending.name = ""
      tree := generator.tree.clearContext }

def variableOperand (indices : Int) : Action Unit := do
  let pending ← popName
  let entry ← entryOf pending.name indices pending.base pending.className
  push entry

def emitted (opcode : Opcode) (type : DataType) : Opcode :=
  if opcode = .div then (if type = .int then .intDiv else .floatDiv) else opcode

def apply (opcode : Opcode) (left : Operand) (right : Address) (type : DataType) : Action Unit := do
  let destination ← temp type
  let _ ← emit ⟨emitted opcode type, left, .address right, .address destination⟩
  push (.cell destination "")

def operator (opcode : Opcode) : Action Unit := do
  if opcode.arity = 1 then
    let operand ← popValue
    let type ← settle (typeOf opcode operand.type operand.type)
    apply opcode .none operand type
  else if opcode.arity = 2 then
    if opcode = .assign then fail .assignmentAsOperator
    let right ← popValue
    let left ← popValue
    let type ← settle (typeOf opcode left.type right.type)
    apply opcode (.address left) right type
  else fail (.notAnOperator opcode)

def compound (opcode : Opcode) (target : Entry) (right : Address) : Action Address := do
  if opcode.arity ≠ 2 then fail (.notCompound opcode)
  let current ← valueOf target
  let type ← settle (typeOf opcode current.type right.type)
  apply opcode (.address current) right type
  popValue

def assign (opcode : Opcode) : Action Unit := do
  match ← popValues 1 with
  | [] => throw .crash
  | right :: _ =>
    let target ← pop
    let value ← if opcode = .assign then pure right.address else compound opcode target right.address
    let _ ← settle (typeOf .assign target.type value.type)
    settle (checkClass target.className right.className)
    let source ← convert target.type value
    match target with
    | .element base index _ _ =>
      let _ ← emit ⟨.storeElement, .address base, index, .address source⟩
    | .cell address _ =>
      let _ ← emit ⟨.store, .address source, .none, .address address⟩

def expressionStatement : Action Unit :=
  modify fun generator => { generator with operands := generator.operands.drop 1 }

end Quadruple.Generator
