import Quadruple.Generator.Basic

/-!
Declarations of variables, functions and classes while code is being generated.
-/

namespace Quadruple.Generator

def declareVariable (name : String) (type : DataType) (dimensions : List Int) : Action Unit := do
  let _ ← onTree fun tree => tree.declareVariable name type dimensions

def declareObject (name class_ : String) : Action Unit := do
  let _ ← onTree fun tree => tree.declareObject name class_

/-- Declares the next argument of the current function. Arguments are passed by value, so there are
no array arguments. -/
def declareArgument (name : String) (type : DataType) (dimensions : List Int) : Action Unit := do
  if !dimensions.isEmpty then fail (.arrayArgument name)
  let _ ← onTree fun tree => tree.declareArgument name type []

def declareObjectArgument (name class_ : String) : Action Unit := do
  let _ ← onTree fun tree => tree.declareObjectArgument name class_

def openFunction (name : String) (returns : DataType) (start : Int) :
    Action Scope.FunctionId := do
  let (outcome, tree) := (← get).tree.declareFunction name returns start
  modify fun generator => { generator with tree }
  match outcome with
  | .ok id => return id
  | .error cause => fail (.scope cause)

def declareFunction (name : String) (returns : DataType) : Action Unit := do
  let _ ← openFunction name returns (← get).buffer.code.size

/-- Declares a function of the host. Its arguments follow; it has no body. -/
def declareNative (name : String) (returns : DataType) : Action Unit := do
  match (← get).tree.currentClass? with
  | some class_ => fail (.nativeInClass name class_.name)
  | none =>
    let id ← openFunction name returns (-1)
    setTree fun tree => tree.setFunction id fun function => { function with native := true }

/-- Whether control can reach the end of the code from a body that starts at an instruction: the
last instruction is no return, or a jump of the body leads to the end. -/
def fallsOffEnd (code : Code) (start : Int) : Bool :=
  match code.back? with
  | none => true
  | some last =>
    last.opcode ≠ .ret || (code.size : Int) - 1 < start ||
      (code.toList.drop start.toNat).any fun instruction =>
        instruction.opcode.isJump && instruction.target? = some (code.size : Int)

/-- Ends the body of the current function, with a return where the body has none at its end. No
value may be left on the operand stack, since the next body uses the same cells. -/
def closeFunction : Action Unit := do
  let generator ← get
  match generator.tree.currentFunction? with
  | none => fail .closeOutside
  | some function =>
    let left := generator.operands.length
    if left ≠ 0 then fail (.operandsLeft left function.name)
    if !function.native && fallsOffEnd generator.buffer.code function.start then
      let _ ← emit { opcode := .ret, left := .name function.name }
    let _ ← onTree Scope.Tree.closeFunction
    setTree fun tree => { tree with memory := tree.memory.resetLocals }

def declareClass (name : String) : Action Unit :=
  onTree fun tree => (tree.declareClass name).map fun declared => ((), declared)

def closeClass : Action Unit :=
  onTree fun tree => tree.closeClass.map fun closed => ((), closed)

end Quadruple.Generator
