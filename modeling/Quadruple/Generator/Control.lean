import Quadruple.Generator.Basic

/-!
Scopes, jumps, and the start and end of the program.
-/

namespace Quadruple.Generator

def pushScope : Action Unit :=
  setTree Scope.Tree.push

def popScope : Action Unit :=
  setTree Scope.Tree.pop

def pushDelimiter : Action Unit :=
  modify fun generator => { generator with buffer := generator.buffer.pushDelimiter }

def pushPending (index : Nat) : Action Unit :=
  modify fun generator => { generator with buffer := generator.buffer.pushPending index }

/-- Lets every jump that waits in the innermost construct continue at the next instruction, and
closes the construct. -/
def patchPending : Action Unit :=
  onBuffer CodeBuffer.patchPending

/-- A jump for when the condition on top of the operand stack does not hold; its target waits. -/
def conditionalJump : Action Unit := do
  let condition ← popValue
  match condition.type with
  | .bool | .int | .float =>
    pushPending (← emit { opcode := .gotoFalse, left := .address condition })
  | type => fail (.conditionType type)

def jump : Action Unit := do
  pushPending (← emit { opcode := .goto })

def patchJump (depth : Int) : Action Unit :=
  onBuffer fun buffer => buffer.patchOne depth

def loopStart : Action Unit := do
  pushPending (← get).buffer.code.size

def loopJump (depth : Int) : Action Unit := do
  match (← get).buffer.take depth with
  | .error cause => fail (.code cause)
  | .ok (head, buffer) =>
    modify fun generator => { generator with buffer }
    let _ ← emit { opcode := .goto, result := .target head }

def start : Action Unit := do
  let generator ← get
  if generator.started then fail .startedTwice
  if generator.tree.openFunction.isSome || generator.tree.openClass.isSome then
    fail .startInDeclaration
  modify fun generator => { generator with started := true }
  onBuffer fun buffer =>
    match Code.setTarget buffer.code 0 buffer.code.size with
    | .ok code => (.ok (), { buffer with code })
    | .error failure => (.error failure, buffer)
  let _ ← emit { opcode := .init }

/-- The end of the program, at which every construct is closed. -/
def exit : Action Unit := do
  let generator ← get
  if !generator.started then fail .exitBeforeStart
  let left := generator.buffer.pending.length
  if left ≠ 0 then fail (.jumpsLeft left)
  let _ ← emit { opcode := .exit }

end Quadruple.Generator
