import Quadruple.Code.Instruction

/-!
Code under construction: instructions are appended, and operands of earlier ones are filled in
later. Jumps that wait for their target stand on a stack, in which delimiters separate nested
constructs; loop heads wait there for the jump back.
-/

namespace Quadruple

inductive Field where
  | left
  | right
  | result
  | reserved (code : UInt8)
deriving DecidableEq

def Field.ofCode : UInt8 → Field
  | 1 => left
  | 2 => right
  | 3 => result
  | code => reserved code

def Instruction.set? (instruction : Instruction) (operand : Operand) : Field → Option Instruction
  | .left => some { instruction with left := operand }
  | .right => some { instruction with right := operand }
  | .result => some { instruction with result := operand }
  | .reserved _ => none

namespace Code

inductive Error where
  | patchOutside (index : Int) (size : Nat)
  | unknownField (code : UInt8)
  | noDelimiter
  | underflow (depth : Int) (size : Nat)
  | delimiterTaken (depth : Int)

def Error.report : Error → Report
  | patchOutside index size =>
    .of .structuralJump ("patch of instruction " ++ Text.decimal index ++ " outside 0.." ++
      Text.decimal ((size : Int) - 1))
  | unknownField code => .plain ("unknown quadruple field " ++ Text.digits 10 code.toNat)
  | noDelimiter => .of .structuralJump "patch of pending jumps found no delimiter"
  | underflow depth size =>
    .of .structuralJump ("backpatch stack underflow: need " ++
      Text.decimal (Int64.ofInt (depth + 1)).toInt ++ " entries, have " ++ Text.digits 10 size)
  | delimiterTaken depth =>
    .of .structuralJump ("backpatch entry " ++ Text.decimal depth ++ " below top is a delimiter")

def at? (code : Code) (index : Int) : Option Instruction :=
  if 0 ≤ index then code[index.toNat]? else none

def set (code : Code) (index : Int) (field : Field) (operand : Operand) : Except Error Code :=
  match at? code index with
  | none => .error (.patchOutside index code.size)
  | some instruction =>
    match field, instruction.set? operand field with
    | _, some changed => .ok (code.setIfInBounds index.toNat changed)
    | .reserved code, none => .error (.unknownField code)
    | _, none => .ok code

def setTarget (code : Code) (index target : Int) : Except Error Code :=
  Code.set code index .result (.target target)

end Code

inductive Pending where
  | delimiter
  | jump (index : Int)
deriving DecidableEq

/-- The entry for an index; the index before the first instruction delimits. -/
def Pending.ofIndex (index : Int) : Pending :=
  if index = -1 then delimiter else jump index

/-- Code and the stack of what waits for a target, the latest entry first. -/
structure CodeBuffer where
  code : Code := #[]
  pending : List Pending := []

namespace CodeBuffer

def emit (buffer : CodeBuffer) (instruction : Instruction) : CodeBuffer :=
  { buffer with code := buffer.code.push instruction }

def pushPending (buffer : CodeBuffer) (index : Int) : CodeBuffer :=
  { buffer with pending := .ofIndex index :: buffer.pending }

def pushDelimiter (buffer : CodeBuffer) : CodeBuffer :=
  { buffer with pending := .delimiter :: buffer.pending }

/-- Lets every jump down to the nearest delimiter continue at the end of the code, and takes them
and the delimiter off. What came off before a failure stays off. -/
def patchAll (code : Code) : List Pending → Except Code.Error Unit × CodeBuffer
  | [] => (.error .noDelimiter, ⟨code, []⟩)
  | .delimiter :: rest => (.ok (), ⟨code, rest⟩)
  | .jump index :: rest =>
    match Code.setTarget code index code.size with
    | .ok patched => patchAll patched rest
    | .error failure => (.error failure, ⟨code, rest⟩)

def patchPending (buffer : CodeBuffer) : Except Code.Error Unit × CodeBuffer :=
  patchAll buffer.code buffer.pending

def take (buffer : CodeBuffer) (depth : Int) : Except Code.Error (Int × CodeBuffer) :=
  if depth < 0 then .error (.underflow depth buffer.pending.length)
  else
    match buffer.pending[depth.toNat]? with
    | none => .error (.underflow depth buffer.pending.length)
    | some .delimiter => .error (.delimiterTaken depth)
    | some (.jump index) =>
      .ok (index, { buffer with pending := buffer.pending.eraseIdx depth.toNat })

def patchOne (buffer : CodeBuffer) (depth : Int) : Except Code.Error Unit × CodeBuffer :=
  match buffer.take depth with
  | .error failure => (.error failure, buffer)
  | .ok (index, taken) =>
    match Code.setTarget taken.code index taken.code.size with
    | .ok patched => (.ok (), { taken with code := patched })
    | .error failure => (.error failure, taken)

end CodeBuffer

end Quadruple
