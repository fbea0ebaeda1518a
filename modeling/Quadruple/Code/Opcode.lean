import Quadruple.Report

/-!
Opcodes. An operator is the opcode of the instruction that it compiles to, apart from division,
which becomes integer or float division by the types of its operands.
-/

namespace Quadruple

def assignedOpcode (code : UInt8) : Bool :=
  code ≤ 0x05 || (0x10 ≤ code && code ≤ 0x16) || (0x20 ≤ code && code ≤ 0x25) ||
    (0x30 ≤ code && code ≤ 0x46)

inductive Opcode where
  | nop
  | goto
  /-- Continue at the target if the left operand holds. -/
  | gotoTrue
  /-- Continue at the target unless the left operand holds. -/
  | gotoFalse
  | init
  | exit
  | load
  | store
  /-- The element of the left operand at the right operand, to a cell. -/
  | loadElement
  /-- A cell, to the element of the left operand at the right operand. -/
  | storeElement
  /-- Cells for an object, and a pointer to them to a cell. -/
  | malloc
  | floatToInt
  | intToFloat
  | openRecord
  /-- Pass the left operand as the argument in the result cell. -/
  | param
  | call
  | ret
  | nativeParam
  | nativeCall
  | or
  | and
  | bitOr
  | bitXor
  | bitAnd
  | eq
  | ne
  | gt
  | ge
  | lt
  | le
  | shl
  | shr
  | add
  | sub
  | mul
  /-- Division in a source program; never part of compiled code. -/
  | div
  | mod
  | assign
  | not
  | bitNot
  /-- Division of integers, toward zero. -/
  | intDiv
  | floatDiv
  | reserved (code : UInt8) (unassigned : assignedOpcode code = false)
deriving DecidableEq

namespace Opcode

def code : Opcode → UInt8
  | nop => 0x00 | goto => 0x01 | gotoTrue => 0x02 | gotoFalse => 0x03 | init => 0x04 | exit => 0x05
  | load => 0x10 | store => 0x11 | loadElement => 0x12 | storeElement => 0x13 | malloc => 0x14
  | floatToInt => 0x15 | intToFloat => 0x16
  | openRecord => 0x20 | param => 0x21 | call => 0x22 | ret => 0x23 | nativeParam => 0x24
  | nativeCall => 0x25
  | or => 0x30 | and => 0x31 | bitOr => 0x32 | bitXor => 0x33 | bitAnd => 0x34 | eq => 0x35
  | ne => 0x36 | gt => 0x37 | ge => 0x38 | lt => 0x39 | le => 0x3a | shl => 0x3b | shr => 0x3c
  | add => 0x3d | sub => 0x3e | mul => 0x3f | div => 0x40 | mod => 0x41 | assign => 0x42
  | not => 0x43 | bitNot => 0x44 | intDiv => 0x45 | floatDiv => 0x46
  | reserved code _ => code

/-- The opcodes that have a meaning, in the order of their codes. -/
def assigned : List Opcode :=
  [nop, goto, gotoTrue, gotoFalse, init, exit, load, store, loadElement, storeElement, malloc,
    floatToInt, intToFloat, openRecord, param, call, ret, nativeParam, nativeCall, or, and, bitOr,
    bitXor, bitAnd, eq, ne, gt, ge, lt, le, shl, shr, add, sub, mul, div, mod, assign, not, bitNot,
    intDiv, floatDiv]

def ofCode (code : UInt8) : Opcode :=
  if free : assignedOpcode code = false then reserved code free
  else (assigned.find? fun opcode => opcode.code == code).getD nop

def name : Opcode → String
  | nop => "NOP" | goto => "GOTO" | gotoTrue => "GOTO_T" | gotoFalse => "GOTO_F" | init => "INIT"
  | exit => "EXIT" | load => "LOAD" | store => "STORE" | loadElement => "ALOAD"
  | storeElement => "ASTORE" | malloc => "MALLOC" | floatToInt => "F2I" | intToFloat => "I2F"
  | openRecord => "AIR" | param => "PARAM" | call => "CALL" | ret => "RETURN"
  | nativeParam => "NPARAM" | nativeCall => "NCALL" | or => "OR" | and => "AND" | bitOr => "BOR"
  | bitXor => "BXOR" | bitAnd => "BAND" | eq => "EQ" | ne => "NE" | gt => "GT" | ge => "GE"
  | lt => "LT" | le => "LE" | shl => "SHL" | shr => "SHR" | add => "ADD" | sub => "SUB"
  | mul => "MUL" | div => "DIV" | mod => "MOD" | assign => "ASSIGN" | not => "NOT"
  | bitNot => "BNOT" | intDiv => "IDIV" | floatDiv => "FDIV"
  | reserved code _ => "UNKNOWN_" ++ Text.upperHexPadded 2 code.toNat

/-- How a source program writes the operator; empty for an opcode that is none. -/
def symbol : Opcode → String
  | or => "||" | and => "&&" | bitOr => "|" | bitXor => "^" | bitAnd => "&" | eq => "==" | ne => "!="
  | gt => ">" | ge => ">=" | lt => "<" | le => "<=" | shl => "<<" | shr => ">>" | add => "+"
  | sub => "-" | mul => "*" | div | intDiv | floatDiv => "/" | mod => "%" | assign => "=" | not => "!"
  | bitNot => "~"
  | _ => ""

def arity : Opcode → Nat
  | floatToInt | intToFloat | not | bitNot => 1
  | or | and | bitOr | bitXor | bitAnd | eq | ne | gt | ge | lt | le | shl | shr | add | sub | mul
  | div | mod | assign | intDiv | floatDiv => 2
  | _ => 0

/-- Arithmetic, logic, comparison and assignment. Conversions are not counted. -/
def isOperator (opcode : Opcode) : Bool :=
  0x30 ≤ opcode.code && opcode.code ≤ 0x46

def isJump : Opcode → Bool
  | goto | gotoTrue | gotoFalse => true
  | _ => false

def hasTarget : Opcode → Bool
  | goto | gotoTrue | gotoFalse | call => true
  | _ => false

def sourceOperators : List Opcode :=
  [or, and, bitOr, bitXor, bitAnd, eq, ne, gt, ge, lt, le, shl, shr, add, sub, mul, div, mod,
    assign, not, bitNot]

def ofSymbol? (text : String) : Option Opcode :=
  sourceOperators.find? fun opcode => opcode.symbol == text

end Opcode

end Quadruple
