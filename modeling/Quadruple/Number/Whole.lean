import Quadruple.Number.Reader

/-!
Whole numbers as people write them for programs: in decimal digits, or with a mark for base two,
eight or sixteen in front. A leading zero alone is the mark of base eight too. An underscore may
stand between digits, or between a mark and a digit.
-/

namespace Quadruple.Number

inductive WholeError where
  | malformed
  | outOfRange
deriving DecidableEq

def WholeError.message : WholeError → String
  | malformed => "parse error"
  | outOfRange => "value out of range"

def baseOfMark? (mark : Char) : Option Nat :=
  if mark = 'b' || mark = 'B' then some 2
  else if mark = 'o' || mark = 'O' then some 8
  else if mark = 'x' || mark = 'X' then some 16
  else none

/-- Reads digits of a base up to the end of the text. The value stays below a bound; what is wrong
first decides. -/
def readWhole (base bound value : Nat) : List Char → Except WholeError Nat
  | [] => .ok value
  | '_' :: rest => readWhole base bound value rest
  | character :: rest =>
    match hexValue? character with
    | none => .error .malformed
    | some digit =>
      if base ≤ digit then .error .malformed
      else if bound ≤ value * base + digit then .error .outOfRange
      else readWhole base bound (value * base + digit) rest

def markedWhole (base bound : Nat) (body : List Char) : Except WholeError Nat := do
  let value ← readWhole base bound 0 body
  if underscoresFit (base = 16) .digit body then return value else throw .malformed

/-- Digits without a mark; those behind a leading zero are of base eight. -/
def plainWhole (bound : Nat) (text : List Char) : Except WholeError Nat := do
  let base := if text.head? = some '0' then 8 else 10
  let value ← readWhole base bound 0 text
  if underscoresFit false .start text then return value else throw .malformed

def natural (bound : Nat) (text : List Char) : Except WholeError Nat :=
  match text with
  | [] => .error .malformed
  | '0' :: mark :: first :: rest =>
    match baseOfMark? mark with
    | some base => markedWhole base bound (first :: rest)
    | none => plainWhole bound text
  | text => plainWhole bound text

def word64 (text : String) : Except WholeError Nat :=
  natural UInt64.size text.toList

def integer64 (text : String) : Except WholeError Int := do
  let (negative, body) := splitSign text.toList
  let magnitude ← natural UInt64.size body
  let value : Int := if negative then -magnitude else magnitude
  if fitsInt64 value then return value else throw .outOfRange

end Quadruple.Number
