import Quadruple.Number.Binary64

/-!
Float numerals: decimal notation, hexadecimal notation with a binary exponent, and the names of
infinity and of what is not a number, in any letter case. An underscore may stand between digits,
or between the hexadecimal mark and a digit.
-/

namespace Quadruple.Number

/-- What a float numeral denotes, before rounding. The digits of a decimal are its significant
ones, the last digit first. -/
inductive Numeral where
  | notANumber
  | infinite (negative : Bool)
  | decimal (negative : Bool) (digits : List Nat) (exponent : Int)
  | binary (exact : Scaled)
deriving DecidableEq

def hexValue? (character : Char) : Option Nat :=
  if '0' ≤ character && character ≤ '9' then some (character.toNat - '0'.toNat)
  else if 'a' ≤ character && character ≤ 'f' then some (character.toNat - 'a'.toNat + 10)
  else if 'A' ≤ character && character ≤ 'F' then some (character.toNat - 'A'.toNat + 10)
  else none

def digitValue? (hexadecimal : Bool) (character : Char) : Option Nat :=
  if hexadecimal || character.isDigit then hexValue? character else none

def spelled (base : Nat) (digits : List Nat) : Nat :=
  digits.foldr (fun digit value => value * base + digit) 0

/-- Digits read so far: the last one first without the zeros that lead them, how many there were
with those, and how many stood behind the point. -/
structure Mantissa where
  digits : List Nat
  count : Nat
  places : Nat
  pointed : Bool

def Mantissa.push (read : Mantissa) (digit : Nat) : Mantissa where
  digits := if digit = 0 && read.digits.isEmpty then [] else digit :: read.digits
  count := read.count + 1
  places := if read.pointed then read.places + 1 else read.places
  pointed := read.pointed

def readMantissa (hexadecimal : Bool) (read : Mantissa) : List Char → Mantissa × List Char
  | [] => (read, [])
  | character :: rest =>
    if character = '_' then readMantissa hexadecimal read rest
    else if character = '.' then
      if read.pointed then (read, character :: rest)
      else readMantissa hexadecimal { read with pointed := true } rest
    else
      match digitValue? hexadecimal character with
      | none => (read, character :: rest)
      | some digit => readMantissa hexadecimal (read.push digit) rest

/-- Exponents are read up to this size; beyond it further digits make no difference. -/
def exponentBound : Nat := 10000

def readExponent (value : Nat) : List Char → Option Nat
  | [] => some value
  | character :: rest =>
    if character = '_' then readExponent value rest
    else if character.isDigit then
      let digit := character.toNat - '0'.toNat
      readExponent (if value < exponentBound then value * 10 + digit else value) rest
    else none

def splitSign : List Char → Bool × List Char
  | '-' :: rest => (true, rest)
  | '+' :: rest => (false, rest)
  | unsigned => (false, unsigned)

def signedExponent? (text : List Char) : Option Int :=
  let (negative, magnitude) := splitSign text
  match magnitude with
  | first :: _ =>
    if first.isDigit then
      (readExponent 0 magnitude).map fun value => if negative then -(value : Int) else value
    else none
  | [] => none

/-- What the last character was, for the placing of underscores. -/
inductive Before where
  | start | digit | underscore | other
deriving DecidableEq

def underscoresFit (hexadecimal : Bool) : Before → List Char → Bool
  | before, [] => before ≠ .underscore
  | before, character :: rest =>
    if (digitValue? hexadecimal character).isSome then underscoresFit hexadecimal .digit rest
    else if character = '_' then before = .digit && underscoresFit hexadecimal .underscore rest
    else before ≠ .underscore && underscoresFit hexadecimal .other rest

def hexadecimalBody? : List Char → Option (List Char)
  | '0' :: mark :: first :: rest => if mark = 'x' || mark = 'X' then some (first :: rest) else none
  | _ => none

/-- Decimal notation: digits with at most one point, then perhaps an exponent. -/
def decimal? (negative : Bool) (body : List Char) : Option Numeral :=
  let (mantissa, rest) := readMantissa false ⟨[], 0, 0, false⟩ body
  let exponent? :=
    match rest with
    | [] => some 0
    | mark :: power => if mark = 'e' || mark = 'E' then signedExponent? power else none
  if mantissa.count = 0 || !underscoresFit false .start body then none
  else exponent?.map fun exponent =>
    .decimal negative mantissa.digits (exponent - mantissa.places)

/-- Hexadecimal notation behind its mark; the binary exponent is required. -/
def hexadecimal? (negative : Bool) (body : List Char) : Option Numeral :=
  let (mantissa, rest) := readMantissa true ⟨[], 0, 0, false⟩ body
  let exponent? :=
    match rest with
    | [] => none
    | mark :: power => if mark = 'p' || mark = 'P' then signedExponent? power else none
  if mantissa.count = 0 || !underscoresFit true .digit body then none
  else exponent?.map fun exponent =>
    .binary ⟨negative, spelled 16 mantissa.digits, exponent - 4 * mantissa.places⟩

def isNamed : List Char → List Char → Bool
  | [], [] => true
  | letter :: name, character :: text => character.toLower = letter && isNamed name text
  | _, _ => false

def numeral? (text : List Char) : Option Numeral :=
  let (negative, body) := splitSign text
  if isNamed "inf".toList body || isNamed "infinity".toList body then some (.infinite negative)
  else if isNamed "nan".toList text then some .notANumber
  else
    match hexadecimalBody? body with
    | some behind => hexadecimal? negative behind
    | none => decimal? negative body

/-- A decimal whose leading digit stands at or above this exponent of ten is beyond every float. -/
def decimalCeiling : Int := 310

/-- A decimal that lies below this exponent of ten rounds to zero. -/
def decimalFloor : Int := -330

/-- The nearest float. The number of digits tells most of what is out of range, so that only a
decimal near the range of the floats is spelled out. -/
def decimalToFloat (negative : Bool) (digits : List Nat) (exponent : Int) : Float :=
  let leading := exponent + digits.length
  let magnitude :=
    if digits.isEmpty || leading < decimalFloor then 0
    else if decimalCeiling < leading then infinity false
    else Float.ofScientific (spelled 10 digits) (exponent < 0) exponent.natAbs
  if negative then -magnitude else magnitude

/-- The nearest float, or none when a finite numeral lies beyond the finite floats. -/
def Numeral.toFloat? : Numeral → Option Float
  | .notANumber => some Number.notANumber
  | .infinite negative => some (infinity negative)
  | .decimal negative digits exponent =>
    let float := decimalToFloat negative digits exponent
    if float.isInf then none else some float
  | .binary exact =>
    let float := exact.toFloat
    if float.isInf then none else some float

end Quadruple.Number
