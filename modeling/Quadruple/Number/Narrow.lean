import Quadruple.Number.Binary64

/-!
The narrower binary formats of floating-point numbers. A float narrows to a format only if the
format has exactly that number.
-/

namespace Quadruple.Number

/-- A binary format: the bits of its fraction and of its exponent. -/
structure BinaryFormat where
  fractionBits : Nat
  exponentBits : Nat

namespace BinaryFormat

def half : BinaryFormat := ⟨10, 5⟩

def single : BinaryFormat := ⟨23, 8⟩

def bias (format : BinaryFormat) : Nat :=
  Nat.pow 2 (format.exponentBits - 1) - 1

def leastExponent (format : BinaryFormat) : Int :=
  1 - (format.bias : Int) - format.fractionBits

def special (format : BinaryFormat) : Nat :=
  Nat.pow 2 format.exponentBits - 1

def sign (format : BinaryFormat) (negative : Bool) : Nat :=
  if negative then Nat.pow 2 (format.exponentBits + format.fractionBits) else 0

end BinaryFormat

/-- The number `magnitude * 2 ^ exponent` as a count of units `2 ^ unit`, if it is a whole number of
them. -/
def Scaled.units? (number : Scaled) (unit : Int) : Option Nat :=
  let shift := number.exponent - unit
  if 0 ≤ shift then some (number.magnitude <<< shift.toNat)
  else
    let divisor := Nat.pow 2 (-shift).toNat
    if number.magnitude % divisor = 0 then some (number.magnitude / divisor) else none

def Scaled.narrow? (number : Scaled) (format : BinaryFormat) : Option Nat :=
  if number.magnitude = 0 then some (format.sign number.negative)
  else
    let lowest := number.exponent + (number.magnitude.log2 : Nat) - format.fractionBits
    let unit := max lowest format.leastExponent
    match number.units? unit with
    | none => none
    | some units =>
      let bits := (unit - format.leastExponent).toNat * Nat.pow 2 format.fractionBits + units
      if bits < format.special * Nat.pow 2 format.fractionBits then
        some (format.sign number.negative + bits)
      else none

def BinaryFormat.infinity (format : BinaryFormat) (negative : Bool) : Nat :=
  format.sign negative + format.special * Nat.pow 2 format.fractionBits

def BinaryFormat.notANumber (format : BinaryFormat) : Nat :=
  format.infinity false + Nat.pow 2 (format.fractionBits - 1)

def BinaryFormat.toFloat (format : BinaryFormat) (bits : Nat) : Float :=
  let negative : Bool := bits / Nat.pow 2 (format.exponentBits + format.fractionBits) % 2 = 1
  let field := bits / Nat.pow 2 format.fractionBits % Nat.pow 2 format.exponentBits
  let fraction := bits % Nat.pow 2 format.fractionBits
  if field = format.special then
    if fraction = 0 then Number.infinity negative else Number.notANumber
  else if field = 0 then (Scaled.mk negative fraction format.leastExponent).toFloat
  else
    (Scaled.mk negative (Nat.pow 2 format.fractionBits + fraction)
      (format.leastExponent + (field - 1 : Nat))).toFloat

end Quadruple.Number
