import Quadruple.Number.Shortest
import Quadruple.Text.Numeral

/-!
Floats as text, always with the fewest digits that read back: in positional notation throughout, or
with an exponent for very small and very large numbers.
-/

namespace Quadruple.Number

open Quadruple.Text

def zeros (count : Nat) : String :=
  String.ofList (List.replicate count '0')

def Decimal.positional (decimal : Decimal) : String :=
  let text := digits 10 decimal.significand
  if 0 ≤ decimal.exponent then
    if decimal.significand = 0 then "0" else text ++ zeros decimal.exponent.toNat
  else
    let places := (-decimal.exponent).toNat
    if places < text.length then
      let cut := text.length - places
      String.ofList (text.toList.take cut) ++ "." ++ String.ofList (text.toList.drop cut)
    else "0." ++ zeros (places - text.length) ++ text

def Decimal.leading (decimal : Decimal) : Int :=
  decimal.exponent + (digitCount decimal.significand : Int) - 1

def Decimal.scientific (decimal : Decimal) : String :=
  let fraction := (Nat.toDigits 10 decimal.significand).drop 1
  let point := if fraction.isEmpty then "" else "." ++ String.ofList fraction
  let sign := if decimal.leading < 0 then "-" else "+"
  String.ofList ((Nat.toDigits 10 decimal.significand).take 1) ++ point ++ "e" ++ sign ++
    zeroPadded 2 decimal.leading.natAbs

def written (layout : Decimal → String) (number : Float) : String :=
  if number.isNaN then "NaN"
  else
    match scaled? number with
    | none => if number.toBits.toNat < 0x8000000000000000 then "+Inf" else "-Inf"
    | some exact =>
      let sign := if exact.negative then "-" else ""
      sign ++ layout (shortest exact.magnitude exact.exponent)

def positional : Float → String :=
  written Decimal.positional

/-- Positional notation from `1e-4` up to, not including, `1e6`; an exponent elsewhere. -/
def general : Float → String :=
  written fun decimal =>
    if decimal.significand ≠ 0 && (decimal.leading < -4 || 6 ≤ decimal.leading) then
      decimal.scientific
    else decimal.positional

end Quadruple.Number
