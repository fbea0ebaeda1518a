/-!
Double-precision floats as a sign, a mantissa and a power of two. Conversions to and from whole
numbers, remainders and the reading of binary notations go through this form, in which they are
exact arithmetic on natural numbers.
-/

namespace Quadruple.Number

/-- The number `± magnitude * 2 ^ exponent`. -/
structure Scaled where
  negative : Bool
  magnitude : Nat
  exponent : Int
deriving DecidableEq

def leastExponent : Int := -1074

def mantissaBits : Nat := 53

/-- The implicit bit of a mantissa, which is the number of fractions too. -/
def fractionUnit : Nat := 0x10000000000000

def signBit (negative : Bool) : UInt64 :=
  if negative then 0x8000000000000000 else 0

def infinity (negative : Bool) : Float :=
  Float.ofBits (signBit negative ||| 0x7ff0000000000000)

def notANumber : Float :=
  Float.ofBits 0x7ff8000000000001

def scaled? (number : Float) : Option Scaled :=
  let bits := number.toBits.toNat
  let negative := 0x8000000000000000 ≤ bits
  let field : Nat := bits / fractionUnit % 2048
  let fraction : Nat := bits % fractionUnit
  if field = 2047 then none
  else if field = 0 then some ⟨negative, fraction, leastExponent⟩
  else some ⟨negative, fractionUnit + fraction, (field : Int) - 1075⟩

/-- Divides by a power of two and rounds to the nearest whole number, a tie to the even one. -/
def roundShift (magnitude shift : Nat) : Nat :=
  let quotient := magnitude >>> shift
  let twice := 2 * (magnitude - quotient <<< shift)
  let unit := 1 <<< shift
  if unit < twice || (twice = unit && quotient % 2 = 1) then quotient + 1 else quotient

/-- The nearest float, a tie going to the even mantissa; too large a number becomes infinite. -/
def Scaled.toFloat (number : Scaled) : Float :=
  if number.magnitude = 0 then Float.ofBits (signBit number.negative)
  else
    let places := number.exponent + (number.magnitude.log2 + 1 : Nat) - mantissaBits
    let last := max places leastExponent
    let shift := last - number.exponent
    let mantissa :=
      if shift ≤ 0 then number.magnitude <<< (-shift).toNat
      else roundShift number.magnitude shift.toNat
    let bits := (last - leastExponent).toNat * fractionUnit + mantissa
    if 0x7ff0000000000000 ≤ bits then infinity number.negative
    else Float.ofBits (signBit number.negative ||| UInt64.ofNat bits)

def Scaled.truncate (number : Scaled) : Int :=
  let whole :=
    if number.exponent ≤ 0 then number.magnitude >>> (-number.exponent).toNat
    else number.magnitude <<< number.exponent.toNat
  if number.negative then -(whole : Int) else whole

def fitsInt64 (number : Int) : Bool :=
  -9223372036854775808 ≤ number && number ≤ 9223372036854775807

/-- The whole part as a machine word. What is not a number gives zero, and what no word can hold
gives the least word. -/
def truncate (number : Float) : Int64 :=
  if number.isNaN then 0
  else
    match scaled? number with
    | none => Int64.minValue
    | some exact =>
      let whole := exact.truncate
      if fitsInt64 whole then Int64.ofInt whole else Int64.minValue

def widen (word : Int64) : Float :=
  (Scaled.mk (word.toInt < 0) word.toInt.natAbs 0).toFloat

/-- The remainder of the division truncated toward zero, with the sign of the dividend. It is
always representable; there is none for an infinite dividend or a zero divisor. -/
def remainder (dividend divisor : Float) : Float :=
  if dividend.isNaN || divisor.isNaN then notANumber
  else
    match scaled? dividend, scaled? divisor with
    | none, _ => notANumber
    | some _, none => dividend
    | some left, some right =>
      if right.magnitude = 0 then notANumber
      else
        let common := min left.exponent right.exponent
        let whole := left.magnitude <<< (left.exponent - common).toNat
        let part := right.magnitude <<< (right.exponent - common).toNat
        (Scaled.mk left.negative (whole % part) common).toFloat

end Quadruple.Number
