import Quadruple.Number.Binary64

/-!
The fewest decimal digits that read back as a given float. On each decimal grid, from one digit up
to seventeen, the two grid points next to the float are tried; a point is taken when it lies among
the reals that round to the float, and of two such points the nearer one.
-/

namespace Quadruple.Number

/-- The decimal `significand * 10 ^ exponent`. -/
structure Decimal where
  significand : Nat
  exponent : Int
deriving DecidableEq

def digitCount (number : Nat) : Nat :=
  (Nat.toDigits 10 number).length

/-- The exponent of ten of the leading digit of `magnitude * 2 ^ exponent`, for a positive
magnitude. -/
def leadingExponent (magnitude : Nat) (exponent : Int) : Int :=
  if 0 ≤ exponent then (digitCount (magnitude <<< exponent.toNat) : Int) - 1
  else
    let unit := 1 <<< (-exponent).toNat
    if unit ≤ magnitude then (digitCount (magnitude / unit) : Int) - 1
    else -(digitCount ((unit + magnitude - 1) / magnitude - 1) : Int)

/-- The reals that round to a float, measured in quarters of its last place: the float itself, the
two ends, and whether the ends belong to it. -/
structure Rounding where
  centre : Nat
  low : Nat
  high : Nat
  closed : Bool

def Rounding.of (magnitude : Nat) (exponent : Int) : Rounding :=
  let narrow := magnitude = fractionUnit && leastExponent < exponent
  { centre := 4 * magnitude
    low := if narrow then 4 * magnitude - 1 else 4 * magnitude - 2
    high := 4 * magnitude + 2
    closed := magnitude % 2 = 0 }

def Rounding.admits (interval : Rounding) (point numerator denominator : Nat) : Bool :=
  let here := point * denominator
  let low := interval.low * numerator
  let high := interval.high * numerator
  if interval.closed then low ≤ here && here ≤ high else low < here && here < high

/-- The point of the grid of `10 ^ gridExponent` that reads back, if there is one. -/
def gridPoint (interval : Rounding) (exponent gridExponent : Int) : Option Nat :=
  let quarter := exponent - 2
  let numerator := Nat.pow 2 quarter.toNat * Nat.pow 10 (-gridExponent).toNat
  let denominator := Nat.pow 2 (-quarter).toNat * Nat.pow 10 gridExponent.toNat
  let centre := interval.centre * numerator
  let below := centre / denominator
  match interval.admits below numerator denominator,
      interval.admits (below + 1) numerator denominator with
  | false, false => none
  | true, false => some below
  | false, true => some (below + 1)
  | true, true =>
    let down := centre - below * denominator
    let up := (below + 1) * denominator - centre
    if down < up || (down = up && below % 2 = 0) then some below else some (below + 1)

/-- The first grid with a point that reads back, of those with the given number of digits and up to
`more` digits beyond. -/
def firstGrid (interval : Rounding) (exponent leading : Int) (count : Nat) : Nat → Decimal
  | 0 => ⟨0, 0⟩
  | more + 1 =>
    let grid := leading - count + 1
    match gridPoint interval exponent grid with
    | some point => ⟨point, grid⟩
    | none => firstGrid interval exponent leading (count + 1) more

def Decimal.strip (decimal : Decimal) : Decimal :=
  let trailing := ((Nat.toDigits 10 decimal.significand).reverse.takeWhile (· == '0')).length
  if decimal.significand = 0 then ⟨0, 0⟩
  else ⟨decimal.significand / Nat.pow 10 trailing, decimal.exponent + trailing⟩

/-- The shortest decimal that reads back as `magnitude * 2 ^ exponent`. -/
def shortest (magnitude : Nat) (exponent : Int) : Decimal :=
  if magnitude = 0 then ⟨0, 0⟩
  else (firstGrid (.of magnitude exponent) exponent (leadingExponent magnitude exponent) 1 17).strip

end Quadruple.Number
