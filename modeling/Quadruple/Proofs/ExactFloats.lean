import Mathlib
import Quadruple.Proofs.Encoding

/-!
Floats that survive a narrower format. Every finite float is a whole number of the units in which the
smallest one is counted, and what a sign, a magnitude and a power of two say about a float depends on
the sign and that number only. A format that has the number therefore gives the float back.
-/

namespace Quadruple.Number

variable {number : Float} {exact : Scaled} {format : BinaryFormat}
  {magnitude last bits mantissa fraction field count : Nat} {negative : Bool} {unit : Int}

/-! ### Magnitudes in units of the smallest float -/

theorem log2_mul_two_pow (positive : magnitude ≠ 0) (shift : Nat) :
    (magnitude * 2 ^ shift).log2 = magnitude.log2 + shift := by
  have power : 0 < 2 ^ shift := Nat.two_pow_pos shift
  apply (Nat.log2_eq_iff (Nat.mul_ne_zero positive power.ne')).2
  constructor
  · rw [Nat.pow_add]
    exact Nat.mul_le_mul_right _ (Nat.log2_self_le positive)
  · rw [Nat.add_right_comm, Nat.pow_add]
    exact Nat.mul_lt_mul_of_pos_right Nat.lt_log2_self power

def Scaled.units (exact : Scaled) : Nat :=
  exact.magnitude * 2 ^ (exact.exponent - leastExponent).toNat

def lastPlace (units : Nat) : Nat :=
  units.log2 - 52

def ofUnits (negative : Bool) (units : Nat) : Float :=
  if 0x7ff0000000000000 ≤ lastPlace units * fractionUnit + units / 2 ^ lastPlace units then
    infinity negative
  else
    Float.ofBits (signBit negative |||
      UInt64.ofNat (lastPlace units * fractionUnit + units / 2 ^ lastPlace units))

theorem roundShift_mul (quotient shift : Nat) : roundShift (quotient * 2 ^ shift) shift = quotient := by
  have power : 0 < 2 ^ shift := Nat.two_pow_pos shift
  have whole : (quotient * 2 ^ shift) >>> shift = quotient := by
    rw [Nat.shiftRight_eq_div_pow, Nat.mul_div_cancel _ power]
  have none : 2 * (quotient * 2 ^ shift - quotient <<< shift) = 0 := by
    rw [Nat.shiftLeft_eq, Nat.sub_self, Nat.mul_zero]
  have unit : 1 <<< shift = 2 ^ shift := by rw [Nat.shiftLeft_eq, Nat.one_mul]
  unfold roundShift
  simp only [whole, none, unit]
  rw [if_neg]
  simp only [Bool.or_eq_true, Bool.and_eq_true, decide_eq_true_eq]
  omega

theorem ofUnits_zero (negative : Bool) : ofUnits negative 0 = Float.ofBits (signBit negative) := by
  have place : lastPlace 0 = 0 := by decide
  unfold ofUnits
  rw [place, if_neg (by decide)]
  cases negative <;> rfl

theorem mantissa_eq {shift : Nat} (fits : 2 ^ last ∣ magnitude * 2 ^ shift) :
    (if (last : Int) - shift ≤ 0 then magnitude <<< (-((last : Int) - shift)).toNat
      else roundShift magnitude ((last : Int) - shift).toNat) = magnitude * 2 ^ shift / 2 ^ last := by
  have power : 0 < 2 ^ last := Nat.two_pow_pos last
  by_cases up : last ≤ shift
  · rw [if_pos (by omega), Nat.shiftLeft_eq, show (-((last : Int) - shift)).toNat = shift - last by omega]
    apply (Nat.div_eq_of_eq_mul_left power _).symm
    rw [Nat.mul_assoc, ← Nat.pow_add, Nat.sub_add_cancel up]
  · obtain ⟨down, rfl⟩ : ∃ down, last = down + shift := ⟨last - shift, by omega⟩
    rw [Nat.pow_add] at fits
    obtain ⟨quotient, rfl⟩ := Nat.dvd_of_mul_dvd_mul_right (Nat.two_pow_pos shift) fits
    rw [if_neg (by omega), show (((down + shift : Nat) : Int) - shift).toNat = down by omega,
      Nat.mul_comm (2 ^ down), roundShift_mul, Nat.mul_assoc, ← Nat.pow_add,
      Nat.mul_div_cancel _ power]

/-- What has no places below the last one of its float is that float. -/
theorem Scaled.toFloat_eq_ofUnits (fine : leastExponent ≤ exact.exponent)
    (fits : 2 ^ lastPlace exact.units ∣ exact.units) :
    exact.toFloat = ofUnits exact.negative exact.units := by
  obtain ⟨negative, magnitude, exponent⟩ := exact
  by_cases zero : magnitude = 0
  · subst zero
    have none : (Scaled.mk negative 0 exponent).units = 0 := Nat.zero_mul _
    rw [none, ofUnits_zero]
    exact if_pos rfl
  · obtain ⟨shift, rfl⟩ : ∃ shift : Nat, exponent = leastExponent + shift :=
      ⟨(exponent - leastExponent).toNat, by simp only at fine; omega⟩
    have units : (Scaled.mk negative magnitude (leastExponent + shift)).units =
        magnitude * 2 ^ shift := by
      show magnitude * 2 ^ (leastExponent + shift - leastExponent).toNat = _
      congr 2
      omega
    rw [units] at fits ⊢
    have last : max (leastExponent + shift + (magnitude.log2 + 1 : Nat) - mantissaBits)
        leastExponent = leastExponent + lastPlace (magnitude * 2 ^ shift) := by
      unfold lastPlace mantissaBits
      rw [log2_mul_two_pow zero shift]
      omega
    have mantissa := mantissa_eq fits
    unfold toFloat ofUnits
    simp only [if_neg zero, last]
    rw [add_sub_add_left_eq_sub, mantissa, add_sub_cancel_left, Int.toNat_natCast]

theorem Scaled.toFloat_congr {other : Scaled} (fine : leastExponent ≤ exact.exponent)
    (fine' : leastExponent ≤ other.exponent) (sign : other.negative = exact.negative)
    (same : other.units = exact.units) (fits : 2 ^ lastPlace exact.units ∣ exact.units) :
    other.toFloat = exact.toFloat := by
  rw [toFloat_eq_ofUnits fine fits, toFloat_eq_ofUnits fine' (same ▸ fits), sign, same]

/-! ### Floats and their exact forms -/

theorem signBit_or (small : bits < 0x8000000000000000) (negative : Bool) :
    signBit negative ||| UInt64.ofNat bits =
      UInt64.ofNat (negative.toNat * 0x8000000000000000 + bits) := by
  have whole : negative.toNat * 0x8000000000000000 + bits < 2 ^ 64 := by
    have := negative.toNat_le
    omega
  apply UInt64.toNat.inj
  rw [UInt64.toNat_or, UInt64.toNat_ofNat', UInt64.toNat_ofNat', Nat.mod_eq_of_lt whole,
    Nat.mod_eq_of_lt (by omega)]
  cases negative with
  | false => simp [signBit]
  | true =>
    have apart := Nat.two_pow_add_eq_or_of_lt (i := 63) small 1
    simpa [signBit] using apart.symm

theorem ofBits_toNat (same : bits = number.toBits.toNat) : Float.ofBits (UInt64.ofNat bits) = number := by
  rw [same, UInt64.ofNat_toNat, Float.ofBits_toBits]

theorem ofUnits_mul (place : lastPlace (mantissa * 2 ^ last) = last)
    (finite : last * fractionUnit + mantissa < 0x7ff0000000000000) (negative : Bool) :
    ofUnits negative (mantissa * 2 ^ last) =
      Float.ofBits (UInt64.ofNat
        (negative.toNat * 0x8000000000000000 + (last * fractionUnit + mantissa))) := by
  unfold ofUnits
  rw [place, Nat.mul_div_cancel _ (Nat.two_pow_pos last), if_neg (by omega), signBit_or (by omega)]

/-- The exact form of a float is a whole number of units, and is the float. -/
structure Scaled.Is (exact : Scaled) (number : Float) : Prop where
  fine : leastExponent ≤ exact.exponent
  fits : 2 ^ lastPlace exact.units ∣ exact.units
  toFloat : exact.toFloat = number

theorem Scaled.is_of_units (fine : leastExponent ≤ exact.exponent) (units : exact.units = mantissa * 2 ^ last)
    (place : lastPlace (mantissa * 2 ^ last) = last)
    (finite : last * fractionUnit + mantissa < 0x7ff0000000000000)
    (bits : exact.negative.toNat * 0x8000000000000000 + (last * fractionUnit + mantissa) =
      number.toBits.toNat) : exact.Is number := by
  have fits : 2 ^ lastPlace exact.units ∣ exact.units := by
    rw [units, place]
    exact Nat.dvd_mul_left _ _
  refine ⟨fine, fits, ?_⟩
  rw [toFloat_eq_ofUnits fine fits, units, ofUnits_mul place finite, ofBits_toNat bits]

theorem Scaled.is_subnormal (small : fraction < fractionUnit)
    (bits : negative.toNat * 0x8000000000000000 + fraction = number.toBits.toNat) :
    (Scaled.mk negative fraction leastExponent).Is number := by
  have units : (Scaled.mk negative fraction leastExponent).units = fraction * 2 ^ 0 := by
    unfold Scaled.units
    rw [sub_self, Int.toNat_zero]
  have place : lastPlace (fraction * 2 ^ 0) = 0 := by
    unfold lastPlace
    rw [Nat.pow_zero, Nat.mul_one]
    by_cases zero : fraction = 0
    · rw [zero, Nat.log2_zero]
    · have := (Nat.log2_lt zero).2 (show fraction < 2 ^ 52 from small)
      omega
  unfold fractionUnit at small
  apply Scaled.is_of_units (le_refl _) units place
  · omega
  · simp only
    omega

theorem Scaled.is_normal (small : fraction < fractionUnit) (normal : field ≠ 0) (finite : field < 2047)
    (bits : negative.toNat * 0x8000000000000000 + (field * fractionUnit + fraction) = number.toBits.toNat) :
    (Scaled.mk negative (fractionUnit + fraction) ((field : Int) - 1075)).Is number := by
  have units : (Scaled.mk negative (fractionUnit + fraction) ((field : Int) - 1075)).units =
      (fractionUnit + fraction) * 2 ^ (field - 1) := by
    unfold Scaled.units leastExponent
    simp only
    congr 2
    omega
  have unit : fractionUnit = 2 ^ 52 := rfl
  rw [unit] at small bits
  have mantissa : (fractionUnit + fraction).log2 = 52 :=
    (Nat.log2_eq_iff (by omega)).2 ⟨by omega, by omega⟩
  have place : lastPlace ((fractionUnit + fraction) * 2 ^ (field - 1)) = field - 1 := by
    unfold lastPlace
    rw [log2_mul_two_pow (by omega), mantissa]
    omega
  have fine : leastExponent ≤ (field : Int) - 1075 := by
    unfold leastExponent
    omega
  apply Scaled.is_of_units fine units place
  · rw [unit]
    omega
  · obtain ⟨place, rfl⟩ := Nat.exists_eq_succ_of_ne_zero normal
    rw [Nat.succ_mul, Nat.add_assoc] at bits
    exact bits

theorem toNat_sign {word : Nat} (bounded : word < 2 ^ 64) :
    (decide (0x8000000000000000 ≤ word)).toNat = word / 0x8000000000000000 := by
  by_cases negative : 0x8000000000000000 ≤ word
  · rw [decide_eq_true negative, Bool.toNat_true]
    omega
  · rw [decide_eq_false negative, Bool.toNat_false]
    omega

theorem is_of_scaled? (found : scaled? number = some exact) : exact.Is number := by
  have bounded : number.toBits.toNat < 2 ^ 64 := number.toBits.toNat_lt
  unfold scaled? at found
  generalize bits : number.toBits.toNat = word at found bounded
  have small : word % fractionUnit < fractionUnit := Nat.mod_lt _ (by decide)
  simp only at found
  split at found
  · cases found
  · split at found
    · cases found
      apply Scaled.is_subnormal small
      rw [toNat_sign bounded, bits]
      unfold fractionUnit at *
      omega
    · rename_i normal
      cases found
      apply Scaled.is_normal small normal
      · omega
      · rw [toNat_sign bounded, bits]
        unfold fractionUnit at *
        omega

/-! ### Narrower formats -/

theorem Scaled.units_of_units? (counted : exact.units? unit = some count)
    (fine : leastExponent ≤ exact.exponent) (fine' : leastExponent ≤ unit) (negative : Bool) :
    (Scaled.mk negative count unit).units = exact.units := by
  unfold Scaled.units
  unfold units? at counted
  simp only at counted ⊢
  split at counted
  · cases counted
    rw [Nat.shiftLeft_eq, Nat.mul_assoc, ← Nat.pow_add]
    congr 2
    omega
  · split at counted
    · rename_i whole
      cases counted
      have split : (unit - leastExponent).toNat =
          (-(exact.exponent - unit)).toNat + (exact.exponent - leastExponent).toNat := by omega
      rw [split, Nat.pow_add, ← Nat.mul_assoc]
      congr 1
      exact Nat.div_mul_cancel (Nat.dvd_of_mod_eq_zero whole)
    · cases counted

theorem BinaryFormat.toFloat_fields (small : fraction < 2 ^ format.fractionBits)
    (finite : field < format.special) (negative : Bool) :
    format.toFloat (format.sign negative + (field * 2 ^ format.fractionBits + fraction)) =
      if field = 0 then (Scaled.mk negative fraction format.leastExponent).toFloat
      else
        (Scaled.mk negative (2 ^ format.fractionBits + fraction)
          (format.leastExponent + (field - 1 : Nat))).toFloat := by
  have power : 0 < 2 ^ format.fractionBits := Nat.two_pow_pos _
  have inside : field < 2 ^ format.exponentBits := Nat.lt_of_lt_of_le finite (Nat.sub_le _ _)
  have sign : format.sign negative =
      negative.toNat * 2 ^ format.exponentBits * 2 ^ format.fractionBits := by
    unfold BinaryFormat.sign
    cases negative with
    | false => simp
    | true => simp [Nat.pow_add]
  have upper : (format.sign negative + (field * 2 ^ format.fractionBits + fraction)) /
      2 ^ format.fractionBits = negative.toNat * 2 ^ format.exponentBits + field := by
    rw [sign, ← Nat.add_assoc, ← Nat.add_mul, Nat.add_comm,
      Nat.add_mul_div_right _ _ power, Nat.div_eq_of_lt small, Nat.zero_add]
  have lower : (format.sign negative + (field * 2 ^ format.fractionBits + fraction)) %
      2 ^ format.fractionBits = fraction := by
    rw [sign, ← Nat.add_assoc, ← Nat.add_mul, Nat.add_comm, Nat.add_mul_mod_self_right,
      Nat.mod_eq_of_lt small]
  have top : (format.sign negative + (field * 2 ^ format.fractionBits + fraction)) /
      2 ^ (format.exponentBits + format.fractionBits) = negative.toNat := by
    rw [Nat.add_comm format.exponentBits, Nat.pow_add, ← Nat.div_div_eq_div_mul, upper, Nat.add_comm,
      Nat.add_mul_div_right _ _ (Nat.two_pow_pos _), Nat.div_eq_of_lt inside, Nat.zero_add]
  have middle : (negative.toNat * 2 ^ format.exponentBits + field) % 2 ^ format.exponentBits =
      field := by
    rw [Nat.add_comm, Nat.add_mul_mod_self_right, Nat.mod_eq_of_lt inside]
  have isNegative : decide (negative.toNat % 2 = 1) = negative := by
    cases negative <;> rfl
  unfold BinaryFormat.toFloat
  simp only [Nat.pow_eq, top, upper, middle, lower, isNegative, if_neg (Nat.ne_of_lt finite)]

/-- The bits of a format, made of a count of units and the place of a unit. -/
theorem BinaryFormat.toFloat_bits (places : format.leastExponent ≤ unit)
    (small : count < 2 ^ (format.fractionBits + 1))
    (normal : unit = format.leastExponent ∨ 2 ^ format.fractionBits ≤ count)
    (finite : (unit - format.leastExponent).toNat * 2 ^ format.fractionBits + count <
      format.special * 2 ^ format.fractionBits) (negative : Bool) :
    format.toFloat (format.sign negative +
      ((unit - format.leastExponent).toNat * 2 ^ format.fractionBits + count)) =
      (Scaled.mk negative count unit).toFloat := by
  have power : 0 < 2 ^ format.fractionBits := Nat.two_pow_pos _
  rw [Nat.pow_succ] at small
  obtain ⟨place, rfl⟩ : ∃ place : Nat, unit = format.leastExponent + place :=
    ⟨(unit - format.leastExponent).toNat, by omega⟩
  rw [add_sub_cancel_left, Int.toNat_natCast] at finite ⊢
  by_cases subnormal : count < 2 ^ format.fractionBits
  · -- then the unit is the least one, and the field of the exponent is zero
    obtain rfl : place = 0 := by omega
    have special : 0 < format.special := by
      apply Nat.pos_of_ne_zero
      intro none
      rw [none, Nat.zero_mul] at finite
      exact absurd finite (Nat.not_lt_zero _)
    have fields := format.toFloat_fields subnormal special negative
    rw [if_pos rfl] at fields
    rw [fields, Int.natCast_zero, add_zero]
  · obtain ⟨fraction, rfl⟩ := Nat.exists_eq_add_of_le (Nat.le_of_not_lt subnormal)
    have shape : place * 2 ^ format.fractionBits + (2 ^ format.fractionBits + fraction) =
        (place + 1) * 2 ^ format.fractionBits + fraction := by
      rw [Nat.succ_mul, Nat.add_assoc]
    rw [shape] at finite ⊢
    have inside : place + 1 < format.special :=
      Nat.lt_of_mul_lt_mul_right (Nat.lt_of_le_of_lt (Nat.le_add_right _ _) finite)
    have fields := format.toFloat_fields (show fraction < 2 ^ format.fractionBits by omega) inside negative
    rw [if_neg (Nat.succ_ne_zero place)] at fields
    rw [fields, Nat.add_sub_cancel]

/-- The number of units of the last place of a format: few enough for its fraction, and the implicit
bit is among them unless the place is the least one. -/
theorem Scaled.count_bounds (positive : exact.magnitude ≠ 0) (fine : leastExponent ≤ exact.exponent)
    (fine' : leastExponent ≤ format.leastExponent)
    (place : unit =
      max (exact.exponent + (exact.magnitude.log2 : Nat) - format.fractionBits) format.leastExponent)
    (counted : exact.units? unit = some count) :
    count < 2 ^ (format.fractionBits + 1) ∧
      (unit = format.leastExponent ∨ 2 ^ format.fractionBits ≤ count) := by
  have same := units_of_units? counted fine (by omega) exact.negative
  have some : count ≠ 0 := by
    intro none
    rw [none] at same
    have zero : exact.units = 0 := same.symm.trans (Nat.zero_mul _)
    exact Nat.mul_ne_zero positive (Nat.two_pow_pos _).ne' zero
  -- both magnitudes have their highest bit at the same place
  have log := congrArg Nat.log2 same
  unfold Scaled.units at log
  rw [log2_mul_two_pow some, log2_mul_two_pow positive] at log
  simp only at log
  constructor
  · apply (Nat.log2_lt some).1
    omega
  · by_cases least : unit = format.leastExponent
    · exact .inl least
    · apply Or.inr
      apply (Nat.le_log2 some).1
      omega

theorem Scaled.Is.toFloat_narrow (is : exact.Is number) (narrows : exact.narrow? format = some bits)
    (fine : leastExponent ≤ format.leastExponent) (room : 0 < format.special) :
    format.toFloat bits = number := by
  rw [← is.toFloat]
  unfold narrow? at narrows
  split at narrows
  · rename_i zero
    cases narrows
    have fields := format.toFloat_fields (Nat.two_pow_pos _) room exact.negative
    rw [if_pos rfl, Nat.zero_mul] at fields
    refine Eq.trans fields (Scaled.toFloat_congr is.fine fine rfl ?_ is.fits)
    unfold Scaled.units
    rw [zero, Nat.zero_mul, Nat.zero_mul]
  · rename_i positive
    simp only at narrows
    split at narrows
    · cases narrows
    · rename_i count counted
      split at narrows
      · rename_i finite
        cases narrows
        obtain ⟨small, normal⟩ := Scaled.count_bounds positive is.fine fine rfl counted
        rw [Nat.pow_eq, format.toFloat_bits (le_max_right _ _) small normal finite]
        have fine' := le_trans fine (le_max_right
          (exact.exponent + (exact.magnitude.log2 : Nat) - format.fractionBits) _)
        exact Scaled.toFloat_congr is.fine fine' rfl
          (Scaled.units_of_units? counted is.fine fine' _) is.fits
      · cases narrows

/-! ### Floats that are no finite numbers, and zeros -/

open Float.Model

theorem eq_of_isNaN (isNaN : number.isNaN = true) : number = notANumber := by
  have unique : ∀ other : Float, other.isNaN = true ↔
      other.toBits.toBitVec = UnpackedFloat.packedNaN Format.binary64 := fun other =>
    UnpackedFloat.isNaN_unpack_iff_of_valid other.toModel.valid
  apply Float.toBits_inj.1
  apply UInt64.toBitVec_inj.1
  rw [(unique number).1 isNaN, (unique notANumber).1 (by decide)]

theorem fraction_eq_zero (special : number.toBits.toNat / fractionUnit % 2048 = 2047)
    (isNumber : number.isNaN = false) : number.toBits.toNat % fractionUnit = 0 := by
  by_contra fraction
  have packed : number.toModel.toBits.toBitVec = UnpackedFloat.packedNaN Format.binary64 := by
    apply number.toModel.valid.eq_packedNaN
    · apply BitVec.eq_of_toNat_eq
      unfold UnpackedFloat.unpackExponent
      rw [BitVec.toNat_cast, BitVec.extractLsb_toNat, Nat.shiftRight_eq_div_pow]
      exact special
    · intro none
      apply fraction
      have zero := congrArg BitVec.toNat none
      unfold UnpackedFloat.unpackMantissa at zero
      rw [BitVec.toNat_cast, BitVec.extractLsb_toNat, Nat.shiftRight_zero] at zero
      exact zero
  have isNaN := (UnpackedFloat.isNaN_unpack_iff_of_valid number.toModel.valid).2 packed
  exact Bool.false_ne_true (isNumber.symm.trans isNaN)

theorem eq_infinity (isNumber : number.isNaN = false) (none : scaled? number = none) :
    ∃ negative, number = infinity negative := by
  have bounded : number.toBits.toNat < 2 ^ 64 := number.toBits.toNat_lt
  have special : number.toBits.toNat / fractionUnit % 2048 = 2047 := by
    by_contra finite
    unfold scaled? at none
    simp only [if_neg finite] at none
    split at none <;> cases none
  have fraction := fraction_eq_zero special isNumber
  refine ⟨decide (0x8000000000000000 ≤ number.toBits.toNat), Eq.symm ?_⟩
  unfold infinity
  rw [show (0x7ff0000000000000 : UInt64) = UInt64.ofNat 0x7ff0000000000000 from rfl,
    signBit_or (by decide), toNat_sign bounded]
  apply ofBits_toNat
  unfold fractionUnit at special fraction
  omega

theorem toBits_of_beq_zero (zero : (number == 0) = true) :
    number.toBits = signBit false ∨ number.toBits = signBit true := by
  obtain ⟨_, _, same⟩ := (UnpackedFloat.unpack_beq_unpack_iff number.toModel.valid
    (0 : Float).toModel.valid).1 zero
  rcases same with same | ⟨same, _⟩ | ⟨same, _⟩
  · apply Or.inl
    apply UInt64.toBitVec_inj.1
    exact same
  · apply Or.inl
    apply UInt64.toBitVec_inj.1
    exact same
  · apply Or.inr
    apply UInt64.toBitVec_inj.1
    exact same

end Quadruple.Number

namespace Quadruple.Cbor

open Number

/-- Nothing happens to a float that is written and read again. -/
theorem rereadFloat_eq (number : Float) : rereadFloat number = number := by
  unfold rereadFloat
  cases isNaN : number.isNaN with
  | true =>
    rw [if_pos rfl, eq_of_isNaN isNaN]
    decide
  | false =>
    rw [if_neg Bool.false_ne_true]
    cases found : scaled? number with
    | none =>
      obtain ⟨negative, rfl⟩ := eq_infinity isNaN found
      cases negative <;> decide
    | some exact =>
      have is := is_of_scaled? found
      cases short : exact.narrow? .half with
      | some bits => simpa only [short] using is.toFloat_narrow short (by decide) (by decide)
      | none =>
        cases medium : exact.narrow? .single with
        | some bits =>
          simpa only [short, medium] using is.toFloat_narrow medium (by decide) (by decide)
        | none => simpa only [short, medium] using Float.ofBits_toBits number

end Quadruple.Cbor
