import Quadruple.Proofs.ExactFloats
import Quadruple.Proofs.ImageCodec

/-!
Images that are read as they were written. Of a zero nothing is written, and nothing is read as the
zero without a sign: an image comes back unchanged if none of its literals is the zero with one.
-/

namespace Quadruple

def Number.negativeZero : Float :=
  Float.ofBits (signBit true)

/-! ### Records -/

namespace ValueRecord

instance (record : ValueRecord) : Decidable record.Fits :=
  decidable_of_iff _ (fits_iff record).symm

theorem floatRead_eq {number : Float} (unsigned : number ≠ Number.negativeZero) :
    floatRead number = number := by
  unfold floatRead
  cases zero : number == 0 with
  | false =>
    rw [if_neg Bool.false_ne_true]
    exact Cbor.rereadFloat_eq number
  | true =>
    rw [if_pos rfl]
    rcases Number.toBits_of_beq_zero zero with positive | negative
    · calc Float.ofBits (Number.signBit false) = Float.ofBits number.toBits := by rw [positive]
        _ = number := Float.ofBits_toBits number
    · apply absurd _ unsigned
      calc number = Float.ofBits number.toBits := (Float.ofBits_toBits number).symm
        _ = Number.negativeZero := by rw [negative]; rfl

theorem reread_eq {record : ValueRecord} (unsigned : record.float ≠ Number.negativeZero) :
    record.reread = record := by
  unfold reread
  rw [floatRead_eq unsigned]

end ValueRecord

namespace OperandRecord

instance (record : OperandRecord) : Decidable record.Fits :=
  decidable_of_iff _ (fits_iff record).symm

theorem reread_eq {record : OperandRecord}
    (unsigned : record.literal.float ≠ Number.negativeZero) : record.reread = record := by
  unfold reread
  rw [ValueRecord.reread_eq unsigned]

end OperandRecord

namespace InstructionRecord

instance (record : InstructionRecord) : Decidable record.Fits :=
  decidable_of_iff _ (fits_iff record).symm

def floats (record : InstructionRecord) : List Float :=
  [record.left.literal.float, record.right.literal.float, record.result.literal.float]

theorem reread_eq {record : InstructionRecord}
    (unsigned : ∀ number ∈ record.floats, number ≠ Number.negativeZero) :
    record.reread = record := by
  unfold reread
  rw [OperandRecord.reread_eq (unsigned _ (by simp [floats])),
    OperandRecord.reread_eq (unsigned _ (by simp [floats])),
    OperandRecord.reread_eq (unsigned _ (by simp [floats]))]

end InstructionRecord

/-! ### Images -/

namespace Image

instance (image : Image) : Decidable image.Fits :=
  decidable_of_iff _ (fits_iff image).symm

def floats (image : Image) : List Float :=
  image.records.flatMap InstructionRecord.floats

theorem reread_eq {image : Image}
    (unsigned : ∀ number ∈ image.floats, number ≠ Number.negativeZero) : image.reread = image := by
  obtain ⟨version, name, instructions, natives, optimized⟩ := image
  cases instructions with
  | none => rfl
  | some records =>
    have each : ∀ record ∈ records, record.reread = record := by
      intro record listed
      apply InstructionRecord.reread_eq
      intro number among
      exact unsigned number (List.mem_flatMap.2 ⟨record, listed, among⟩)
    have all : records.map InstructionRecord.reread = records := by
      calc records.map InstructionRecord.reread = records.map id := List.map_congr_left each
        _ = records := List.map_id records
    unfold reread
    simp only [Option.map_some, all]

/-- An image of the present version whose parts have a place in its encoding and whose jumps stay
inside it is read as it was written, unless a zero with a sign is among its literals. -/
theorem decode_encode_eq {image : Image} (fits : image.Fits)
    (current : image.version = currentVersion) (valid : image.validate = .ok ())
    (unsigned : ∀ number ∈ image.floats, number ≠ Number.negativeZero) :
    ∃ bytes, image.encode = .ok bytes ∧ decode bytes = .ok image := by
  obtain ⟨bytes, encoded, decoded⟩ := decode_encode fits current
  rw [valid, reread_eq unsigned] at decoded
  exact ⟨bytes, encoded, decoded⟩

/-- Literals at the limits of their types, and every kind of operand. -/
def specimen : Image :=
  .ofCode "specimen" #[
    { opcode := .init },
    { opcode := .load, left := .literal (.int (-9223372036854775808))
      result := .address ⟨.stack, .int, true, 67108863⟩ },
    { opcode := .load, left := .literal (.float Number.notANumber)
      result := .address ⟨.temps, .float, false, 0⟩ },
    { opcode := .load, left := .literal (.float (Number.infinity true))
      result := .address ⟨.temps, .float, false, 1⟩ },
    { opcode := .load, left := .literal (.float (Float.ofBits 1))
      result := .address ⟨.temps, .float, false, 2⟩ },
    { opcode := .load, left := .literal (.float (Float.ofBits 0x3fb999999999999a))
      result := .address ⟨.temps, .float, false, 3⟩ },
    { opcode := .load, left := .literal (.float (Float.ofBits 0x3e70000000000000))
      result := .address ⟨.temps, .float, false, 4⟩ },
    { opcode := .nativeCall, left := .name "sqrt" },
    { opcode := .goto, result := .target 9 }] true

theorem specimen_decodes : ∃ bytes, specimen.encode = .ok bytes ∧ decode bytes = .ok specimen :=
  decode_encode_eq (by decide +kernel) (by decide +kernel) (by decide +kernel) (by decide +kernel)

/-- Loads the zero with a sign. -/
def signedZero : Image :=
  .ofCode "" #[
    { opcode := .load, left := .literal (.float Number.negativeZero)
      result := .address ⟨.global, .float, false, 0⟩ }] false

theorem signedZero_loses_sign : signedZero.Fits ∧ signedZero.version = currentVersion ∧
    signedZero.validate = .ok () ∧
    ∃ bytes other, signedZero.encode = .ok bytes ∧ decode bytes = .ok other ∧
      other ≠ signedZero := by
  have fits : signedZero.Fits := by decide +kernel
  have valid : signedZero.validate = .ok () := by decide +kernel
  obtain ⟨bytes, encoded, decoded⟩ := decode_encode fits rfl
  rw [valid] at decoded
  have other : signedZero.reread ≠ signedZero := by decide +kernel
  exact ⟨fits, rfl, valid, bytes, _, encoded, decoded, other⟩

end Image

end Quadruple
