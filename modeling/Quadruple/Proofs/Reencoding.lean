import Quadruple.Proofs.ImageRoundTrip
import Quadruple.Proofs.Instructions
import Quadruple.Proofs.LoadableImages

/-!
Images that are encoded again after they were read. Reading loses the sign of a zero, but nothing is
written of a zero with or without a sign: an image that was read is encoded as the bytes from which
it was read.
-/

namespace Quadruple

open Cbor (Item)

/-! ### What can be encoded has addresses that fit -/

variable {item : Item}

theorem Address.isValid_of_toItem {address : Address}
    (made : address.toItem = .ok item) : address.isValid = true := by
  obtain ⟨word, packed, _⟩ := map_eq_ok.1 made
  unfold pack at packed
  split at packed
  · assumption
  · cases packed

theorem ValueRecord.fits_of_toItem {record : ValueRecord}
    (text : TextFits record.text) (made : record.toItem = .ok item) : record.Fits := by
  obtain ⟨pointer, packed, _⟩ := bind_eq_ok.1 made
  exact ⟨Address.isValid_of_toItem packed, text⟩

namespace OperandRecord

@[mk_iff]
structure Bounded (record : OperandRecord) : Prop where
  texts : record.TextsFit
  low : -9223372036854775808 ≤ record.index
  high : record.index < 9223372036854775808

instance (record : OperandRecord) : Decidable record.Bounded :=
  decidable_of_iff _ (bounded_iff record).symm

theorem fits_of_toItem {record : OperandRecord} (bounded : record.Bounded)
    (made : record.toItem = .ok item) : record.Fits := by
  obtain ⟨cell, packed, rest⟩ := bind_eq_ok.1 made
  obtain ⟨literal, written, _⟩ := bind_eq_ok.1 rest
  exact ⟨Address.isValid_of_toItem packed, ValueRecord.fits_of_toItem bounded.texts.2 written,
    bounded.low, bounded.high, bounded.texts.1⟩

end OperandRecord

namespace InstructionRecord

@[mk_iff]
structure Bounded (record : InstructionRecord) : Prop where
  left : record.left.Bounded
  right : record.right.Bounded
  result : record.result.Bounded

instance (record : InstructionRecord) : Decidable record.Bounded :=
  decidable_of_iff _ (bounded_iff record).symm

theorem fits_of_toItem {record : InstructionRecord} (bounded : record.Bounded)
    (made : record.toItem = .ok item) : record.Fits := by
  obtain ⟨left, madeLeft, rest⟩ := bind_eq_ok.1 made
  obtain ⟨right, madeRight, rest⟩ := bind_eq_ok.1 rest
  obtain ⟨result, madeResult, _⟩ := bind_eq_ok.1 rest
  exact ⟨OperandRecord.fits_of_toItem bounded.left madeLeft,
    OperandRecord.fits_of_toItem bounded.right madeRight,
    OperandRecord.fits_of_toItem bounded.result madeResult⟩

theorem exists_item {records : List InstructionRecord} {items : List Item}
    (made : records.mapM toItem = .ok items) :
    ∀ record ∈ records, ∃ item, record.toItem = .ok item := by
  induction records generalizing items with
  | nil => exact fun record listed => absurd listed List.not_mem_nil
  | cons first rest ih =>
    rw [List.mapM_cons] at made
    obtain ⟨item, madeFirst, rest⟩ := bind_eq_ok.1 made
    obtain ⟨others, madeRest, _⟩ := bind_eq_ok.1 rest
    exact List.forall_mem_cons.2 ⟨⟨item, madeFirst⟩, ih madeRest⟩

end InstructionRecord

namespace Image

/-- The limits of what can be read again: the numbers of instructions and of native functions, the
lengths of texts and the range of indices. -/
@[mk_iff]
structure Bounded (image : Image) : Prop where
  name : TextFits image.name
  records : ∀ record ∈ image.records, record.Bounded
  few : image.records.length ≤ Cbor.maxCount
  natives : ∀ native ∈ image.natives, TextFits native
  fewNatives : image.natives.length ≤ Cbor.maxCount

instance (image : Image) : Decidable image.Bounded :=
  decidable_of_iff _ (bounded_iff image).symm

variable {bytes : Bytes}

theorem exists_item_of_encode {image : Image} (encoded : image.encode = .ok bytes) :
    ∀ record ∈ image.records, ∃ item, record.toItem = .ok item := by
  obtain ⟨item, made, _⟩ := map_eq_ok.1 encoded
  rw [toItem_eq_map] at made
  obtain ⟨instructions, written, _⟩ := map_eq_ok.1 made
  intro record listed
  unfold records at listed
  cases given : image.instructions with
  | none =>
    rw [given] at listed
    cases listed
  | some records =>
    rw [given] at listed written
    obtain ⟨items, mapped, _⟩ := bind_eq_ok.1 written
    exact InstructionRecord.exists_item mapped record listed

theorem fits_of_encode {image : Image} (bounded : image.Bounded)
    (current : image.version = currentVersion) (encoded : image.encode = .ok bytes) :
    image.Fits :=
  { bounded with
    low := by rw [current]; decide
    high := by rw [current]; decide
    records := by
      intro record listed
      obtain ⟨item, made⟩ := exists_item_of_encode encoded record listed
      exact InstructionRecord.fits_of_toItem (bounded.records record listed) made }

end Image

/-! ### What was read is written as before -/

theorem ValueRecord.toItem_reread (record : ValueRecord) :
    record.reread.toItem = record.toItem := by
  by_cases signed : record.float = Number.negativeZero
  · -- Neither the zero that was written nor the zero that was read has an entry.
    have before : (record.float == 0) = true := by
      rw [signed]
      decide +kernel
    have after : (record.reread.float == 0) = true := by
      show (floatRead record.float == 0) = true
      rw [signed]
      decide +kernel
    unfold toItem
    rw [before, after]
    rfl
  · rw [reread_eq signed]

theorem OperandRecord.toItem_reread (record : OperandRecord) :
    record.reread.toItem = record.toItem := by
  unfold toItem
  rw [show record.reread.literal = record.literal.reread from rfl, ValueRecord.toItem_reread]
  rfl

theorem InstructionRecord.toItem_reread (record : InstructionRecord) :
    record.reread.toItem = record.toItem := by
  unfold toItem reread
  simp only [OperandRecord.toItem_reread]

namespace Image

theorem instructionsItem_reread (instructions : Option (List InstructionRecord)) :
    instructionsItem (instructions.map fun records => records.map InstructionRecord.reread) =
      instructionsItem instructions := by
  cases instructions with
  | none => rfl
  | some records =>
    have same : (records.map InstructionRecord.reread).mapM InstructionRecord.toItem =
        records.mapM InstructionRecord.toItem := by
      induction records with
      | nil => rfl
      | cons record rest ih =>
        rw [List.map_cons, List.mapM_cons, List.mapM_cons, ih, InstructionRecord.toItem_reread]
    unfold instructionsItem
    simp only [Option.map_some, same]

theorem encode_reread (image : Image) : image.reread.encode = image.encode := by
  have same : image.reread.toItem = image.toItem := by
    rw [toItem_eq_map, toItem_eq_map]
    unfold reread
    rw [instructionsItem_reread]
    rfl
  unfold encode
  rw [same]

theorem exists_decoded {image : Image} (bounded : image.Bounded)
    (current : image.version = currentVersion) (valid : image.validate = .ok ())
    (encoded : image.encode = .ok bytes) :
    ∃ read, decode bytes = .ok read ∧ read.encode = .ok bytes := by
  obtain ⟨written, made, decoded⟩ :=
    decode_encode (fits_of_encode bounded current encoded) current
  have same : written = bytes := by
    apply Except.ok.inj
    calc Except.ok written = image.encode := made.symm
      _ = .ok bytes := encoded
  rw [same, valid] at decoded
  refine ⟨image.reread, decoded, ?_⟩
  rw [encode_reread, encoded]

end Image

end Quadruple
