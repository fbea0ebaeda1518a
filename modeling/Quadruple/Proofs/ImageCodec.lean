import Quadruple.Image.Basic
import Quadruple.Proofs.Encoding
import Mathlib.Data.Nat.Bitwise
import Mathlib.Data.Set.Function

/-!
Images that can be read again. What is encoded of an image whose addresses fit their bits and whose
indices fit a machine word is read back as the same image, up to what happens to floats.
-/

namespace Quadruple

/-! ### Addresses -/

theorem Area.isAssigned_iff {area : Area} : area.isAssigned = true ↔ area.code.toNat < 4 := by
  cases area with
  | reserved code unassigned =>
    have high : 4 ≤ code.toNat := unassigned
    simp [isAssigned, Area.code, high]
  | _ => decide

theorem DataType.isStored_iff {type : DataType} : type.isStored = true ↔ type.code.toNat < 5 := by
  cases type with
  | reserved code unassigned =>
    have high : 5 ≤ code.toNat := by
      rcases unassigned with beyond | rfl | rfl
      · exact Nat.le_trans (by decide) beyond
      · decide
      · decide
    simp [isStored, DataType.code, high]
  | _ => decide

namespace Address

variable {address : Address} {packed : UInt32}

/-- The six highest bits of a packed address: the area, the type and the mark. -/
def highBits (address : Address) : Nat :=
  address.area.code.toNat * 16 + address.type.code.toNat * 2 + address.reference.toNat

theorem isValid_iff : address.isValid = true ↔
    address.area.isAssigned = true ∧ address.type.isStored = true ∧
      address.offset.toNat < 67108864 := by
  unfold isValid maxOffset
  simp only [Bool.and_eq_true, decide_eq_true_eq, and_assoc]
  refine and_congr_right fun _ => and_congr_right fun _ => ?_
  omega

theorem word_highBits {area : Area} {type : DataType} (assigned : area.isAssigned = true)
    (stored : type.isStored = true) (reference : Bool) :
    area.code.toUInt32 <<< 30 ||| type.code.toUInt32 <<< 27 |||
        (if reference then referenceBit else 0) =
      UInt32.ofNat
        (67108864 * (area.code.toNat * 16 + type.code.toNat * 2 + reference.toNat)) := by
  cases area with
  | reserved => cases assigned
  | _ =>
    cases type with
    | void | reserved => cases stored
    | _ => cases reference <;> decide

theorem toNat_word (valid : address.isValid = true) :
    address.word.toNat = 67108864 * address.highBits + address.offset.toNat := by
  obtain ⟨assigned, stored, small⟩ := isValid_iff.1 valid
  have whole : address.word = UInt32.ofNat (67108864 * address.highBits) ||| address.offset := by
    rw [highBits, ← word_highBits assigned stored, word, UInt32.or_assoc,
      UInt32.or_comm address.offset, ← UInt32.or_assoc]
  have bounded : 67108864 * address.highBits < 4294967296 := by
    have area := Area.isAssigned_iff.1 assigned
    have type := DataType.isStored_iff.1 stored
    have mark := address.reference.toNat_le
    unfold highBits
    omega
  have low : address.offset.toNat < 2 ^ 26 := small
  rw [whole, UInt32.toNat_or, UInt32.toNat_ofNat', Nat.mod_eq_of_lt bounded]
  exact (Nat.two_pow_add_eq_or_of_lt low address.highBits).symm

/-! An address is known by the numbers that its word is made of. -/

theorem area_unpack (packed : UInt32) :
    (unpack packed).area = .ofCode (.ofNat (packed.toNat / 1073741824)) := by
  refine congrArg Area.ofCode (UInt8.toNat.inj ?_)
  rw [UInt32.toNat_toUInt8, UInt32.toNat_shiftRight, Nat.shiftRight_eq_div_pow, UInt8.toNat_ofNat']
  rfl

theorem type_unpack (packed : UInt32) :
    (unpack packed).type = .ofCode (.ofNat (packed.toNat / 134217728 % 8)) := by
  refine congrArg DataType.ofCode (UInt8.toNat.inj ?_)
  rw [UInt32.toNat_toUInt8, UInt32.toNat_and, UInt32.toNat_shiftRight, Nat.shiftRight_eq_div_pow,
    UInt8.toNat_ofNat']
  exact congrArg (· % 256) (Nat.and_two_pow_sub_one_eq_mod _ 3)

theorem reference_unpack (packed : UInt32) :
    (unpack packed).reference = decide (packed.toNat / 67108864 % 2 = 1) := by
  have bit : (packed &&& referenceBit).toNat =
      67108864 * (decide (packed.toNat / 67108864 % 2 = 1)).toNat := by
    rw [UInt32.toNat_and, Nat.and_comm]
    exact (Nat.two_pow_and _ 26).trans (by rw [Nat.testBit_eq_decide_div_mod_eq]; rfl)
  have none_ : packed &&& referenceBit = 0 ↔ (packed &&& referenceBit).toNat = 0 := UInt32.toNat_inj.symm
  rw [bit] at none_
  show (packed &&& referenceBit != 0) = _
  by_cases odd : packed.toNat / 67108864 % 2 = 1 <;> simp [odd, none_]

theorem offset_unpack (packed : UInt32) : (unpack packed).offset.toNat = packed.toNat % 67108864 := by
  rw [unpack, UInt32.toNat_and]
  exact Nat.and_two_pow_sub_one_eq_mod _ 26

theorem unpack_word (valid : address.isValid = true) : unpack address.word = address := by
  obtain ⟨_, stored, small⟩ := isValid_iff.1 valid
  have typeCode := DataType.isStored_iff.1 stored
  have mark := address.reference.toNat_le
  have number := toNat_word valid
  unfold highBits at number
  have area : (unpack address.word).area = address.area := by
    have high : address.word.toNat / 1073741824 = address.area.code.toNat := by omega
    rw [area_unpack, high, UInt8.ofNat_toNat, Area.ofCode_code]
  have type : (unpack address.word).type = address.type := by
    have next : address.word.toNat / 134217728 % 8 = address.type.code.toNat := by omega
    rw [type_unpack, next, UInt8.ofNat_toNat, DataType.ofCode_code]
  have reference : (unpack address.word).reference = address.reference := by
    have odd : address.word.toNat / 67108864 % 2 = address.reference.toNat := by omega
    rw [reference_unpack, odd]
    cases address.reference <;> rfl
  have offset : (unpack address.word).offset = address.offset := by
    apply UInt32.toNat.inj
    rw [offset_unpack]
    omega
  show Address.mk (unpack address.word).area (unpack address.word).type
    (unpack address.word).reference (unpack address.word).offset = address
  rw [area, type, reference, offset]

theorem isValid_unpack_iff : (unpack packed).isValid = true ↔ packed.toNat / 134217728 % 8 < 5 := by
  have small := packed.toNat_lt
  have areas : ∀ code < 4, (Area.ofCode (.ofNat code)).isAssigned = true := by decide
  have types : ∀ code < 8, (DataType.ofCode (.ofNat code)).isStored = true ↔ code < 5 := by decide
  rw [isValid_iff, area_unpack, type_unpack, offset_unpack, types _ (by omega)]
  have assigned := areas (packed.toNat / 1073741824) (by omega)
  have inside : packed.toNat % 67108864 < 67108864 := by omega
  simp only [assigned, inside, and_true, true_and]

theorem word_unpack (valid : (unpack packed).isValid = true) : (unpack packed).word = packed := by
  have small := packed.toNat_lt
  have areas : ∀ code < 4, (Area.ofCode (.ofNat code)).code.toNat = code := by decide
  have types : ∀ code < 8, (DataType.ofCode (.ofNat code)).code.toNat = code := by decide
  have mark : (decide (packed.toNat / 67108864 % 2 = 1)).toNat = packed.toNat / 67108864 % 2 := by
    rcases Nat.mod_two_eq_zero_or_one (packed.toNat / 67108864) with even | odd
    · simp [even]
    · simp [odd]
  apply UInt32.toNat.inj
  rw [toNat_word valid, highBits, area_unpack, type_unpack, reference_unpack, offset_unpack, mark,
    areas _ (by omega), types _ (by omega)]
  omega

theorem pack_eq_ok_iff : address.pack = .ok packed ↔ address.isValid = true ∧ address.word = packed := by
  unfold pack
  split
  · rename_i valid
    simp [valid]
  · rename_i invalid
    simp [invalid]

end Address

def TextFits (text : String) : Prop :=
  (Bytes.ofText text).length < 18446744073709551616

instance (text : String) : Decidable (TextFits text) :=
  inferInstanceAs (Decidable (_ < _))

/-! ### Entries of records -/

namespace Cbor

section

variable (number other : Nat) (omitted : Bool) (item : Item) (entries rest : List (Item × Item))

@[simp]
theorem field_entry : Item.field number (entry other item ++ rest) =
    if other = number then item else Item.field number rest := by
  unfold Item.field entry
  rw [List.singleton_append, List.find?_cons]
  by_cases same : other = number <;> simp [Item.isNumber, same]

@[simp]
theorem field_entryUnless : Item.field number (entryUnless omitted other item ++ rest) =
    if other = number ∧ omitted = false then item else Item.field number rest := by
  cases omitted with
  | true => simp [entryUnless]
  | false => simp [entryUnless, field_entry]

@[simp]
theorem field_lastEntry : Item.field number (entry other item) =
    if other = number then item else Item.null := by
  have read := field_entry number other item []
  rwa [List.append_nil] at read

@[simp]
theorem field_lastEntryUnless : Item.field number (entryUnless omitted other item) =
    if other = number ∧ omitted = false then item else Item.null := by
  have read := field_entryUnless number other omitted item []
  rwa [List.append_nil] at read

@[simp]
theorem rereadEntries_append : rereadEntries (entries ++ rest) =
    rereadEntries entries ++ rereadEntries rest := by
  induction entries with
  | nil => rfl
  | cons first others ih => rw [List.cons_append, rereadEntries, ih, rereadEntries, List.cons_append]

@[simp]
theorem rereadEntries_entry : rereadEntries (entry number item) = entry number item.reread :=
  rfl

@[simp]
theorem rereadEntries_entryUnless : rereadEntries (entryUnless omitted number item) =
    entryUnless omitted number item.reread := by
  cases omitted <;> rfl

@[simp]
theorem isKey_entry : (entry number item).all (·.1.isKey) = true :=
  rfl

@[simp]
theorem isKey_entryUnless : (entryUnless omitted number item).all (·.1.isKey) = true := by
  cases omitted <;> rfl

end

/-! ### What items say -/

namespace Item

variable {item : Item} {least bound number : Int}

theorem intWithin?_eq_some (isInt : item.int? = some number) (low : least ≤ number)
    (high : number < bound) : item.intWithin? least bound = some number := by
  simp [intWithin?, isInt, low, high]

theorem int?_ofInt (number : Int) : (ofInt number).int? = some number := by
  cases number with
  | ofNat number => rfl
  | negSucc number =>
    show some (-1 - (number : Int)) = some (Int.negSucc number)
    rw [Int.negSucc_eq]
    congr 1
    omega

theorem int64?_ofInt (low : -9223372036854775808 ≤ number) (high : number < 9223372036854775808) :
    (ofInt number).int64? = some number :=
  intWithin?_eq_some (int?_ofInt number) low high

theorem byte?_unsigned (byte : UInt8) : (unsigned byte.toNat).reread.byte? = some byte := by
  have isInt : (unsigned byte.toNat).reread.int? = some (byte.toNat : Int) := rfl
  have small := byte.toNat_lt
  rw [byte?, intWithin?_eq_some isInt (by omega) (by omega), Option.map_some]
  congr 1
  apply UInt8.toNat.inj
  rw [UInt8.ofInt, UInt8.toNat_ofNat']
  omega

theorem word32?_unsigned (word : UInt32) : (unsigned word.toNat).word32? = some word := by
  have isInt : (unsigned word.toNat).int? = some (word.toNat : Int) := rfl
  have small := word.toNat_lt
  rw [word32?, intWithin?_eq_some isInt (by omega) (by omega), Option.map_some]
  congr 1
  exact UInt32.toNat.inj (by simp)

theorem string?_ofText (text : String) : (ofText text).string? = some text := by
  have valid := text.isValidUTF8
  show Bytes.text? (Bytes.ofText text) = some text
  unfold Bytes.text? Bytes.ofText String.fromUTF8?
  rw [Array.toArray_toList, dif_pos valid]
  rfl

theorem reread_ofInt (number : Int) : (ofInt number).reread = ofInt number := by
  cases number <;> rfl

/-! Nothing is written of a zero, an empty text or a false, and that is what is read of nothing. -/

theorem int64?_entry {omitted : Prop} [Decidable omitted] (low : -9223372036854775808 ≤ number)
    (high : number < 9223372036854775808) (zero : omitted → number = 0) :
    (if omitted then null else (ofInt number).reread).int64? = some number := by
  split
  · rename_i left
    rw [zero left]
    rfl
  · rw [reread_ofInt, int64?_ofInt low high]

theorem string?_entry (text : String) :
    (if text = "" then null else (ofText text).reread).string? = some text := by
  split
  · rename_i empty
    rw [empty]
    rfl
  · exact string?_ofText text

theorem bool?_entry (truth : Bool) :
    (if truth = true then (ofBool truth).reread else null).bool? = some truth := by
  cases truth <;> rfl

end Item

def Keeps {α : Type} (depth : Nat) (made : Except Address.Unpackable Item)
    (read? : Item → Option α) (result : α) : Prop :=
  ∃ item, made = .ok item ∧ item.Fits depth ∧ read? item.reread = some result

structure RowFits (depth count : Nat) (entries : List (Item × Item)) : Prop where
  few : entries.length ≤ count
  fits : EntriesFit depth entries

section

variable {depth count more number : Nat} {omitted : Bool} {item : Item}
  {entries rest : List (Item × Item)}

theorem rowFits_entry (small : number < 18446744073709551616) (fits : item.Fits depth) :
    RowFits depth 1 (entry number item) :=
  ⟨Nat.le_refl 1, small, fits, trivial⟩

theorem rowFits_entryUnless (small : number < 18446744073709551616) (fits : item.Fits depth) :
    RowFits depth 1 (entryUnless omitted number item) := by
  cases omitted with
  | true => exact ⟨Nat.zero_le 1, trivial⟩
  | false => exact rowFits_entry small fits

theorem entriesFit_append (first : EntriesFit depth entries) (second : EntriesFit depth rest) :
    EntriesFit depth (entries ++ rest) := by
  induction entries with
  | nil => exact second
  | cons entry others ih => exact ⟨first.1, first.2.1, ih first.2.2⟩

theorem RowFits.append (first : RowFits depth count entries) (second : RowFits depth more rest) :
    RowFits depth (count + more) (entries ++ rest) where
  few := by
    rw [List.length_append]
    exact Nat.add_le_add first.few second.few
  fits := entriesFit_append first.fits second.fits

theorem RowFits.map (row : RowFits depth count entries) (few : count ≤ maxCount) :
    (Item.map entries).Fits (depth + 1) :=
  ⟨Nat.succ_pos depth, Nat.le_trans row.few few, row.fits⟩

end

theorem Item.fits_ofInt {number : Int} (low : -9223372036854775808 ≤ number)
    (high : number < 9223372036854775808) (depth : Nat) : (ofInt number).Fits depth := by
  cases number with
  | ofNat number =>
    have high : (number : Int) < 9223372036854775808 := high
    show number < 18446744073709551616
    omega
  | negSucc number =>
    show number < 18446744073709551616
    omega

theorem Item.fits_byte (byte : UInt8) (depth : Nat) : (unsigned byte.toNat).Fits depth :=
  Nat.lt_trans byte.toNat_lt (by decide)

theorem Item.fits_ofBool (truth : Bool) (depth : Nat) : (ofBool truth).Fits depth := by
  show (if truth then 21 else 20) < 24
  split <;> decide

theorem Item.fits_ofText {text : String} (fits : TextFits text) (depth : Nat) :
    (ofText text).Fits depth :=
  fits

theorem record?_map {entries : List (Item × Item)} (keys : entries.all (·.1.isKey) = true) :
    (Item.map entries).record? = some entries :=
  if_pos keys

end Cbor

open Cbor (Item Keeps)

theorem Address.ofItem_of_word {item : Item} {packed : UInt32} (isWord : item.word32? = some packed) :
    ofItem item =
      if (unpack packed).isValid then .ok (unpack packed) else .error (.noStorage packed) := by
  unfold ofItem
  rw [isWord]

theorem Address.keeps {address : Address} (valid : address.isValid = true) (depth : Nat) :
    Keeps depth address.toItem (fun item => (Address.ofItem item).toOption) address := by
  refine ⟨.unsigned address.word.toNat, ?_, Nat.lt_trans address.word.toNat_lt (by decide), ?_⟩
  · rw [Address.toItem, pack, if_pos valid]
    rfl
  · show (Address.ofItem (.unsigned address.word.toNat)).toOption = some address
    rw [ofItem_of_word (Item.word32?_unsigned _), unpack_word valid, if_pos valid]
    rfl

theorem Address.decode_unsigned (packed : UInt32) : decode (Item.unsigned packed.toNat).encode =
    if (unpack packed).isValid then .ok (unpack packed) else .error (.noStorage packed) := by
  have fits (depth : Nat) : (Item.unsigned packed.toNat).Fits depth :=
    Nat.lt_trans packed.toNat_lt (by decide)
  rw [decode, Cbor.decode?_encode (fits _)]
  exact ofItem_of_word (Item.word32?_unsigned packed)

/-- Words stand for valid addresses. Exactly the valid addresses can be packed, and no bit of them is
lost; other addresses are refused as beyond the storage there is. A word without a type that has storage
stands for no valid address, and any other is the word of the address for which it stands. So packing
is a bijection between the valid addresses and the words that are accepted when they are read. -/
theorem Address.words_stand_for_valid_addresses :
    (∀ address : Address, ((∃ packed, address.pack = .ok packed) ↔ address.isValid = true) ∧
      (∀ failure, address.pack = .error failure → failure.report.kind = .allocationExhausted) ∧
      ∀ packed, address.pack = .ok packed →
        unpack packed = address ∧ isReferenceWord packed = address.reference) ∧
    (∀ packed : UInt32, ((unpack packed).isValid = true → (unpack packed).pack = .ok packed) ∧
      ((unpack packed).isValid = false ↔ packed.toNat / 2 ^ 27 % 8 ∈ [5, 6, 7])) ∧
    Set.BijOn pack {address | address.isValid = true}
      (Except.ok '' {packed | ∃ address, decode (Item.unsigned packed.toNat).encode = .ok address}) := by
  have read {address : Address} {packed : UInt32} (made : address.pack = .ok packed) :
      unpack packed = address := by
    obtain ⟨valid, rfl⟩ := pack_eq_ok_iff.1 made
    exact unpack_word valid
  have again {packed : UInt32} (valid : (unpack packed).isValid = true) :
      (unpack packed).pack = .ok packed :=
    pack_eq_ok_iff.2 ⟨valid, word_unpack valid⟩
  refine ⟨fun address => ⟨?_, fun failure _ => rfl, fun packed made => ?_⟩,
    fun packed => ⟨again, ?_⟩, ?_, ?_, ?_⟩
  · constructor
    · rintro ⟨packed, made⟩
      exact (pack_eq_ok_iff.1 made).1
    · exact fun valid => ⟨_, pack_eq_ok_iff.2 ⟨valid, rfl⟩⟩
  · exact ⟨read made, congrArg reference (read made)⟩
  · have bits : packed.toNat / 134217728 % 8 < 8 := Nat.mod_lt _ (by decide)
    rw [Bool.eq_false_iff, Ne, isValid_unpack_iff]
    simp only [List.mem_cons, List.not_mem_nil, or_false]
    omega
  · intro address (valid : address.isValid = true)
    refine ⟨address.word, ⟨address, ?_⟩, (pack_eq_ok_iff.2 ⟨valid, rfl⟩).symm⟩
    rw [decode_unsigned, unpack_word valid, if_pos valid]
  · intro address valid other otherValid same
    rw [← unpack_word valid, ← unpack_word otherValid]
    have words := (pack_eq_ok_iff.2 ⟨valid, rfl⟩).symm.trans same
    rw [(pack_eq_ok_iff.1 words.symm).2]
  · rintro _ ⟨packed, ⟨address, accepted⟩, rfl⟩
    rw [decode_unsigned] at accepted
    split at accepted
    · rename_i valid
      exact ⟨unpack packed, valid, again valid⟩
    · cases accepted

namespace ValueRecord

variable {record : ValueRecord}

/-- The parts of a record that have a place in its item. -/
@[mk_iff]
structure Fits (record : ValueRecord) : Prop where
  pointer : record.pointer.isValid = true
  text : TextFits record.text

/-- A float as it is after writing and reading; nothing is written of zero. -/
def floatRead (number : Float) : Float :=
  if number == 0 then (Number.Scaled.mk false 0 0).toFloat else Cbor.rereadFloat number

def reread (record : ValueRecord) : ValueRecord :=
  { record with float := floatRead record.float }

def entries (record : ValueRecord) (pointer : Item) : List (Item × Item) :=
  Cbor.entry 1 (.unsigned record.type.code.toNat) ++
  Cbor.entryUnless (record.int = 0) 2 (.ofInt record.int.toInt) ++
  Cbor.entryUnless (record.float == 0) 3 (.float record.float) ++
  Cbor.entryUnless (record.text = "") 4 (.ofText record.text) ++
  Cbor.entryUnless (!record.truth) 5 (.ofBool record.truth) ++
  Cbor.entry 6 pointer

theorem fits_entries (text : TextFits record.text) {depth : Nat} {pointer : Item}
    (pointerFits : pointer.Fits depth) : (Item.map (record.entries pointer)).Fits (depth + 1) := by
  have row : Cbor.RowFits depth (1 + 1 + 1 + 1 + 1 + 1) (record.entries pointer) := by
    refine ((((Cbor.RowFits.append ?type ?int).append ?float).append ?text).append ?truth).append
      ?pointer
    case type => exact Cbor.rowFits_entry (by decide) (Item.fits_byte _ _)
    case int =>
      exact Cbor.rowFits_entryUnless (by decide)
        (Item.fits_ofInt record.int.le_toInt record.int.toInt_lt depth)
    case float =>
      have fits : (Item.float record.float).Fits depth := trivial
      exact Cbor.rowFits_entryUnless (by decide) fits
    case text => exact Cbor.rowFits_entryUnless (by decide) (Item.fits_ofText text depth)
    case truth => exact Cbor.rowFits_entryUnless (by decide) (Item.fits_ofBool _ depth)
    case pointer => exact Cbor.rowFits_entry (by decide) pointerFits
  exact row.map (by decide)

theorem keeps (fits : record.Fits) (depth : Nat) : Keeps (depth + 1) record.toItem ofItem? record.reread := by
  obtain ⟨pointer, made, pointerFits, pointerRead⟩ := Address.keeps fits.pointer depth
  refine ⟨.map (record.entries pointer), by rw [toItem, made]; rfl,
    fits_entries fits.text pointerFits, ?_⟩
  have int : (if record.int = 0 then Item.null
      else (Item.ofInt record.int.toInt).reread).int64? = some record.int.toInt :=
    Item.int64?_entry record.int.le_toInt record.int.toInt_lt fun zero => by rw [zero]; rfl
  have float : (if (record.float == 0) = false then (Item.float record.float).reread
      else Item.null).float? = some (floatRead record.float) := by
    unfold floatRead
    cases record.float == 0 <;> rfl
  show ofItem? (.map (Cbor.rereadEntries (record.entries pointer))) = _
  unfold ofItem? entries
  rw [Cbor.record?_map (by simp)]
  simp [Item.byte?_unsigned, int, float, Item.string?_entry, Item.bool?_entry, pointerRead,
    DataType.ofCode_code, reread]

end ValueRecord

namespace OperandRecord

variable {record : OperandRecord}

@[mk_iff]
structure Fits (record : OperandRecord) : Prop where
  cell : record.cell.isValid = true
  literal : record.literal.Fits
  low : -9223372036854775808 ≤ record.index
  high : record.index < 9223372036854775808
  name : TextFits record.name

def reread (record : OperandRecord) : OperandRecord :=
  { record with literal := record.literal.reread }

def entries (record : OperandRecord) (cell literal : Item) : List (Item × Item) :=
  Cbor.entry 1 (.unsigned record.kind.toNat) ++ Cbor.entry 2 cell ++ Cbor.entry 3 literal ++
  Cbor.entryUnless (record.index = 0) 4 (.ofInt record.index) ++
  Cbor.entryUnless (record.name = "") 5 (.ofText record.name)

theorem fits_entries (fits : record.Fits) {depth : Nat} {cell literal : Item} (cellFits : cell.Fits depth)
    (literalFits : literal.Fits depth) : (Item.map (record.entries cell literal)).Fits (depth + 1) := by
  have row : Cbor.RowFits depth (1 + 1 + 1 + 1 + 1) (record.entries cell literal) := by
    refine (((Cbor.RowFits.append ?kind ?cell).append ?literal).append ?index).append ?name
    case kind => exact Cbor.rowFits_entry (by decide) (Item.fits_byte _ _)
    case cell => exact Cbor.rowFits_entry (by decide) cellFits
    case literal => exact Cbor.rowFits_entry (by decide) literalFits
    case index =>
      exact Cbor.rowFits_entryUnless (by decide) (Item.fits_ofInt fits.low fits.high depth)
    case name => exact Cbor.rowFits_entryUnless (by decide) (Item.fits_ofText fits.name depth)
  exact row.map (by decide)

theorem keeps (fits : record.Fits) (depth : Nat) : Keeps (depth + 2) record.toItem ofItem? record.reread := by
  obtain ⟨cell, madeCell, cellFits, cellRead⟩ := Address.keeps fits.cell (depth + 1)
  obtain ⟨literal, madeLiteral, literalFits, literalRead⟩ := ValueRecord.keeps fits.literal depth
  refine ⟨.map (record.entries cell literal), by rw [toItem, madeCell, madeLiteral]; rfl,
    fits_entries fits cellFits literalFits, ?_⟩
  have index : (if record.index = 0 then Item.null
      else (Item.ofInt record.index).reread).int64? = some record.index :=
    Item.int64?_entry fits.low fits.high id
  show ofItem? (.map (Cbor.rereadEntries (record.entries cell literal))) = _
  unfold ofItem? entries
  rw [Cbor.record?_map (by simp)]
  simp [Item.byte?_unsigned, index, Item.string?_entry, cellRead, literalRead, reread]

end OperandRecord

theorem Opcode.ofCode_code (opcode : Opcode) : ofCode opcode.code = opcode := by
  cases opcode with
  | reserved _ unassigned => exact dif_pos unassigned
  | _ => rfl

namespace InstructionRecord

@[mk_iff]
structure Fits (record : InstructionRecord) : Prop where
  left : record.left.Fits
  right : record.right.Fits
  result : record.result.Fits

def reread (record : InstructionRecord) : InstructionRecord :=
  ⟨record.opcode, record.left.reread, record.right.reread, record.result.reread⟩

def entries (record : InstructionRecord) (left right result : Item) : List (Item × Item) :=
  Cbor.entry 1 (.unsigned record.opcode.code.toNat) ++ Cbor.entry 2 left ++
  Cbor.entry 3 right ++ Cbor.entry 4 result

theorem keeps {record : InstructionRecord} (fits : record.Fits) (depth : Nat) :
    Keeps (depth + 3) record.toItem ofItem? record.reread := by
  obtain ⟨left, madeLeft, leftFits, leftRead⟩ := OperandRecord.keeps fits.left depth
  obtain ⟨right, madeRight, rightFits, rightRead⟩ := OperandRecord.keeps fits.right depth
  obtain ⟨result, madeResult, resultFits, resultRead⟩ := OperandRecord.keeps fits.result depth
  have row : Cbor.RowFits (depth + 2) (1 + 1 + 1 + 1) (record.entries left right result) :=
    (((Cbor.rowFits_entry (by decide) (Item.fits_byte _ _)).append
      (Cbor.rowFits_entry (by decide) leftFits)).append
      (Cbor.rowFits_entry (by decide) rightFits)).append
      (Cbor.rowFits_entry (by decide) resultFits)
  refine ⟨.map (record.entries left right result),
    by rw [toItem, madeLeft, madeRight, madeResult]; rfl, row.map (by decide), ?_⟩
  show ofItem? (.map (Cbor.rereadEntries (record.entries left right result))) = _
  unfold ofItem? entries
  rw [Cbor.record?_map (by simp)]
  simp [Item.byte?_unsigned, leftRead, rightRead, resultRead, Opcode.ofCode_code, reread]

theorem keeps_all {records : List InstructionRecord} (fits : ∀ record ∈ records, record.Fits)
    (depth : Nat) : ∃ items, records.mapM toItem = .ok items ∧ items.length = records.length ∧
      Cbor.ElementsFit (depth + 3) items ∧
      (Cbor.rereadElements items).mapM ofItem? = some (records.map reread) := by
  induction records with
  | nil => exact ⟨[], rfl, rfl, trivial, rfl⟩
  | cons record rest ih =>
    obtain ⟨item, made, itemFits, isRead⟩ := keeps (fits record List.mem_cons_self) depth
    obtain ⟨items, madeAll, length, allFit, areRead⟩ :=
      ih fun other listed => fits other (List.mem_cons_of_mem _ listed)
    refine ⟨item :: items, ?_, by simp [length], ⟨itemFits, allFit⟩, ?_⟩
    · rw [List.mapM_cons, made, madeAll]
      rfl
    · rw [Cbor.rereadElements, List.mapM_cons, isRead, areRead]
      rfl

end InstructionRecord

/-! ### Images -/

theorem Cbor.rereadElements_texts (texts : List String) :
    rereadElements (texts.map .ofText) = texts.map .ofText := by
  induction texts with
  | nil => rfl
  | cons text rest ih => rw [List.map_cons, rereadElements, ih]; rfl

theorem Cbor.elementsFit_texts {texts : List String} (fits : ∀ text ∈ texts, TextFits text)
    (depth : Nat) : ElementsFit depth (texts.map .ofText) := by
  induction texts with
  | nil => trivial
  | cons text rest ih =>
    exact ⟨fits text List.mem_cons_self, ih fun other listed =>
      fits other (List.mem_cons_of_mem _ listed)⟩

theorem Cbor.strings_texts (texts : List String) :
    (texts.map Item.ofText).mapM Item.string? = some texts := by
  induction texts with
  | nil => rfl
  | cons text rest ih =>
    rw [List.map_cons, List.mapM_cons, Item.string?_ofText, ih]
    rfl

namespace Image

variable {image : Image}

/-- The parts of an image that have a place in its item. -/
@[mk_iff]
structure Fits (image : Image) : Prop where
  low : -9223372036854775808 ≤ image.version
  high : image.version < 9223372036854775808
  name : TextFits image.name
  records : ∀ record ∈ image.records, record.Fits
  few : image.records.length ≤ Cbor.maxCount
  natives : ∀ native ∈ image.natives, TextFits native
  fewNatives : image.natives.length ≤ Cbor.maxCount

def reread (image : Image) : Image :=
  { image with instructions := image.instructions.map fun records =>
      records.map InstructionRecord.reread }

def instructionsItem (instructions : Option (List InstructionRecord)) :
    Except Address.Unpackable Item :=
  match instructions with
  | none => pure Item.null
  | some records => do pure (.array (← records.mapM InstructionRecord.toItem))

theorem keeps_instructions {instructions : Option (List InstructionRecord)}
    (fits : ∀ record ∈ instructions.getD [], record.Fits)
    (few : (instructions.getD []).length ≤ Cbor.maxCount) (depth : Nat) :
    Keeps (depth + 4) (instructionsItem instructions)
      (fun item => item.array?.bind fun elements =>
        elements.mapM fun items => items.mapM InstructionRecord.ofItem?)
      (instructions.map fun records => records.map InstructionRecord.reread) := by
  cases instructions with
  | none => exact ⟨.null, rfl, (by decide : 22 < 24), rfl⟩
  | some records =>
    obtain ⟨items, made, length, allFit, areRead⟩ := InstructionRecord.keeps_all fits depth
    refine ⟨.array items, ?_, ⟨Nat.succ_pos _, by rw [length]; exact few, allFit⟩, ?_⟩
    · exact congrArg (Except.map Item.array) made
    · exact congrArg (Option.map some) areRead

def entries (image : Image) (instructions : Item) : List (Item × Item) :=
  Cbor.entry 1 (.ofInt image.version) ++
  Cbor.entryUnless (image.name = "") 2 (.ofText image.name) ++
  Cbor.entry 3 instructions ++
  Cbor.entryUnless image.natives.isEmpty 4 (.array (image.natives.map .ofText)) ++
  Cbor.entryUnless (!image.optimized) 5 (.ofBool image.optimized)

theorem toItem_eq_map (image : Image) : image.toItem =
    (instructionsItem image.instructions).map fun instructions =>
      .map (image.entries instructions) := by
  unfold toItem instructionsItem
  cases image.instructions with
  | none => rfl
  | some records =>
    simp only
    cases records.mapM InstructionRecord.toItem with
    | error failure | ok items => rfl

theorem keeps (fits : image.Fits) (depth : Nat) : Keeps (depth + 5) image.toItem ofItem? image.reread := by
  obtain ⟨instructions, made, itemFits, isRead⟩ := keeps_instructions fits.records fits.few depth
  have row : Cbor.RowFits (depth + 4) (1 + 1 + 1 + 1 + 1) (image.entries instructions) := by
    refine (((Cbor.RowFits.append ?version ?name).append ?instructions).append ?natives).append
      ?optimized
    case version =>
      exact Cbor.rowFits_entry (by decide) (Item.fits_ofInt fits.low fits.high _)
    case name => exact Cbor.rowFits_entryUnless (by decide) (Item.fits_ofText fits.name _)
    case instructions => exact Cbor.rowFits_entry (by decide) itemFits
    case natives =>
      have array : (Item.array (image.natives.map .ofText)).Fits (depth + 4) :=
        ⟨Nat.succ_pos _, by rw [List.length_map]; exact fits.fewNatives,
          Cbor.elementsFit_texts fits.natives _⟩
      exact Cbor.rowFits_entryUnless (by decide) array
    case optimized => exact Cbor.rowFits_entryUnless (by decide) (Item.fits_ofBool _ _)
  refine ⟨.map (image.entries instructions), by rw [toItem_eq_map, made]; rfl, row.map (by decide), ?_⟩
  have version : (Item.ofInt image.version).reread.int64? = some image.version := by
    rw [Item.reread_ofInt, Item.int64?_ofInt fits.low fits.high]
  have natives : (if image.natives = [] then Item.null
      else (Item.array (image.natives.map .ofText)).reread).array?.bind
        (fun natives => (natives.getD []).mapM Item.string?) = some image.natives := by
    split
    · rename_i none
      rw [none]
      rfl
    · rw [Item.reread, Cbor.rereadElements_texts]
      exact Cbor.strings_texts image.natives
  obtain ⟨elements, isArray, elementsRead⟩ := Option.bind_eq_some_iff.1 isRead
  obtain ⟨names, areNames, namesRead⟩ := Option.bind_eq_some_iff.1 natives
  show ofItem? (.map (Cbor.rereadEntries (image.entries instructions))) = _
  unfold ofItem? entries
  rw [Cbor.record?_map (by simp)]
  simp [version, Item.string?_entry, Item.bool?_entry, isArray, elementsRead, areNames, namesRead, reread]

/-! ### Reading what was written -/

theorem toOperand_reread (record : OperandRecord) :
    record.reread.toOperand = record.toOperand ∨ ∃ value value',
      record.reread.toOperand = .literal value ∧ record.toOperand = .literal value' := by
  unfold OperandRecord.toOperand OperandRecord.reread
  simp only
  split
  · exact .inl rfl
  · exact .inr ⟨_, _, rfl, rfl⟩
  · exact .inl rfl
  · exact .inl rfl
  · exact .inl rfl

theorem target?_reread (record : InstructionRecord) :
    record.reread.toInstruction.target? = record.toInstruction.target? := by
  unfold Instruction.target? InstructionRecord.toInstruction InstructionRecord.reread
  rcases toOperand_reread record.result with same | ⟨value, value', same, same'⟩
  · simp only [same]
  · simp only [same, same']

theorem checkTargets_reread (records : List InstructionRecord) (size position : Nat) :
    checkTargets size position
        ((records.map InstructionRecord.reread).map InstructionRecord.toInstruction) =
      checkTargets size position (records.map InstructionRecord.toInstruction) := by
  induction records generalizing position with
  | nil => rfl
  | cons record rest ih =>
    simp only [List.map_cons, checkTargets, target?_reread, ih]
    rfl

theorem validate_reread (image : Image) : image.reread.validate = image.validate := by
  have records : image.reread.records = image.records.map InstructionRecord.reread := by
    unfold Image.records reread
    cases image.instructions <;> rfl
  have size : image.reread.code.size = image.code.size := by
    simp [code, records]
  unfold validate
  rw [size]
  simp only [code, records, List.toList_toArray]
  exact checkTargets_reread _ _ _

/-- An image of the present version is read from its encoding, if its jumps stay inside it. -/
theorem decode_encode (fits : image.Fits) (current : image.version = currentVersion) :
    ∃ bytes, image.encode = .ok bytes ∧
      decode bytes = image.validate.map fun _ => image.reread := by
  obtain ⟨item, made, itemFits, isRead⟩ := keeps fits 27
  refine ⟨item.encode, by rw [encode, made]; rfl, ?_⟩
  have version : image.reread.version = currentVersion := current
  unfold decode
  rw [Cbor.decode?_encode itemFits, Option.bind_some, isRead, ← validate_reread]
  simp only [version, ne_eq, not_true_eq_false, if_false]
  cases image.reread.validate <;> rfl

end Image

end Quadruple
