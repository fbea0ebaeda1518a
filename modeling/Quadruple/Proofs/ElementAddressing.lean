import Quadruple.Proofs.Instructions

/-!
The address of an element. It is the sum of an offset and an index, formed in a machine word, tested
against the greatest offset and cut down to the width of offsets. A sum that fits the word is tested for
what it is. One that does not comes out negative, passes the test, and names a cell near the area's start.
-/

namespace Quadruple.Machine

variable {machine : Machine} {base origin : Address} {index : Operand} {value : Value} {type : DataType}

/-- The place of an element, counted without any limit. -/
def place (origin : Address) (index : Int64) : Int :=
  origin.offset.toNat + index.toInt

theorem toNat_narrowed (word : Int64) :
    (word.toUInt64.toUInt32.toNat : Int) = word.toInt % 4294967296 := by
  have wide : word.toInt = (word.toUInt64.toNat : Int).bmod 18446744073709551616 :=
    BitVec.toInt_eq_toNat_bmod _
  rw [UInt64.toNat_toUInt32, wide, Int.bmod_def]
  omega

theorem toInt_offset_add {index : Int64} (least : 0 ≤ index.toInt) (origin : Address) :
    (Int64.ofInt origin.offset.toNat + index).toInt =
      if place origin index < 9223372036854775808 then place origin index
      else place origin index - 18446744073709551616 := by
  have low := origin.offset.toNat_lt
  have high := index.toInt_lt
  unfold place
  rw [Int64.toInt_add, Int64.toInt_ofInt_of_le (by omega) (by omega), Int.bmod_def]
  split <;> omega

section

variable (isRead : machine.read index = .ok value)
include isRead

theorem element_of_negative (negative : value.toInt.toInt < 0) :
    machine.element (.address base) index type = .error (.negativeIndex value.toInt) := by
  have below : value.toInt < 0 := Int64.lt_iff_toInt_lt.2 negative
  unfold element
  rw [isRead]
  exact if_pos below

section

variable (least : 0 ≤ value.toInt.toInt)
  (starts : machine.Starts base origin)
include least starts

/-- With an index and an origin an element is too far away, by the word's reckoning, or it is found. -/
theorem element_of_starts : machine.element (.address base) index type =
      if (Int64.ofInt Address.maxOffset).toInt < (Int64.ofInt origin.offset.toNat + value.toInt).toInt then
        .error (.indexOutside value.toInt)
      else .ok ⟨origin.area, type, false,
        (Int64.ofInt origin.offset.toNat + value.toInt).toUInt64.toUInt32⟩ := by
  have nonneg : ¬ value.toInt < 0 := fun below =>
    Int.not_lt.2 least (Int64.lt_iff_toInt_lt.1 below)
  simp only [element, isRead, bind, Except.bind, if_neg nonneg, originOf_eq_ok.2 starts,
    ← Int64.lt_iff_toInt_lt]
  rfl

theorem element_within (near : place origin value.toInt ≤ Address.maxOffset) (type : DataType) :
    ∃ offset : UInt32, offset.toNat = place origin value.toInt ∧
      machine.element (.address base) index type = .ok ⟨origin.area, type, false, offset⟩ := by
  have bound : place origin value.toInt ≤ 67108863 := near
  have below : 0 ≤ place origin value.toInt := by unfold place; omega
  have sum := toInt_offset_add least origin
  rw [if_pos (by omega)] at sum
  refine ⟨_, ?_, (element_of_starts isRead least starts).trans (if_neg ?_)⟩
  · rw [toNat_narrowed, sum]
    omega
  · rw [sum]
    exact Int.not_lt.2 near

theorem element_beyond (far : Address.maxOffset < place origin value.toInt)
    (fits : place origin value.toInt < 9223372036854775808) :
    machine.element (.address base) index type = .error (.indexOutside value.toInt) := by
  have sum := toInt_offset_add least origin
  rw [if_pos fits] at sum
  refine (element_of_starts isRead least starts).trans (if_pos ?_)
  rw [sum]
  exact far

theorem element_wrapped (wraps : 9223372036854775808 ≤ place origin value.toInt) (type : DataType) :
    ∃ offset : UInt32, offset.toNat = place origin value.toInt - 9223372036854775808 ∧
      machine.element (.address base) index type = .ok ⟨origin.area, type, false, offset⟩ := by
  have low := origin.offset.toNat_lt
  have high := value.toInt.toInt_lt
  have most : place origin value.toInt < 9223372041149743104 := by unfold place; omega
  have sum := toInt_offset_add least origin
  rw [if_neg (by omega)] at sum
  refine ⟨_, ?_, (element_of_starts isRead least starts).trans (if_neg ?_)⟩
  · rw [toNat_narrowed, sum]
    omega
  · have limit : (Int64.ofInt Address.maxOffset).toInt = 67108863 := rfl
    rw [sum, limit]
    omega

end

end

theorem exists_starts_of_element {operand : Operand} {cell : Address}
    (found : machine.element operand index type = .ok cell) :
    ∃ base value origin, operand = .address base ∧ machine.read index = .ok value ∧
      0 ≤ value.toInt.toInt ∧ machine.Starts base origin := by
  obtain ⟨base, value, origin, same, isRead, least, starts, _⟩ := element_eq_ok found
  exact ⟨base, value, origin, same, isRead, least, starts⟩

/-- The element at an index is the cell of the wanted type in the origin's area whose offset is the sum
of the origin's offset and the index, for an index that is not negative and a sum up to the greatest
offset. An index that is negative, or with which the sum is beyond that, fails at run time, if only the
sum fits a machine word. A sum that does not fit is taken for what remains of it. -/
theorem element_eq_ok_iff_exact_or_wrapped (machine : Machine) (operand index : Operand) (type : DataType) :
    (∀ cell, machine.element operand index type = .ok cell ↔
      ∃ base value origin, operand = .address base ∧ machine.read index = .ok value ∧
        machine.Starts base origin ∧ 0 ≤ value.toInt.toInt ∧
        cell.area = origin.area ∧ cell.type = type ∧ cell.reference = false ∧
        (place origin value.toInt ≤ Address.maxOffset ∧
            cell.offset.toNat = place origin value.toInt ∨
          9223372036854775808 ≤ place origin value.toInt ∧
            cell.offset.toNat = place origin value.toInt - 9223372036854775808)) ∧
    ∀ base value, operand = .address base → machine.read index = .ok value →
      (value.toInt.toInt < 0 ∨ ∃ origin, machine.Starts base origin ∧
        Address.maxOffset < place origin value.toInt ∧
        place origin value.toInt < 9223372036854775808) →
      ∃ fault, machine.element operand index type = .error fault ∧ fault.report.kind = .runtime := by
  refine ⟨fun cell => ⟨fun found => ?_, ?_⟩, ?_⟩
  · obtain ⟨base, value, origin, rfl, isRead, least, starts⟩ := exists_starts_of_element found
    refine ⟨base, value, origin, rfl, isRead, starts, least, ?_⟩
    rcases Int.lt_or_le Address.maxOffset (place origin value.toInt) with far | near
    · rcases Int.lt_or_le (place origin value.toInt) 9223372036854775808 with fits | wraps
      · cases found.symm.trans (element_beyond isRead least starts far fits)
      · obtain ⟨offset, same, element⟩ := element_wrapped isRead least starts wraps type
        cases found.symm.trans element
        exact ⟨rfl, rfl, rfl, .inr ⟨wraps, same⟩⟩
    · obtain ⟨offset, same, element⟩ := element_within isRead least starts near type
      cases found.symm.trans element
      exact ⟨rfl, rfl, rfl, .inl ⟨near, same⟩⟩
  · rintro ⟨base, value, origin, rfl, isRead, starts, least, area, rfl, plain, sum⟩
    have named : ∀ offset : UInt32, offset.toNat = (cell.offset.toNat : Int) →
        (⟨origin.area, cell.type, false, offset⟩ : Address) = cell := by
      intro offset same
      rw [← area, ← plain, UInt32.toNat_inj.1 (Int.ofNat_inj.1 same)]
    rcases sum with ⟨near, sum⟩ | ⟨wraps, sum⟩
    · obtain ⟨offset, same, element⟩ := element_within isRead least starts near cell.type
      rw [element, named offset (same.trans sum.symm)]
    · obtain ⟨offset, same, element⟩ := element_wrapped isRead least starts wraps cell.type
      rw [element, named offset (same.trans sum.symm)]
  · rintro base value rfl isRead (negative | ⟨origin, starts, far, fits⟩)
    · exact ⟨_, element_of_negative isRead negative, rfl⟩
    · rcases Int.lt_or_le value.toInt.toInt 0 with negative | least
      · exact ⟨_, element_of_negative isRead negative, rfl⟩
      · exact ⟨_, element_beyond isRead least starts far fits, rfl⟩

/-- The cell behind the first one, with the greatest index there is, is taken for the first one. -/
theorem element_at_greatest_index :
    (ofProgram #[] {}).element (.address ⟨.global, .int, false, 1⟩) (.literal (.int 9223372036854775807))
      .int = .ok .origin :=
  rfl

end Quadruple.Machine
