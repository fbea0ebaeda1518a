import Quadruple.DataType
import Quadruple.Report

/-!
Addresses of cells. An address names an area, a type and an offset, and may be marked as a
reference, which says that the cell holds an object to look through. Packed into a word, the area
takes the two highest bits, the type the next three, the mark one and the offset the remaining 26.
-/

namespace Quadruple

structure Address where
  area : Area
  type : DataType
  reference : Bool
  offset : UInt32
deriving DecidableEq

namespace Address

def maxOffset : Nat := 67108863

/-- Cells of an area and type when nothing else is asked for: one for every offset. -/
def defaultCapacity : Nat := 67108864

/-- The first integer cell of the program's variables, where nothing else is said. -/
def origin : Address := ⟨.global, .int, false, 0⟩

def isValid (address : Address) : Bool :=
  address.area.isAssigned && address.type.isStored && address.offset.toNat ≤ maxOffset

def plain (address : Address) : Address :=
  { address with reference := false }

def withReference (reference : Bool) (address : Address) : Address :=
  { address with reference }

def text (address : Address) : String :=
  (if address.reference then "&" else "") ++ address.area.name ++ "." ++ address.type.name ++ "." ++
    Text.digits 10 address.offset.toNat

structure Unpackable where
  address : Address

def Unpackable.report (failure : Unpackable) : Report :=
  .of .allocationExhausted ("address " ++ failure.address.text ++ " does not fit in 32 bits")

def referenceBit : UInt32 := 0x04000000

def word (address : Address) : UInt32 :=
  address.area.code.toUInt32 <<< 30 ||| address.type.code.toUInt32 <<< 27 ||| address.offset |||
    (if address.reference then referenceBit else 0)

def pack (address : Address) : Except Unpackable UInt32 :=
  if address.isValid then .ok address.word else .error ⟨address⟩

def isReferenceWord (word : UInt32) : Bool :=
  word &&& referenceBit != 0

def unpack (word : UInt32) : Address :=
  { area := .ofCode (word >>> 30).toUInt8
    type := .ofCode (word >>> 27 &&& 7).toUInt8
    reference := isReferenceWord word
    offset := word &&& 0x03ffffff }

end Address

end Quadruple
