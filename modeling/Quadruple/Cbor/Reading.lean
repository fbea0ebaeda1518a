import Quadruple.Cbor.Decoding

/-!
What an item says where a certain kind of thing is expected. A null stands for the zero, the empty
text or whatever else says nothing. Tags are looked through, except that the tags of large numbers
make numbers, and a tag for a moment or a number must stand before content of its kind.
-/

namespace Quadruple.Cbor.Item

def isTagOf (tag : Nat) (content : Item) : Bool :=
  match tag, content with
  | 0, text _ | 1, unsigned _ | 1, negative _ | 1, float _ | 2, bytes _ | 3, bytes _ => true
  | tag, _ => 4 ≤ tag

def untagged? : Item → Option Item
  | tagged tag content =>
    if content.isTagOf tag then
      match tag, content with
      | 2, bytes digits => if digits.toNat < UInt64.size then some (unsigned digits.toNat) else none
      | 3, bytes digits => if digits.toNat < 0x8000000000000000 then some (negative digits.toNat) else none
      | _, content => content.untagged?
    else none
  | item => some item

def isNullCode (code : Nat) : Bool :=
  code = 22 || code = 23

def isTruthCode (code : Nat) : Bool :=
  code = 20 || code = 21

/-- A whole number. A simple value without a meaning is taken for its code. -/
def int? (item : Item) : Option Int := do
  match ← item.untagged? with
  | unsigned number => some number
  | negative number => some (-1 - number)
  | simple code =>
    if isNullCode code then some 0 else if isTruthCode code then none else some code
  | _ => none

def intWithin? (least bound : Int) (item : Item) : Option Int := do
  let number ← item.int?
  guard (least ≤ number && number < bound)
  return number

def byte? (item : Item) : Option UInt8 :=
  (item.intWithin? 0 256).map UInt8.ofInt

def word32? (item : Item) : Option UInt32 :=
  (item.intWithin? 0 4294967296).map fun number => UInt32.ofNat number.toNat

def int64? (item : Item) : Option Int :=
  item.intWithin? (-9223372036854775808) 9223372036854775808

def word64? (item : Item) : Option Nat :=
  (item.intWithin? 0 18446744073709551616).map Int.toNat

/-- A float, or the float nearest to a whole number. -/
def float? (item : Item) : Option Float := do
  match ← item.untagged? with
  | float number => some number
  | other =>
    let number ← other.intWithin? (-9223372036854775808) 18446744073709551616
    return (Number.Scaled.mk (number < 0) number.natAbs 0).toFloat

def bool? (item : Item) : Option Bool := do
  match ← item.untagged? with
  | simple code =>
    if isTruthCode code then some (code = 21) else if isNullCode code then some false else none
  | _ => none

def string? (item : Item) : Option String := do
  match ← item.untagged? with
  | text content => content.text?
  | simple code => if isNullCode code then some "" else none
  | _ => none

def bytes? : Item → Option Bytes
  | tagged tag content =>
    match tag, content with
    | 2, bytes digits | 3, bytes digits => some digits
    | _, _ => if content.isTagOf tag then content.bytes? else none
  | bytes content => some content
  | array elements => elements.mapM byte?
  | simple code => if isNullCode code then some [] else none
  | _ => none

/-- The elements of an array; a null has none to speak of. -/
def array? (item : Item) : Option (Option (List Item)) := do
  match ← item.untagged? with
  | array elements => some (some elements)
  | simple code => if isNullCode code then some none else none
  | _ => none

/-- Whether an item may be a key of a record: a whole number, not too far below zero, or a text. -/
def isKey : Item → Bool
  | unsigned _ => true
  | negative number => number < 0x8000000000000000
  | text content => content.text?.isSome
  | _ => false

/-- The entries of a record; a null has none. -/
def record? (item : Item) : Option (List (Item × Item)) := do
  match ← item.untagged? with
  | map entries => if entries.all (·.1.isKey) then some entries else none
  | simple code => if isNullCode code then some [] else none
  | _ => none

def isNumber (number : Nat) : Item → Bool
  | unsigned key => key = number
  | text key => key = .ofText (Text.digits 10 number)
  | _ => false

/-- The first entry of a record under a number; there is a null under every other number. -/
def field (number : Nat) (entries : List (Item × Item)) : Item :=
  ((entries.find? fun entry => entry.1.isNumber number).map (·.2)).getD null

end Quadruple.Cbor.Item
