import Quadruple.Number.Narrow
import Quadruple.Text.Bytes

/-!
The data items of CBOR and their encoding. Every number is written in the fewest bytes that keep
it, and the entries of a map are written in the order in which they stand.
-/

namespace Quadruple.Cbor

inductive Item where
  | unsigned (number : Nat)
  /-- The number `-1 - number`. -/
  | negative (number : Nat)
  | bytes (content : Bytes)
  /-- A text, as the bytes that encode it. -/
  | text (content : Bytes)
  | array (elements : List Item)
  | map (entries : List (Item × Item))
  | tagged (tag : Nat) (content : Item)
  /-- Truth values, null, undefined and what has no meaning yet. -/
  | simple (code : Nat)
  | float (number : Float)

namespace Item

def null : Item := simple 22

def ofBool (truth : Bool) : Item :=
  simple (if truth then 21 else 20)

def ofInt : Int → Item
  | .ofNat number => unsigned number
  | .negSucc number => negative number

def ofText (content : String) : Item :=
  text (.ofText content)

end Item

/-- The first bytes of an item: its major type and a number in the fewest bytes. -/
def head (major : UInt8) (argument : Nat) : Bytes :=
  let first (info : UInt8) := major <<< 5 ||| info
  if argument < 24 then [first (UInt8.ofNat argument)]
  else if argument < 256 then first 24 :: Bytes.bigEndian 1 argument
  else if argument < 65536 then first 25 :: Bytes.bigEndian 2 argument
  else if argument < 4294967296 then first 26 :: Bytes.bigEndian 4 argument
  else first 27 :: Bytes.bigEndian 8 argument

def encodeFloat (number : Float) : Bytes :=
  let half (bits : Nat) := 0xf9 :: Bytes.bigEndian 2 bits
  if number.isNaN then half Number.BinaryFormat.half.notANumber
  else
    match Number.scaled? number with
    | none => half (Number.BinaryFormat.half.infinity (number < 0))
    | some exact =>
      match exact.narrow? .half, exact.narrow? .single with
      | some bits, _ => half bits
      | none, some bits => 0xfa :: Bytes.bigEndian 4 bits
      | none, none => 0xfb :: Bytes.bigEndian 8 number.toBits.toNat

mutual

def Item.encode : Item → Bytes
  | .unsigned number => head 0 number
  | .negative number => head 1 number
  | .bytes content => head 2 content.length ++ content
  | .text content => head 3 content.length ++ content
  | .array elements => head 4 elements.length ++ encodeElements elements
  | .map entries => head 5 entries.length ++ encodeEntries entries
  | .tagged tag content => head 6 tag ++ content.encode
  | .simple code => head 7 code
  | .float number => encodeFloat number

def encodeElements : List Item → Bytes
  | [] => []
  | first :: rest => first.encode ++ encodeElements rest

def encodeEntries : List (Item × Item) → Bytes
  | [] => []
  | (key, value) :: rest => key.encode ++ value.encode ++ encodeEntries rest

end

end Quadruple.Cbor
