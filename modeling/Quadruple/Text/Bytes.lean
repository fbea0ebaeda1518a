import Quadruple.Text.Numeral
import Quadruple.Text.Quoted

/-!
Texts as bytes, whole numbers as bytes with the most significant first, and bytes as hexadecimal
digits.
-/

namespace Quadruple

abbrev Bytes := List UInt8

namespace Bytes

def ofText (text : String) : Bytes :=
  text.toByteArray.data.toList

def text? (bytes : Bytes) : Option String :=
  String.fromUTF8? ⟨bytes.toArray⟩

def bigEndian : Nat → Nat → Bytes
  | 0, _ => []
  | width + 1, number => UInt8.ofNat (number / Nat.pow 256 width) :: bigEndian width number

def toNat (bytes : Bytes) : Nat :=
  bytes.foldl (fun number byte => number * 256 + byte.toNat) 0

@[simp]
theorem length_bigEndian (width number : Nat) : (bigEndian width number).length = width := by
  induction width with
  | zero => rfl
  | succ width ih => simp [bigEndian, ih]

def hex (bytes : Bytes) : String :=
  String.join (bytes.map fun byte => Text.hexPadded 2 byte.toNat)

inductive HexError where
  | invalidByte (byte : UInt8)
  | oddLength
deriving DecidableEq

def HexError.message : HexError → String
  | invalidByte byte => "encoding/hex: invalid byte: " ++ Text.codePoint (Char.ofNat byte.toNat)
  | oddLength => "encoding/hex: odd length hex string"

def hexDigit (byte : UInt8) : Except HexError UInt8 :=
  if 0x30 ≤ byte && byte ≤ 0x39 then .ok (byte - 0x30)
  else if 0x61 ≤ byte && byte ≤ 0x66 then .ok (byte - 0x57)
  else if 0x41 ≤ byte && byte ≤ 0x46 then .ok (byte - 0x37)
  else .error (.invalidByte byte)

/-- The bytes that pairs of digits spell. A wrong digit is found before a missing one. -/
def ofHexDigits : Bytes → Except HexError Bytes
  | [] => .ok []
  | [last] => do
    let _ ← hexDigit last
    .error .oddLength
  | high :: low :: rest => do
    let high ← hexDigit high
    let low ← hexDigit low
    return (high <<< 4 ||| low) :: (← ofHexDigits rest)

def ofHex (digits : String) : Except HexError Bytes :=
  ofHexDigits (ofText digits)

end Bytes

end Quadruple
