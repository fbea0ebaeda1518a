/-!
Letter case where the outcome is compared with plain letters. A few letters outside ASCII have a
plain letter as their other case: dotless i and long s in upper case, dotted capital I and the
kelvin sign in lower case, and long s and the kelvin sign when case is ignored. No other character
outside ASCII maps to a plain letter, so mapping only these decides every such comparison.
-/

namespace Quadruple.Text

def upperPlain (character : Char) : Char :=
  match character with
  | 'ı' => 'I'
  | 'ſ' => 'S'
  | _ => character.toUpper

def lowerPlain (character : Char) : Char :=
  match character.toNat with
  | 0x130 => 'i'
  | 0x212a => 'k'
  | _ => character.toLower

def foldPlain (character : Char) : Char :=
  match character.toNat with
  | 0x17f => 's'
  | 0x212a => 'k'
  | _ => character.toLower

def spells (text name : String) : Bool :=
  text.toList.map foldPlain == name.toList.map foldPlain

end Quadruple.Text
