import Quadruple.Text.Numeral
import Quadruple.Text.Printable

/-!
Text between double quotes: printable characters stand for themselves, the quote and the backslash
are escaped, control characters with a short escape use it and every other character is written by
its code.
-/

namespace Quadruple.Text

def escape (character : Char) : String :=
  match character with
  | '"' => "\\\""
  | '\\' => "\\\\"
  | '\x07' => "\\a"
  | '\x08' => "\\b"
  | '\x0c' => "\\f"
  | '\n' => "\\n"
  | '\r' => "\\r"
  | '\t' => "\\t"
  | '\x0b' => "\\v"
  | _ =>
    let code := character.toNat
    if isPrintable character then String.singleton character
    else if code < 0x20 || code == 0x7f then "\\x" ++ hexPadded 2 code
    else if code < 0x10000 then "\\u" ++ hexPadded 4 code
    else "\\U" ++ hexPadded 8 code

def quoted (text : String) : String :=
  "\"" ++ String.join (text.toList.map escape) ++ "\""

/-- A code point in the form `U+0041 'A'`; a character that is not printable is left out. -/
def codePoint (character : Char) : String :=
  let name := "U+" ++ upperHexPadded 4 character.toNat
  if isPrintable character then name ++ " '" ++ String.singleton character ++ "'" else name

end Quadruple.Text
