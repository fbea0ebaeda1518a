import Quadruple.Number.FloatText
import Quadruple.Toml.Moment

/-!
The values of a configuration document.
-/

namespace Quadruple.Toml

inductive Value where
  | string (text : String)
  | integer (number : Int)
  | float (number : Float)
  | boolean (truth : Bool)
  | moment (moment : Moment)
  | array (elements : List Value)
  | table (entries : List (String × Value))
  /-- The tables under a repeated header, the latest first. -/
  | tables (latestFirst : List (List (String × Value)))

abbrev Table := List (String × Value)

abbrev Path := List String

namespace Table

def get? (table : Table) (name : String) : Option Value :=
  table.lookup name

def set (table : Table) (name : String) (value : Value) : Table :=
  match table with
  | [] => [(name, value)]
  | (other, old) :: rest =>
    if other = name then (name, value) :: rest else (other, old) :: set rest name value

end Table

def isBare (character : Char) : Bool :=
  character.isAlphanum || character = '_' || character = '-'

def escapeInName (character : Char) : String :=
  match character with
  | '"' => "\\\""
  | '\\' => "\\\\"
  | '\x08' => "\\b"
  | '\t' => "\\t"
  | '\n' => "\\n"
  | '\x0c' => "\\f"
  | '\r' => "\\r"
  | _ =>
    if character.toNat < 0x20 || character.toNat = 0x7f then
      "\\u" ++ Text.hexPadded 4 character.toNat
    else String.singleton character

def nameText (name : String) : String :=
  if name ≠ "" && name.toList.all isBare then name
  else "\"" ++ String.join (name.toList.map escapeInName) ++ "\""

def Path.text (path : Path) : String :=
  ".".intercalate (path.map nameText)

end Quadruple.Toml
