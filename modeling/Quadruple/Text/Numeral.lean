/-!
Numbers as digits, and texts padded to a width. Widths count characters.
-/

namespace Quadruple.Text

def digits (base number : Nat) : String :=
  String.ofList (Nat.toDigits base number)

def decimal : Int → String
  | .ofNat number => digits 10 number
  | .negSucc number => "-" ++ digits 10 (number + 1)

def padLeft (fill : Char) (width : Nat) (text : String) : String :=
  String.ofList (List.replicate (width - text.length) fill) ++ text

def padRight (fill : Char) (width : Nat) (text : String) : String :=
  text ++ String.ofList (List.replicate (width - text.length) fill)

def zeroPadded (width number : Nat) : String :=
  padLeft '0' width (digits 10 number)

def hexPadded (width number : Nat) : String :=
  padLeft '0' width (digits 16 number)

def upperHexPadded (width number : Nat) : String :=
  (hexPadded width number).map Char.toUpper

def grouped (number : Nat) : String :=
  String.ofList (separate (Nat.toDigits 10 number).reverse).reverse
where
  separate : List Char → List Char
    | one :: two :: three :: four :: rest => one :: two :: three :: ',' :: separate (four :: rest)
    | short => short

end Quadruple.Text
