/-!
White space in the sense of the character database, and its removal from both ends of a text.
-/

namespace Quadruple.Text

def isBlank (character : Char) : Bool :=
  let code := character.toNat
  (0x09 ≤ code && code ≤ 0x0d) || code == 0x20 || code == 0x85 || code == 0xa0 || code == 0x1680 ||
    (0x2000 ≤ code && code ≤ 0x200a) || code == 0x2028 || code == 0x2029 || code == 0x202f ||
    code == 0x205f || code == 0x3000

def trim (characters : List Char) : List Char :=
  (characters.dropWhile isBlank).reverse.dropWhile isBlank |>.reverse

end Quadruple.Text
