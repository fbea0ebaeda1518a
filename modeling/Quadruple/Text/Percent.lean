import Quadruple.Number.Reader

/-!
Bytes written as a percent sign and two hexadecimal digits, as addresses on the web have them.
-/

namespace Quadruple.Text

/-- Replaces every escape by the character whose code is its byte. If there is a percent sign without
two digits, the error is what stands there instead of an escape. -/
def percentDecoded : List Char → Except String (List Char)
  | [] => .ok []
  | '%' :: rest =>
    match rest with
    | high :: low :: behind =>
      match Number.hexValue? high, Number.hexValue? low with
      | some high, some low => do
        return Char.ofNat (high * 16 + low) :: (← percentDecoded behind)
      | _, _ => .error (String.ofList ['%', high, low])
    | short => .error (String.ofList ('%' :: short))
  | character :: rest => do
    return character :: (← percentDecoded rest)

def isPathCharacter (character : Char) : Bool :=
  character.isAlphanum || "-_.~/!$&'()*+,;=:@[]%".toList.contains character

end Quadruple.Text
