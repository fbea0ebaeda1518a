import Quadruple.Number.Reader
import Quadruple.Text.Blank
import Quadruple.Toml.Value

/-!
Reading texts, numbers, truth values, dates and times. Each reader takes what it reads from the
front of the characters and gives the rest.
-/

namespace Quadruple.Toml

def isLineBreak (character : Char) : Bool :=
  character = '\n' || character = '\r'

def isSpace (character : Char) : Bool :=
  character = ' ' || character = '\t'

def character? (digits : List Char) : Option Char := do
  let values ← digits.mapM Number.hexValue?
  let code := values.foldl (fun value digit => value * 16 + digit) 0
  if valid : code.isValidChar then some (Char.ofNatAux code valid) else none

def shortEscape? : Char → Option Char
  | 'b' => some '\x08'
  | 't' => some '\t'
  | 'n' => some '\n'
  | 'f' => some '\x0c'
  | 'r' => some '\r'
  | 'e' => some '\x1b'
  | '"' => some '"'
  | '\\' => some '\\'
  | _ => none

/-- Replaces escapes. A backslash before blanks that hold a line break removes them all; while they
are being removed, `removing` is set. -/
def unescape? (removing : Bool) : List Char → Option (List Char)
  | [] => some []
  | '\\' :: 'x' :: a :: b :: rest => do
    return (← character? [a, b]) :: (← unescape? false rest)
  | '\\' :: 'u' :: a :: b :: c :: d :: rest => do
    return (← character? [a, b, c, d]) :: (← unescape? false rest)
  | '\\' :: 'U' :: a :: b :: c :: d :: e :: f :: g :: h :: rest => do
    return (← character? [a, b, c, d, e, f, g, h]) :: (← unescape? false rest)
  | '\\' :: letter :: rest =>
    if isSpace letter || isLineBreak letter then
      let blanks := (letter :: rest).takeWhile fun next => isSpace next || isLineBreak next
      if blanks.contains '\n' then unescape? true rest else none
    else do
      return (← shortEscape? letter) :: (← unescape? false rest)
  | ['\\'] => none
  | character :: rest =>
    if removing && (isSpace character || isLineBreak character) then unescape? true rest
    else do
      return character :: (← unescape? false rest)

/-- The characters up to a closing quote on the same line. Where there are escapes, the character
behind a backslash does not close. -/
def upToQuote? (quote : Char) (escapes : Bool) : List Char → Option (List Char × List Char)
  | [] => none
  | character :: rest =>
    if isLineBreak character then none
    else if character = quote then some ([], rest)
    else if escapes && character = '\\' then
      match rest with
      | [] => none
      | escaped :: rest =>
        if isLineBreak escaped then none
        else do
          let (others, rest) ← upToQuote? quote escapes rest
          return (character :: escaped :: others, rest)
    else do
      let (others, rest) ← upToQuote? quote escapes rest
      return (character :: others, rest)

/-- The characters up to three closing quotes. Up to two more quotes may stand before these; a
third is refused, unless a backslash stands before all of them. The characters passed are given in
reverse. -/
def upToQuotes? (quote : Char) (escapes : Bool) (passed : List Char) :
    List Char → Option (List Char × List Char)
  | [] => none
  | character :: rest =>
    if escapes && character = '\\' then
      match rest with
      | [] => none
      | escaped :: rest => upToQuotes? quote escapes (escaped :: character :: passed) rest
    else if character = quote then
      match rest with
      | second :: third :: behind =>
        if second = quote && third = quote then
          if behind.head? = some quote then
            match passed with
            | last :: before :: earlier =>
              if last = quote && before = quote && !(escapes && earlier.head? = some '\\') then none
              else upToQuotes? quote escapes (character :: passed) rest
            | _ => upToQuotes? quote escapes (character :: passed) rest
          else some (passed.reverse, behind)
        else upToQuotes? quote escapes (character :: passed) rest
      | _ => upToQuotes? quote escapes (character :: passed) rest
    else upToQuotes? quote escapes (character :: passed) rest

def withoutFirstBreak : List Char → List Char
  | '\n' :: rest => rest
  | '\r' :: '\n' :: rest => rest
  | text => text

def lineString? : List Char → Option (String × List Char)
  | '"' :: rest => do
    let (content, rest) ← upToQuote? '"' true rest
    return (String.ofList (← unescape? false content), rest)
  | '\'' :: rest => do
    let (content, rest) ← upToQuote? '\'' false rest
    return (String.ofList content, rest)
  | _ => none

def string? : List Char → Option (String × List Char)
  | '"' :: '"' :: '"' :: rest => do
    let (content, rest) ← upToQuotes? '"' true [] rest
    return (String.ofList (← unescape? false (withoutFirstBreak content)), rest)
  | '\'' :: '\'' :: '\'' :: rest => do
    let (content, rest) ← upToQuotes? '\'' false [] rest
    return (String.ofList (withoutFirstBreak content), rest)
  | text => lineString? text

def underscoresFit (afterDigit : Bool) : List Char → Bool
  | [] => afterDigit
  | '_' :: rest => afterDigit && underscoresFit false rest
  | character :: rest => underscoresFit (Number.hexValue? character).isSome rest

def hasLeadingZero : List Char → Bool
  | '0' :: _ :: _ | '+' :: '0' :: _ :: _ | '-' :: '0' :: _ :: _ => true
  | _ => false

def digitsValue (base : Nat) (digits : List Char) : Nat :=
  (digits.filterMap Number.hexValue?).foldl (fun value digit => value * base + digit) 0

def integerWithin? (number : Int) : Option Value :=
  if Number.fitsInt64 number then some (.integer number) else none

def baseInteger? (base : Nat) (digits : List Char) : Option Value := do
  guard (underscoresFit false digits)
  integerWithin? (digitsValue base digits)

def decimalInteger? (token : List Char) : Option Value := do
  guard (underscoresFit false token && !hasLeadingZero token)
  let magnitude : Int := digitsValue 10 token
  integerWithin? (if token.head? = some '-' then -magnitude else magnitude)

def pointsFit : List Char → Bool
  | [] => true
  | '.' :: rest => (rest.head?.any Char.isDigit) && pointsFit rest
  | _ :: rest => pointsFit rest

/-- The number of a float token: digits, points, exponent marks, signs and underscores. -/
def floatToken? (token : List Char) : Option Value := do
  let parts := (token.splitOnP fun mark => mark = '.' || mark = 'e' || mark = 'E').filter
    (!·.isEmpty)
  guard (parts.all (underscoresFit false) && !(parts.head?.any hasLeadingZero) && pointsFit token)
  let numeral ← Number.numeral? (token.filter (· ≠ '_'))
  return .float (← numeral.toFloat?)

def isFloatCharacter (character : Char) : Bool :=
  character.isDigit || "_.-+eE".toList.contains character

def isMomentCharacter (character : Char) : Bool :=
  character.isDigit || "-:Tt .Zz+".toList.contains character

def decimal? (text : List Char) : Option (Value × List Char) := do
  let sign := text.takeWhile fun first => first = '+' || first = '-'
  guard (sign.length ≤ 1)
  let unsigned := text.drop sign.length
  guard (unsigned.head?.any Char.isDigit)
  let isDecimal := fun (next : Char) => next.isDigit || next = '_'
  let whole := unsigned.takeWhile isDecimal
  let rest := unsigned.dropWhile isDecimal
  match rest with
  | mark :: _ =>
    if mark = '.' || mark = 'e' || mark = 'E' then
      let token := sign ++ whole ++ rest.takeWhile isFloatCharacter
      return (← floatToken? token, rest.dropWhile isFloatCharacter)
    else if (mark = '-' || mark = ':') && sign.isEmpty && whole.all Char.isDigit then
      let token := unsigned.takeWhile isMomentCharacter
      return (.moment (← Moment.ofText? (Text.trim token)), unsigned.dropWhile isMomentCharacter)
    else return (← decimalInteger? (sign ++ whole), rest)
  | [] => return (← decimalInteger? (sign ++ whole), rest)

/-- A number in a base of its own. A digit must follow the mark of the base. -/
def based? (base : Nat) (text : List Char) : Option (Value × List Char) := do
  let isDigit := fun (next : Char) => (Number.hexValue? next).any (· < base)
  let isPart := fun (next : Char) => isDigit next || next = '_'
  guard (text.head?.any isDigit)
  return (← baseInteger? base (text.takeWhile isPart), text.dropWhile isPart)

def scalar? : List Char → Option (Value × List Char)
  | 't' :: 'r' :: 'u' :: 'e' :: rest => some (.boolean true, rest)
  | 'f' :: 'a' :: 'l' :: 's' :: 'e' :: rest => some (.boolean false, rest)
  | 'i' :: 'n' :: 'f' :: rest | '+' :: 'i' :: 'n' :: 'f' :: rest =>
    some (.float (Number.infinity false), rest)
  | '-' :: 'i' :: 'n' :: 'f' :: rest => some (.float (Number.infinity true), rest)
  | 'n' :: 'a' :: 'n' :: rest | '+' :: 'n' :: 'a' :: 'n' :: rest
  | '-' :: 'n' :: 'a' :: 'n' :: rest => some (.float Number.notANumber, rest)
  | '0' :: 'x' :: rest => based? 16 rest
  | '0' :: 'o' :: rest => based? 8 rest
  | '0' :: 'b' :: rest => based? 2 rest
  | text =>
    match text with
    | '"' :: _ | '\'' :: _ => (string? text).map fun (content, rest) => (.string content, rest)
    | _ => decimal? text

end Quadruple.Toml
