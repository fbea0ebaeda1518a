import Quadruple.Toml.Scalar

/-!
The statements of a configuration document: headers of tables, and names with their values. Values
still show how they were written, because an inline table gives its entries by paths.
-/

namespace Quadruple.Toml

inductive Written where
  | scalar (value : Value)
  | array (elements : List Written)
  | inlineTable (entries : List (Path × Written))

def isArray : Written → Bool
  | .array _ => true
  | _ => false

inductive Statement where
  | table (path : Path)
  /-- The header of one more table in an array of tables. -/
  | arrayTable (path : Path)
  | entry (path : Path) (value : Written)

def skipVoid (inComment : Bool) : List Char → List Char
  | [] => []
  | character :: rest =>
    if isLineBreak character then skipVoid false rest
    else if inComment || isSpace character then skipVoid inComment rest
    else if character = '#' then skipVoid true rest
    else character :: rest

def skipSpace (text : List Char) : List Char :=
  text.dropWhile isSpace

def name? (text : List Char) : Option (String × List Char) :=
  match text with
  | '"' :: _ | '\'' :: _ => lineString? text
  | _ =>
    let bare := text.takeWhile isBare
    if bare.isEmpty then none else some (String.ofList bare, text.dropWhile isBare)

def path? : Nat → List Char → Option (Path × List Char)
  | 0, _ => none
  | fuel + 1, text => do
    let (name, rest) ← name? (skipSpace text)
    match skipSpace rest with
    | '.' :: rest =>
      let (others, rest) ← path? fuel rest
      return (name :: others, rest)
    | rest => return ([name], rest)

def assigned? (fuel : Nat) (text : List Char) : Option (Path × List Char) := do
  let (path, rest) ← path? fuel text
  match rest with
  | '=' :: rest => return (path, rest)
  | _ => none

mutual

def written? : Nat → List Char → Option (Written × List Char)
  | 0, _ => none
  | fuel + 1, text =>
    match skipSpace text with
    | '[' :: rest => (elements? fuel rest).map fun (elements, rest) => (.array elements, rest)
    | '\x7b' :: rest => (entries? fuel rest).map fun (entries, rest) => (.inlineTable entries, rest)
    | text => (scalar? text).map fun (value, rest) => (.scalar value, rest)

/-- The elements of an array up to its closing bracket. A comma may follow the last one. -/
def elements? : Nat → List Char → Option (List Written × List Char)
  | 0, _ => none
  | fuel + 1, text =>
    match skipVoid false text with
    | ']' :: rest => some ([], rest)
    | text => do
      let (first, rest) ← written? fuel text
      match skipVoid false rest with
      | ',' :: rest =>
        let (others, rest) ← elements? fuel rest
        return (first :: others, rest)
      | ']' :: rest => return ([first], rest)
      | _ => none

/-- The entries of an inline table up to its closing brace. A comma may follow the last one. -/
def entries? : Nat → List Char → Option (List (Path × Written) × List Char)
  | 0, _ => none
  | fuel + 1, text =>
    match skipVoid false text with
    | '\x7d' :: rest => some ([], rest)
    | text => do
      let (path, rest) ← assigned? fuel text
      let (value, rest) ← written? fuel rest
      match skipVoid false rest with
      | ',' :: rest =>
        let (others, rest) ← entries? fuel rest
        return ((path, value) :: others, rest)
      | '\x7d' :: rest => return ([(path, value)], rest)
      | _ => none

end

def statement? (fuel : Nat) : List Char → Option (Statement × List Char)
  | '[' :: '[' :: rest => do
    let (path, rest) ← path? fuel rest
    match rest with
    | ']' :: ']' :: rest => return (.arrayTable path, rest)
    | _ => none
  | '[' :: rest => do
    let (path, rest) ← path? fuel rest
    match rest with
    | ']' :: rest => return (.table path, rest)
    | _ => none
  | text => do
    let (path, rest) ← assigned? fuel text
    let (value, rest) ← written? fuel rest
    return (.entry path value, rest)

def endsLine (text : List Char) : Bool :=
  match skipSpace text with
  | [] => true
  | character :: _ => character = '#' || isLineBreak character

/-- Statements to the end of the text, each on lines of its own. Every statement takes at least one
character. -/
def statements? : Nat → List Char → Option (List Statement)
  | 0, _ => none
  | fuel + 1, text =>
    match skipVoid false text with
    | [] => some []
    | text => do
      let (first, rest) ← statement? (fuel + 1) text
      guard (endsLine rest)
      return first :: (← statements? fuel rest)

/-- Whether a text has only characters that a document may have: no control characters but tabs and
line breaks, and no carriage return alone. -/
def isPlain : List Char → Bool
  | [] => true
  | '\r' :: '\n' :: rest => isPlain rest
  | character :: rest =>
    (character = '\t' || character = '\n' ||
      (0x20 ≤ character.toNat && character.toNat ≠ 0x7f)) && isPlain rest

def withoutByteOrderMark : List Char → List Char
  | [] => []
  | first :: rest => if first.toNat = 0xfeff then rest else first :: rest

/-- The statements of a document. Each call passes at least one character or is followed by one that
does, so twice as many calls as characters are enough. -/
def parse? (text : List Char) : Option (List Statement) := do
  let text := withoutByteOrderMark text
  guard (isPlain text)
  statements? (2 * text.length + 2) text

end Quadruple.Toml
