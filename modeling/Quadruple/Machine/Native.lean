import Quadruple.Number.Reader
import Quadruple.Text.Blank
import Quadruple.Value

/-!
The functions of the host: a console for lines of text, functions of floats, and the reading of
numbers at the start of a text. Arguments come in the types that the caller has, and are converted.
-/

namespace Quadruple

/-- A console: what is still to be read, and what has been written. -/
structure Console where
  input : List Char
  output : String

namespace Console

def ofInput (text : String) : Console :=
  ⟨text.toList, ""⟩

def write (console : Console) (text : String) : Console :=
  { console with output := console.output ++ text }

def chomp (line : List Char) : List Char :=
  (line.reverse.dropWhile fun character => character = '\n' || character = '\r').reverse

/-- Reads a line. At the end of the input every further line is empty. -/
def readLine (console : Console) : String × Console :=
  let line := console.input.takeWhile (· ≠ '\n')
  (String.ofList (chomp line), { console with input := console.input.drop (line.length + 1) })

end Console

inductive Native where
  | clearConsole
  | cos
  | cursorHome
  | truncate
  | pow
  | putchar
  | read
  | sin
  | sqrt
  | textLength
  | textToFloat
  | textToInt
  | write
deriving DecidableEq

namespace Native

def all : List Native :=
  [clearConsole, cos, cursorHome, truncate, pow, putchar, read, sin, sqrt, textLength, textToFloat,
    textToInt, write]

def name : Native → String
  | clearConsole => "clear_console"
  | cos => "cos"
  | cursorHome => "cursor_home"
  | truncate => "f2i"
  | pow => "pow"
  | putchar => "putchar"
  | read => "read"
  | sin => "sin"
  | sqrt => "sqrt"
  | textLength => "str_len"
  | textToFloat => "str_to_float"
  | textToInt => "str_to_int"
  | write => "write"

def ofName? (text : String) : Option Native :=
  all.find? fun native => native.name == text

def arity : Native → Nat
  | clearConsole | cursorHome | read | write => 0
  | cos | truncate | putchar | sin | sqrt | textLength | textToFloat | textToInt => 1
  | pow => 2

inductive Error where
  | tooFew (native : Native) (given : Nat)
  | noInt (text : String)
  | intRange (text numeral : String)
  | noFloat (text : String)
deriving DecidableEq

def Error.report : Error → Report
  | tooFew native given =>
    .of .runtime (native.name ++ " expects " ++ Text.digits 10 native.arity ++ " arguments, got " ++
      Text.digits 10 given)
  | noInt text => .of .runtime ("can't parse " ++ Text.quoted text ++ " as an integer")
  | intRange text numeral =>
    .of .runtime ("can't parse " ++ Text.quoted text ++ " as an integer: strconv.ParseInt: parsing " ++
      Text.quoted numeral ++ ": value out of range")
  | noFloat text => .of .runtime ("can't parse " ++ Text.quoted text ++ " as a float")

def intPrefix (characters : List Char) : List Char × List Char :=
  match characters with
  | '-' :: rest => (['-'], rest.takeWhile Char.isDigit)
  | '+' :: rest => (['+'], rest.takeWhile Char.isDigit)
  | _ => ([], characters.takeWhile Char.isDigit)

def digitsValue (digits : List Char) : Nat :=
  digits.foldl (fun value digit => value * 10 + (digit.toNat - '0'.toNat)) 0

/-- The integer at the start of a text, behind blanks; what follows it is ignored. -/
def parseInt (text : String) : Except Error Int64 :=
  let (sign, digits) := intPrefix (Text.trim text.toList)
  if digits.isEmpty then .error (.noInt text)
  else
    let magnitude : Int := digitsValue digits
    let value := if sign = ['-'] then -magnitude else magnitude
    if Number.fitsInt64 value then .ok (Int64.ofInt value)
    else .error (.intRange text (String.ofList (sign ++ digits)))

/-- The float of the longest start of a text, of at most the given length, that is a numeral of a
finite float or the name of another. -/
def floatPrefix? (characters : List Char) : Nat → Option Float
  | 0 => none
  | length + 1 =>
    match (Number.numeral? (characters.take (length + 1))).bind Number.Numeral.toFloat? with
    | some number => some number
    | none => floatPrefix? characters length

/-- The float at the start of a text, behind blanks; what follows it is ignored. -/
def parseFloat (text : String) : Except Error Float :=
  let characters := Text.trim text.toList
  match floatPrefix? characters characters.length with
  | some number => .ok number
  | none => .error (.noFloat text)

def result (native : Native) (first second : Value) : Except Error Value :=
  match native with
  | cos => .ok (.float first.toFloat.cos)
  | sin => .ok (.float first.toFloat.sin)
  | sqrt => .ok (.float first.toFloat.sqrt)
  | pow => .ok (.float (first.toFloat.pow second.toFloat))
  | truncate => .ok (.int first.toInt)
  | textLength => .ok (.int (Int64.ofInt first.text.length))
  | textToInt => (parseInt first.text).map .int
  | textToFloat => (parseFloat first.text).map .float
  | clearConsole | cursorHome | putchar | read | write => .ok (.zero .void)

def readPrompted (arguments : List Value) (console : Console) : String × Console :=
  match arguments with
  | prompt :: _ => (console.write prompt.text).readLine
  | [] => console.readLine

def execute (native : Native) (arguments : List Value) (console : Console) :
    Except Error Value × Console :=
  if arguments.length < native.arity then (.error (.tooFew native arguments.length), console)
  else
    let first := arguments.headD .absent
    let second := (arguments.drop 1).headD .absent
    match native with
    | write => (.ok (.zero .void), console.write (" ".intercalate (arguments.map Value.text) ++ "\n"))
    | putchar => (.ok (.zero .void), console.write first.text)
    | clearConsole => (.ok (.zero .void), console.write "\x1b[2J")
    | cursorHome => (.ok (.zero .void), console.write "\x1b[H")
    | read =>
      let (line, after) := readPrompted arguments console
      (.ok (.string line), after)
    | _ => (native.result first second, console)

end Native

end Quadruple
