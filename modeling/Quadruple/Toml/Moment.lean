import Quadruple.Text.Numeral

/-!
Dates and times. A moment may lack a date, a time or an offset from universal time; what is missing
is filled in, and the name of the zone tells what it was.
-/

namespace Quadruple.Toml

structure Moment where
  year : Nat := 0
  month : Nat := 1
  day : Nat := 1
  hour : Nat := 0
  minute : Nat := 0
  second : Nat := 0
  nanosecond : Nat := 0
  offset : Int := 0
  zone : String := ""
deriving DecidableEq

namespace Moment

def isLeap (year : Nat) : Bool :=
  year % 4 = 0 && (year % 100 ≠ 0 || year % 400 = 0)

def daysIn (year month : Nat) : Nat :=
  match month with
  | 2 => if isLeap year then 29 else 28
  | 4 | 6 | 9 | 11 => 30
  | _ => 31

def digits? : Nat → List Char → Option (Nat × List Char)
  | 0, text => some (0, text)
  | count + 1, text =>
    match text with
    | [] => none
    | first :: rest => do
      guard first.isDigit
      let (others, rest) ← digits? count rest
      return ((first.toNat - '0'.toNat) * Nat.pow 10 count + others, rest)

def mark? (mark : Char) : List Char → Option (List Char)
  | [] => none
  | first :: rest => if first = mark then some rest else none

def date? (text : List Char) : Option (Moment × List Char) := do
  let (year, rest) ← digits? 4 text
  let (month, rest) ← digits? 2 (← mark? '-' rest)
  let (day, rest) ← digits? 2 (← mark? '-' rest)
  guard (1 ≤ month && month ≤ 12 && 1 ≤ day && day ≤ daysIn year month)
  return ({ year, month, day }, rest)

/-- Digits behind a point as billionths; only nine of them count. -/
def fraction (digits : List Char) : Nat :=
  let counted := digits.take 9
  counted.foldl (fun value digit => value * 10 + (digit.toNat - '0'.toNat)) 0 *
    Nat.pow 10 (9 - counted.length)

def seconds? (moment : Moment) : List Char → Option (Moment × List Char)
  | ':' :: rest => do
    let (second, rest) ← digits? 2 rest
    guard (second < 60)
    let timed := { moment with second }
    match rest with
    | '.' :: digits =>
      let places := digits.takeWhile Char.isDigit
      guard !places.isEmpty
      return ({ timed with nanosecond := fraction places }, digits.dropWhile Char.isDigit)
    | _ => return (timed, rest)
  | rest => some (moment, rest)

def time? (moment : Moment) (text : List Char) : Option (Moment × List Char) := do
  let (hour, rest) ← digits? 2 text
  let (minute, rest) ← digits? 2 (← mark? ':' rest)
  guard (hour < 24 && minute < 60)
  seconds? { moment with hour, minute } rest

/-- An offset to the end of the text. One of zero is universal time. -/
def offset? (moment : Moment) (text : List Char) : Option Moment := do
  let signed (sign : Int) (text : List Char) : Option Moment := do
    let (hours, rest) ← digits? 2 text
    let (minutes, rest) ← digits? 2 (← mark? ':' rest)
    guard (rest.isEmpty && hours ≤ 24 && minutes ≤ 60)
    let offset := sign * (hours * 60 + minutes : Nat)
    return { moment with offset, zone := if offset = 0 then "UTC" else "" }
  match text with
  | ['Z'] => some { moment with zone := "UTC" }
  | '+' :: rest => signed 1 rest
  | '-' :: rest => signed (-1) rest
  | _ => none

/-- The separators as they are read: a blank counts as `T`, and letters may be small. -/
def separator : Char → Char
  | 'z' => 'Z'
  | 't' | ' ' => 'T'
  | other => other

def ofText? (text : List Char) : Option Moment :=
  let text := text.map separator
  match date? text with
  | some (date, []) => some { date with zone := "date-local" }
  | some (date, 'T' :: rest) => do
    let (moment, rest) ← time? date rest
    if rest.isEmpty then return { moment with zone := "datetime-local" } else moment.offset? rest
  | some _ => none
  | none => do
    let (moment, rest) ← time? {} text
    guard rest.isEmpty
    return { moment with zone := "time-local" }

def offsetText (offset : Int) : String :=
  (if offset < 0 then "-" else "+") ++ Text.zeroPadded 2 (offset.natAbs / 60) ++
    Text.zeroPadded 2 (offset.natAbs % 60)

def fractionText (nanosecond : Nat) : String :=
  if nanosecond = 0 then ""
  else
    let places := (Text.zeroPadded 9 nanosecond).toList.reverse.dropWhile (· = '0')
    "." ++ String.ofList places.reverse

def text (moment : Moment) : String :=
  Text.zeroPadded 4 moment.year ++ "-" ++ Text.zeroPadded 2 moment.month ++ "-" ++
    Text.zeroPadded 2 moment.day ++ " " ++ Text.zeroPadded 2 moment.hour ++ ":" ++
    Text.zeroPadded 2 moment.minute ++ ":" ++ Text.zeroPadded 2 moment.second ++
    fractionText moment.nanosecond ++ " " ++ offsetText moment.offset ++ " " ++
    (if moment.zone = "" then offsetText moment.offset else moment.zone)

end Moment

end Quadruple.Toml
