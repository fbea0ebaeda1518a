import Quadruple.Text.Numeral

/-!
Amounts of data and lengths of time for the eye: in the largest unit that fits, with as many digits
as matter.
-/

namespace Quadruple.Text

/-- The units of data above one another, each a thousand of the one below. -/
def dataUnits : List String :=
  ["B", "kB", "MB", "GB", "TB", "PB", "EB"]

/-- A number of tenths as a whole number. A half goes to the even neighbour. -/
def wholeOfTenths (tenths : Nat) : Nat :=
  let whole := tenths / 10
  if 5 < tenths % 10 || (tenths % 10 = 5 && whole % 2 = 1) then whole + 1 else whole

/-- An amount of at least one unit. It is rounded to tenths, which are shown below ten. -/
def amountIn (unit : Nat) (name : String) (bytes : Nat) : String :=
  let tenths := (20 * bytes + unit) / (2 * unit)
  if tenths < 100 then digits 10 (tenths / 10) ++ "." ++ digits 10 (tenths % 10) ++ " " ++ name
  else digits 10 (wholeOfTenths tenths) ++ " " ++ name

def amount (bytes : Nat) : Nat → List String → String
  | _, [] => digits 10 bytes
  | unit, [name] => amountIn unit name bytes
  | unit, name :: larger :: rest =>
    if bytes < 1000 * unit then amountIn unit name bytes
    else amount bytes (1000 * unit) (larger :: rest)

def dataSize (bytes : Nat) : String :=
  if bytes < 10 then digits 10 bytes ++ " B" else amount bytes 1 dataUnits

inductive AgeName where
  | fixed (text : String)
  | counted (unit : Nat) (name : String)

def second : Nat := 1000000000

def minute : Nat := 60 * second

def hour : Nat := 60 * minute

def day : Nat := 24 * hour

def week : Nat := 7 * day

def month : Nat := 30 * day

def year : Nat := 12 * month

def ageNames : List (Nat × AgeName) :=
  [(second, .fixed "now"),
    (2 * second, .fixed "1 second ago"),
    (minute, .counted second "seconds"),
    (2 * minute, .fixed "1 minute ago"),
    (hour, .counted minute "minutes"),
    (2 * hour, .fixed "1 hour ago"),
    (day, .counted hour "hours"),
    (2 * day, .fixed "1 day ago"),
    (week, .counted day "days"),
    (2 * week, .fixed "1 week ago"),
    (month, .counted week "weeks"),
    (2 * month, .fixed "1 month ago"),
    (year, .counted month "months"),
    (18 * month, .fixed "1 year ago"),
    (2 * year, .fixed "2 years ago"),
    (37 * year, .counted year "years")]

def age (nanoseconds : Nat) : String :=
  match ageNames.find? fun entry => nanoseconds < entry.1 with
  | some (_, .fixed text) => text
  | some (_, .counted unit name) => digits 10 (nanoseconds / unit) ++ " " ++ name ++ " ago"
  | none => "a long while ago"

end Quadruple.Text
