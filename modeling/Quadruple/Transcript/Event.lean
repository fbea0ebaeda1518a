import Quadruple.Value

/-!
Transcripts: recorded sequences of the events by which a front end tells a program.
-/

namespace Quadruple

inductive Constant where
  | int (number : Int64)
  | float (number : Float)
  | string (text : String)
  | bool (truth : Bool)
  /-- A recorded value that no constant has, by its text and the name of its kind. -/
  | other (text kind : String)
deriving DecidableEq

namespace Constant

def text : Constant → String
  | int number => Text.decimal number.toInt
  | float number => Number.general number
  | string text => text
  | bool true => "true"
  | bool false => "false"
  | other text _ => text

def value? : Constant → Option Value
  | int number => some (.int number)
  | float number => some (.float number)
  | string text => some (.string text)
  | bool truth => some (.bool truth)
  | other .. => none

end Constant

/-- One event: its kind, and what the kind needs to know. -/
structure Event where
  kind : String := ""
  name : String := ""
  type : String := ""
  value : Option Constant := none
  /-- The extents of an array, where they are given. -/
  dimensions : Option (List Int) := none
  operator : String := ""
  count : Int := 0
  className : String := ""
deriving DecidableEq

structure Transcript where
  name : String := ""
  natives : Bool := false
  events : List Event := []
deriving DecidableEq

end Quadruple
