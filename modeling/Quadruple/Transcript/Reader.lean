import Quadruple.Text.Casing
import Quadruple.Toml.Document
import Quadruple.Transcript.Event

/-!
Reading a transcript from a configuration document. Names may be written in any letter case, and a
name without a meaning is refused. The value of a constant may be anything; what no constant has is
kept as its text and the name of its kind.
-/

namespace Quadruple

mutual

def Toml.Value.text : Toml.Value → String
  | .string text => text
  | .integer number => Text.decimal number
  | .float number => Number.general number
  | .boolean truth => if truth then "true" else "false"
  | .moment moment => moment.text
  | .array elements => "[" ++ " ".intercalate (Toml.texts elements) ++ "]"
  | .table entries => Toml.tableText entries
  | .tables latestFirst => "[" ++ " ".intercalate (Toml.tableTexts latestFirst).reverse ++ "]"

def Toml.texts : List Toml.Value → List String
  | [] => []
  | first :: rest => first.text :: Toml.texts rest

def Toml.tableText (entries : List (String × Toml.Value)) : String :=
  "map[" ++ " ".intercalate ((Toml.entryTexts entries).mergeSort (fun one other => one.1 ≤ other.1)
    |>.map fun entry => entry.1 ++ ":" ++ entry.2) ++ "]"

def Toml.entryTexts : List (String × Toml.Value) → List (String × String)
  | [] => []
  | (name, value) :: rest => (name, value.text) :: Toml.entryTexts rest

def Toml.tableTexts : List (List (String × Toml.Value)) → List String
  | [] => []
  | first :: rest => Toml.tableText first :: Toml.tableTexts rest

end

def Toml.Value.kindName : Toml.Value → String
  | .moment _ => "time.Time"
  | .array _ => "[]interface {}"
  | .table _ => "map[string]interface {}"
  | .tables _ => "[]map[string]interface {}"
  | .string _ => "string"
  | .integer _ => "int64"
  | .float _ => "float64"
  | .boolean _ => "bool"

def Constant.ofValue : Toml.Value → Constant
  | .string text => .string text
  | .integer number => .int (Int64.ofInt number)
  | .float number => .float number
  | .boolean truth => .bool truth
  | value => .other value.text value.kindName

namespace Toml.Value

def string? : Value → Option String
  | string text => some text
  | _ => none

def integer? : Value → Option Int
  | integer number => some number
  | _ => none

def boolean? : Value → Option Bool
  | boolean truth => some truth
  | _ => none

def array? : Value → Option (List Value)
  | array elements => some elements
  | _ => none

def tableList? : Value → Option (List Table)
  | tables latestFirst => some latestFirst.reverse
  | array elements => elements.mapM fun element =>
    match element with
    | table entries => some entries
    | _ => none
  | _ => none

end Toml.Value

namespace Event

def fieldNames : List String :=
  ["kind", "name", "type", "value", "dims", "op", "n", "class"]

/-- Takes up one entry of an event's table. An entry without a meaning changes nothing. -/
def withEntry? (event : Event) (name : String) (value : Toml.Value) : Option Event := do
  match fieldNames.find? (Text.spells name) with
  | some "kind" => return { event with kind := ← value.string? }
  | some "name" => return { event with name := ← value.string? }
  | some "type" => return { event with type := ← value.string? }
  | some "value" => return { event with value := some (.ofValue value) }
  | some "dims" => return { event with dimensions := some (← (← value.array?).mapM (·.integer?)) }
  | some "op" => return { event with operator := ← value.string? }
  | some "n" => return { event with count := ← value.integer? }
  | some "class" => return { event with className := ← value.string? }
  | _ => return event

def ofTable? (table : Toml.Table) : Option Event :=
  table.foldlM (fun event (name, value) => event.withEntry? name value) {}

end Event

namespace Transcript

def fieldNames : List String :=
  ["name", "natives", "event"]

def withEntry? (transcript : Transcript) (name : String) (value : Toml.Value) :
    Option Transcript := do
  match fieldNames.find? (Text.spells name) with
  | some "name" => return { transcript with name := ← value.string? }
  | some "natives" => return { transcript with natives := ← value.boolean? }
  | some "event" => return { transcript with events := ← (← value.tableList?).mapM Event.ofTable? }
  | _ => return transcript

def isKnown : Toml.Path → Bool
  | [name] => fieldNames.any (Text.spells name)
  | [name, field] => Text.spells name "event" && Event.fieldNames.any (Text.spells field)
  | _ => false

inductive ReadError where
  /-- There is no text, it is no configuration document, or something in it has the wrong type. -/
  | malformed
  | unknownKey (path : Toml.Path)
deriving DecidableEq

def read (text : String) : Except ReadError Transcript :=
  match Toml.Document.ofText? text with
  | none => .error .malformed
  | some document =>
    match document.root.foldlM (fun transcript (name, value) => transcript.withEntry? name value)
        ({} : Transcript) with
    | none => .error .malformed
    | some transcript =>
      match document.paths.find? (!isKnown ·) with
      | some path => .error (.unknownKey path)
      | none => .ok transcript

def ReadError.report : ReadError → Report
  | malformed => .plain "parse transcript"
  | unknownKey path => .plain ("parse transcript: unknown key " ++ path.text)

def ReadError.fileReport (file : String) : ReadError → Report
  | malformed => .plain ("cannot read " ++ file)
  | unknownKey path => .plain (file ++ ": unknown key " ++ path.text)

def namedBy (file : String) (transcript : Transcript) : Transcript :=
  if transcript.name = "" then { transcript with name := file } else transcript

def load (file : String) (content : Option String) : Except ReadError Transcript := do
  match content with
  | none => throw .malformed
  | some text => return (← read text).namedBy file

end Transcript

end Quadruple
