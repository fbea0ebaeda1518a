import Quadruple.Files.Path
import Quadruple.Memory
import Quadruple.Optimization
import Quadruple.Toml.Document

/-!
The configuration of a project. The file must name the project and may say more; what it leaves out
has a usual value. A section or a setting without a meaning is refused, and so is a value that its
setting cannot have.
-/

namespace Quadruple

structure Manifest where
  name : String := ""
  version : String := ""
  sourceDirectories : List String := ["src"]
  entry : String := ""
  memory : Capacities := {}
  optimize : Bool := true
  optimizer : Optimization.Options := {}
  maxSteps : Nat := 0
  profile : Bool := false
  natives : List String := []
  output : String := ""
  cache : String := ".quadra/images.db"
  listen : String := "127.0.0.1:7411"
  serverMaxSteps : Nat := 0
  directory : String := ""
deriving DecidableEq

namespace Manifest

def fileName : String := "quadra.toml"

def isName (text : String) : Bool :=
  match text.toList with
  | [] => false
  | first :: rest =>
    first.isLower && rest.all fun character =>
      character.isLower || character.isDigit || character = '_' || character = '-'

def afterDigits? (text : List Char) : Option (List Char) :=
  if text.head?.any Char.isDigit then some (text.dropWhile Char.isDigit) else none

def afterPoint? : List Char → Option (List Char)
  | '.' :: rest => some rest
  | _ => none

def isVersion (text : String) : Bool :=
  let numbers := do
    let rest ← afterPoint? (← afterDigits? text.toList)
    let rest ← afterPoint? (← afterDigits? rest)
    afterDigits? rest
  numbers.isSome

def sections : List (String × List String) :=
  [("project", ["name", "version"]),
    ("source", ["dirs", "entry"]),
    ("memory", ["global", "local", "temp", "stack"]),
    ("optimizer", ["enabled", "jump-threading", "constant-folding", "max-rounds"]),
    ("vm", ["max-steps", "profile", "natives"]),
    ("image", ["output", "cache"]),
    ("server", ["listen", "max-steps"])]

def isSection (name : String) (value : Toml.Value) : Bool :=
  match sections.lookup name, value with
  | some settings, .table entries => entries.all fun entry => settings.contains entry.1
  | _, _ => false

def setting? (root : Toml.Table) (section_ name : String) : Option Toml.Value :=
  match root.get? section_ with
  | some (.table entries) => Toml.Table.get? entries name
  | _ => none

/-- Reads a setting; one that is not given has its usual value. -/
def read {α : Type} (root : Toml.Table) (section_ name : String) (usual : α)
    (value? : Toml.Value → Option α) : Option α :=
  match setting? root section_ name with
  | none => some usual
  | some value => value? value

/-- A text. A moment passes for one, if its offset is less than a day. -/
def text? : Toml.Value → Option String
  | .string text => some text
  | .moment moment => if moment.offset.natAbs < 1440 then some "" else none
  | _ => none

def texts? : Toml.Value → Option (List String)
  | .array elements => elements.mapM text?
  | _ => none

def truth? : Toml.Value → Option Bool
  | .boolean truth => some truth
  | _ => none

def numberWithin? (least most : Int) : Toml.Value → Option Nat
  | .integer number => if least ≤ number && number ≤ most then some number.toNat else none
  | _ => none

def cells? : Toml.Value → Option Nat :=
  numberWithin? 1 Address.defaultCapacity

def steps? : Toml.Value → Option Nat :=
  numberWithin? 0 9223372036854775807

def textSuch? (test : String → Bool) : Toml.Value → Option String
  | .string text => if test text then some text else none
  | _ => none

def hasMoment : Toml.Value → Bool
  | .moment _ => true
  | .array elements => elements.any fun element =>
    match element with
    | .moment _ => true
    | _ => false
  | _ => false

def sectionHasMoment : Toml.Value → Bool
  | .table entries => entries.any fun entry => hasMoment entry.2
  | _ => false

def orUsual (text usual : String) : String :=
  if text = "" then usual else text

def ofDocument? (root : Toml.Table) : Option Manifest := do
  guard (root.all fun (name, value) => isSection name value)
  let usual : Manifest := {}
  let name ← textSuch? isName (← setting? root "project" "name")
  let directories ← read root "source" "dirs" [] texts?
  let cache ← read root "image" "cache" "" text?
  let listen ← read root "server" "listen" "" text?
  return {
    name
    version := ← read root "project" "version" "" (textSuch? isVersion)
    sourceDirectories := if directories.isEmpty then usual.sourceDirectories else directories
    entry := ← read root "source" "entry" "" text?
    memory :=
      { global := ← read root "memory" "global" 0 cells?
        locals := ← read root "memory" "local" 0 cells?
        temps := ← read root "memory" "temp" 0 cells?
        stack := ← read root "memory" "stack" 0 cells? }
    optimize := ← read root "optimizer" "enabled" true truth?
    optimizer :=
      { jumpThreading := ← read root "optimizer" "jump-threading" true truth?
        constantFolding := ← read root "optimizer" "constant-folding" true truth?
        maxRounds := ← read root "optimizer" "max-rounds" Optimization.defaultMaxRounds
          (numberWithin? 1 1024) }
    maxSteps := ← read root "vm" "max-steps" 0 steps?
    profile := ← read root "vm" "profile" false truth?
    natives := ← read root "vm" "natives" [] texts?
    output := ← read root "image" "output" "" text?
    cache := orUsual cache usual.cache
    listen := orUsual listen usual.listen
    serverMaxSteps := ← read root "server" "max-steps" 0 steps? }

inductive Fault where
  | invalid
  /-- A moment passes for a text, but none can be made of it. -/
  | momentForText
deriving DecidableEq

def ofText (directory text : String) : Except Fault Manifest :=
  match Toml.Document.ofText? text with
  | none => .error .invalid
  | some document =>
    match ofDocument? document.root with
    | none => .error .invalid
    | some manifest =>
      if document.root.any fun entry => sectionHasMoment entry.2 then .error .momentForText
      else .ok { manifest with directory }

def path (manifest : Manifest) (path : String) : String :=
  if Files.isAbsolute path || manifest.directory = "" then path
  else Files.join manifest.directory path

def sourceDirectoryPaths (manifest : Manifest) : List String :=
  manifest.sourceDirectories.map manifest.path

def entryPath (manifest : Manifest) : String :=
  if manifest.entry = "" then ""
  else
    match manifest.sourceDirectories with
    | first :: _ => Files.join (manifest.path first) manifest.entry
    | [] => manifest.path manifest.entry

def cachePath (manifest : Manifest) : String :=
  manifest.path manifest.cache

end Manifest

def Capacities.text (capacities : Capacities) : String :=
  "\x7bCapacity:[" ++ Text.digits 10 capacities.global ++ " " ++ Text.digits 10 capacities.locals ++
    " " ++ Text.digits 10 capacities.temps ++ " " ++ Text.digits 10 capacities.stack ++ "]\x7d"

end Quadruple
