import Quadruple.Toml.Marks
import Quadruple.Toml.Statement

/-!
Documents: what the statements say together. A name has one value. A table comes into being
implicitly when a path leads through it, and may then be given a header of its own once. Entries
behind a repeated header belong to its latest table.
-/

namespace Quadruple.Toml

structure Document where
  root : Table := []
  marks : Marks := .empty
  /-- The paths of headers and entries, the latest first. -/
  written : List Path := []

namespace Document

/-- Changes the table at a path. A path leads into the latest of several tables. -/
def changeTable? (change : Table → Option Table) : Path → Table → Option Table
  | [], table => change table
  | name :: rest, table =>
    match table.get? name with
    | some (.table inner) => do return table.set name (.table (← changeTable? change rest inner))
    | some (.tables (latest :: earlier)) => do
      return table.set name (.tables ((← changeTable? change rest latest) :: earlier))
    | _ => none

def change? (document : Document) (path : Path) (change : Table → Option Table) : Option Document := do
  return { document with root := ← changeTable? change path document.root }

def table? : Path → Table → Option Table
  | [], table => some table
  | name :: rest, table =>
    match table.get? name with
    | some (.table inner) => table? rest inner
    | some (.tables (latest :: _)) => table? rest latest
    | _ => none

def setImplicit (document : Document) (isImplicit : Bool) (path : Path) : Document :=
  { document with marks := document.marks.change path fun mark => { mark with isImplicit } }

def noteArray (document : Document) (path : Path) (isArray : Bool) : Document :=
  { document with marks := document.marks.change path fun mark => { mark with isArray } }

/-- Notes whether an entry is an array. What is noted about an entry with an empty name is noted
about its table, unless that is the root. -/
def noteEntry (document : Document) (context : Path) (name : String) (isArray : Bool) : Document :=
  document.noteArray (if name = "" && !context.isEmpty then context else context ++ [name]) isArray

def note (document : Document) (path : Path) : Document :=
  { document with written := path :: document.written }

/-- Gives a name in the table at a path a value. A name that has a value keeps it if it came about
implicitly, and that counts as its definition. An array takes the place of the tables that its own
elements have left there. -/
def define? (document : Document) (context : Path) (name : String) (value : Value) :
    Option Document := do
  let table ← table? context document.root
  let path := context ++ [name]
  let put := fun (table : Table) => some (table.set name value)
  if (table.get? name).isSome then
    let mark := document.marks.get path
    guard mark.isImplicit
    let defined := document.setImplicit false path
    if mark.isArray then defined.change? context put else some defined
  else document.change? context put

/-- Brings the tables on the way to a path into being, and tells which ones. The names that lead
here are given last first. -/
def leadFrom? (lastFirst : List String) : Path → Table → Option (Table × List Path)
  | [], table => some (table, [])
  | name :: rest, table => do
    let lastFirst := name :: lastFirst
    match table.get? name with
    | some (.table inner) =>
      let (inner, made) ← leadFrom? lastFirst rest inner
      return (table.set name (.table inner), made)
    | some (.tables (latest :: earlier)) =>
      let (latest, made) ← leadFrom? lastFirst rest latest
      return (table.set name (.tables (latest :: earlier)), made)
    | some _ => none
    | none =>
      let (inner, made) ← leadFrom? lastFirst rest []
      return (table.set name (.table inner), lastFirst.reverse :: made)

def lead? (document : Document) (path : Path) : Option Document := do
  let (root, made) ← leadFrom? [] path document.root
  return made.foldl (setImplicit · true ·) { document with root }

def open? (document : Document) (path : Path) (repeated : Bool) : Option Document := do
  let context := path.dropLast
  let name ← path.getLast?
  let led ← document.lead? context
  if repeated then
    led.change? context fun table =>
      match table.get? name with
      | none => some (table.set name (.tables [[]]))
      | some (.tables earlier) => some (table.set name (.tables ([] :: earlier)))
      | some _ => none
  else led.define? context name (.table [])

def openImplicit? (document : Document) (context : Path) : Path → Option (Path × Document)
  | [] => some (context, document)
  | name :: rest => do
    let path := context ++ [name]
    ((← (document.setImplicit true path).open? path false).openImplicit? path) rest

def putAt? (value : Value) : Path → Table → Option Table
  | [], _ => none
  | [name], table => some (table.set name value)
  | name :: rest, table =>
    match table.get? name with
    | none => do return table.set name (.table (← putAt? value rest []))
    | some (.table inner) => do return table.set name (.table (← putAt? value rest inner))
    | some _ => none

mutual

/-- The value that is written for a name. The entries of inline tables are defined on the way, each
under its path. -/
def evaluate? (document : Document) (context : Path) (name : String) (inArray : Bool) :
    Written → Option (Value × Document)
  | .scalar value => some (value, document)
  | .array elements => do
    let (values, document) ←
      (document.noteEntry context name true).evaluateElements? context name elements
    return (.array values, document)
  | .inlineTable entries => do
    let path := context ++ [name]
    let opened ← (document.setImplicit true path).open? path inArray
    let (table, document) ← opened.evaluateEntries? path [] entries
    return (.table table, document)

def evaluateElements? (document : Document) (context : Path) (name : String) :
    List Written → Option (List Value × Document)
  | [] => some ([], document)
  | first :: rest => do
    let (value, document) ← document.evaluate? context name true first
    let (values, document) ← document.evaluateElements? context name rest
    return (value :: values, document)

/-- Defines the entries of an inline table, and collects them as a table that stands alone. -/
def evaluateEntries? (document : Document) (context : Path) (table : Table) :
    List (Path × Written) → Option (Table × Document)
  | [] => some (table, document)
  | (path, written) :: rest => do
    let name ← path.getLast?
    let (inner, document) ← document.openImplicit? context path.dropLast
    let (value, document) ← (document.note (inner ++ [name])).evaluate? inner name false written
    let document ← document.define? inner name value
    let document := document.noteEntry inner name (isArray written)
    (document.evaluateEntries? context (← putAt? value path table)) rest

end

/-- Carries out a statement. Entries belong to the table of the latest header. -/
def perform? (context : Path) (document : Document) : Statement → Option (Path × Document)
  | .table path => do
    let opened ← document.open? path false
    return (path, (opened.noteArray path false).note path)
  | .arrayTable path => do
    let opened ← document.open? path true
    return (path, (opened.noteArray path false).note path)
  | .entry path written => do
    let name ← path.getLast?
    let (inner, document) ← document.openImplicit? context path.dropLast
    let (value, document) ← (document.note (inner ++ [name])).evaluate? inner name false written
    let document ← document.define? inner name value
    return (context, document.noteEntry inner name (isArray written))

def performAll? (context : Path) (document : Document) : List Statement → Option Document
  | [] => some document
  | first :: rest => do
    let (context, document) ← perform? context document first
    performAll? context document rest

def ofText? (text : String) : Option Document := do
  performAll? [] {} (← parse? text.toList)

def paths (document : Document) : List Path :=
  document.written.reverse

end Document

end Quadruple.Toml
