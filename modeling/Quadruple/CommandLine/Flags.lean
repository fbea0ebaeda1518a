import Quadruple.Number.Whole
import Quadruple.Text.Quoted

/-!
The flags of a command. They come before the arguments: each begins with one hyphen or two, and its
value follows behind an equals sign or as the next word. A flag that is true or false needs no value.
Two hyphens alone end the flags, and so does the first word that is none.
-/

namespace Quadruple.CommandLine

/-- What a flag changes in the settings of a command. -/
inductive Setter (σ : Type) where
  | truth (set : Bool → σ → σ)
  | text (set : String → σ → σ)
  | integer (set : Int → σ → σ)
  | natural (set : Nat → σ → σ)

structure Flag (σ : Type) where
  name : String
  help : String
  /-- The value without the flag, if it is worth a remark. -/
  usual : String := ""
  setter : Setter σ

inductive FlagError where
  | help
  | badSyntax (word : String)
  | undefined (name : String)
  | missingValue (name : String)
  | badTruth (value name : String)
  | badNumber (value name : String) (cause : Number.WholeError)
deriving DecidableEq

/-- What is wrong; nothing, if help was asked for. -/
def FlagError.message? : FlagError → Option String
  | help => none
  | badSyntax word => some ("bad flag syntax: " ++ word)
  | undefined name => some ("flag provided but not defined: -" ++ name)
  | missingValue name => some ("flag needs an argument: -" ++ name)
  | badTruth value name =>
    some ("invalid boolean value " ++ Text.quoted value ++ " for -" ++ name ++ ": parse error")
  | badNumber value name cause =>
    some ("invalid value " ++ Text.quoted value ++ " for flag -" ++ name ++ ": " ++ cause.message)

inductive Word where
  | argument
  | terminator
  | malformed
  | flag (name : String) (value : Option String)
deriving DecidableEq

def Word.ofBody : List Char → Word
  | [] => .malformed
  | first :: rest =>
    if first = '-' || first = '=' then .malformed
    else
      let name := String.ofList (first :: rest.takeWhile (· ≠ '='))
      match rest.dropWhile (· ≠ '=') with
      | [] => .flag name none
      | _ :: value => .flag name (some (String.ofList value))

def Word.ofText (text : String) : Word :=
  match text.toList with
  | ['-', '-'] => .terminator
  | '-' :: '-' :: body => .ofBody body
  | '-' :: first :: rest => .ofBody (first :: rest)
  | _ => .argument

def truth? (text : String) : Option Bool :=
  if ["1", "t", "T", "TRUE", "true", "True"].contains text then some true
  else if ["0", "f", "F", "FALSE", "false", "False"].contains text then some false
  else none

namespace Flag

variable {σ : Type}

def isTruth (flag : Flag σ) : Bool :=
  match flag.setter with
  | .truth _ => true
  | _ => false

def set (flag : Flag σ) (value : String) (settings : σ) : Except FlagError σ :=
  match flag.setter with
  | .truth set =>
    match truth? value with
    | some truth => .ok (set truth settings)
    | none => .error (.badTruth value flag.name)
  | .text set => .ok (set value settings)
  | .integer set =>
    match Number.integer64 value with
    | .ok number => .ok (set number settings)
    | .error cause => .error (.badNumber value flag.name cause)
  | .natural set =>
    match Number.word64 value with
    | .ok number => .ok (set number settings)
    | .error cause => .error (.badNumber value flag.name cause)

def kindName (flag : Flag σ) : String :=
  match flag.setter with
  | .truth _ => ""
  | .text _ => " string"
  | .integer _ => " int"
  | .natural _ => " uint"

def usualText (flag : Flag σ) : String :=
  if flag.usual = "" then ""
  else
    match flag.setter with
    | .text _ => " (default " ++ Text.quoted flag.usual ++ ")"
    | _ => " (default " ++ flag.usual ++ ")"

/-- The description of a flag. A flag of one letter that needs no value leaves room behind it. -/
def description (flag : Flag σ) : String :=
  let front := "  -" ++ flag.name ++ flag.kindName
  front ++ (if front.length ≤ 4 then "\t" else "\n    \t") ++ flag.help ++ flag.usualText ++ "\n"

end Flag

def descriptions {σ : Type} (flags : List (Flag σ)) : String :=
  String.join ((flags.mergeSort fun one other => one.name ≤ other.name).map Flag.description)

/-- Reads the flags in front of the arguments into the settings, and leaves the arguments. -/
def readFlags {σ : Type} (flags : List (Flag σ)) (settings : σ) :
    List String → Except FlagError (σ × List String)
  | [] => .ok (settings, [])
  | word :: rest =>
    match Word.ofText word with
    | .argument => .ok (settings, word :: rest)
    | .terminator => .ok (settings, rest)
    | .malformed => .error (.badSyntax word)
    | .flag name value =>
      match flags.find? (·.name = name) with
      | none => .error (if name = "help" || name = "h" then .help else .undefined name)
      | some flag =>
        match value, rest with
        | some value, rest => do readFlags flags (← flag.set value settings) rest
        | none, [] =>
          if flag.isTruth then do readFlags flags (← flag.set "true" settings) []
          else .error (.missingValue name)
        | none, next :: rest => do
          if flag.isTruth then readFlags flags (← flag.set "true" settings) (next :: rest)
          else readFlags flags (← flag.set next settings) rest
termination_by words => words.length

end Quadruple.CommandLine
