import Quadruple.CommandLine.Flags
import Quadruple.Files.Action
import Quadruple.Machine.Run
import Quadruple.Project.Build

/-!
The steps of a command. A step acts on the world around the program, and may end the command with a
problem.
-/

namespace Quadruple.CommandLine

inductive Problem where
  /-- The flags cannot be used, which has been told already. -/
  | flags (cause : FlagError)
  | notOneArgument (command : String)
  /-- A file cannot be used; what was being done comes first, if it is worth a remark. -/
  | file (during : String) (cause : Files.Failure)
  | store (message : String)
  | image (cause : Image.Error)
  | unpackable (cause : Address.Unpackable)
  | optimization (cause : FlowGraph.Error)
  | build (cause : Build.Failure)
  | policy (cause : Image.Policy.Violation)
  | run (cause : Machine.Error)
  | unfinished
  | noNetwork

namespace Problem

inductive Ending where
  | silent
  | message (text : String)
  | breakdown

def ofMessage? : Option String → Ending
  | some text => .message text
  | none => .breakdown

def ending : Problem → Ending
  | flags .help => .silent
  | flags cause => ofMessage? cause.message?
  | notOneArgument command => .message (command ++ " takes exactly one argument")
  | file during cause =>
    .message (if during = "" then cause.message else during ++ ": " ++ cause.message)
  | store message => .message message
  | image cause => .message cause.report.message
  | unpackable cause => .message cause.report.message
  | optimization cause => .message cause.report.message
  | build cause => ofMessage? (cause.report?.map Report.message)
  | policy cause => .message cause.report.message
  | run cause => .message cause.report.message
  | unfinished => .breakdown
  | noNetwork => .message "the network is out of reach"

end Problem

abbrev Step (α : Type) : Type :=
  ExceptT Problem Files.Action α

namespace Step

def act {α : Type} (action : Files.Action α) : Step α :=
  ExceptT.lift action

def ofExcept {ε α : Type} (problem : ε → Problem) : Except ε α → Step α
  | .ok result => pure result
  | .error cause => throw (problem cause)

def clock : Step Nat :=
  act (.clock .done)

def input : Step String :=
  act (.input .done)

def output (text : String) : Step Unit :=
  act (.output text (.done ()))

def complain (text : String) : Step Unit :=
  act (.complain text (.done ()))

def read (path during : String) : Step Bytes := do
  ofExcept (.file during) (← act (.read path .done))

def write (path during : String) (content : Bytes) : Step Unit := do
  ofExcept (.file during) (← act (.write path content .done))

def makeDirectory (path during : String) : Step Unit := do
  ofExcept (.file during) (← act (.makeDirectory path .done))

end Step

end Quadruple.CommandLine
