import Quadruple.CommandLine.Command
import Quadruple.Project.Search

/-!
The program as it is called: with options, a command and the command's own words. What it returns is
its exit status.
-/

namespace Quadruple.CommandLine

open Files (Action)

structure Options where
  verbosity : Int := 0
  log : String := ""
  directory : String := "."

def optionFlags : List (Flag Options) :=
  [{ name := "v"
     help := "Log verbosity (0 = errors only, 2 = info, 4 = debug)"
     setter := .integer fun verbosity options => { options with verbosity } },
    { name := "log"
      help := "Write logs to this file instead of stderr"
      setter := .text fun log options => { options with log } },
    { name := "C"
      help := "Look for quadra.toml starting in this directory"
      usual := "."
      setter := .text fun directory options => { options with directory } }]

def usage : String :=
  "Usage: quadra [options] <command> [arguments]\n\n" ++
  "Commands:\n" ++
  "  compile <transcript.toml>   Compile a transcript to an image\n" ++
  "  opt <image>                 Optimize an image\n" ++
  "  dump <transcript|image>     Print the quadruple listing\n" ++
  "  run <transcript|image>      Execute a program\n" ++
  "  remote <transcript|image>   Execute a program on a quadra server\n" ++
  "  serve                       Start the exec server\n" ++
  "  images                      List cached images\n" ++
  "\nOptions:\n" ++ descriptions optionFlags ++
  "\nExamples:\n" ++
  "  quadra compile -O prog.toml      # writes prog.qimg\n" ++
  "  quadra run -profile prog.qimg\n" ++
  "  quadra serve -addr :7411\n"

inductive Exit where
  | status (code : Nat)
  | breakdown
deriving DecidableEq

def giveUp (text : String) (code : Nat) : Action Exit :=
  .complain text (.done (.status code))

def prepareLog (path : String) : Action Unit :=
  if path = "" then .done ()
  else
    .isPresent path fun
      | true => .done ()
      | false => .write path [] fun _ => .done ()

def carryOut (command : Step Unit) : Action Exit :=
  command.run.andThen fun
    | .ok () => .done (.status 0)
    | .error problem =>
      match problem.ending with
      | .silent => .done (.status 0)
      | .message text => giveUp ("Error: " ++ text ++ "\n") 1
      | .breakdown => .done .breakdown

def dispatch (context : Context) (name : String) (words : List String) : Action Exit :=
  match commands.lookup name with
  | some command => carryOut (command context words)
  | none => giveUp ("Error: unknown command " ++ Text.quoted name ++ "\n" ++ usage) 2

/-- The whole program. Runs are followed for a number of steps. -/
def session (patience : Nat) (words : List String) : Action Exit :=
  match readFlags optionFlags {} words with
  | .error cause =>
    giveUp ((cause.message?.map (· ++ "\n")).getD "" ++ usage) 2
  | .ok (_, []) => giveUp usage 2
  | .ok (options, name :: rest) =>
    (prepareLog options.log).andThen fun () =>
    (Manifest.find options.directory).andThen fun
      | .error cause => giveUp ("Error loading manifest: " ++ cause.message ++ "\n") 1
      | .ok found =>
        dispatch ⟨found.getD {}, 0 < options.verbosity, patience⟩ name rest

end Quadruple.CommandLine
