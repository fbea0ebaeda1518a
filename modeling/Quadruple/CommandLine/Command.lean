import Quadruple.Code.Listing
import Quadruple.CommandLine.Program
import Quadruple.Image.Optimized
import Quadruple.Text.Columns

/-!
The commands. Each reads its flags and arguments, does its work and tells of it.
-/

namespace Quadruple.CommandLine

/-- What a command wants on its command line. -/
structure Synopsis (σ : Type) where
  command : String
  arguments : String
  flags : List (Flag σ)

namespace Synopsis

variable {σ : Type}

def usage (synopsis : Synopsis σ) : String :=
  "Usage: quadra " ++ synopsis.command ++ " " ++ synopsis.arguments ++ "\n\n" ++
    descriptions synopsis.flags

/-- Reads flags; what is wrong with them is told along with the usage. -/
def read (synopsis : Synopsis σ) (settings : σ) (words : List String) :
    Step (σ × List String) := do
  match readFlags synopsis.flags settings words with
  | .ok result => return result
  | .error cause =>
    match cause.message? with
    | some message => Step.complain (message ++ "\n")
    | none => pure ()
    Step.complain synopsis.usage
    throw (.flags cause)

/-- The one argument that there must be. Where there is none, a usual one takes its place. -/
def argument (synopsis : Synopsis σ) (usual : String) : List String → Step String
  | [argument] => pure argument
  | arguments => do
    if arguments.isEmpty && usual ≠ "" then return usual
    Step.complain synopsis.usage
    throw (.notOneArgument synopsis.command)

end Synopsis

def truthText (truth : Bool) : String :=
  if truth then "true" else ""

def limitText (limit : Nat) : String :=
  if limit = 0 then "" else Text.digits 10 limit

structure CompileSettings where
  output : String := ""
  optimize : Bool
  noCache : Bool := false

def compileSynopsis (context : Context) : Synopsis CompileSettings where
  command := "compile"
  arguments := "[options] [transcript.toml]"
  flags :=
    [{ name := "o"
       help := "Output image (default: [image] output, else <transcript>" ++ imageExtension ++ ")"
       setter := .text fun output settings => { settings with output } },
      { name := "O"
        help := "Optimize the program"
        usual := truthText context.project.optimize
        setter := .truth fun optimize settings => { settings with optimize } },
      { name := "no-cache"
        help := "Bypass the image cache"
        setter := .truth fun noCache settings => { settings with noCache } }]

def imagePath (context : Context) (output source : String) : String :=
  if output ≠ "" then output
  else if context.project.output ≠ "" then context.project.path context.project.output
  else Files.withoutEnding source (Files.extension source) ++ imageExtension

def compile (context : Context) (words : List String) : Step Unit := do
  let synopsis := compileSynopsis context
  let (settings, arguments) ← synopsis.read { optimize := context.project.optimize } words
  let source ← synopsis.argument context.project.entryPath arguments
  let (image, cached) ← context.build source settings.optimize !settings.noCache
  let path := imagePath context settings.output source
  if Files.directory path ≠ "." then Step.makeDirectory (Files.directory path) ""
  writeImage path image
  describe path image cached

structure OptimizeSettings where
  output : String := ""

def optimizeSynopsis : Synopsis OptimizeSettings where
  command := "opt"
  arguments := "[options] <image>"
  flags :=
    [{ name := "o"
       help := "Output image (default: overwrite the input)"
       setter := .text fun output settings => { settings with output } }]

def optimize (context : Context) (words : List String) : Step Unit := do
  let (settings, arguments) ← optimizeSynopsis.read {} words
  let source ← optimizeSynopsis.argument "" arguments
  let image ← Context.readImage source
  let (optimized, stats) ←
    Step.ofExcept .optimization (image.optimize context.project.optimizer)
  Step.complain (stats.text ++ "\n")
  let path := if settings.output = "" then source else settings.output
  writeImage path optimized
  describe path optimized false

structure DumpSettings where
  optimize : Bool := false

def dumpSynopsis : Synopsis DumpSettings where
  command := "dump"
  arguments := "[options] <transcript.toml|image>"
  flags :=
    [{ name := "O"
       help := "Optimize transcripts before printing"
       setter := .truth fun optimize settings => { settings with optimize } }]

def dump (context : Context) (words : List String) : Step Unit := do
  let (settings, arguments) ← dumpSynopsis.read {} words
  let source ← dumpSynopsis.argument "" arguments
  let image ← context.load source settings.optimize
  Step.output (listing image.code)

structure RunSettings where
  optimize : Bool
  profile : Bool
  maxSteps : Nat

def runSynopsis (context : Context) : Synopsis RunSettings where
  command := "run"
  arguments := "[options] [transcript.toml|image]"
  flags :=
    [{ name := "O"
       help := "Optimize transcripts before running"
       usual := truthText context.project.optimize
       setter := .truth fun optimize settings => { settings with optimize } },
      { name := "profile"
        help := "Print an opcode profile after the run"
        usual := truthText context.project.profile
        setter := .truth fun profile settings => { settings with profile } },
      { name := "max-steps"
        help := "Abort after this many instructions (0 = no limit)"
        usual := limitText context.project.maxSteps
        setter := .natural fun maxSteps settings => { settings with maxSteps } }]

def profileText (profile : Profile) : String :=
  Text.grouped profile.instructions ++ " instructions, " ++ Text.grouped profile.totalCalls ++
    " calls, " ++ Text.digits 10 profile.functions ++ " functions (" ++
    Text.digits 10 profile.hotEntries.length ++ " hot)\n" ++
    String.join (profile.histogram.map fun (opcode, count) =>
      "  " ++ Text.padRight ' ' 8 opcode.name ++ " " ++ Text.padLeft ' ' 12 (Text.grouped count) ++
        "\n")

def inputFor (image : Image) : Step String :=
  if (Image.calledNatives image.records).contains Native.read.name then Step.input else pure ""

def run (context : Context) (words : List String) : Step Unit := do
  let synopsis := runSynopsis context
  let project := context.project
  let (settings, arguments) ←
    synopsis.read ⟨project.optimize, project.profile, project.maxSteps⟩ words
  let source ← synopsis.argument project.entryPath arguments
  let image ← context.load source settings.optimize
  Step.ofExcept .policy (project.policy.check image)
  let machine := Machine.ofProgram image.program
    { capacities := project.memory
      input := ← inputFor image
      limit := settings.maxSteps
      profiled := settings.profile }
  let (outcome, final) := machine.run context.patience
  Step.output final.console.output
  match final.profile with
  | some profile => Step.complain (profileText profile)
  | none => pure ()
  match outcome with
  | .halted => pure ()
  | .failed error => throw (.run error)
  | .unfinished => throw .unfinished

def imagesSynopsis : Synopsis Unit where
  command := "images"
  arguments := ""
  flags := []

def storedLine (now : Nat) (stored : Image.Stored) : String :=
  shortHash stored.hash ++ "\t" ++ stored.name ++ "\t" ++ Text.digits 10 stored.count ++ "\t" ++
    Text.dataSize stored.content.length ++ "\t" ++ Text.age (now - stored.stored) ++ "\n"

def images (context : Context) (words : List String) : Step Unit := do
  let _ ← imagesSynopsis.read () words
  let store ← context.openStore
  let now ← Step.clock
  Step.output (Text.aligned ("HASH\tNAME\tQUADS\tSIZE\tCREATED\n" ++
    String.join (store.images.map (storedLine now))))

structure RemoteSettings where
  address : String
  optimize : Bool
  input : String := ""
  keep : Bool := false
  maxSteps : Nat := 0

def remoteSynopsis (context : Context) : Synopsis RemoteSettings where
  command := "remote"
  arguments := "[options] <transcript.toml|image>"
  flags :=
    [{ name := "addr"
       help := "Server address"
       usual := context.project.listen
       setter := .text fun address settings => { settings with address } },
      { name := "O"
        help := "Optimize transcripts before sending"
        usual := truthText context.project.optimize
        setter := .truth fun optimize settings => { settings with optimize } },
      { name := "stdin"
        help := "Text fed to the program's read calls"
        setter := .text fun input settings => { settings with input } },
      { name := "keep"
        help := "Keep the image in the server's store"
        setter := .truth fun keep settings => { settings with keep } },
      { name := "max-steps"
        help := "Requested instruction limit (capped by the server)"
        setter := .natural fun maxSteps settings => { settings with maxSteps } }]

def remote (context : Context) (words : List String) : Step Unit := do
  let synopsis := remoteSynopsis context
  let (settings, arguments) ←
    synopsis.read { address := context.project.listen, optimize := context.project.optimize } words
  let source ← synopsis.argument "" arguments
  let image ← context.load source settings.optimize
  let _ ← Step.ofExcept .unpackable image.encode
  throw .noNetwork

structure ServeSettings where
  address : String
  maxSteps : Nat
  noStore : Bool := false

def serveSynopsis (context : Context) : Synopsis ServeSettings where
  command := "serve"
  arguments := "[options]"
  flags :=
    [{ name := "addr"
       help := "Listen address"
       usual := context.project.listen
       setter := .text fun address settings => { settings with address } },
      { name := "max-steps"
        help := "Per-run instruction cap (0 = no limit)"
        usual := limitText context.project.serverMaxSteps
        setter := .natural fun maxSteps settings => { settings with maxSteps } },
      { name := "no-store"
        help := "Do not open the image store"
        setter := .truth fun noStore settings => { settings with noStore } }]

def serve (context : Context) (words : List String) : Step Unit := do
  let (settings, _) ← (serveSynopsis context).read
    { address := context.project.listen, maxSteps := context.project.serverMaxSteps } words
  if !settings.noStore then let _ ← context.openStore
  throw .noNetwork

def commands : List (String × (Context → List String → Step Unit)) :=
  [("compile", compile), ("opt", optimize), ("dump", dump), ("run", run), ("remote", remote),
    ("serve", serve), ("images", images)]

end Quadruple.CommandLine
