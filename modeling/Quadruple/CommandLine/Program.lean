import Quadruple.CommandLine.Step
import Quadruple.Image.StoreFile
import Quadruple.Text.Magnitude

/-!
How commands come by a program: they build it from a transcript, with or without the cache of the
project, or read an image. What they make of it they write as an image.
-/

namespace Quadruple.CommandLine

structure Context where
  project : Manifest
  verbose : Bool
  patience : Nat

def imageExtension : String := ".qimg"

def transcriptExtension : String := ".toml"

namespace Context

def storeLocation (context : Context) : Image.Store.Location :=
  .ofText context.project.cachePath

def refuseStore {α : Type} (fault : Image.Store.Location.Fault) : Step α :=
  throw (.store ("setting busy timeout: " ++ fault.message))

def saveStore (context : Context) (store : Image.Store) : Step Unit := do
  match ← Step.act (.write context.storeLocation.file store.encode .done) with
  | .ok () => pure ()
  | .error _ => refuseStore .cannotOpen

/-- Opens the store of the project. If there is none yet, there is one from now on. -/
def openStore (context : Context) : Step Image.Store := do
  Step.makeDirectory (Files.directory context.project.cachePath) "creating store dir"
  match context.storeLocation.fault? with
  | some fault => refuseStore fault
  | none => pure ()
  match ← Step.act (.read context.storeLocation.file .done) with
  | .error _ =>
    context.saveStore {}
    return {}
  | .ok content =>
    match Image.Store.decode? content with
    | some store => return store
    | none => throw (.store "creating tables: file is not a database (26)")

def build (context : Context) (path : String) (optimize useCache : Bool) : Step (Image × Bool) := do
  let source ← Step.read path ""
  let store ← if useCache then some <$> context.openStore else pure none
  let outcome := Build.build ⟨context.project, path, source, optimize⟩ (← Step.clock) store
  match outcome.stats with
  | some stats => if context.verbose then Step.complain (stats.text ++ "\n")
  | none => pure ()
  match outcome.store with
  | some after => context.saveStore after
  | none => pure ()
  return (← Step.ofExcept .build outcome.result, outcome.cached)

def readImage (path : String) : Step Image := do
  Step.ofExcept .image (Image.decode (← Step.read path "image: load"))

/-- The program at a path: a transcript is built, and anything else is an image. -/
def load (context : Context) (path : String) (optimize : Bool) : Step Image := do
  if Files.extension path = transcriptExtension then
    return (← context.build path optimize false).1
  else readImage path

end Context

def writeImage (path : String) (image : Image) : Step Unit := do
  Step.write path "image: save" (← Step.ofExcept .unpackable image.encode)

def shortHash (hash : Hash) : String :=
  String.ofList (hash.text.toList.take 12)

def describe (path : String) (image : Image) (cached : Bool) : Step Unit := do
  let content ← Step.ofExcept .unpackable image.encode
  Step.output (path ++ ": " ++ Text.digits 10 image.records.length ++ " instructions, " ++
    Text.dataSize content.length ++ ", " ++ shortHash (.ofContent content) ++
    (if cached then " (cached)" else "") ++ "\n")

end Quadruple.CommandLine
