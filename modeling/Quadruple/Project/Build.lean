import Quadruple.Image.Policy
import Quadruple.Image.Store
import Quadruple.Project.Manifest
import Quadruple.Transcript.Reader
import Quadruple.Transcript.Replay

/-!
Building an image from a transcript. A cache of images, where there is one, is asked first and told
of the result. Its key covers the transcript and every setting that changes what is compiled.
-/

namespace Quadruple

namespace Manifest

def cacheKey (manifest : Manifest) (source : Bytes) (optimize : Bool) : String :=
  Image.sourceKey source
    ["optimize=" ++ (if optimize then "true" else "false"), manifest.optimizer.text,
      manifest.memory.text]

def policy (manifest : Manifest) : Image.Policy :=
  if manifest.natives.isEmpty then {} else { allowed := some manifest.natives }

end Manifest

namespace Build

inductive Failure where
  | transcript (path : String) (cause : Transcript.ReadError)
  | compilation (path : String) (cause : Transcript.Failure)
  | optimization (path : String) (cause : FlowGraph.Error)
  | image (cause : Address.Unpackable)
  | store (cause : Image.Store.Error)

/-- What a failure tells; a compilation that broke down tells nothing. -/
def Failure.report? : Failure → Option Report
  | transcript path cause => some (cause.report.within path)
  | compilation path cause => cause.report?.map (Report.within path)
  | optimization path cause => some (cause.report.within path)
  | image cause => some cause.report
  | store cause => some cause.report

structure Task where
  manifest : Manifest
  path : String
  source : Bytes
  optimize : Bool

namespace Task

def key (task : Task) : String :=
  task.manifest.cacheKey task.source task.optimize

/-- The name of the program. A transcript that does not name it leaves that to the file. -/
def programName (task : Task) (transcript : Transcript) : String :=
  if transcript.name = "" then
    Files.withoutEnding (Files.base task.path) (Files.extension task.path)
  else transcript.name

def transcript (task : Task) : Except Transcript.ReadError Transcript :=
  match task.source.text? with
  | none => .error .malformed
  | some text => Transcript.read text

/-- Compiles the transcript, and optimizes the program if that is wanted. The result tells what the
optimizer did. -/
def compile (task : Task) : Except Failure (Image × Option Optimization.Stats) := do
  let transcript ← task.transcript.mapError (.transcript task.path)
  let code ← (transcript.compile task.manifest.memory).mapError (.compilation task.path)
  let name := task.programName transcript
  if task.optimize then
    let (code, stats) ←
      (Optimization.optimize code task.manifest.optimizer).mapError (.optimization task.path)
    return (.ofCode name code true, some stats)
  else return (.ofCode name code false, none)

end Task

structure Outcome where
  result : Except Failure Image
  cached : Bool := false
  stats : Option Optimization.Stats := none
  store : Option Image.Store := none

def keep (store : Image.Store) (now : Nat) (key : String) (image : Image) :
    Except Failure Image.Store := do
  let (hash, stored) ← (store.put now image).mapError .image
  (stored.remember key hash).mapError .store

def build (task : Task) (now : Nat) (cache : Option Image.Store) : Outcome :=
  let found :=
    match cache with
    | some store => store.lookup task.key
    | none => .ok none
  match found with
  | .error cause => { result := .error (.store cause), store := cache }
  | .ok (some image) => { result := .ok image, cached := true, store := cache }
  | .ok none =>
    match task.compile with
    | .error failure => { result := .error failure, store := cache }
    | .ok (image, stats) =>
      match cache with
      | none => { result := .ok image, stats }
      | some store =>
        match keep store now task.key image with
        | .ok kept => { result := .ok image, stats, store := some kept }
        | .error failure => { result := .error failure, stats, store := cache }

end Build

end Quadruple
