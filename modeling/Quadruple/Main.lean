import Quadruple.CommandLine.Session
import Std.Time.DateTime.Timestamp

/-!
The program on a real system: its actions are carried out on the files and streams that there are.
-/

namespace Quadruple.Files

def Cause.ofError : IO.Error → Cause
  | .noFileOrDirectory .. => .missing
  | .alreadyExists .. => .alreadyThere
  | .inappropriateType _ _ details => .other details
  | error => .other (toString error)

def attempt {α : Type} (operation path : String) (work : IO α) : IO (Except Failure α) := do
  match ← work.toBaseIO with
  | .ok result => return .ok result
  | .error error => return .error ⟨operation, path, .ofError error⟩

def Action.perform {α : Type} : Action α → IO α
  | .done result => return result
  | .clock next => do
    let now ← Std.Time.Timestamp.now
    (next now.toNanosecondsSinceUnixEpoch.toInt.toNat).perform
  | .workingDirectory next => do (next (← IO.currentDir).toString).perform
  | .isPresent path next => do
    match ← attempt "stat" path (IO.FS.readBinFile path) with
    | .error ⟨_, _, .missing⟩ => (next false).perform
    | _ => (next true).perform
  | .read path next => do
    let content ← attempt "open" path (IO.FS.readBinFile path)
    (next (content.map fun bytes => bytes.data.toList)).perform
  | .write path content next => do
    (next (← attempt "open" path (IO.FS.writeBinFile path ⟨content.toArray⟩))).perform
  | .makeDirectory path next => do
    (next (← attempt "mkdir" path (IO.FS.createDirAll path))).perform
  | .input next => do
    let text ← (← IO.getStdin).readToEnd
    (next text).perform
  | .output text next => do
    IO.print text
    next.perform
  | .complain text next => do
    IO.eprint text
    next.perform

end Quadruple.Files

/-- Runs are followed for longer than anyone waits. -/
def Quadruple.CommandLine.patience : Nat := 0x1000000000000000

def main (words : List String) : IO UInt32 := do
  match ← (Quadruple.CommandLine.session Quadruple.CommandLine.patience words).perform with
  | .status code => return UInt32.ofNat code
  | .breakdown => return 2
