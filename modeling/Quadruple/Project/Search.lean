import Quadruple.Files.Action
import Quadruple.Project.Manifest

/-!
Where the configuration of a project is found: in a directory, or in the nearest of those above it.
-/

namespace Quadruple.Manifest

open Files (Action)

inductive LoadError where
  | unreadable (path : String) (failure : Files.Failure)
  | unusable (path : String) (fault : Fault)

def LoadError.message : LoadError → String
  | unreadable path failure => "cannot read " ++ path ++ ": " ++ failure.message
  | unusable path .invalid => "invalid " ++ path
  | unusable path .momentForText => "parse error in " ++ path

def load (directory : String) : Action (Except LoadError Manifest) :=
  let path := Files.join directory fileName
  .read path fun
    | .error failure => .done (.error (.unreadable path failure))
    | .ok content =>
      match content.text? with
      | none => .done (.error (.unusable path .invalid))
      | some text => .done ((ofText directory text).mapError (.unusable path))

def loadFirst : List String → Action (Except LoadError (Option Manifest))
  | [] => .done (.ok none)
  | directory :: rest =>
    .isPresent (Files.join directory fileName) fun
      | true => (load directory).andThen fun loaded => .done (loaded.map some)
      | false => loadFirst rest

def find (start : String) : Action (Except LoadError (Option Manifest)) :=
  .workingDirectory fun current => loadFirst (Files.ancestors (Files.absolute current start))

end Quadruple.Manifest
