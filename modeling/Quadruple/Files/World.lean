import Quadruple.Files.Action
import Quadruple.Files.Path

/-!
A world of files in which actions can be carried out without any effect on the outside. Files are
kept under their clean absolute paths; a directory is there because it was made, or because
something is in it.
-/

namespace Quadruple.Files

structure World where
  current : String
  files : List (String × Bytes) := []
  made : List String := []
  time : Nat := 0
  input : String := ""
  output : String := ""
  complaints : String := ""

namespace World

def isFile (world : World) (path : String) : Bool :=
  world.files.any (·.1 = path)

def isDirectory (world : World) (path : String) : Bool :=
  (ancestors world.current).contains path ||
    world.made.any (fun other => (ancestors other).contains path) ||
    world.files.any (fun file => (ancestors (directory file.1)).contains path)

def longestName : Nat := 255

def longestPath : Nat := 4095

/-- Takes one step along a path. Only a directory leads anywhere. -/
def follow (world : World) (place name : String) : Except Cause String :=
  if name = "" then .ok place
  else if world.isDirectory place then
    if name.utf8ByteSize ≤ longestName then .ok (join place name) else .error .nameTooLong
  else if world.isFile place then .error .notADirectory
  else .error .missing

/-- The place to which a path leads. A slash at the end asks for a directory. -/
def resolve (world : World) (path : String) : Except Cause String := do
  if path.toList.contains '\x00' then throw .invalid
  if path = "" then throw .missing
  if longestPath < path.utf8ByteSize then throw .nameTooLong
  let place ← (names path).foldlM world.follow (if isAbsolute path then "/" else world.current)
  if path.toList.getLast? = some '/' && world.isFile place then throw .notADirectory
  return place

def isPresent (world : World) (path : String) : Bool :=
  match world.resolve path with
  | .ok place => world.isFile place || world.isDirectory place
  | .error _ => false

def read (world : World) (path : String) : Except Failure Bytes :=
  match world.resolve path with
  | .error cause => .error ⟨"open", path, cause⟩
  | .ok place =>
    if world.isDirectory place then .error ⟨"read", path, .isADirectory⟩
    else
      match world.files.lookup place with
      | some content => .ok content
      | none => .error ⟨"open", path, .missing⟩

def setFile (world : World) (place : String) (content : Bytes) : World :=
  { world with files := (place, content) :: world.files.filter (·.1 ≠ place) }

def write (world : World) (path : String) (content : Bytes) : Except Failure World :=
  match world.resolve path with
  | .error cause => .error ⟨"open", path, cause⟩
  | .ok place =>
    if world.isDirectory place || path.toList.getLast? = some '/' then
      .error ⟨"open", path, .isADirectory⟩
    else if world.isDirectory (directory place) then .ok (world.setFile place content)
    else .error ⟨"open", path, .missing⟩

def beginnings (path : String) : List String :=
  let parts := names path
  ((List.range parts.length).map fun count => "/".intercalate (parts.take count)).filter (· ≠ "")

/-- Makes a directory in one that is there, if it is not there yet. A file is in the way. -/
def makeOne (world : World) (path : String) : Except Failure World :=
  match world.resolve path with
  | .error cause => .error ⟨"mkdir", path, cause⟩
  | .ok place =>
    if world.isFile place then .error ⟨"mkdir", path, .notADirectory⟩
    else .ok { world with made := place :: world.made }

def makeAll (world : World) : List String → Except Failure Unit × World
  | [] => (.ok (), world)
  | path :: rest =>
    match world.makeOne path with
    | .ok after => after.makeAll rest
    | .error failure => (.error failure, world)

def makeDirectory (world : World) (path : String) : Except Failure Unit × World :=
  world.makeAll (beginnings path ++ [path])

def perform {α : Type} (world : World) : Action α → α × World
  | .done result => (result, world)
  | .clock next => world.perform (next world.time)
  | .workingDirectory next => world.perform (next world.current)
  | .isPresent path next => world.perform (next (world.isPresent path))
  | .read path next => world.perform (next (world.read path))
  | .write path content next =>
    match world.write path content with
    | .ok after => after.perform (next (.ok ()))
    | .error failure => world.perform (next (.error failure))
  | .makeDirectory path next =>
    let (result, after) := world.makeDirectory path
    after.perform (next result)
  | .input next => { world with input := "" }.perform (next world.input)
  | .output text next => { world with output := world.output ++ text }.perform next
  | .complain text next => { world with complaints := world.complaints ++ text }.perform next

end World

end Quadruple.Files
