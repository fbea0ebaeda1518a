/-!
Paths of files as texts: names with slashes between them. Nothing here looks at the files
themselves; a step up cancels the name before it, whatever that name may lead to.
-/

namespace Quadruple.Files

def names (path : String) : List String :=
  (path.toList.splitOnP (· = '/')).map String.ofList

def isAbsolute (path : String) : Bool :=
  path.toList.head? = some '/'

/-- Takes a name up into names that are given last first. Empty names and points stand for nothing,
and above the root there is only the root. -/
def descend (rooted : Bool) (lastFirst : List String) (name : String) : List String :=
  if name = "" || name = "." then lastFirst
  else if name = ".." then
    match lastFirst with
    | [] => if rooted then [] else [".."]
    | last :: rest => if last = ".." then ".." :: lastFirst else rest
  else name :: lastFirst

def clean (path : String) : String :=
  let rooted := isAbsolute path
  let kept := ((names path).foldl (descend rooted) []).reverse
  if rooted then "/" ++ "/".intercalate kept
  else if kept.isEmpty then "." else "/".intercalate kept

def join (front behind : String) : String :=
  if front ≠ "" then clean (front ++ "/" ++ behind)
  else if behind ≠ "" then clean behind else ""

def absolute (directory path : String) : String :=
  if isAbsolute path then clean path else join directory path

def lastName (path : List Char) : List Char :=
  (path.reverse.takeWhile (· ≠ '/')).reverse

def directory (path : String) : String :=
  let characters := path.toList
  clean (String.ofList (characters.take (characters.length - (lastName characters).length)))

def base (path : String) : String :=
  if path = "" then "."
  else
    let trimmed := (path.toList.reverse.dropWhile (· = '/')).reverse
    if trimmed.isEmpty then "/" else String.ofList (lastName trimmed)

def extension (path : String) : String :=
  let name := lastName path.toList
  if name.contains '.' then
    String.ofList ('.' :: (name.reverse.takeWhile (· ≠ '.')).reverse)
  else ""

def withoutEnding (text ending : String) : String :=
  if ending.toList.isSuffixOf text.toList then
    String.ofList (text.toList.take (text.length - ending.length))
  else text

def ancestors (path : String) : List String :=
  let kept := (names path).filter (· ≠ "")
  (List.range (kept.length + 1)).map fun dropped =>
    "/" ++ "/".intercalate (kept.take (kept.length - dropped))

end Quadruple.Files
