import Quadruple.Toml.Value

/-!
What is noted about the paths of a document while it is read. A path keeps its marks whatever
becomes of the value there.
-/

namespace Quadruple.Toml

/-- The marks of a path: whether what is there came into being implicitly, and whether an array was
written there last. -/
structure Mark where
  isImplicit : Bool := false
  isArray : Bool := false
deriving DecidableEq

/-- The mark of a path, and the marks of the paths that go on from it. -/
inductive Marks where
  | node (mark : Mark) (below : List (String × Marks))

namespace Marks

def empty : Marks :=
  node {} []

def get (marks : Marks) : Path → Mark
  | [] =>
    match marks with
    | node mark _ => mark
  | name :: rest =>
    match marks with
    | node _ below =>
      match below.lookup name with
      | some marks => marks.get rest
      | none => {}

def setBelow (below : List (String × Marks)) (name : String) (marks : Marks) :
    List (String × Marks) :=
  match below with
  | [] => [(name, marks)]
  | (other, old) :: rest =>
    if other = name then (name, marks) :: rest else (other, old) :: setBelow rest name marks

def set (marks : Marks) (mark : Mark) : Path → Marks
  | [] =>
    match marks with
    | node _ below => node mark below
  | name :: rest =>
    match marks with
    | node here below =>
      node here (setBelow below name (((below.lookup name).getD empty).set mark rest))

def change (marks : Marks) (path : Path) (change : Mark → Mark) : Marks :=
  let old := marks.get path
  let mark := change old
  if mark = old then marks else marks.set mark path

end Marks

end Quadruple.Toml
