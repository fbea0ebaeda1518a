import Quadruple.Scope.Tree

/-!
Declarations. A variable gets cells of its own, those of the running function inside a function and
those of the program elsewhere; directly inside a class it becomes a field and gets a place in the
class's objects instead. A function declared directly inside a class is a method, and gets the
object that it is called on as its first argument.
-/

namespace Quadruple.Scope.Tree

def storage (tree : Tree) : Area :=
  if tree.openFunction.isSome then .locals else .global

def memberClass? (tree : Tree) : Option Class :=
  if tree.openFunction.isSome then none
  else
    match tree.currentClass? with
    | some class_ => if tree.current = class_.scope then some class_ else none
    | none => none

def isDeclared (tree : Tree) (name : String) : Bool :=
  (tree.lookup tree.current name).isSome

def bind (tree : Tree) (name : String) (alias_ : Alias) : Tree :=
  { tree with
    nodes := tree.nodes.modify tree.current fun node =>
      { node with aliases := (name, alias_) :: node.aliases } }

def setClass (tree : Tree) (changed : Class) : Tree :=
  { tree with
    classes := tree.classes.map fun class_ => if class_.name = changed.name then changed else class_ }

def setFunction (tree : Tree) (id : FunctionId) (change : Function → Function) : Tree :=
  { tree with functions := tree.functions.modify id change }

def place (tree : Tree) (fresh : Variable) (reference : Bool) : Except Error (Variable × Tree) :=
  match tree.memberClass? with
  | some class_ =>
    let field :=
      { fresh with
        owner := class_.name
        slot := class_.cells
        address := ⟨.stack, fresh.type, false, class_.cells.toUInt64.toUInt32⟩ }
    let grown :=
      { class_ with cells := class_.cells + fresh.size, fields := class_.fields ++ [field] }
    .ok (field, (tree.setClass grown).bind fresh.name (.variable field))
  | none =>
    match tree.memory.allocate tree.storage fresh.type fresh.size.toInt reference with
    | .error cause => .error (.storage fresh.name cause)
    | .ok (address, memory) =>
      let placed := { fresh with address }
      .ok (placed, { tree with memory }.bind fresh.name (.variable placed))

def declareVariable (tree : Tree) (name : String) (type : DataType) (dimensions : List Int) :
    Except Error (Variable × Tree) :=
  if !type.isStored || type = .object then .error (.undeclarable name type)
  else
    match dimensions.find? (· < 1) with
    | some extent => .error (.badExtent name extent)
    | none =>
      if tree.isDeclared name then .error (.redeclared name)
      else tree.place ⟨name, type, .origin, dimensions, "", "", 0⟩ false

def declareObject (tree : Tree) (name class_ : String) : Except Error (Variable × Tree) :=
  match tree.class? class_ with
  | none => .error (.noClass class_)
  | some _ =>
    if tree.isDeclared name then .error (.redeclared name)
    else tree.place ⟨name, .object, .origin, [], class_, "", 0⟩ true

def addArgument (tree : Tree) (id : FunctionId) (argument : Variable) : Tree :=
  tree.setFunction id fun function =>
    { function with arguments := function.arguments ++ [argument] }

/-- Makes what is declared an argument of the open function. -/
def asArgument (tree : Tree) (name : String) (declared : Except Error (Variable × Tree)) :
    Except Error (Variable × Tree) :=
  match tree.openFunction with
  | none => .error (.argumentOutside name)
  | some function =>
    declared.map fun (argument, declared) => (argument, declared.addArgument function.id argument)

def declareArgument (tree : Tree) (name : String) (type : DataType) (dimensions : List Int) :
    Except Error (Variable × Tree) :=
  tree.asArgument name (tree.declareVariable name type dimensions)

def declareObjectArgument (tree : Tree) (name class_ : String) : Except Error (Variable × Tree) :=
  tree.asArgument name (tree.declareObject name class_)

def isReturnable (type : DataType) : Bool :=
  type = .void || (type.isStored && type ≠ .object)

def allocateResult (tree : Tree) (name : String) (returns : DataType) (start : Int) :
    Except Error (Option Address × Tree) :=
  if returns ≠ .void && 0 ≤ start then
    match tree.memory.allocate tree.storage returns 1 false with
    | .error cause => .error (.storage name cause)
    | .ok (address, memory) => .ok (some address, { tree with memory })
  else .ok (none, tree)

def addMethod (tree : Tree) (class_ : Class) (id : FunctionId) (name : String) : Tree :=
  tree.setClass
    { class_ with
      methods := class_.methods ++ [id]
      constructor := if name = constructorName then some id else class_.constructor }

def openBody (tree : Tree) (function : Function) : FunctionId × Tree :=
  let id := tree.functions.size
  let recorded := { tree with functions := tree.functions.push function }
  let joined :=
    match tree.memberClass? with
    | some class_ => recorded.addMethod class_ id function.name
    | none => recorded
  let inside := (joined.bind function.name (.function id)).push
  (id, { inside with openFunction := some ⟨id, inside.current⟩ })

/-- Declares a function whose body starts at the given instruction, and enters the body. A method
whose object finds no cell fails with its body already entered. -/
def declareFunction (tree : Tree) (name : String) (returns : DataType) (start : Int) :
    Except Error FunctionId × Tree :=
  match tree.currentFunction? with
  | some outer => (.error (.nestedFunction name outer.name), tree)
  | none =>
    if !isReturnable returns then (.error (.unreturnable name returns), tree)
    else if tree.isDeclared name then (.error (.redeclared name), tree)
    else
      match tree.allocateResult name returns start with
      | .error failure => (.error failure, tree)
      | .ok (result, allocated) =>
        let owner := (tree.memberClass?.map Class.name).getD ""
        let (id, inside) := allocated.openBody ⟨name, returns, result, start, [], false, owner⟩
        if tree.memberClass?.isSome then
          match inside.declareObjectArgument receiverName owner with
          | .error failure => (.error failure, inside)
          | .ok (_, complete) => (.ok id, complete)
        else (.ok id, inside)

def closeFunction (tree : Tree) : Except Error (FunctionId × Tree) :=
  match tree.openFunction with
  | none => .error .noFunctionOpen
  | some function =>
    let outside := (tree.parent function.scope).getD tree.current
    .ok (function.id, { tree with current := outside, openFunction := none })

def declareClass (tree : Tree) (name : String) : Except Error Tree :=
  if tree.openClass.isSome || tree.openFunction.isSome then .error (.classNotAtTop name)
  else if (tree.class? name).isSome then .error (.classRedeclared name)
  else if tree.isDeclared name then .error (.redeclared name)
  else
    let inside := (tree.bind name (.class name)).push
    .ok { inside with
      classes := tree.classes ++ [⟨name, inside.current, [], none, [], 0⟩]
      openClass := some name }

def closeClass (tree : Tree) : Except Error Tree :=
  match tree.currentClass? with
  | none => .error .noClassOpen
  | some class_ =>
    match tree.currentFunction? with
    | some method => .error (.classClosedInMethod class_.name method.name)
    | none =>
      let outside := (tree.parent class_.scope).getD tree.current
      .ok { tree with current := outside, openClass := none }

end Quadruple.Scope.Tree
