import Quadruple.Memory
import Quadruple.Scope.Alias

/-!
Nested scopes and the search for names. Scopes are numbered in the order of their creation, so that
a scope's parent has a smaller number. While a member context is set, only the members of its class
are found.
-/

namespace Quadruple.Scope

structure Node where
  parent : Option ScopeId
  aliases : List (String × Alias)

/-- The function whose body is being declared, and the scope of that body. -/
structure OpenFunction where
  id : FunctionId
  scope : ScopeId
deriving DecidableEq

structure Tree where
  memory : Memory
  nodes : Array Node
  current : ScopeId
  functions : Array Function
  classes : List Class
  openFunction : Option OpenFunction
  openClass : Option String
  context : Option String

inductive Error where
  | undeclarable (name : String) (type : DataType)
  | badExtent (name : String) (extent : Int)
  | redeclared (name : String)
  | noClass (name : String)
  | storage (name : String) (cause : Memory.Error)
  | argumentOutside (name : String)
  | nestedFunction (name outer : String)
  | unreturnable (name : String) (type : DataType)
  | noFunctionOpen
  | classNotAtTop (name : String)
  | classRedeclared (name : String)
  | noClassOpen
  | classClosedInMethod (class_ method : String)
  | noMember (class_ member : String)
  | noAlias (name : String)
  | wrongIndices (name : String) (given : Int) (declared : List Int)
  | functionAsVariable (name : String)
  | classAsVariable (name : String)
  | variableNotCallable (name : String)
  | classNotCallable (name : String)

def shape : List Int → String
  | [] => "as scalar"
  | dimensions => "as " ++ String.join (dimensions.map fun extent => "[" ++ Text.decimal extent ++ "]")

def Error.report : Error → Report
  | undeclarable name type =>
    .of .typeError ("cannot declare variable " ++ Text.quoted name ++ " of type " ++ type.name)
  | badExtent name extent =>
    .of .dimensionMismatch ("variable " ++ Text.quoted name ++ " has non-positive extent " ++
      Text.decimal extent)
  | redeclared name =>
    .of .redeclaration ("alias " ++ Text.quoted name ++ " already declared in this scope")
  | noClass name => .of .unresolvedAlias ("class " ++ Text.quoted name ++ " does not exist")
  | storage name cause => cause.report.within ("declare " ++ Text.quoted name)
  | argumentOutside name =>
    .of .unresolvedAlias ("argument " ++ Text.quoted name ++ " declared outside a function")
  | nestedFunction name outer =>
    .plain ("function " ++ Text.quoted name ++ " declared inside function " ++ Text.quoted outer)
  | unreturnable name type =>
    .of .typeError ("function " ++ Text.quoted name ++ " cannot return " ++ type.name)
  | noFunctionOpen => .plain "close function outside of a function"
  | classNotAtTop name => .plain ("class " ++ Text.quoted name ++ " must be declared at top level")
  | classRedeclared name => .of .redeclaration ("class " ++ Text.quoted name ++ " already declared")
  | noClassOpen => .plain "close class outside of a class"
  | classClosedInMethod class_ method =>
    .plain ("class " ++ Text.quoted class_ ++ " closed inside method " ++ Text.quoted method)
  | noMember class_ member =>
    .of .unresolvedAlias ("class " ++ Text.quoted class_ ++ " has no member " ++ Text.quoted member)
  | noAlias name => .of .unresolvedAlias ("alias " ++ Text.quoted name ++ " does not exist")
  | wrongIndices name given declared =>
    .of .dimensionMismatch ("variable " ++ name ++ " used with " ++ Text.decimal given ++
      " indices, declared " ++ shape declared)
  | functionAsVariable name =>
    .of .typeError ("function " ++ Text.quoted name ++ " used as a variable")
  | classAsVariable name => .of .typeError ("class " ++ Text.quoted name ++ " used as a variable")
  | variableNotCallable name => .of .typeError ("variable " ++ Text.quoted name ++ " is not callable")
  | classNotCallable name => .of .typeError ("class " ++ Text.quoted name ++ " called without new")

namespace Tree

def ofMemory (memory : Memory) : Tree :=
  { memory
    nodes := #[⟨none, []⟩]
    current := 0
    functions := #[]
    classes := []
    openFunction := none
    openClass := none
    context := none }

def push (tree : Tree) : Tree :=
  { tree with nodes := tree.nodes.push ⟨some tree.current, []⟩, current := tree.nodes.size }

/-- The scope around another one; none around the outermost. -/
def parent (tree : Tree) (scope : ScopeId) : Option ScopeId :=
  (tree.nodes[scope]?).bind Node.parent

def pop (tree : Tree) : Tree :=
  match tree.parent tree.current with
  | some outer => { tree with current := outer }
  | none => tree

def function? (tree : Tree) (id : FunctionId) : Option Function :=
  tree.functions[id]?

def class? (tree : Tree) (name : String) : Option Class :=
  tree.classes.find? fun class_ => class_.name == name

def getClass (tree : Tree) (name : String) : Except Error Class :=
  match tree.class? name with
  | some class_ => .ok class_
  | none => .error (.noClass name)

def currentFunction? (tree : Tree) : Option Function :=
  tree.openFunction.bind fun open_ => tree.function? open_.id

def currentClass? (tree : Tree) : Option Class :=
  tree.openClass.bind tree.class?

def setContext (tree : Tree) (class_ : String) : Tree :=
  { tree with context := some class_ }

def clearContext (tree : Tree) : Tree :=
  { tree with context := none }

def lookup (tree : Tree) (scope : ScopeId) (name : String) : Option Alias :=
  (tree.nodes[scope]?).bind fun node => node.aliases.lookup name

/-- What a name stands for in a scope or in the nearest scope around it. -/
def search (tree : Tree) (scope : ScopeId) (name : String) : Option Alias :=
  match tree.lookup scope name with
  | some found => some found
  | none =>
    match tree.parent scope with
    | none => none
    | some outer => if outer < scope then tree.search outer name else none
termination_by scope

/-- What a name stands for: among the members of the context's class if one is set, and from the
current scope outward otherwise. -/
def resolve (tree : Tree) (name : String) : Except Error Alias :=
  match tree.context.bind tree.class? with
  | some class_ =>
    match tree.lookup class_.scope name with
    | some found => .ok found
    | none => .error (.noMember class_.name name)
  | none =>
    match tree.search tree.current name with
    | some found => .ok found
    | none => .error (.noAlias name)

def resolveVariable (tree : Tree) (name : String) (indices : Int) : Except Error Variable := do
  match ← tree.resolve name with
  | .variable found =>
    if (found.dimensions.length : Int) = indices then .ok found
    else .error (.wrongIndices name indices found.dimensions)
  | .function _ => .error (.functionAsVariable name)
  | .class _ => .error (.classAsVariable name)

def resolveFunction (tree : Tree) (name : String) : Except Error FunctionId := do
  match ← tree.resolve name with
  | .function id => .ok id
  | .variable _ => .error (.variableNotCallable name)
  | .class _ => .error (.classNotCallable name)

end Tree

end Quadruple.Scope
