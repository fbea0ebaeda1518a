import Quadruple.Operator.Evaluation
import Quadruple.Transcript.Event

/-!
Structured programs: assignments, choices and loops over scalar variables. They are read in two ways:
as the events by which a front end tells them, and by an evaluator, which is given a number of rounds
within which it must end.
-/

namespace Quadruple.Structured

structure Variable where
  name : String
  type : DataType
  scalar : type = .int ∨ type = .float ∨ type = .bool ∨ type = .string

structure UnaryOperator where
  opcode : Opcode
  inSource : opcode ∈ Opcode.sourceOperators
  unary : opcode.arity = 1

structure BinaryOperator where
  opcode : Opcode
  inSource : opcode ∈ Opcode.sourceOperators
  binary : opcode.arity = 2
  noAssignment : opcode ≠ .assign

inductive Expression where
  /-- A constant, in the type that is named with it if one is. -/
  | constant (constant : Constant) (type : Option DataType)
  | named (name : String)
  | unary (operator : UnaryOperator) (operand : Expression)
  | binary (operator : BinaryOperator) (left right : Expression)

inductive Statement where
  | skip
  | assign (name : String) (value : Expression)
  | update (name : String) (operator : BinaryOperator) (value : Expression)
  | sequence (first second : Statement)
  | choose (condition : Expression) (yes no : Statement)
  | loop (condition : Expression) (body : Statement)

/-! ### Events -/

def Variable.event (var : Variable) : Event :=
  { kind := "declare_variable", name := var.name, type := var.type.name }

def use (name : String) : List Event :=
  [{ kind := "identifier", name }, { kind := "variable" }]

def Expression.events : Expression → List Event
  | constant given type =>
    [{ kind := "constant", value := some given, type := (type.map DataType.name).getD "" }]
  | named name => use name
  | unary operator operand =>
    operand.events ++ [{ kind := "operator", operator := operator.opcode.symbol }]
  | binary operator left right =>
    left.events ++ right.events ++ [{ kind := "operator", operator := operator.opcode.symbol }]

def Statement.events : Statement → List Event
  | skip => []
  | assign name value => use name ++ value.events ++ [{ kind := "assign" }]
  | update name operator value =>
    use name ++ value.events ++ [{ kind := "assign", operator := operator.opcode.symbol ++ "=" }]
  | sequence first second => first.events ++ second.events
  | choose condition yes no =>
    { kind := "push_delimiter" } :: condition.events ++ { kind := "conditional_jump" } ::
      yes.events ++ { kind := "jump" } :: { kind := "patch_jump", count := 1 } ::
      no.events ++ [{ kind := "patch_pending" }]
  | loop condition body =>
    { kind := "push_delimiter" } :: { kind := "loop_start" } :: condition.events ++
      { kind := "conditional_jump" } :: body.events ++
      [{ kind := "loop_jump", count := 1 }, { kind := "patch_pending" }]

def transcript (natives : Bool) (scalars : List Variable) (statement : Statement) : Transcript :=
  { natives
    events := scalars.map Variable.event ++ { kind := "init" } :: statement.events ++
      [{ kind := "exit" }] }

/-! ### Evaluation -/

abbrev Store := String → Value

def Store.set (store : Store) (name : String) (value : Value) : Store :=
  fun other => if other = name then value else store other

def Expression.eval (store : Store) : Expression → Except Opcode.EvalError Value
  | constant given type =>
    let value := given.value?.getD .absent
    .ok ((type.map value.coerce).getD value)
  | named name => .ok (store name)
  | unary operator operand =>
    match operand.eval store with
    | .ok value => operator.opcode.eval .absent value
    | .error cause => .error cause
  | binary operator left right =>
    match left.eval store with
    | .ok first =>
      match right.eval store with
      | .ok second => operator.opcode.eval first second
      | .error cause => .error cause
    | .error cause => .error cause

abbrev Result := Except Opcode.EvalError Unit × Store

/-- What comes of a value that may be missing. -/
def within (store : Store) (outcome : Except Opcode.EvalError Value)
    (rest : Value → Option Result) : Option Result :=
  match outcome with
  | .ok value => rest value
  | .error cause => some (.error cause, store)

/-- Goes on with what a statement leaves, unless it has failed. -/
def andThen (result : Option Result) (rest : Store → Option Result) : Option Result :=
  match result with
  | some (.ok (), store) => rest store
  | other => other

/-- Evaluates a statement, going into it and around its loops at most the given number of times. What
is assigned takes the type of its variable. -/
def Statement.run (types : String → DataType) : Nat → Statement → Store → Option Result
  | 0, _, _ => none
  | rounds + 1, statement, store =>
    match statement with
    | skip => some (.ok (), store)
    | assign name value =>
      within store (value.eval store) fun given =>
        some (.ok (), store.set name (given.coerce (types name)))
    | update name operator value =>
      within store (value.eval store) fun given =>
        within store (operator.opcode.eval (store name) given) fun computed =>
          some (.ok (), store.set name (computed.coerce (types name)))
    | sequence first second =>
      andThen (first.run types rounds store) fun between => second.run types rounds between
    | choose condition yes no =>
      within store (condition.eval store) fun given =>
        if given.holds then yes.run types rounds store else no.run types rounds store
    | loop condition body =>
      within store (condition.eval store) fun given =>
        if given.holds then
          andThen (body.run types rounds store) fun between =>
            (loop condition body).run types rounds between
        else some (.ok (), store)

def typeOf (scalars : List Variable) (name : String) : DataType :=
  ((scalars.find? fun var => var.name == name).map Variable.type).getD .void

def initial (scalars : List Variable) : Store :=
  fun name => .zero (typeOf scalars name)

def place (earlier : List Variable) (var : Variable) : Address :=
  ⟨.global, var.type, false,
    .ofNat (earlier.countP fun other => other.type = var.type)⟩

/-! ### Ending and going on -/

namespace Statement

def Diverges (types : String → DataType) (statement : Statement) (store : Store) : Prop :=
  ∀ rounds, statement.run types rounds store = none

theorem ends_or_diverges (types : String → DataType) (statement : Statement) (store : Store) :
    (∃ rounds outcome store', statement.run types rounds store = some (outcome, store')) ∨
      statement.Diverges types store := by
  by_cases diverges : statement.Diverges types store
  · exact .inr diverges
  · obtain ⟨rounds, notNone⟩ := Classical.not_forall.1 diverges
    obtain ⟨⟨outcome, left⟩, ends⟩ := Option.ne_none_iff_exists'.1 notNone
    exact .inl ⟨rounds, outcome, left, ends⟩

/-- How many rounds an evaluation takes to go into a statement as far as it is nested. -/
def depth : Statement → Nat
  | skip | assign _ _ | update _ _ _ => 1
  | sequence first second => max first.depth second.depth + 1
  | choose _ yes no => max yes.depth no.depth + 1
  | loop _ body => body.depth + 1

end Statement

end Quadruple.Structured
