import Quadruple.Proofs.Commands
import Quadruple.Proofs.Lowering

/-!
The declarations of a structured program. Its variables get the first cells of their types, in the
order in which they are declared; the functions of the host, which may be declared before them, take
no cell of the program and leave no code.
-/

namespace Quadruple

namespace Structured

open Generator (Gives Performs)
open Transcript (Delivers)

variable {found : Scope.Variable} {name : String} {type : DataType}

/-! ### Names -/

/-- The variables among the names of a scope are the given ones, with the cells that are theirs. -/
structure Names (scalars : List Variable) (aliases : List (String × Scope.Alias)) : Prop where
  known : ∀ name found, aliases.lookup name = some (.variable found) →
    found.isField = false ∧ found.className = "" ∧ ∃ (index : Nat) (var : Variable),
      scalars[index]? = some var ∧ var.name = name ∧
      found.address = place (scalars.take index) var
  bound : ∀ (index : Nat) (var : Variable), scalars[index]? = some var → ∃ found,
    aliases.lookup var.name = some (.variable found) ∧
    found.address = place (scalars.take index) var

section

variable {scalars : List Variable} {var : Variable} {aliases : List (String × Scope.Alias)}

theorem getElem?_concat {variable_' : Variable} {index : Nat}
    (listed : (scalars ++ [var])[index]? = some variable_') :
    scalars[index]? = some variable_' ∧ (scalars ++ [var]).take index =
        scalars.take index ∨
      variable_' = var ∧ (scalars ++ [var]).take index = scalars := by
  by_cases inside : index < scalars.length
  · rw [List.getElem?_append_left inside] at listed
    exact .inl ⟨listed, List.take_append_of_le_length (Nat.le_of_lt inside)⟩
  · obtain ⟨bound, _⟩ := List.getElem?_eq_some_iff.1 listed
    rw [List.length_append, List.length_singleton] at bound
    have last : index = scalars.length := by omega
    subst last
    rw [List.getElem?_concat_length] at listed
    cases listed
    exact .inr ⟨rfl, List.take_left⟩

theorem Names.declare (names : Names scalars aliases) (isNew : aliases.lookup var.name = none)
    (address : found.address = place scalars var) (isField : found.isField = false)
    (className : found.className = "") :
    Names (scalars ++ [var]) ((var.name, .variable found) :: aliases) := by
  refine ⟨fun name other bound => ?_, fun index other listed => ?_⟩
  · by_cases same : name = var.name
    · subst same
      rw [List.lookup_cons_self] at bound
      cases bound
      refine ⟨isField, className, scalars.length, var, List.getElem?_concat_length, rfl, ?_⟩
      rw [List.take_left]
      exact address
    · rw [List.lookup_cons, beq_false_of_ne same] at bound
      obtain ⟨isField, className, index, earlier, listed, isName, address⟩ := names.known name other bound
      obtain ⟨inside, _⟩ := List.getElem?_eq_some_iff.1 listed
      refine ⟨isField, className, index, earlier, ?_, isName, ?_⟩
      · rw [List.getElem?_append_left inside]
        exact listed
      · rw [List.take_append_of_le_length (Nat.le_of_lt inside)]
        exact address
  · rcases getElem?_concat listed with ⟨listed, taken⟩ | ⟨rfl, taken⟩
    · obtain ⟨earlier, bound, address⟩ := names.bound index other listed
      have different : other.name ≠ var.name := by
        intro same
        rw [same, isNew] at bound
        cases bound
      rw [List.lookup_cons, beq_false_of_ne different, taken]
      exact ⟨earlier, bound, address⟩
    · rw [taken]
      exact ⟨found, List.lookup_cons_self, address⟩

theorem Names.function (names : Names [] aliases) (name : String) (id : Scope.FunctionId) :
    Names [] ((name, .function id) :: aliases) := by
  refine ⟨fun other found bound => ?_, nofun⟩
  rw [List.lookup_cons] at bound
  split at bound
  · cases bound
  · exact names.known other found bound

end

/-! ### Variables -/

/-- A compilation of which no code but the jump to the program's start has been made. -/
structure Blank (capacities : Capacities) (generator : Generator) : Prop where
  names : generator.names = []
  operands : generator.operands = []
  buffer : generator.buffer = CodeBuffer.emit {} { opcode := .goto }
  context : generator.tree.context = none
  openClass : generator.tree.openClass = none
  sizes : generator.tree.memory.sizes = (Memory.ofCapacities capacities).sizes

def Room (capacities : Capacities) (scalars : List Variable) : Prop :=
  ∀ (index : Nat) (var : Variable), scalars[index]? = some var → ∃ capacity,
    (Memory.ofCapacities capacities).sizes .global var.type = some capacity ∧
    ((scalars.take index).countP fun other => other.type = var.type) < capacity

/-- A compilation at the top level of a program, some variables of which have been declared. -/
structure Declared (capacities : Capacities) (scalars : List Variable) (generator : Generator) :
    Prop extends Blank capacities generator where
  openFunction : generator.tree.openFunction = none
  cursors : ∀ type, generator.tree.memory.cursor .global type =
    scalars.countP fun var => var.type = type
  room : Room capacities scalars
  top : ∃ aliases, generator.tree.nodes[generator.tree.current]? = some ⟨none, aliases⟩ ∧
    Names scalars aliases

section

variable {capacities : Capacities} {scalars : List Variable} {var : Variable}
  {before after : Generator}

theorem declared_ofCapacities (capacities : Capacities) :
    Declared capacities [] (Generator.ofCapacities capacities) := by
  refine ⟨⟨rfl, rfl, rfl, rfl, rfl, rfl⟩, rfl, Memory.cursor_ofCapacities capacities .global, ?_, [],
    rfl, ?_, ?_⟩
  · intro _ _ listed
    cases listed
  · intro _ _ found
    cases found
  · intro _ _ listed
    cases listed

theorem Blank.memberClass? (blank : Blank capacities before) : before.tree.memberClass? = none := by
  unfold Scope.Tree.memberClass? Scope.Tree.currentClass?
  rw [blank.openClass]
  split <;> rfl

theorem Blank.place_scalar {tree : Scope.Tree} (blank : Blank capacities before)
    (placed : before.tree.place ⟨name, type, .origin, [], "", "", 0⟩ false = .ok (found, tree)) :
    ∃ memory, before.tree.memory.allocate before.tree.storage type 1 false =
        .ok (found.address, memory) ∧ found.isField = false ∧ found.className = "" ∧
      tree = ({ before.tree with memory } : Scope.Tree).bind name (.variable found) := by
  obtain ⟨class_, member, _⟩ | ⟨_, address, memory, allocated, rfl, rfl⟩ :=
    Scope.Tree.place_eq_ok placed
  · rw [blank.memberClass?] at member
    cases member
  · exact ⟨memory, allocated, rfl, rfl, rfl⟩

theorem declared_variable (declared : Declared capacities scalars before)
    (gives : Gives (Generator.declareVariable var.name var.type []) before () after) :
    Declared capacities (scalars ++ [var]) after := by
  obtain ⟨found, tree, declares, rfl⟩ := Generator.gives_declareVariable gives
  obtain ⟨_, _, _, isNew, placed⟩ := Scope.Tree.declareVariable_eq_ok declares
  obtain ⟨memory, allocated, isField, className, rfl⟩ := declared.place_scalar placed
  have storage : before.tree.storage = .global := by
    unfold Scope.Tree.storage
    rw [declared.openFunction]
    rfl
  rw [storage] at allocated
  obtain ⟨address, ⟨capacity, size, room⟩, sizes, cursors⟩ := Memory.allocate_one allocated
  obtain ⟨aliases, top, names⟩ := declared.top
  have isNew : aliases.lookup var.name = none := by
    simp only [Scope.Tree.isDeclared, Scope.Tree.lookup, top, Option.bind_some,
      Option.isSome_eq_false_iff, Option.isNone_iff_eq_none] at isNew
    exact isNew
  refine ⟨⟨declared.names, declared.operands, declared.buffer, declared.context, declared.openClass,
    sizes.trans declared.sizes⟩, declared.openFunction, fun type => ?_, fun index other listed => ?_,
    (var.name, .variable found) :: aliases, ?_, names.declare isNew ?_ isField className⟩
  · change memory.cursor .global type = _
    rw [List.countP_append, ← declared.cursors, cursors]
    by_cases same : type = var.type
    · simp [same]
    · simp [same, Ne.symm same]
  · rcases getElem?_concat listed with ⟨listed, taken⟩ | ⟨rfl, taken⟩
    · rw [taken]
      exact declared.room index other listed
    · rw [taken, ← declared.cursors, ← declared.sizes]
      exact ⟨capacity, size, room⟩
  · change (Scope.Tree.bind _ _ _).nodes[before.tree.current]? = _
    rw [Scope.Tree.getElem?_bind, if_pos rfl]
    rw [top]
    rfl
  · rw [address, declared.cursors]
    rfl

theorem command_declare (var : Variable) :
    var.event.command = .ok (.declareVariable var.name var.type []) := by
  have kind : String.ofList ("declare_variable".toList.map Text.lowerPlain) = "declare_variable" := by
    decide
  have named : Event.typeNamed var.type.name = .ok var.type := by
    rcases var.scalar with type | type | type | type <;> rw [type] <;> rfl
  simp only [Variable.event, Event.command, kind, named]
  simp

theorem declared_variables {earlier : List Variable} (declared : Declared capacities earlier before)
    (delivers : Delivers (scalars.map Variable.event) before after) :
    Declared capacities (earlier ++ scalars) after := by
  induction scalars generalizing earlier before with
  | nil =>
    cases delivers
    rw [List.append_nil]
    exact declared
  | cons var scalars ih =>
    cases delivers with
    | cons reads performs rest =>
      cases (command_declare var).symm.trans reads
      rw [List.append_cons]
      exact ih (declared_variable declared performs) rest

end

/-! ### Functions of the host -/

/-- A compilation between the name and the last argument of a function of the host. -/
structure Signing (capacities : Capacities) (generator : Generator) : Prop
    extends Blank capacities generator where
  cursors : ∀ type, generator.tree.memory.cursor .global type = 0
  inside : ∃ id scope outer aliases aliases' function,
    generator.tree.openFunction = some ⟨id, scope⟩ ∧ generator.tree.current = scope ∧
    generator.tree.nodes[scope]? = some ⟨some outer, aliases'⟩ ∧ outer ≠ scope ∧
    generator.tree.nodes[outer]? = some ⟨none, aliases⟩ ∧ Names [] aliases ∧
    generator.tree.functions[id]? = some function ∧ function.native = true

section

variable {capacities : Capacities} {before after : Generator} {done : Unit}

theorem signing_name {returns : DataType} (declared : Declared capacities [] before)
    (gives : Gives (Generator.declareNative name returns) before done after) :
    Signing capacities after := by
  obtain ⟨_, id, tree, opened, rfl⟩ := Generator.gives_declareNative gives
  obtain ⟨result, allocated, owner, found, rfl, ⟨member, rfl, rfl⟩ | ⟨class_, _, member, _⟩⟩ :=
    Scope.Tree.declareFunction_eq_ok opened
  · have noCell : before.tree.allocateResult name returns (-1) = .ok (none, before.tree) := by
      simp [Scope.Tree.allocateResult]
    cases noCell.symm.trans found
    obtain ⟨aliases, top, names⟩ := declared.top
    have inside : before.tree.current < before.tree.nodes.size :=
      (Array.getElem?_eq_some_iff.1 top).1
    have outer : (before.tree.bind name (.function before.tree.functions.size)).nodes[
        before.tree.current]? = some ⟨none, (name, .function before.tree.functions.size) :: aliases⟩ := by
      rw [Scope.Tree.getElem?_bind, if_pos rfl, top]
      rfl
    have size : (before.tree.bind name (.function before.tree.functions.size)).nodes.size =
        before.tree.nodes.size := Array.size_modify
    obtain ⟨classes, body⟩ :=
      before.tree.openBody_eq ⟨name, returns, none, -1, [], false, ""⟩
    rw [body]
    refine ⟨⟨declared.names, declared.operands, declared.buffer, declared.context, declared.openClass,
      declared.sizes⟩, declared.cursors, before.tree.functions.size, before.tree.nodes.size,
      before.tree.current, (name, .function before.tree.functions.size) :: aliases, [],
      ⟨name, returns, none, -1, [], true, ""⟩, rfl, rfl, ?_, Nat.ne_of_lt inside, ?_,
      names.function name _, ?_, rfl⟩
    · change (Array.push _ _)[before.tree.nodes.size]? = _
      rw [← size, Array.getElem?_push_size]
    · change (Array.push _ _)[before.tree.current]? = _
      rw [Array.getElem?_push, if_neg (size ▸ Nat.ne_of_lt inside)]
      exact outer
    · change (Array.modify _ _ _)[before.tree.functions.size]? = _
      rw [Array.getElem?_modify, if_pos rfl]
      rw [Array.getElem?_push_size]
      rfl
  · rw [declared.memberClass?] at member
    cases member

theorem signing_argument (signing : Signing capacities before)
    (gives : Gives (Generator.declareArgument name type []) before done after) :
    Signing capacities after := by
  obtain ⟨found, tree, signs, rfl⟩ := Generator.gives_declareArgument gives
  obtain ⟨_, between, isOpen, declares, rfl⟩ := Scope.Tree.asArgument_eq_ok signs
  obtain ⟨_, _, _, _, placed⟩ := Scope.Tree.declareVariable_eq_ok declares
  obtain ⟨memory, allocated, _, _, rfl⟩ := signing.place_scalar placed
  obtain ⟨id, scope, outer, aliases, aliases', function, isOpen', rfl, here, apart, around, names,
    listed, native⟩ := signing.inside
  cases isOpen.symm.trans isOpen'
  have storage : before.tree.storage = .locals := by
    unfold Scope.Tree.storage
    rw [isOpen]
    rfl
  rw [storage] at allocated
  obtain ⟨_, _, sizes, cursors⟩ := Memory.allocate_one allocated
  refine ⟨⟨signing.names, signing.operands, signing.buffer, signing.context, signing.openClass,
    sizes.trans signing.sizes⟩, fun type => ?_, id, before.tree.current, outer, aliases,
    (name, .variable found) :: aliases', { function with arguments := function.arguments ++ [found] },
    isOpen, rfl, ?_, apart, ?_, names, ?_, native⟩
  · change memory.cursor .global type = 0
    rw [cursors, if_neg fun both => nomatch both.1]
    exact signing.cursors type
  · change (Scope.Tree.bind _ _ _).nodes[before.tree.current]? = _
    rw [Scope.Tree.getElem?_bind, if_pos rfl]
    rw [here]
    rfl
  · change (Scope.Tree.bind _ _ _).nodes[outer]? = _
    rw [Scope.Tree.getElem?_bind, if_neg (Ne.symm apart)]
    exact around
  · change (Array.modify _ _ _)[id]? = _
    rw [Array.getElem?_modify, if_pos rfl]
    change (before.tree.functions[id]?).map _ = _
    rw [listed]
    rfl

theorem signing_close (signing : Signing capacities before)
    (gives : Gives Generator.closeFunction before done after) : Declared capacities [] after := by
  obtain ⟨current, buffer, id', tree, isCurrent, emitted, closed, rfl⟩ :=
    Generator.gives_closeFunction gives
  obtain ⟨_, isOpen, rfl⟩ := Scope.Tree.closeFunction_eq_ok closed
  obtain ⟨id, scope, outer, aliases, aliases', function, isOpen', rfl, here, apart, around, names,
    listed, native⟩ := signing.inside
  cases isOpen.symm.trans isOpen'
  have same : current = function := by
    unfold Scope.Tree.currentFunction? Scope.Tree.function? at isCurrent
    rw [isOpen, Option.bind_some, listed] at isCurrent
    cases isCurrent
    rfl
  have noCode : buffer = before.buffer := by
    rcases emitted with same' | ⟨foreign, _⟩
    · exact same'
    · rw [same, native] at foreign
      cases foreign
  have parent : before.tree.parent before.tree.current = some outer := by
    rw [Scope.Tree.parent, here]
    rfl
  refine ⟨⟨signing.names, signing.operands, noCode.trans signing.buffer, signing.context,
    signing.openClass, (Memory.sizes_resetLocals _).trans signing.sizes⟩, rfl, signing.cursors, ?_,
    aliases, ?_, names⟩
  · intro _ _ listed
    cases listed
  · simp only [parent, Option.getD_some]
    exact around

theorem signing_arguments {parameters : List (DataType × Nat)} (signing : Signing capacities before)
    (performs : Performs (parameters.map fun parameter =>
      .declareArgument (Generator.parameterName parameter.2) parameter.1 []) before after) :
    Signing capacities after := by
  induction parameters generalizing before with
  | nil =>
    cases performs
    exact signing
  | cons parameter rest ih =>
    cases performs with
    | cons declares rest => exact ih (signing_argument signing declares) rest

theorem declared_natives {signatures : List Generator.NativeSignature}
    (declared : Declared capacities [] before)
    (performs : Performs (signatures.flatMap Generator.NativeSignature.commands) before after) :
    Declared capacities [] after := by
  induction signatures generalizing before with
  | nil =>
    cases performs
    exact declared
  | cons signature rest ih =>
    obtain ⟨between, performs, rest⟩ := Generator.performs_append.1 performs
    obtain ⟨signed, performs, closes⟩ := Generator.performs_append.1 performs
    cases performs with
    | cons names signs =>
      cases closes with
      | cons closes done =>
        cases done
        exact ih (signing_close (signing_arguments (signing_name declared names) signs) closes) rest

end

end Structured

end Quadruple
