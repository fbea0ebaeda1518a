import Quadruple.Proofs.Attempts
import Quadruple.Proofs.Bindings
import Quadruple.Proofs.Typing

/-!
Compilation of expressions and calls. The values on the operand stack and the objects on the name stack stand
in cells that code may use, and what is emitted for an expression is plain. So a property of the state that
plain code keeps is kept by expressions and calls, whatever way they end.
-/

namespace Quadruple

namespace Scope

/-- Whether a call finds the cells to which it passes values and the one that holds the value. -/
structure Function.Callable (function : Function) : Prop where
  receiver : function.isMethod = true → function.arguments ≠ []
  result : function.isVoid = false → function.native = false → function.result ≠ none

namespace Tree

variable {tree : Tree} {name : String}

theorem length_of_resolveVariable {indices : Int} {var : Variable}
    (found : tree.resolveVariable name indices = .ok var) :
    (var.dimensions.length : Int) = indices := by
  obtain ⟨alias_, _, named⟩ := bind_eq_ok.1 found
  split at named
  · split at named
    · rename_i counted
      cases named
      exact counted
    · cases named
  · cases named
  · cases named

theorem getClass_eq_ok {class_ : Class} (found : tree.getClass name = .ok class_) :
    tree.class? name = some class_ := by
  unfold getClass at found
  split at found
  · rename_i here
    cases found
    exact here
  · cases found

end Tree

end Scope

open Scope (Function Variable)

def Entry.Sound (rules : Rules) : Entry → Prop
  | cell address _ => rules.usable address
  | element base index _ _ => rules.Holds base ∧ rules.Reads index

namespace Rules

def lax (capacities : Capacities) : Rules where
  capacities
  usable := fun _ => True
  hosts := fun _ _ => True
  usable_of_has := fun _ _ => trivial
  usable_mark := fun _ _ => Iff.rfl

/-- A cell of a type, which code may use if it is bound by rules at all. -/
structure Cell (rules : Rules) (Strict : Prop) (type : DataType) (address : Address) : Prop where
  typed : address.type = type
  usable : Strict → rules.usable address

variable {rules : Rules} {opcode : Opcode}

theorem reads_int (number : Int64) : rules.Reads (.literal (.int number)) :=
  nofun

theorem Plain.place (left right : Operand) {cell : Address} (sum : opcode = .add ∨ opcode = .mul)
    (isInt : left.type = .int) (isInt' : right.type = .int) (isInt'' : cell.type = .int)
    (reads : rules.Reads left) (reads' : rules.Reads right) (usable : rules.usable cell) :
    rules.Plain ⟨opcode, left, right, .address cell⟩ := by
  have typed : opcode.binaryType? left.type right.type = some cell.type := by
    rw [isInt, isInt', isInt'']
    rcases sum with rfl | rfl <;> rfl
  have same : Generator.emitted opcode cell.type = opcode :=
    Opcode.emitted_of_ne (by rcases sum with rfl | rfl <;> decide)
  rw [← same]
  exact .binary typed reads reads' usable

end Rules

namespace Generator

structure Sound (generator : Generator) (rules : Rules) : Prop where
  tree : generator.tree.Sound rules
  operands : ∀ entry ∈ generator.operands, entry.Sound rules
  names : ∀ pending ∈ generator.names, ∀ base, pending.base = some base → rules.Refers base

/-! ### Calls -/

/-- The part of a call from which nothing may be missing. -/
def passing (function : Function) (object : Option Address) (passed : List (Address × Address)) :
    Action Unit := do
  let _ ← emit { opcode := .openRecord, left := .name function.name }
  passReceiver function object
  for (value, formal) in passed do
    passArgument value formal
  let _ ← emit ⟨.call, .name function.name, .none, .target function.start⟩

theorem passing_bind {function : Function} {object : Option Address} {passed : List (Address × Address)}
    (rest : Action Unit) : (do passing function object passed; rest) = (do
      let _ ← emit { opcode := .openRecord, left := .name function.name }
      passReceiver function object
      for (value, formal) in passed do
        passArgument value formal
      let _ ← emit ⟨.call, .name function.name, .none, .target function.start⟩
      rest) := by
  simp only [passing, bind_assoc, pure_bind]

/-- The object of a method goes to the cell of its first argument. -/
def received (function : Function) : Option Address → List (Address × Address)
  | none => []
  | some value => (function.arguments.take 1).map fun this => (value, this.address)

/-- What a call of a function with an object, if it is a method, starts from. -/
structure Calls (rules : Rules) (callee : Option Function) (function : Function) (object : Option Address) :
    Prop where
  calls : callee = some function
  fits : function.Sound rules
  refers : ∀ value, object = some value → rules.Refers value
  matched : object.isSome = function.isMethod

variable {α β : Type} {terms : Terms} {Strict : Prop} {rules : Rules} {callee : Option Function}
  {made : Option Scope.Class} {rest : α → Action β} {Then : β → Prop} {entry : Entry} {type target : DataType}
  {source right : Address} {name : String} {opcode : Opcode} {var : Variable} {indices : Int}
  {function : Function} {object : Option Address} {formals : List Variable}
  {passed : List (Address × Address)} {left : Operand}

/-- A call takes a value for each formal; that of a method's object is known already. -/
def Taken (function : Function) (formals : List Variable) : Prop :=
  function.isMethod = false ∧ formals = function.arguments ∨
    function.isMethod = true ∧ ∃ this, function.arguments = this :: formals

/-- The values that are passed are complete: first the object of a method, then the values of the
formals. -/
theorem Calls.passes (calls : Calls rules callee function object) (shape : Taken function formals)
    (cells : passed.map Prod.snd = formals.map Variable.address)
    (typed : ∀ argument ∈ passed, argument.1.type = argument.2.type ∧ rules.usable argument.1) :
    rules.Passes function (received function object ++ passed) := by
  have fits := calls.fits
  have complete : (received function object ++ passed).map Prod.snd =
      function.arguments.map Variable.address := by
    rw [List.map_append, cells]
    have matched := calls.matched
    rcases shape with ⟨notMethod, rfl⟩ | ⟨isMethod, this, found⟩
    · rw [notMethod] at matched
      cases object with
      | none => rfl
      | some => cases matched
    · rw [isMethod] at matched
      cases object with
      | none => cases matched
      | some => simp [received, found]
  have all : ∀ argument ∈ received function object ++ passed,
      argument.1.type = argument.2.type ∧ rules.usable argument.1 := by
    intro argument listed
    rcases List.mem_append.1 listed with first | later
    · cases object with
      | none => cases first
      | some value =>
        obtain ⟨this, others, same, _, isObject⟩ := fits.method calls.matched.symm
        simp only [received, same, List.take_one, List.head?_cons, Option.toList_some, List.map_singleton,
          List.mem_singleton] at first
        subst first
        have here := (fits.arguments this (by rw [same]; exact List.mem_cons_self)).1
        have refers := calls.refers value rfl
        exact ⟨refers.isObject.trans (here.trans isObject).symm, refers.usable⟩
    · exact typed argument later
  refine ⟨complete, fun argument listed => (all argument listed).1,
    fun argument listed => (all argument listed).2, fun argument listed => ?_⟩
  have formal : argument.2 ∈ function.arguments.map Variable.address := by
    rw [← complete]
    exact List.mem_map_of_mem listed
  obtain ⟨var, declared, same⟩ := List.mem_map.1 formal
  rw [← same]
  exact (fits.arguments var declared).2

/-! ### Properties that expressions and calls keep -/

/-- A property of the state that expressions and calls keep. Where they are bound by rules, it says that the
state is sound, and it need survive only what the rules allow, with a call as a whole. Unless an abrupt end is
allowed, it says of the functions that can be called that calls find what they need. -/
structure Steady (terms : Terms) (Strict : Prop) (rules : Rules) (callee : Option Function)
    (made : Option Scope.Class) : Prop where
  sound : Strict → ∀ before, terms.holds before → before.Sound rules
  emit : ∀ before instr, terms.holds before → (Strict → rules.Plain instr) →
    terms.holds { before with buffer := before.buffer.emit instr }
  temp : ∀ before type reference address memory, terms.holds before →
    before.tree.memory.allocate .temps type 1 reference = .ok (address, memory) →
    terms.holds { before with tree := { before.tree with memory } }
  context : ∀ before context, terms.holds before →
    terms.holds { before with tree := { before.tree with context } }
  operands : ∀ before operands, terms.holds before → (Strict → ∀ entry ∈ operands, entry.Sound rules) →
    terms.holds { before with operands }
  names : ∀ before names, terms.holds before →
    (Strict → ∀ pending ∈ names, ∀ base, pending.base = some base → rules.Refers base) →
    terms.holds { before with names }
  call : ∀ function object passed, function.native = false →
    terms.Abrupt ∨ (object ≠ none → function.arguments ≠ []) →
    (Strict → callee = some function ∧ rules.Passes function (received function object ++ passed)) →
    Survives terms (passing function object passed)
  callHost : ∀ (function : Function) (arguments : List Classed), function.native = true →
    (Strict → callee = some function ∧ rules.hosts function.name function.returns ∧
      arguments.length = function.arguments.length ∧ ∀ argument ∈ arguments, rules.usable argument.address) →
    Survives terms (callNative function arguments)
  functions : terms.Abrupt ∨ ∀ before name id, terms.holds before →
    before.tree.resolveFunction name = .ok id →
    ∃ function, before.tree.function? id = some function ∧ function.Callable
  constructors : terms.Abrupt ∨ ∀ before name class_ constructor, terms.holds before →
    before.tree.class? name = some class_ →
    class_.constructor.bind before.tree.function? = some constructor →
    constructor.Callable ∧ constructor.arguments ≠ []

theorem keeps_formalsOf (object : Option Address) (ready : terms.Abrupt ∨ function.Callable) :
    Keeps terms (formalsOf function object) (Taken function) := by
  unfold formalsOf
  split
  · rename_i notMethod
    exact keeps_pure (.inl ⟨by simpa using notMethod, rfl⟩)
  · rename_i isMethod
    have isMethod : function.isMethod = true := by simpa using isMethod
    split
    · exact keeps_fail
    · rename_i none_
      rcases ready with allowed | callable
      · exact keeps_crash allowed
      · exact absurd none_ (callable.receiver isMethod)
    · rename_i this _ found
      exact keeps_pure (.inr ⟨isMethod, this, found⟩)

theorem keeps_typeOf {left right : DataType} :
    Keeps terms (settle (typeOf opcode left right)) fun type => opcode.resultType left right = .ok type :=
  keeps_settle fun _ typed => mapError_eq_ok.1 typed

theorem allocating {reference : Bool} {Given : Address → Prop} (closed : ∀ before address memory,
      terms.holds before → before.tree.memory.allocate .temps type 1 reference = .ok (address, memory) →
      Given address ∧ terms.holds { before with tree := { before.tree with memory } }) :
    Keeps terms (allocateTemp type reference) Given := by
  intro before kept
  unfold allocateTemp
  rw [run_get_bind]
  split
  · rename_i address memory allocated
    exact closed before address memory kept allocated
  · exact terms.reports _ _ kept

namespace Steady

variable (steady : Steady terms Strict rules callee made)
include steady

theorem keeps_emit {instr : Instruction} (plain : Strict → rules.Plain instr) :
    Survives terms (Generator.emit instr) :=
  keeps_bind keeps_get fun _ _ =>
    keeps_bind (keeps_modify fun before kept => steady.emit before instr kept plain) fun _ _ =>
      keeps_pure trivial

theorem emitting {instr : Instruction} {rest : Nat → Action β} (plain : Strict → rules.Plain instr)
    (next : ∀ place, Keeps terms (rest place) Then) : Keeps terms (Generator.emit instr >>= rest) Then :=
  keeps_bind (steady.keeps_emit plain) fun place _ => next place

theorem keeps_allocateTemp (type : DataType) (reference : Bool) :
    Keeps terms (allocateTemp type reference) (rules.Cell Strict type) := by
  refine allocating fun before address memory kept allocated =>
    ⟨⟨?_, fun strict => ?_⟩, steady.temp before type reference address memory kept allocated⟩
  · obtain ⟨_, _, _, rfl, _⟩ := Memory.allocate_eq_ok.1 allocated
    rfl
  · have sizes := (steady.sound strict before kept).tree.sizes
    exact rules.usable_of_has _ (Memory.has_of_allocate sizes allocated).1

theorem keeps_temp (type : DataType) : Keeps terms (Generator.temp type) (rules.Cell Strict type) :=
  steady.keeps_allocateTemp type false

theorem keeps_setContext (class_ : String) : Survives terms (setTree fun tree => tree.setContext class_) :=
  keeps_modify fun before => steady.context before (some class_)

theorem keeps_clearContext : Survives terms (setTree Scope.Tree.clearContext) :=
  keeps_modify fun before => steady.context before none

theorem computing {instr : Address → Instruction} {rest : Address → Nat → Action β}
    (plain : ∀ cell, rules.Cell Strict type cell → Strict → rules.Plain (instr cell))
    (next : ∀ cell place, rules.Cell Strict type cell → Keeps terms (rest cell place) Then) :
    Keeps terms (do
      let cell ← Generator.temp type
      rest cell (← Generator.emit (instr cell))) Then :=
  keeps_bind (steady.keeps_temp type) fun cell fits =>
    steady.emitting (plain cell fits) fun place => next cell place fits

/-! ### The stacks -/

theorem keeps_push (entry : Entry) (fits : Strict → entry.Sound rules) : Survives terms (push entry) := by
  refine keeps_modify fun before kept => steady.operands before _ kept fun strict other listed => ?_
  rcases List.mem_cons.1 listed with rfl | listed
  · exact fits strict
  · exact (steady.sound strict before kept).operands other listed

theorem keeps_pop : Keeps terms pop fun entry => Strict → entry.Sound rules := by
  intro before kept
  have fits (strict : Strict) := (steady.sound strict before kept).operands
  unfold pop
  rw [run_get_bind]
  split
  · exact terms.reports _ _ kept
  · rename_i entry operands top
    rw [top] at fits
    rw [run_modify_bind]
    exact ⟨fun strict => fits strict entry List.mem_cons_self, steady.operands before operands kept
      fun strict other listed => fits strict other (List.mem_cons_of_mem _ listed)⟩

theorem keeps_pushName (name : PendingName)
    (refers : Strict → ∀ base, name.base = some base → rules.Refers base) : Survives terms (pushName name) := by
  refine keeps_modify fun before kept => steady.names before _ kept fun strict other listed => ?_
  rcases List.mem_cons.1 listed with rfl | listed
  · exact refers strict
  · exact (steady.sound strict before kept).names other listed

theorem keeps_takeBase :
    Keeps terms takeBase fun taken => Strict → ∀ base, taken.1 = some base → rules.Refers base := by
  intro before kept
  have fits (strict : Strict) := (steady.sound strict before kept).names
  unfold takeBase
  rw [run_get_bind]
  split
  · rename_i top names found
    rw [found] at fits
    split
    · rw [run_modify_bind]
      exact ⟨fun strict => fits strict top List.mem_cons_self, steady.names before names kept
        fun strict other listed => fits strict other (List.mem_cons_of_mem _ listed)⟩
    · exact ⟨fun _ => nofun, kept⟩
  · exact ⟨fun _ => nofun, kept⟩

theorem keeps_popName :
    Keeps terms popName fun pending => Strict → ∀ base, pending.base = some base → rules.Refers base := by
  intro before kept
  have fits (strict : Strict) := (steady.sound strict before kept).names
  unfold popName
  rw [run_get_bind]
  split
  · rename_i top names found
    rw [found] at fits
    split
    · exact terms.reports _ _ kept
    · rw [run_modify_bind]
      exact ⟨fun strict => fits strict top List.mem_cons_self, steady.names before names kept
        fun strict other listed => fits strict other (List.mem_cons_of_mem _ listed)⟩
  · exact terms.reports _ _ kept

/-! ### Values -/

theorem keeps_valueOf (fits : Strict → entry.Sound rules) :
    Keeps terms (valueOf entry) (rules.Cell Strict entry.type) := by
  cases entry with
  | cell => exact keeps_pure ⟨rfl, fits⟩
  | element base index type =>
    exact steady.computing (fun _ cell strict =>
      .loadElement (fits strict).1 (fits strict).2 (cell.usable strict)) fun _ _ cell => keeps_pure cell

theorem keeps_popValue : Keeps terms popValue fun address => Strict → rules.usable address :=
  keeps_bind steady.keeps_pop fun _ fits => (steady.keeps_valueOf fits).weaken fun _ cell => cell.usable

theorem keeps_popMore (taken : List Classed) (more : Nat)
    (usable : Strict → ∀ value ∈ taken, rules.usable value.address) :
    Keeps terms (popMore taken more) fun all => all.length = taken.length + more ∧
      (Strict → ∀ value ∈ all, rules.usable value.address) := by
  induction more generalizing taken with
  | zero => exact keeps_pure ⟨rfl, usable⟩
  | succ more ih =>
    refine keeps_bind steady.keeps_pop fun entry fits => ?_
    refine keeps_bind (steady.keeps_valueOf fits) fun address cell => ?_
    refine (ih _ fun strict value listed => ?_).weaken fun all found => ⟨?_, found.2⟩
    · rcases List.mem_cons.1 listed with rfl | listed
      · exact cell.usable strict
      · exact usable strict value listed
    · rw [found.1, List.length_cons]
      omega

theorem keeps_popValues (count : Nat) :
    Keeps terms (popValues count) fun taken => taken.length = count ∧
      (Strict → ∀ value ∈ taken, rules.usable value.address) := by
  refine keeps_bind keeps_get fun _ _ => ?_
  simp only
  split
  · exact keeps_fail
  · refine (steady.keeps_popMore [] count fun _ => by simp).weaken fun taken found => ⟨?_, found.2⟩
    rw [found.1, List.length_nil, Nat.zero_add]

theorem keeps_convert (usable : Strict → rules.usable source) :
    Keeps terms (convert target source) fun found => (Strict → rules.usable found) ∧
      ∀ type, Opcode.assign.resultType target source.type = .ok type → found.type = target := by
  unfold convert
  split
  · rename_i none_
    exact keeps_pure ⟨usable, fun type typed => Opcode.type_of_conversion? none_ typed⟩
  · rename_i opcode converts
    refine steady.computing (fun cell fits strict => ?_) fun _ _ fits =>
      keeps_pure ⟨fits.usable, fun _ _ => fits.typed⟩
    exact .convert (by rw [fits.typed]; exact converts) (usable strict) (fits.usable strict)

/-! ### Variables and members -/

theorem keeps_resolveVariable (name : String) (indices : Int) (className : Option String) :
    Keeps terms (resolveVariable name indices className)
      fun var => (var.dimensions.length : Int) = indices ∧ (Strict → var.Sound rules) := by
  have plain : Keeps terms (resolveVariable name indices none)
      fun var => (var.dimensions.length : Int) = indices ∧ (Strict → var.Sound rules) := by
    refine keeps_bind keeps_get fun before kept => ?_
    refine keeps_bind steady.keeps_clearContext fun _ _ => ?_
    split
    · rename_i var resolved
      exact keeps_pure ⟨Scope.Tree.length_of_resolveVariable resolved,
        fun strict => ((steady.sound strict before kept).tree.resolveVariable resolved).2⟩
    · exact keeps_fail
  cases className with
  | none => exact plain
  | some class_ => exact keeps_bind (steady.keeps_setContext _) fun _ _ => plain

/-- The object of a method is known under a name that no field has. -/
theorem keeps_receiver {owner : String} (member : String) (owned : owner ≠ "") :
    Keeps terms (receiver owner member) fun object => Strict → rules.Refers object := by
  refine keeps_bind keeps_get fun before kept => ?_
  split
  · rename_i this found
    split
    · rename_i same
      refine keeps_pure fun strict => ?_
      obtain ⟨name, fits⟩ := (steady.sound strict before kept).tree.resolveVariable found
      refine ⟨fits.typed.trans (fits.refers (by rw [same]; exact owned)), ?_⟩
      rcases fits.usable with usable | ⟨_, different⟩
      · exact usable
      · exact absurd name different
    · exact keeps_fail
  · exact keeps_fail

theorem keeps_foldIndices {offset : Address} {further : List (Int × Address)}
    (fits : rules.Cell Strict .int offset) (all : ∀ index ∈ further, rules.Cell Strict .int index.2) :
    Keeps terms (foldIndices offset further) (rules.Cell Strict .int) := by
  induction further generalizing offset with
  | nil => exact keeps_pure fits
  | cons one further ih =>
    have index := all one List.mem_cons_self
    refine steady.computing (fun _ cell strict => ?_) fun scaled _ cell =>
      steady.computing (fun _ cell' strict => ?_) fun _ _ cell' =>
        ih cell' fun other listed => all other (List.mem_cons_of_mem _ listed)
    · exact .place _ _ (.inr rfl) fits.typed rfl cell.typed (fits.usable strict) (Rules.reads_int _)
        (cell.usable strict)
    · exact .place (.address scaled) _ (.inl rfl) cell.typed index.typed cell'.typed (cell.usable strict)
        (index.usable strict) (cell'.usable strict)

theorem keeps_flatten (array : var.dimensions.length ≠ 0) :
    Keeps terms (flatten var) (rules.Cell Strict .int) := by
  refine keeps_bind (steady.keeps_popValues _) fun taken found => ?_
  simp only
  split
  · exact keeps_fail
  · rename_i ints
    split
    · rename_i none_
      rw [List.map_eq_nil_iff] at none_
      rw [none_] at found
      exact absurd found.1.symm array
    · rename_i first rest same
      have all : ∀ index ∈ first :: rest, rules.Cell Strict .int index := by
        rw [← same]
        intro index listed
        refine ⟨by simpa using List.find?_eq_none.1 ints index listed, fun strict => ?_⟩
        obtain ⟨value, present, rfl⟩ := List.mem_map.1 listed
        exact found.2 strict value present
      exact steady.keeps_foldIndices (all first List.mem_cons_self) fun index listed =>
        all index.2 (List.mem_cons_of_mem _ (List.of_mem_zip listed).2)

theorem keeps_plainEntry (counted : (var.dimensions.length : Int) = indices)
    (fits : Strict → var.Sound rules ∧ rules.usable var.address) :
    Keeps terms (plainEntry var indices) fun entry => Strict → entry.Sound rules := by
  unfold plainEntry
  split
  · exact keeps_pure fun strict => (fits strict).2
  · refine keeps_bind (steady.keeps_flatten (by omega)) fun offset cell => keeps_pure fun strict => ?_
    exact ⟨⟨.inl (fits strict).1.aside, (rules.usable_mark var.address false).2 (fits strict).2⟩,
      (rules.usable_mark offset true).2 (cell.usable strict)⟩

theorem keeps_fieldIndex (counted : (var.dimensions.length : Int) = indices) :
    Keeps terms (fieldIndex var indices) fun index => Strict → rules.Reads index := by
  unfold fieldIndex
  split
  · exact keeps_pure fun _ => Rules.reads_int _
  · refine keeps_bind (steady.keeps_flatten (by omega)) fun offset cell => ?_
    split
    · refine steady.computing (fun _ cell' strict => ?_) fun sum _ cell' =>
        keeps_pure fun strict => (rules.usable_mark sum true).2 (cell'.usable strict)
      exact .place _ _ (.inl rfl) cell.typed rfl cell'.typed (cell.usable strict) (Rules.reads_int _)
        (cell'.usable strict)
    · exact keeps_pure fun strict => (rules.usable_mark offset true).2 (cell.usable strict)

theorem keeps_entryOf (name : String) (indices : Int) {base : Option Address} (className : Option String)
    (refers : Strict → ∀ object, base = some object → rules.Refers object) :
    Keeps terms (entryOf name indices base className) fun entry => Strict → entry.Sound rules := by
  refine keeps_bind (steady.keeps_resolveVariable name indices className) fun var found => ?_
  split
  · rename_i notField
    refine steady.keeps_plainEntry found.1 fun strict => ⟨found.2 strict, ?_⟩
    rcases (found.2 strict).usable with usable | ⟨isField, _⟩
    · exact usable
    · rw [isField] at notField
      cases notField
  · rename_i isField
    have element (object : Address) (refers : Strict → rules.Refers object) : Keeps terms (do
        let index ← fieldIndex var indices
        return Entry.element object index var.type var.className) fun entry => Strict → entry.Sound rules :=
      keeps_bind (steady.keeps_fieldIndex found.1) fun _ reads => keeps_pure fun strict =>
        ⟨⟨.inr (refers strict).isObject, (refers strict).usable⟩, reads strict⟩
    split
    · exact element _ fun strict => refers strict _ rfl
    · have owned : var.owner ≠ "" := by simpa [Variable.isField] using isField
      exact keeps_bind (steady.keeps_receiver _ owned) element

/-! ### Expressions -/

theorem keeps_constant (value : Value) : Survives terms (constant value) := by
  unfold constant
  split
  · exact keeps_fail_bind
  · rename_i literal
    refine steady.computing (fun _ cell strict => ?_) fun _ _ cell => steady.keeps_push _ cell.usable
    exact .load cell.typed.symm (fun object => literal (by simp [object])) (cell.usable strict)

theorem keeps_identifier (name : String) : Survives terms (identifier name) := by
  refine keeps_bind steady.keeps_takeBase fun base refers => ?_
  exact keeps_bind steady.keeps_clearContext fun _ _ => steady.keeps_pushName _ refers

theorem keeps_memberContext (name : String) : Survives terms (memberContext name) := by
  refine keeps_bind steady.keeps_takeBase fun base refers => ?_
  refine keeps_bind (steady.keeps_entryOf name 0 base.2 refers) fun entry fits => ?_
  split
  · exact keeps_fail_bind
  · rename_i isObject
    refine keeps_bind keeps_get fun before _ => ?_
    split
    · exact keeps_fail
    · refine keeps_bind (steady.keeps_valueOf fits) fun pointer cell => ?_
      refine keeps_bind (steady.keeps_pushName _ fun strict => ?_) fun _ _ => steady.keeps_setContext _
      rintro _ ⟨⟩
      exact ⟨cell.typed.trans (Decidable.not_not.1 isObject), cell.usable strict⟩

theorem keeps_forgetContext : Survives terms Generator.clearContext :=
  keeps_modify fun before kept => steady.context _ none (steady.names before _ kept fun strict pending listed =>
    (steady.sound strict before kept).names pending ((List.dropWhile_sublist _).mem listed))

theorem keeps_variableOperand (indices : Int) : Survives terms (variableOperand indices) := by
  refine keeps_bind steady.keeps_popName fun pending refers => ?_
  exact keeps_bind (steady.keeps_entryOf _ indices _ refers) fun entry fits => steady.keeps_push entry fits

theorem keeps_apply (plain : ∀ cell, rules.Cell Strict type cell → Strict →
      rules.Plain ⟨emitted opcode type, left, .address right, .address cell⟩) :
    Survives terms (apply opcode left right type) :=
  steady.computing plain fun _ _ cell => steady.keeps_push _ cell.usable

theorem keeps_binary {left : Address} (binary : opcode.arity = 2) (usable : Strict → rules.usable left)
    (usable' : Strict → rules.usable right) (typed : opcode.resultType left.type right.type = .ok type) :
    Survives terms (apply opcode (.address left) right type) := by
  refine steady.keeps_apply fun cell fits strict => ?_
  obtain ⟨rfl, fresh⟩ := fits
  exact .binary (Opcode.resultType_binary (by rw [binary]; decide) typed) (usable strict) (usable' strict)
    (fresh strict)

theorem keeps_operator (opcode : Opcode) : Survives terms (operator opcode) := by
  unfold operator
  split
  · rename_i unary
    refine keeps_bind steady.keeps_popValue fun operand usable => ?_
    refine keeps_bind keeps_typeOf fun type typed => steady.keeps_apply fun cell fits strict => ?_
    obtain ⟨rfl, fresh⟩ := fits
    exact .unary (Opcode.resultType_unary unary typed) (usable strict) (fresh strict)
  · split
    · rename_i binary
      split
      · exact keeps_fail_bind
      · refine keeps_bind steady.keeps_popValue fun right usable => ?_
        refine keeps_bind steady.keeps_popValue fun left usable' => ?_
        exact keeps_bind keeps_typeOf fun type typed => steady.keeps_binary binary usable' usable typed
    · exact keeps_fail

theorem keeps_compound {target : Entry} (opcode : Opcode) (fits : Strict → target.Sound rules)
    (usable : Strict → rules.usable right) :
    Keeps terms (compound opcode target right) fun value => Strict → rules.usable value := by
  unfold compound
  split
  · exact keeps_fail_bind
  · rename_i binary
    refine keeps_bind (steady.keeps_valueOf fits) fun current cell => ?_
    refine keeps_bind keeps_typeOf fun type typed => ?_
    exact keeps_bind (steady.keeps_binary (Decidable.not_not.1 binary) cell.usable usable typed)
      fun _ _ => steady.keeps_popValue

theorem keeps_assign (opcode : Opcode) : Survives terms (assign opcode) := by
  refine keeps_bind (steady.keeps_popValues 1) fun taken found => ?_
  split
  · cases found.1
  · rename_i right _
    have usable (strict : Strict) := found.2 strict right List.mem_cons_self
    refine keeps_bind steady.keeps_pop fun target fits => ?_
    refine keeps_ite_bind (keeps_pure usable) (steady.keeps_compound opcode fits usable) fun value usable => ?_
    refine keeps_bind keeps_typeOf fun type typed => ?_
    refine keeps_bind (keeps_settle fun _ _ => trivial) fun _ _ => ?_
    refine keeps_bind (steady.keeps_convert usable) fun source converted => ?_
    split
    · exact steady.emitting (fun strict => .storeElement (fits strict).1 (fits strict).2 (converted.1 strict))
        fun _ => keeps_pure trivial
    · exact steady.emitting (fun strict => .store (converted.2 type typed) (converted.1 strict) (fits strict))
        fun _ => keeps_pure trivial

theorem keeps_expressionStatement : Survives terms expressionStatement :=
  keeps_modify fun before kept => steady.operands before _ kept fun strict entry listed =>
    (steady.sound strict before kept).operands entry (List.mem_of_mem_drop listed)

/-! ### Calls and returns -/

theorem keeps_convertArguments (name : String) {pairs : List (Variable × Classed)}
    (usable : Strict → ∀ pair ∈ pairs, rules.usable pair.2.address)
    (typed : Strict → ∀ pair ∈ pairs, pair.1.address.type = pair.1.type) :
    Keeps terms (convertArguments name pairs) fun passed =>
      passed.map Prod.snd = (pairs.map Prod.fst).map Variable.address ∧
      (Strict → ∀ argument ∈ passed, argument.1.type = argument.2.type ∧ rules.usable argument.1) := by
  induction pairs with
  | nil => exact keeps_pure ⟨rfl, fun _ => by simp⟩
  | cons pair rest ih =>
    refine keeps_bind (keeps_settle fun _ fits => bind_eq_ok.1 (mapError_eq_ok.1 fits)) fun _ fits => ?_
    obtain ⟨type, fits, _⟩ := fits
    refine keeps_bind (steady.keeps_convert fun strict => usable strict pair List.mem_cons_self)
      fun converted result => ?_
    refine keeps_bind (ih (fun strict other listed => usable strict other (List.mem_cons_of_mem _ listed))
      fun strict other listed => typed strict other (List.mem_cons_of_mem _ listed)) fun others found => ?_
    refine keeps_pure ⟨by rw [List.map_cons, found.1]; rfl, fun strict argument listed => ?_⟩
    rcases List.mem_cons.1 listed with rfl | listed
    · exact ⟨(result.2 type (mapError_eq_ok.1 fits)).trans (typed strict pair List.mem_cons_self).symm,
        result.1 strict⟩
    · exact found.2 strict argument listed

/-- A call ends abruptly only for want of the object's or the value's cell. -/
theorem keeps_callFunction
    (ready : terms.Abrupt ∨ function.Callable ∧ (object ≠ none → function.arguments ≠ []))
    (calls : Strict → Calls rules callee function object) : Survives terms (callFunction function object) := by
  refine keeps_bind (keeps_formalsOf object (ready.imp_right And.left)) fun formals shape => ?_
  refine keeps_bind keeps_get fun before _ => ?_
  simp only
  split
  · exact keeps_fail_bind
  refine keeps_bind (steady.keeps_popValues _) fun arguments taken => ?_
  split
  · rename_i native
    refine steady.callHost function arguments native fun strict => ?_
    obtain ⟨unowned, hosts⟩ := (calls strict).fits.native native
    rcases shape with ⟨_, same⟩ | ⟨isMethod, _⟩
    · exact ⟨(calls strict).calls, hosts, by rw [taken.1, same], taken.2 strict⟩
    · simp [Function.isMethod, unowned] at isMethod
  rename_i ours
  have ours := Bool.eq_false_iff.2 ours
  have declared : ∀ formal ∈ formals, formal ∈ function.arguments := by
    rcases shape with ⟨_, same⟩ | ⟨_, this, found⟩
    · rw [same]
      exact fun _ listed => listed
    · rw [found]
      exact fun _ listed => List.mem_cons_of_mem _ listed
  refine keeps_bind (steady.keeps_convertArguments function.name
    (fun strict pair listed => taken.2 strict pair.2 (List.of_mem_zip listed).2)
    fun strict pair listed =>
      ((calls strict).fits.arguments pair.1 (declared _ (List.of_mem_zip listed).1)).1) fun passed found => ?_
  rw [List.map_fst_zip (Nat.le_of_eq taken.1.symm)] at found
  rw [← passing_bind]
  refine keeps_bind (steady.call function object passed ours (ready.imp_right And.right) fun strict =>
    ⟨(calls strict).calls, (calls strict).passes shape found.1 (found.2 strict)⟩) fun _ _ => ?_
  split
  · rename_i valued
    refine keeps_bind (steady.keeps_temp _) fun destination cell => ?_
    split
    · rename_i none_
      rcases ready with allowed | callable
      · exact keeps_crash allowed
      · exact absurd none_ (callable.1.result (by simpa using valued) ours)
    · rename_i result known
      refine steady.emitting (fun strict => ?_) fun _ => steady.keeps_push _ cell.usable
      obtain ⟨sameType, usable⟩ := (calls strict).fits.result result known
      exact .store (sameType.trans cell.typed.symm) usable (cell.usable strict)
  · exact keeps_pure trivial

/-- A return can end abruptly: it does not ask whether the function has a cell for its value. -/
theorem keeps_returnValue (allowed : terms.Abrupt) : Survives terms returnValue := by
  have returns (name : String) : Survives terms (do
      let _ ← Generator.emit { opcode := .ret, left := .name name }) :=
    steady.emitting (fun _ => .ret name) fun _ => keeps_pure trivial
  refine keeps_bind keeps_get fun before kept => ?_
  simp only
  split
  · exact keeps_fail
  · rename_i function current
    split
    · split
      · exact keeps_fail_bind
      · exact returns _
    · refine keeps_bind steady.keeps_popValue fun value usable => ?_
      split
      · exact keeps_fail_bind
      split
      · exact keeps_fail_bind
      rename_i sameType
      split
      · exact keeps_crash allowed
      · rename_i result found
        refine steady.emitting (fun strict => ?_) fun _ => returns _
        obtain ⟨opened, _, known⟩ := Option.bind_eq_some_iff.1 current
        obtain ⟨typed, usable'⟩ :=
          ((steady.sound strict before kept).tree.functions opened.id function known).result result found
        exact .store ((Decidable.not_not.1 sameType).trans typed.symm) (usable strict) usable'

theorem keeps_closeFunction
    (leaves : Survives terms (do
      let _ ← onTree Scope.Tree.closeFunction
      setTree fun tree => { tree with memory := tree.memory.resetLocals })) :
    Survives terms closeFunction := by
  refine keeps_bind keeps_get fun before _ => ?_
  split
  · exact keeps_fail
  · simp only
    split
    · exact keeps_fail_bind
    split
    · exact steady.emitting (fun _ => .ret _) fun _ => leaves
    · exact leaves

theorem keeps_conditionalJump
    (waits : ∀ condition, Survives terms (do
      pushPending (← Generator.emit { opcode := .gotoFalse, left := .address condition }))) :
    Survives terms conditionalJump := by
  refine keeps_bind steady.keeps_popValue fun condition _ => ?_
  split
  · exact waits condition
  · exact waits condition
  · exact waits condition
  · exact keeps_fail

end Steady

/-! ### Work that is not bound by rules -/

/-- A property of the state that no expression and no call can touch. -/
theorem steady_untouched
    (emit : ∀ before instr, terms.holds before →
      terms.holds { before with buffer := before.buffer.emit instr })
    (temp : ∀ before type reference address memory, terms.holds before →
      before.tree.memory.allocate .temps type 1 reference = .ok (address, memory) →
      terms.holds { before with tree := { before.tree with memory } })
    (context : ∀ before context, terms.holds before →
      terms.holds { before with tree := { before.tree with context } })
    (entries : ∀ before operands names, terms.holds before → terms.holds { before with operands, names })
    (functions : terms.Abrupt ∨ ∀ before name id, terms.holds before →
      before.tree.resolveFunction name = .ok id →
      ∃ function, before.tree.function? id = some function ∧ function.Callable)
    (constructors : terms.Abrupt ∨ ∀ before name class_ constructor, terms.holds before →
      before.tree.class? name = some class_ →
      class_.constructor.bind before.tree.function? = some constructor →
      constructor.Callable ∧ constructor.arguments ≠ []) : Steady terms False (.lax {}) none none := by
  have emits (instr : Instruction) : Survives terms (Generator.emit instr) :=
    keeps_bind keeps_get fun _ _ => keeps_bind (keeps_modify fun before => emit before instr) fun _ _ =>
      keeps_pure trivial
  have emitting (instr : Instruction) : Survives terms (do let _ ← Generator.emit instr) :=
    keeps_bind (emits instr) fun _ _ => keeps_pure trivial
  refine ⟨False.elim, fun before instr kept _ => emit before instr kept, temp, context,
    fun before operands kept _ => entries before operands before.names kept,
    fun before names kept _ => entries before before.operands names kept,
    fun function object passed _ ready _ => ?_, fun function arguments _ _ => ?_, functions, constructors⟩
  · have receives : Survives terms (passReceiver function object) := by
      unfold passReceiver
      split
      · exact keeps_pure trivial
      · split
        · rename_i none_
          rcases ready with allowed | callable
          · exact keeps_crash allowed
          · exact absurd none_ (callable (Option.some_ne_none _))
        · exact emitting _
    refine keeps_bind (emits _) fun _ _ => keeps_bind receives fun _ _ => ?_
    refine keeps_bind (keeps_forIn fun argument _ => ?_) fun _ _ => emitting _
    exact keeps_bind (emitting _) fun _ _ => keeps_pure trivial
  · have allocates : Survives terms (Generator.temp function.returns) :=
      allocating fun before address memory kept allocated =>
        ⟨trivial, temp before _ _ address memory kept allocated⟩
    refine keeps_bind (keeps_forIn fun argument _ => emitting _) fun _ _ => ?_
    split
    · exact emitting _
    · exact keeps_bind allocates fun _ _ => keeps_bind (emits _) fun _ _ =>
        keeps_modify fun before => entries before _ before.names

namespace Steady

variable (steady : Steady terms False rules callee made)
include steady

theorem keeps_resolveFunction (name : String) (className : Option String) :
    Keeps terms (resolveFunction name className) fun function => terms.Abrupt ∨ function.Callable := by
  have plain : Keeps terms (resolveFunction name none) fun function => terms.Abrupt ∨ function.Callable := by
    refine keeps_bind keeps_get fun before kept => ?_
    refine keeps_bind steady.keeps_clearContext fun _ _ => ?_
    split
    · exact keeps_fail
    · rename_i id resolved
      rcases steady.functions with allowed | callable
      · split
        · exact keeps_pure (.inl allowed)
        · exact keeps_crash allowed
      · obtain ⟨function, present, ready⟩ := callable before name id kept resolved
        rw [present]
        exact keeps_pure (.inr ready)
  cases className with
  | none => exact plain
  | some class_ => exact keeps_bind (steady.keeps_setContext _) fun _ _ => plain

theorem keeps_call : Survives terms Generator.call := by
  refine keeps_bind steady.keeps_popName fun pending _ => ?_
  refine keeps_bind (steady.keeps_resolveFunction _ _) fun function ready => ?_
  split
  · rename_i method
    have called (object : Address) : Survives terms (callFunction function (some object)) :=
      steady.keeps_callFunction (ready.imp_right fun callable =>
        ⟨callable, fun _ => callable.receiver method⟩) False.elim
    split
    · exact called _
    · exact keeps_bind (steady.keeps_receiver _ (bne_iff_ne.1 method)) fun this _ => called this
  · exact steady.keeps_callFunction (ready.imp_right fun callable =>
      ⟨callable, fun some_ => absurd rfl some_⟩) False.elim

theorem keeps_newObject : Survives terms newObject := by
  refine keeps_bind steady.keeps_popName fun pending _ => ?_
  refine keeps_bind keeps_get fun before kept => ?_
  simp only
  split
  · exact keeps_fail
  · rename_i class_ found
    refine keeps_bind (steady.keeps_allocateTemp .object true) fun pointer _ => ?_
    refine steady.emitting False.elim fun _ => ?_
    split
    · rename_i constructor isConstructor
      have ready := steady.constructors.imp_right fun callable =>
        callable before pending.name class_ constructor kept (Scope.Tree.getClass_eq_ok found)
          isConstructor
      refine keeps_bind (steady.keeps_callFunction
        (ready.imp_right fun callable => ⟨callable.1, fun _ => callable.2⟩) False.elim) fun _ _ => ?_
      split
      · exact keeps_bind steady.keeps_pop fun _ _ => steady.keeps_push _ False.elim
      · exact steady.keeps_push _ False.elim
    · exact steady.keeps_push _ False.elim

theorem keeps_exit : Survives terms exit := by
  refine keeps_bind keeps_get fun before _ => ?_
  simp only
  split
  · exact keeps_fail_bind
  split
  · exact keeps_fail_bind
  · exact steady.emitting False.elim fun _ => keeps_pure trivial

end Steady

end Generator

end Quadruple
