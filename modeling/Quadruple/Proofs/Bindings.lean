import Quadruple.Proofs.Emission
import Quadruple.Proofs.Scopes

/-!
What names stand for while a program is declared. The cell of a variable is of the variable's type, a
function has a cell of the right type for each argument and for its value, a method's first argument
is its object, and the fields of a class follow each other. Declarations keep all this.
-/

namespace Quadruple

variable {reference : Bool}

theorem Memory.has_of_allocate {capacities : Capacities} {memory after : Memory} {area : Area}
    {type : DataType} {size : Int} {address : Address}
    (sized : memory.sizes = (ofCapacities capacities).sizes)
    (allocated : memory.allocate area type size reference = .ok (address, after)) :
    (ofCapacities capacities).Has address ∧ address.type = type ∧
      after.sizes = (ofCapacities capacities).sizes := by
  obtain ⟨arena, found, room, rfl, rfl⟩ := allocate_eq_ok.1 allocated
  have known : memory.sizes area type = some arena.capacity := by
    rw [sizes, found]
    rfl
  refine ⟨has_iff.2 ⟨arena.capacity, ?_, ?_⟩, rfl, ?_⟩
  · rw [← sized]
    exact known
  · have small : (UInt32.ofNat arena.cursor).toNat ≤ arena.cursor := Nat.mod_le _ _
    have given : 1 ≤ if size < 1 then 1 else size.toNat := by
      split <;> omega
    simp only
    omega
  · exact Eq.trans (sizes_setArena found (by rfl)) sized

namespace Scope

/-- A variable has cells of its type. A field has a place inside objects instead. -/
structure Variable.Sound (var : Variable) (rules : Rules) : Prop where
  typed : var.address.type = var.type
  refers : var.className ≠ "" → var.type = .object
  scalar : var.type = .object → var.dimensions = []
  aside : var.address.area ≠ .temps
  room : var.address.area = .stack ∨ ∃ capacity,
    (Memory.ofCapacities rules.capacities).sizes var.address.area var.type = some capacity ∧
    var.address.offset.toNat +
      (if var.size.toInt < 1 then 1 else var.size.toInt.toNat) ≤ capacity
  usable : rules.usable var.address ∨
    var.isField = true ∧ var.name ≠ receiverName

theorem Variable.sound_of_allocate {rules : Rules} {memory after : Memory} {area : Area}
    {address : Address} (sized : memory.sizes = (Memory.ofCapacities rules.capacities).sizes)
    (fresh : Variable) (refers : fresh.className ≠ "" → fresh.type = .object)
    (scalar : fresh.type = .object → fresh.dimensions = []) (aside : area ≠ .temps)
    (given : memory.allocate area fresh.type fresh.size.toInt reference = .ok (address, after)) :
    ({ fresh with address } : Variable).Sound rules := by
  obtain ⟨has, type, _⟩ := Memory.has_of_allocate sized given
  obtain ⟨rfl, ⟨capacity, size, room⟩, _⟩ := Memory.allocate_cells given
  refine ⟨type, refers, scalar, aside, .inr ⟨capacity, ?_, ?_⟩, .inl (rules.usable_of_has _ has)⟩
  · rw [← sized]
    exact size
  · exact Nat.le_trans (Nat.add_le_add_right (Nat.mod_le _ _) _) room

/-- A function has cells for its arguments and its value, and a method gets its object first. -/
structure Function.Sound (function : Function) (rules : Rules) : Prop where
  arguments : ∀ argument ∈ function.arguments,
    argument.address.type = argument.type ∧ rules.usable argument.address
  result : ∀ cell, function.result = some cell →
    cell.type = function.returns ∧ rules.usable cell
  native : function.native = true →
    function.owner = "" ∧ rules.hosts function.name function.returns
  method : function.isMethod = true → ∃ this others, function.arguments = this :: others ∧
    this.name = receiverName ∧ this.type = .object

def total (fields : List Variable) : Int64 :=
  fields.foldl (fun cells field => cells + field.size) 0

theorem total_append (fields : List Variable) (field : Variable) :
    total (fields ++ [field]) = total fields + field.size := by
  simp only [total, List.foldl_append, List.foldl_cons, List.foldl_nil]

/-- Each field of a class has cells, and starts where the one before it ends. -/
structure Class.Laid (class_ : Class) : Prop where
  cells : class_.cells = total class_.fields
  slots : ∀ front field back, class_.fields = front ++ field :: back → field.slot = total front
  extents : ∀ field ∈ class_.fields, ∀ extent ∈ field.dimensions, 1 ≤ extent

variable {class_ : Class}

theorem Class.Laid.grow (laid : class_.Laid) (field : Variable)
    (slot : field.slot = class_.cells) (extents : ∀ extent ∈ field.dimensions, 1 ≤ extent) :
    Class.Laid { class_ with
      cells := class_.cells + field.size
      fields := class_.fields ++ [field] } where
  cells := by
    rw [total_append, laid.cells]
  slots := by
    intro front other back same
    rcases List.eq_nil_or_concat back with rfl | ⟨inner, last, rfl⟩
    · obtain ⟨rfl, ⟨⟩⟩ := List.append_inj' same rfl
      exact slot.trans laid.cells
    · rw [List.concat_eq_append, ← List.cons_append, ← List.append_assoc] at same
      exact laid.slots front other inner (List.append_inj' same rfl).1
  extents := List.forall_mem_append.2 ⟨laid.extents, List.forall_mem_singleton.2 extents⟩

namespace Tree

variable {type : DataType} {dimensions : List Int} {id : FunctionId}

structure Sound (tree : Tree) (rules : Rules) : Prop where
  sizes : tree.memory.sizes = (Memory.ofCapacities rules.capacities).sizes
  bound : ∀ (scope : ScopeId) (node : Node), tree.nodes[scope]? = some node → ∀ name var,
    (name, Alias.variable var) ∈ node.aliases → var.name = name ∧ var.Sound rules
  functions : ∀ (id : FunctionId) (function : Function), tree.functions[id]? = some function →
    function.Sound rules
  constructors : ∀ class_ ∈ tree.classes, ∀ id, class_.constructor = some id →
    ∃ function : Function, tree.functions[id]? = some function ∧ function.owner = class_.name
  named : ∀ class_ ∈ tree.classes, rules.Loose ∨ class_.name ≠ ""
  laid : ∀ class_ ∈ tree.classes, class_.Laid

variable {rules : Rules} {tree after : Tree} {name : String} {var : Variable}

theorem sound_ofMemory (rules : Rules) :
    (ofMemory (.ofCapacities rules.capacities)).Sound rules where
  sizes := rfl
  bound := by
    intro scope node found name var listed
    simp only [ofMemory, Array.getElem?_singleton] at found
    split at found
    · cases found
      cases listed
    · cases found
  functions := by
    intro id function found
    simp [ofMemory] at found
  constructors := nofun
  named := nofun
  laid := nofun

variable {alias_ : Alias}

/-- Whether a scope is another one or lies inside it. -/
inductive Inside (tree : Tree) (outer : ScopeId) : ScopeId → Prop where
  | here : Inside tree outer outer
  | child {scope around : ScopeId} (parent : tree.parent scope = some around)
      (inside : Inside tree outer around) : Inside tree outer scope

/-- A scope in which a name is found is one around the scope from which it is searched. -/
theorem search_eq_some {scope : ScopeId} (found : tree.search scope name = some alias_) :
    ∃ outer, tree.Inside outer scope ∧ tree.lookup outer name = some alias_ := by
  fun_induction Tree.search tree scope name with
  | case1 scope other here =>
    cases found
    exact ⟨scope, .here, here⟩
  | case2 | case4 => cases found
  | case3 scope _ around parent _ ih =>
    obtain ⟨outer, inside, here⟩ := ih found
    exact ⟨outer, .child parent inside, here⟩

theorem lookup_of_resolve (found : tree.resolve name = .ok alias_) :
    ∃ scope, tree.lookup scope name = some alias_ := by
  unfold resolve at found
  split at found
  · split at found
    · rename_i here
      cases found
      exact ⟨_, here⟩
    · cases found
  · split at found
    · rename_i sought
      cases found
      obtain ⟨outer, _, here⟩ := search_eq_some sought
      exact ⟨outer, here⟩
    · cases found

theorem mem_setClass {changed class_ : Class} (listed : class_ ∈ (tree.setClass changed).classes) :
    class_ = changed ∨ class_ ∈ tree.classes := by
  obtain ⟨before, here, is⟩ := List.mem_map.1 listed
  split at is
  · exact .inl is.symm
  · exact .inr (is ▸ here)

namespace Sound

variable {scope : ScopeId}

theorem of_same (sound : tree.Sound rules) (sizes : after.memory.sizes = tree.memory.sizes)
    (nodes : after.nodes = tree.nodes) (functions : after.functions = tree.functions)
    (classes : after.classes = tree.classes) : after.Sound rules where
  sizes := sizes.trans sound.sizes
  bound := by
    rw [nodes]
    exact sound.bound
  functions := by
    rw [functions]
    exact sound.functions
  constructors := by
    rw [functions, classes]
    exact sound.constructors
  named := by
    rw [classes]
    exact sound.named
  laid := by
    rw [classes]
    exact sound.laid

/-! ### Looking names up -/

theorem lookup (sound : tree.Sound rules) (found : tree.lookup scope name = some (.variable var)) :
    var.name = name ∧ var.Sound rules := by
  obtain ⟨node, here, listed⟩ := Option.bind_eq_some_iff.1 found
  obtain ⟨front, back, split, _⟩ := List.lookup_eq_some_iff.1 listed
  refine sound.bound scope node here name var ?_
  rw [split]
  exact List.mem_append_right _ List.mem_cons_self

theorem resolveVariable (sound : tree.Sound rules) {indices : Int}
    (found : tree.resolveVariable name indices = .ok var) :
    var.name = name ∧ var.Sound rules := by
  obtain ⟨alias_, resolved, named⟩ := bind_eq_ok.1 found
  split at named
  · split at named
    · cases named
      obtain ⟨_, here⟩ := lookup_of_resolve resolved
      exact sound.lookup here
    · cases named
  · cases named
  · cases named

/-! ### Changes -/

section

variable (sound : tree.Sound rules)
include sound

theorem bind (fits : ∀ var, alias_ = .variable var → var.name = name ∧ var.Sound rules) :
    (tree.bind name alias_).Sound rules :=
  { sound with
    bound := by
      intro scope node found other var listed
      rw [getElem?_bind] at found
      split at found
      · obtain ⟨former, here, rfl⟩ := Option.map_eq_some_iff.1 found
        rcases List.mem_cons.1 listed with same | listed
        · cases same
          exact fits var rfl
        · exact sound.bound scope former here other var listed
      · exact sound.bound scope node found other var listed }

theorem push : tree.push.Sound rules :=
  { sound with
    bound := by
      intro scope node found other var listed
      simp only [Tree.push, Array.getElem?_push] at found
      split at found
      · cases found
        cases listed
      · exact sound.bound scope node found other var listed }

variable {id : FunctionId} {change : Function → Function}

theorem setFunction (fits : ∀ function, tree.functions[id]? = some function →
      (change function).Sound rules ∧ (change function).owner = function.owner) :
    (tree.setFunction id change).Sound rules :=
  { sound with
    functions := by
      intro other function found
      simp only [Tree.setFunction, Array.getElem?_modify] at found
      split at found
      · rename_i same
        obtain ⟨former, here, rfl⟩ := Option.map_eq_some_iff.1 found
        rw [← same] at here
        exact (fits former here).1
      · exact sound.functions other function found
    constructors := by
      intro class_ listed other isConstructor
      obtain ⟨function, found, owner⟩ := sound.constructors class_ listed other isConstructor
      simp only [Tree.setFunction, Array.getElem?_modify]
      split
      · rename_i same
        rw [found, Option.map_some]
        rw [← same] at found
        exact ⟨_, rfl, (fits function found).2.trans owner⟩
      · exact ⟨function, found, owner⟩ }

theorem record {function : Function} (fits : function.Sound rules) :
    ({ tree with functions := tree.functions.push function } : Tree).Sound rules :=
  { sound with
    functions := by
      intro id other found
      simp only [Array.getElem?_push] at found
      split at found
      · cases found
        exact fits
      · exact sound.functions id other found
    constructors := by
      intro class_ listed id isConstructor
      obtain ⟨other, found, owner⟩ := sound.constructors class_ listed id isConstructor
      have inside := (Array.getElem?_eq_some_iff.1 found).1
      refine ⟨other, ?_, owner⟩
      simp only [Array.getElem?_push, if_neg (Nat.ne_of_lt inside)]
      exact found }

theorem setClass {changed former : Class} (listed : former ∈ tree.classes) (name : changed.name = former.name)
    (laid : changed.Laid)
    (isOwner : ∀ id, changed.constructor = some id → ∃ function : Function,
      tree.functions[id]? = some function ∧ function.owner = changed.name) :
    (tree.setClass changed).Sound rules :=
  { sound with
    constructors := by
      intro class_ present id isConstructor
      rcases mem_setClass present with rfl | old
      · exact isOwner id isConstructor
      · exact sound.constructors class_ old id isConstructor
    named := by
      intro class_ present
      rcases mem_setClass present with rfl | old
      · rw [name]
        exact sound.named former listed
      · exact sound.named class_ old
    laid := by
      intro class_ present
      rcases mem_setClass present with rfl | old
      · exact laid
      · exact sound.laid class_ old }

end

end Sound

theorem name_of_class? (found : tree.class? name = some class_) : class_.name = name := by
  simpa using List.find?_some found

theorem class?_of_memberClass? (member : tree.memberClass? = some class_) :
    tree.class? class_.name = some class_ := by
  unfold memberClass? at member
  split at member
  · cases member
  · split at member
    · rename_i current
      obtain ⟨name, _, found⟩ := Option.bind_eq_some_iff.1 current
      split at member
      · cases member
        rw [name_of_class? found]
        exact found
      · cases member
    · cases member

theorem mem_of_memberClass? (member : tree.memberClass? = some class_) : class_ ∈ tree.classes :=
  List.mem_of_find?_eq_some (class?_of_memberClass? member)

theorem memberClass?_of_openFunction {function : OpenFunction}
    (opened : tree.openFunction = some function) : tree.memberClass? = none := by
  simp only [memberClass?, opened, Option.isSome_some, if_true]

theorem storage_ne_temps (tree : Tree) : tree.storage ≠ .temps := by
  unfold storage
  split <;> exact nofun

section

variable {type : DataType} {dimensions : List Int} {class_ : String}

/-- A variable that has no place yet: only an object is of a class, and only others are arrays. -/
structure Declarable (fresh : Variable) : Prop where
  stored : fresh.type.isStored = true
  refers : fresh.className ≠ "" → fresh.type = .object
  scalar : fresh.type = .object → fresh.dimensions = []
  extents : ∀ extent ∈ fresh.dimensions, 1 ≤ extent

/-- A variable gets its place, under a name that is new to the scope. -/
def Places (tree : Tree) (name : String) (var : Variable) (after : Tree) : Prop :=
  ∃ fresh reference, fresh.name = name ∧ Declarable fresh ∧ tree.isDeclared fresh.name = false ∧
    tree.place fresh reference = .ok (var, after)

/-- A variable is declared, perhaps as an argument of the open function. -/
def Declares (tree : Tree) (name : String) (var : Variable) (after : Tree) : Prop :=
  tree.Places name var after ∨ ∃ function between, tree.openFunction = some function ∧
    tree.Places name var between ∧ after = between.addArgument function.id var

theorem places_variable (declared : tree.declareVariable name type dimensions = .ok (var, after)) :
    tree.Places name var after := by
  obtain ⟨stored, notObject, extents, isNew, placed⟩ := declareVariable_eq_ok declared
  exact ⟨_, _, rfl, ⟨stored, fun classed => absurd rfl classed,
    fun object => absurd object notObject, extents⟩, isNew, placed⟩

theorem places_object (declared : tree.declareObject name class_ = .ok (var, after)) :
    tree.Places name var after := by
  obtain ⟨isNew, placed⟩ := declareObject_eq_ok declared
  exact ⟨_, _, rfl, ⟨rfl, fun _ => rfl, fun _ => rfl, by intro _ listed; cases listed⟩, isNew, placed⟩

theorem declares_argument (declared : tree.declareArgument name type dimensions = .ok (var, after)) :
    tree.memberClass? = none ∧ tree.Declares name var after := by
  obtain ⟨function, between, opened, made, rfl⟩ := asArgument_eq_ok declared
  exact ⟨memberClass?_of_openFunction opened, .inr ⟨function, between, opened, places_variable made, rfl⟩⟩

theorem declares_objectArgument (declared : tree.declareObjectArgument name class_ = .ok (var, after)) :
    tree.memberClass? = none ∧ tree.Declares name var after := by
  obtain ⟨function, between, opened, made, rfl⟩ := asArgument_eq_ok declared
  exact ⟨memberClass?_of_openFunction opened, .inr ⟨function, between, opened, places_object made, rfl⟩⟩

end

namespace Sound

/-- A new variable gets a cell of its type; only a field gets none. -/
theorem place (sound : tree.Sound rules) {fresh : Variable} (fits : Declarable fresh)
    (admitted : tree.memberClass? = none ∨ rules.Loose ∨ fresh.name ≠ receiverName)
    (placed : tree.place fresh reference = .ok (var, after)) :
    after.Sound rules ∧ var.address.type = var.type ∧
      (tree.memberClass? = none → rules.usable var.address) := by
  rcases place_eq_ok placed with ⟨class_, member, rfl, rfl⟩ | ⟨outside, address, memory, given, rfl, rfl⟩
  · have listed := mem_of_memberClass? member
    have grown := (sound.laid class_ listed).grow
      { fresh with
        owner := class_.name
        slot := class_.cells
        address := ⟨.stack, fresh.type, false, class_.cells.toUInt64.toUInt32⟩ } rfl fits.extents
    refine ⟨(sound.setClass listed (by rfl) grown (sound.constructors class_ listed)).bind ?_, rfl,
      fun outside => ?_⟩
    · rintro _ ⟨⟩
      refine ⟨rfl, rfl, fits.refers, fits.scalar, nofun, .inl rfl, ?_⟩
      rcases sound.named class_ listed with loose | named
      · exact .inl (loose _ rfl fits.stored)
      · rcases admitted with outside | loose | different
        · rw [member] at outside
          cases outside
        · exact .inl (loose _ rfl fits.stored)
        · exact .inr ⟨bne_iff_ne.2 named, different⟩
    · rw [member] at outside
      cases outside
  · obtain ⟨has, type, sizes⟩ := Memory.has_of_allocate sound.sizes given
    have kept : ({ tree with memory } : Tree).Sound rules :=
      sound.of_same (sizes.trans sound.sizes.symm) rfl rfl rfl
    refine ⟨kept.bind ?_, type, fun _ => rules.usable_of_has _ has⟩
    rintro _ ⟨⟩
    exact ⟨rfl, fresh.sound_of_allocate sound.sizes fits.refers fits.scalar tree.storage_ne_temps given⟩

/-! ### Declarations -/

section

variable (sound : tree.Sound rules)
include sound

theorem addArgument (typed : var.address.type = var.type)
    (usable : rules.usable var.address) : (tree.addArgument id var).Sound rules := by
  refine sound.setFunction fun function found => ⟨?_, rfl⟩
  have fits := sound.functions id function found
  constructor
  case arguments =>
    exact List.forall_mem_append.2 ⟨fits.arguments, List.forall_mem_singleton.2 ⟨typed, usable⟩⟩
  case result => exact fits.result
  case native => exact fits.native
  case method =>
    intro isMethod
    obtain ⟨this, others, same, receives⟩ := fits.method isMethod
    exact ⟨this, others ++ [var], by rw [same]; rfl, receives⟩

theorem declare (admitted : tree.memberClass? = none ∨ rules.Loose ∨ name ≠ receiverName)
    (declares : tree.Declares name var after) : after.Sound rules := by
  rcases declares with ⟨fresh, reference, rfl, fits, _, placed⟩ |
    ⟨function, between, opened, ⟨fresh, reference, rfl, fits, _, placed⟩, rfl⟩
  · exact (sound.place fits admitted placed).1
  · obtain ⟨kept, typed, usable⟩ := sound.place fits admitted placed
    exact kept.addArgument typed (usable (memberClass?_of_openFunction opened))

/-- A body is opened for a function that is complete. -/
theorem openBody {function : Function} (fits : function.Sound rules)
    (owner : ∀ class_, tree.memberClass? = some class_ → function.owner = class_.name) :
    (tree.openBody function).2.Sound rules := by
  have recorded := sound.record fits
  unfold Tree.openBody
  cases member : tree.memberClass? with
  | none => exact (recorded.bind (by rintro _ ⟨⟩)).push.of_same rfl rfl rfl rfl
  | some class_ =>
    have listed := mem_of_memberClass? member
    have joined : (Tree.addMethod { tree with functions := tree.functions.push function } class_
        tree.functions.size function.name).Sound rules := by
      refine recorded.setClass listed (by rfl) ⟨(sound.laid class_ listed).cells,
        (sound.laid class_ listed).slots, (sound.laid class_ listed).extents⟩ ?_
      intro id isConstructor
      split at isConstructor
      · cases isConstructor
        exact ⟨function, Array.getElem?_push_size, owner class_ member⟩
      · exact recorded.constructors class_ listed id isConstructor
    exact (joined.bind (by rintro _ ⟨⟩)).push.of_same rfl rfl rfl rfl

end

end Sound

theorem openBody_setFunction (tree : Tree) (function : Function) (change : Function → Function)
    (named : (change function).name = function.name) :
    (tree.openBody function).2.setFunction tree.functions.size change =
      (tree.openBody (change function)).2 := by
  have pushed : (tree.functions.push function).modify tree.functions.size change =
      tree.functions.push (change function) := by
    refine Array.ext_getElem? fun index => ?_
    simp only [Array.getElem?_modify, Array.getElem?_push]
    by_cases last : index = tree.functions.size
    · simp [last]
    · simp [last, Ne.symm last]
  unfold openBody
  rw [named]
  cases tree.memberClass? with
  | none => simp only [setFunction, Tree.bind, Tree.push, pushed]
  | some class_ => simp only [setFunction, Tree.bind, Tree.push, addMethod, setClass, pushed]

theorem openBody_addArgument (function : Function) (memory : Memory) (name : String)
    (argument : Variable) :
    ({ (tree.openBody function).2 with memory }.bind name (.variable argument)).addArgument
        tree.functions.size argument =
      (({ tree with memory } : Tree).openBody
        { function with arguments := function.arguments ++ [argument] }).2.bind name
          (.variable argument) := by
  have member : ({ tree with memory } : Tree).memberClass? = tree.memberClass? := rfl
  rw [← openBody_setFunction { tree with memory } function
    (fun function => { function with arguments := function.arguments ++ [argument] }) rfl]
  unfold openBody
  rw [member]
  cases tree.memberClass? <;> rfl

theorem functions_openBody (tree : Tree) (function : Function) :
    (tree.openBody function).2.functions = tree.functions.push function := by
  obtain ⟨classes, same⟩ := tree.openBody_eq function
  rw [same]

namespace Sound

variable {returns : DataType} {start : Int}

theorem allocateResult (sound : tree.Sound rules) {result : Option Address}
    (allocated : tree.allocateResult name returns start = .ok (result, after)) :
    after.Sound rules ∧ after.functions = tree.functions ∧ after.memberClass? = tree.memberClass? ∧
      ∀ cell, result = some cell → cell.type = returns ∧ rules.usable cell := by
  rcases allocateResult_eq_ok allocated with ⟨rfl, rfl⟩ | ⟨address, memory, rfl, given, rfl⟩
  · exact ⟨sound, rfl, rfl, nofun⟩
  · obtain ⟨has, type, sizes⟩ := Memory.has_of_allocate sound.sizes given
    refine ⟨sound.of_same (sizes.trans sound.sizes.symm) rfl rfl rfl, rfl, rfl, ?_⟩
    rintro _ ⟨⟩
    exact ⟨type, rules.usable_of_has _ has⟩

/-- A new function is complete once its object, if it needs one, has a cell. -/
theorem declareFunction (sound : tree.Sound rules)
    (declared : tree.declareFunction name returns start = (.ok id, after)) :
    after.Sound rules ∧ id = tree.functions.size ∧ ∃ function : Function,
      after.functions = tree.functions.push function ∧ function.name = name ∧
      function.returns = returns ∧ function.start = start ∧ function.native = false ∧
      (tree.memberClass? = none → function.owner = "") := by
  obtain ⟨result, allocated, owner, found, rfl, rest⟩ := declareFunction_eq_ok declared
  obtain ⟨kept, functions, member, fits⟩ := sound.allocateResult found
  rcases rest with ⟨outside, rfl, rfl⟩ | ⟨class_, this, inside, rfl, argued⟩
  · refine ⟨kept.openBody ⟨fun _ => nofun, fits, nofun, nofun⟩ ?_, by rw [functions], _,
      by rw [functions_openBody, functions], rfl, rfl, rfl, rfl, fun _ => rfl⟩
    intro class_ isMember
    rw [member, outside] at isMember
    cases isMember
  · obtain ⟨opened, between, isOpen, placed, rfl⟩ := asArgument_eq_ok argued
    have outside := memberClass?_of_openFunction isOpen
    rcases place_eq_ok (declareObject_eq_ok placed).2 with ⟨_, isMember, _⟩ |
      ⟨_, address, memory, given, rfl, rfl⟩
    · rw [outside] at isMember
      cases isMember
    · obtain ⟨classes, same⟩ := allocated.openBody_eq
        ⟨name, returns, result, start, [], false, class_.name⟩
      rw [same] at isOpen given
      cases isOpen
      obtain ⟨has, type, sizes⟩ := Memory.has_of_allocate kept.sizes given
      have roomy : ({ allocated with memory } : Tree).Sound rules :=
        kept.of_same (sizes.trans kept.sizes.symm) rfl rfl rfl
      rw [openBody_addArgument]
      refine ⟨(roomy.openBody ⟨?_, fits, ?_, ?_⟩ ?_).bind ?_,
        by rw [functions], _, (functions_openBody _ _).trans (by rw [functions]), rfl, rfl, rfl, rfl,
        fun outside => ?_⟩
      · intro argument listed
        cases List.mem_singleton.1 listed
        exact ⟨type, rules.usable_of_has _ has⟩
      · intro native
        cases native
      · exact fun _ => ⟨_, [], rfl, rfl, rfl⟩
      · intro other isMember
        have same : tree.memberClass? = some other := member.symm.trans isMember
        rw [inside] at same
        cases same
        rfl
      · rintro _ ⟨⟩
        exact ⟨rfl, Variable.sound_of_allocate kept.sizes ⟨receiverName, .object, .origin, [], class_.name,
          "", 0⟩ (fun _ => rfl) (fun _ => rfl) (storage_ne_temps _) given⟩
      · rw [inside] at outside
        cases outside

theorem declareClass (sound : tree.Sound rules) (admitted : rules.Loose ∨ name ≠ "")
    (declared : tree.declareClass name = .ok after) : after.Sound rules := by
  obtain ⟨_, _, _, rfl⟩ := declareClass_eq_ok declared
  have inside : (tree.bind name (.class name)).push.Sound rules :=
    (sound.bind (by rintro _ ⟨⟩)).push
  constructor
  case sizes => exact inside.sizes
  case bound => exact inside.bound
  case functions => exact inside.functions
  case constructors =>
    refine List.forall_mem_append.2 ⟨sound.constructors, List.forall_mem_singleton.2 ?_⟩
    intro id isConstructor
    cases isConstructor
  case named => exact List.forall_mem_append.2 ⟨sound.named, List.forall_mem_singleton.2 admitted⟩
  case laid =>
    refine List.forall_mem_append.2 ⟨sound.laid, List.forall_mem_singleton.2 ?_⟩
    exact ⟨rfl, fun front field back same => by simp at same, fun _ listed => (nomatch listed)⟩

end Sound

/-! ### Where bodies start -/

def Starts (tree : Tree) (start : Int) : Prop :=
  ∃ (id : FunctionId) (function : Function), tree.functions[id]? = some function ∧
    function.native = false ∧ function.start = start

variable {start : Int}

theorem starts_setFunction
    (keeps : ∀ function, (change function).start = function.start ∧
      ((change function).native = false → function.native = false))
    (starts : (tree.setFunction id change).Starts start) : tree.Starts start := by
  obtain ⟨other, function, found, ours, rfl⟩ := starts
  simp only [setFunction, Array.getElem?_modify] at found
  split at found
  · obtain ⟨former, here, rfl⟩ := Option.map_eq_some_iff.1 found
    exact ⟨other, former, here, (keeps former).2 ours, (keeps former).1.symm⟩
  · exact ⟨other, function, found, ours, rfl⟩

theorem functions_place {fresh : Variable}
    (placed : tree.place fresh reference = .ok (var, after)) :
    after.functions = tree.functions := by
  rcases place_eq_ok placed with ⟨class_, _, _, rfl⟩ | ⟨_, address, memory, _, _, rfl⟩ <;> rfl

theorem Declares.starts (declares : tree.Declares name var after) (starts : after.Starts start) :
    tree.Starts start := by
  rcases declares with ⟨_, _, _, _, _, placed⟩ | ⟨_, between, _, ⟨_, _, _, _, _, placed⟩, rfl⟩
  · rwa [Starts, functions_place placed] at starts
  · rw [Starts, ← functions_place placed]
    refine starts_setFunction ?_ starts
    exact fun _ => ⟨rfl, fun ours => ours⟩

end Tree

end Scope

end Quadruple
