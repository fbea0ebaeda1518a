import Quadruple.Proofs.Expressions
import Quadruple.Proofs.ScopeTrees

/-!
Operations of a compilation that end abruptly. Every function that is declared provides the cells that
calls of it reach for: a method its object's, since the cells of functions are free whenever a method is
declared, and a function of the program one for its value. All this survives operations that fail. What
is left is the return with a value from a function of the host, which has no cell for it.
-/

namespace Quadruple

/-! ### Cells of functions that are free -/

theorem Arena.capacity_pos (requested : Nat) : 0 < (ofCapacity requested).capacity := by
  unfold ofCapacity
  simp only [Bool.or_eq_true, decide_eq_true_eq]
  split
  · decide
  · omega

namespace Memory

variable {memory after : Memory} {area other : Area} {type : DataType} {size : Int} {reference : Bool}
  {address : Address}

section

variable (allocated : memory.allocate area type size reference = .ok (address, after))
include allocated

theorem sizes_allocate : after.sizes = memory.sizes :=
  (allocate_cells allocated).2.2.1

theorem cursor_allocate (apart : other ≠ area) (type' : DataType) :
    after.cursor other type' = memory.cursor other type' := by
  rw [(allocate_cells allocated).2.2.2, if_neg fun same => apart same.1]

end

theorem exists_allocate {capacity : Nat} (has : memory.sizes area type = some capacity)
    (room : memory.cursor area type < capacity) (reference : Bool) :
    ∃ address after, memory.allocate area type 1 reference = .ok (address, after) := by
  obtain ⟨arena, found, rfl⟩ := Option.map_eq_some_iff.1 has
  rw [cursor, found, Option.map_some, Option.getD_some] at room
  exact ⟨_, _, allocate_eq_ok.2 ⟨arena, found, room, rfl, rfl⟩⟩

end Memory

namespace Scope

/-- Whether a function has the cells that calls of it and returns from it reach for: a method one for its
object, and a function with a value one for the value unless the host computes it. -/
structure Function.Complete (function : Function) : Prop where
  receiver : function.isMethod = true → function.arguments ≠ []
  result : function.isVoid = false → (function.result = none ↔ function.native = true)
  start : function.native = false → 0 ≤ function.start

theorem Function.Complete.callable {function : Function} (complete : function.Complete) :
    function.Callable where
  receiver := complete.receiver
  result := by
    intro valued ours none_
    rw [(complete.result valued).1 none_] at ours
    cases ours

namespace Tree

variable {tree after : Tree} {name : String} {var : Variable} {function : Function} {class_ : Class}
  {id : FunctionId} {returns : DataType} {start : Int} {result : Option Address}

/-- Every function is complete, the one that sets up a class's objects takes an object, and the cells of
functions are free while none is open. -/
structure Provided (tree : Tree) : Prop where
  complete : ∀ (id : FunctionId) (function : Function), tree.functions[id]? = some function →
    function.Complete
  constructors : ∀ class_ ∈ tree.classes, ∀ id, class_.constructor = some id →
    ∃ function : Function, tree.functions[id]? = some function ∧ function.arguments ≠ []
  room : ∃ capacity, tree.memory.sizes .locals .object = some capacity ∧ 0 < capacity
  free : tree.openFunction = none → tree.memory.cursor .locals .object = 0

theorem provided_ofMemory (capacities : Capacities) :
    (ofMemory (.ofCapacities capacities)).Provided where
  complete := fun id function found => by simp [ofMemory] at found
  constructors := nofun
  room := by
    exact ⟨_, rfl, Arena.capacity_pos capacities.locals⟩
  free := fun _ => rfl

namespace Provided

variable {reference : Bool}

section

variable (provided : tree.Provided)
include provided

/-- What has been provided stays so if functions stay and classes keep their constructors. -/
theorem still (functions : after.functions = tree.functions)
    (classes : ∀ class_ ∈ after.classes, ∀ id, class_.constructor = some id →
      ∃ former ∈ tree.classes, former.constructor = some id)
    (sizes : after.memory.sizes = tree.memory.sizes)
    (free : after.openFunction = none → after.memory.cursor .locals .object = 0) :
    after.Provided where
  complete := by
    rw [functions]
    exact provided.complete
  constructors := by
    intro class_ listed id isConstructor
    obtain ⟨former, here, same⟩ := classes class_ listed id isConstructor
    rw [functions]
    exact provided.constructors former here id same
  room := by
    rw [sizes]
    exact provided.room
  free := free

theorem of_same (functions : after.functions = tree.functions)
    (classes : after.classes = tree.classes) (sizes : after.memory.sizes = tree.memory.sizes)
    (free : after.openFunction = none → after.memory.cursor .locals .object = 0) :
    after.Provided :=
  provided.still functions (fun class_ listed _ same => ⟨class_, classes ▸ listed, same⟩) sizes free

theorem allocate {area : Area} {type : DataType} {size : Int} {address : Address} {memory : Memory}
    (apart : tree.openFunction = none → area ≠ .locals)
    (allocated : tree.memory.allocate area type size reference = .ok (address, memory)) :
    ({ tree with memory } : Tree).Provided := by
  refine provided.of_same rfl rfl (Memory.sizes_allocate allocated) fun closed => ?_
  rw [Memory.cursor_allocate allocated (apart closed).symm]
  exact provided.free closed

theorem bind (alias_ : Alias) : (tree.bind name alias_).Provided :=
  provided.of_same rfl rfl rfl provided.free

end

theorem storage_of_closed (closed : tree.openFunction = none) : tree.storage = .global := by
  simp [storage, closed]

theorem place (provided : tree.Provided) {fresh : Variable}
    (placed : tree.place fresh reference = .ok (var, after)) : after.Provided := by
  rcases place_eq_ok placed with ⟨class_, member, rfl, rfl⟩ | ⟨_, address, memory, given, rfl, rfl⟩
  · refine provided.still rfl (fun changed present id same => ?_) rfl provided.free
    rcases mem_setClass present with rfl | old
    · exact ⟨class_, mem_of_memberClass? member, same⟩
    · exact ⟨changed, old, same⟩
  · have roomy := provided.allocate (fun closed => ?_) given
    · exact roomy.bind _
    · rw [storage_of_closed closed]
      exact nofun

theorem addArgument (provided : tree.Provided) (id : FunctionId) (argument : Variable) :
    (tree.addArgument id argument).Provided where
  complete := by
    intro other function found
    simp only [Tree.addArgument, setFunction, Array.getElem?_modify] at found
    split at found
    · obtain ⟨former, here, rfl⟩ := Option.map_eq_some_iff.1 found
      have complete := provided.complete other former here
      exact ⟨fun _ => by simp, complete.result, complete.start⟩
    · exact provided.complete other function found
  constructors := by
    intro class_ listed other isConstructor
    obtain ⟨function, found, takes⟩ := provided.constructors class_ listed other isConstructor
    simp only [Tree.addArgument, setFunction, Array.getElem?_modify]
    split
    · exact ⟨_, by rw [found, Option.map_some], by simp⟩
    · exact ⟨function, found, takes⟩
  room := provided.room
  free := provided.free

theorem declare (provided : tree.Provided) (declares : tree.Declares name var after) : after.Provided := by
  rcases declares with ⟨_, _, _, _, _, placed⟩ | ⟨_, between, _, ⟨_, _, _, _, _, placed⟩, rfl⟩
  · exact provided.place placed
  · exact (provided.place placed).addArgument _ _

end Provided

/-- A class has the constructor that it had, or the new function if that is a member. -/
theorem constructor_openBody (listed : class_ ∈ (tree.openBody function).2.classes)
    (isConstructor : class_.constructor = some id) :
    (∃ former ∈ tree.classes, former.constructor = some id) ∨
      id = tree.functions.size ∧ tree.memberClass? ≠ none := by
  unfold openBody at listed
  cases member : tree.memberClass? with
  | none =>
    rw [member] at listed
    exact .inl ⟨class_, listed, isConstructor⟩
  | some owner =>
    rw [member] at listed
    rcases mem_setClass listed with rfl | old
    · simp only at isConstructor
      split at isConstructor
      · cases isConstructor
        exact .inr ⟨rfl, Option.some_ne_none _⟩
      · exact .inl ⟨owner, mem_of_memberClass? member, isConstructor⟩
    · exact .inl ⟨class_, old, isConstructor⟩

namespace Provided

theorem openBody (provided : tree.Provided) {memory : Memory}
    (sizes : memory.sizes = tree.memory.sizes) {function : Function} (complete : function.Complete)
    (receives : tree.memberClass? = none ∨ function.arguments ≠ []) :
    (({ tree with memory } : Tree).openBody function).2.Provided := by
  have functions := functions_openBody { tree with memory } function
  have opened : (({ tree with memory } : Tree).openBody function).2.memory = memory ∧
      (({ tree with memory } : Tree).openBody function).2.openFunction ≠ none := by
    obtain ⟨classes, same⟩ := openBody_eq { tree with memory } function
    rw [same]
    exact ⟨rfl, Option.some_ne_none _⟩
  refine ⟨fun id other found => ?_, fun class_ listed id isConstructor => ?_, ?_, fun closed => ?_⟩
  · rw [functions, Array.getElem?_push] at found
    split at found
    · cases found
      exact complete
    · exact provided.complete id other found
  · rw [functions]
    rcases constructor_openBody listed isConstructor with ⟨former, here, same⟩ | ⟨rfl, member⟩
    · obtain ⟨other, found, takes⟩ := provided.constructors former here id same
      have inside := (Array.getElem?_eq_some_iff.1 found).1
      exact ⟨other, by rw [Array.getElem?_push, if_neg (Nat.ne_of_lt inside), found], takes⟩
    · exact ⟨function, Array.getElem?_push_size, receives.resolve_left member⟩
  · rw [opened.1, sizes]
    exact provided.room
  · exact absurd closed opened.2

end Provided

/-! ### Declaring functions -/

theorem allocateResult_of_neg (host : start < 0) :
    tree.allocateResult name returns start = .ok (none, tree) := by
  unfold allocateResult
  rw [if_neg (by simp only [Bool.and_eq_true, decide_eq_true_eq]; omega)]

theorem result_of_allocateResult (ours : 0 ≤ start)
    (allocated : tree.allocateResult name returns start = .ok (result, after)) (valued : returns ≠ .void) :
    result ≠ none := by
  unfold allocateResult at allocated
  rw [if_pos (by simp [valued, ours])] at allocated
  split at allocated
  · cases allocated
  · cases allocated
    exact Option.some_ne_none _

theorem class?_openBody (member : tree.memberClass? = some class_) :
    ((tree.openBody function).2.class? class_.name).isSome = true := by
  unfold openBody
  rw [member]
  refine List.find?_isSome.2 ⟨_, List.mem_map.2 ⟨class_, mem_of_memberClass? member, rfl⟩, ?_⟩
  simp

theorem isDeclared_openBody (tree : Tree) (function : Function) (name : String) :
    (tree.openBody function).2.isDeclared name = false := by
  obtain ⟨classes, same⟩ := tree.openBody_eq function
  have nodes : (tree.openBody function).2.nodes =
      (tree.bind function.name (.function tree.functions.size)).push.nodes := by
    rw [same]
    rfl
  have empty : (tree.openBody function).2.lookup tree.nodes.size name = none := by
    rw [lookup_of_nodes nodes, lookup_push, lookup_of_le (Nat.le_of_eq (size_bind ..))]
  rw [isDeclared, Option.isSome_eq_false_iff, Option.isNone_iff_eq_none]
  rw [same] at empty ⊢
  exact empty

/-- The object of a method that is declared finds a cell. -/
theorem Provided.exists_receiver (provided : tree.Provided) (closed : tree.openFunction = none)
    (member : tree.memberClass? = some class_) (function : Function) :
    ∃ this address memory, tree.memory.allocate .locals .object 1 true = .ok (address, memory) ∧
      (tree.openBody function).2.declareObjectArgument receiverName class_.name =
        .ok (this, (({ tree with memory } : Tree).openBody
          { function with arguments := function.arguments ++ [this] }).2.bind receiverName
            (.variable this)) := by
  obtain ⟨capacity, has, positive⟩ := provided.room
  obtain ⟨address, memory, given⟩ :=
    Memory.exists_allocate has (by rw [provided.free closed]; exact positive) true
  obtain ⟨classes, same⟩ := tree.openBody_eq function
  have opens : (tree.openBody function).2.openFunction =
      some ⟨tree.functions.size, tree.nodes.size⟩ := by rw [same]
  have cells : (tree.openBody function).2.memory = tree.memory := by rw [same]
  have known : ((tree.openBody function).2.class? class_.name).isSome = true := class?_openBody member
  obtain ⟨found, present⟩ := Option.isSome_iff_exists.1 known
  have stored : (tree.openBody function).2.storage = .locals := by simp [storage, opens]
  have declared : (tree.openBody function).2.declareObject receiverName class_.name =
      .ok (⟨receiverName, .object, address, [], class_.name, "", 0⟩,
        { (tree.openBody function).2 with memory }.bind receiverName
          (.variable ⟨receiverName, .object, address, [], class_.name, "", 0⟩)) := by
    unfold declareObject
    rw [present]
    simp only [isDeclared_openBody, Bool.false_eq_true, if_false]
    have one : (extent []).toInt = 1 := rfl
    simp only [Tree.place, memberClass?_of_openFunction opens, stored, cells, Variable.size, one, given]
  refine ⟨⟨receiverName, .object, address, [], class_.name, "", 0⟩, address, memory, given, ?_⟩
  rw [declareObjectArgument, asArgument, opens]
  rw [declared]
  exact congrArg _ (congrArg _ (openBody_addArgument function memory receiverName _))

theorem complete_new {arguments : List Variable} {owner : String} (ours : 0 ≤ start)
    (valued : returns ≠ .void → result ≠ none) (receives : owner ≠ "" → arguments ≠ []) :
    Function.Complete ⟨name, returns, result, start, arguments, false, owner⟩ where
  receiver := fun method => receives (bne_iff_ne.1 method)
  result := fun isValued =>
    ⟨fun none_ => absurd none_ (valued (of_decide_eq_false isValued)), nofun⟩
  start := fun _ => ours

theorem Provided.allocateResult (provided : tree.Provided) (closed : tree.openFunction = none)
    (allocated : tree.allocateResult name returns start = .ok (result, after)) :
    after.Provided ∧ after.openFunction = none ∧ after.memberClass? = tree.memberClass? := by
  rcases allocateResult_eq_ok allocated with ⟨_, rfl⟩ | ⟨address, memory, _, given, rfl⟩
  · exact ⟨provided, closed, rfl⟩
  · refine ⟨provided.allocate (fun _ => ?_) given, closed, rfl⟩
    rw [storage_of_closed closed]
    exact nofun

theorem Provided.declareFunction (provided : tree.Provided) (rooted : tree.Rooted) (name : String)
    (returns : DataType) (ours : 0 ≤ start) : (tree.declareFunction name returns start).2.Provided := by
  unfold Tree.declareFunction
  split
  · exact provided
  rename_i none_
  have closed := rooted.closed none_
  split
  · exact provided
  split
  · exact provided
  split
  · exact provided
  rename_i result allocated found
  obtain ⟨kept, outside, sameMember⟩ := provided.allocateResult closed found
  have valued := result_of_allocateResult ours found
  cases member : tree.memberClass? with
  | none =>
    simp only [Option.map_none, Option.getD_none, Option.isSome_none, Bool.false_eq_true, if_false]
    exact kept.openBody rfl (complete_new ours valued fun method => absurd rfl method)
      (.inl (sameMember.trans member))
  | some class_ =>
    simp only [Option.map_some, Option.getD_some, Option.isSome_some, if_true]
    have isMember := sameMember.trans member
    obtain ⟨this, address, memory, given, argued⟩ := kept.exists_receiver outside isMember
      ⟨name, returns, result, start, [], false, class_.name⟩
    rw [argued]
    exact (kept.openBody (Memory.sizes_allocate given)
      (complete_new ours valued fun _ => List.cons_ne_nil _ _) (.inr (List.cons_ne_nil _ _))).bind _

theorem memberClass?_of_currentClass? (outside : tree.currentClass? = none) :
    tree.memberClass? = none := by
  unfold memberClass?
  rw [outside]
  split <;> rfl

section

variable (provided : tree.Provided)
include provided

theorem Provided.declareHost (name : String) (returns : DataType)
    (outside : tree.currentClass? = none) :
    (∃ cause, tree.declareFunction name returns (-1) = (.error cause, tree)) ∨
      ∃ id after, tree.declareFunction name returns (-1) = (.ok id, after) ∧
        (after.setFunction id fun function => { function with native := true }).Provided := by
  have noMember := memberClass?_of_currentClass? outside
  unfold Tree.declareFunction
  split
  · exact .inl ⟨_, rfl⟩
  split
  · exact .inl ⟨_, rfl⟩
  split
  · exact .inl ⟨_, rfl⟩
  rw [allocateResult_of_neg (by decide), noMember]
  simp only [Option.map_none, Option.getD_none, Option.isSome_none, Bool.false_eq_true, if_false]
  refine .inr ⟨_, _, rfl, ?_⟩
  have changed := tree.openBody_setFunction ⟨name, returns, none, -1, [], false, ""⟩
    (fun function => { function with native := true }) rfl
  have complete : Function.Complete ⟨name, returns, none, -1, [], true, ""⟩ :=
    ⟨fun method => absurd rfl (bne_iff_ne.1 method), fun _ => ⟨fun _ => rfl, fun _ => rfl⟩,
      nofun⟩
  exact (congrArg Provided changed).mpr (provided.openBody rfl complete (.inl noMember))

theorem Provided.closeFunction (closes : tree.closeFunction = .ok (id, after)) :
    ({ after with memory := after.memory.resetLocals } : Tree).Provided := by
  obtain ⟨_, _, rfl⟩ := closeFunction_eq_ok closes
  exact provided.of_same rfl rfl (Memory.sizes_resetLocals _) fun _ => rfl

theorem Provided.declareClass (declared : tree.declareClass name = .ok after) : after.Provided := by
  obtain ⟨_, _, _, rfl⟩ := declareClass_eq_ok declared
  refine provided.still rfl (fun class_ listed id isConstructor => ?_) rfl provided.free
  rcases List.mem_append.1 listed with old | new
  · exact ⟨class_, old, isConstructor⟩
  · cases List.mem_singleton.1 new
    cases isConstructor

theorem Provided.closeClass (closes : tree.closeClass = .ok after) : after.Provided := by
  obtain ⟨_, _, _, rfl⟩ := closeClass_eq_ok closes
  exact provided.of_same rfl rfl rfl provided.free

theorem Provided.pop : tree.pop.Provided := by
  obtain ⟨current, same⟩ := tree.pop_eq
  rw [same]
  exact provided.of_same rfl rfl rfl provided.free

end

/-- A tree whose scopes are in place and whose functions are complete. -/
structure Intact (tree : Tree) : Prop extends Rooted tree, Provided tree

theorem Intact.change (intact : tree.Intact) (change : tree.Change after) (provided : after.Provided) :
    after.Intact :=
  ⟨intact.toRooted.change change, provided⟩

theorem Intact.context (intact : tree.Intact) (context : Option String) :
    ({ tree with context } : Tree).Intact :=
  intact.change (.keep rfl rfl rfl rfl (retains_same rfl))
    (intact.toProvided.of_same rfl rfl rfl intact.free)

/-! ### What calls find -/

theorem Intact.resolveFunction (intact : tree.Intact) (found : tree.resolveFunction name = .ok id) :
    ∃ function, tree.function? id = some function ∧ function.Callable := by
  obtain ⟨alias_, resolved, named⟩ := bind_eq_ok.1 found
  split at named
  · cases named
    obtain ⟨scope, here⟩ := lookup_of_resolve resolved
    have inside := intact.functions scope name id here
    have present := Array.getElem?_eq_getElem inside
    exact ⟨_, present, (intact.complete id _ present).callable⟩
  · cases named
  · cases named

theorem Intact.constructor_callable (intact : tree.Intact) (found : tree.class? name = some class_)
    (isConstructor : class_.constructor.bind tree.function? = some function) :
    function.Callable ∧ function.arguments ≠ [] := by
  obtain ⟨id, same, present⟩ := Option.bind_eq_some_iff.1 isConstructor
  obtain ⟨other, here, takes⟩ :=
    intact.constructors class_ (List.mem_of_find?_eq_some found) id same
  cases here.symm.trans present
  exact ⟨(intact.complete id function present).callable, takes⟩

end Tree

end Scope

/-! ### Operations of a compilation -/

namespace Generator

open Event (Command)

variable {α : Type} {generator : Generator}

theorem steady_intact {abrupt : Prop} :
    Steady (.keeping (fun generator => generator.tree.Intact) abrupt) False (.lax {}) none none := by
  refine steady_untouched (fun _ _ intact => intact) ?_ (fun _ context intact => intact.context context)
    (fun _ _ _ intact => intact) (.inr fun _ _ _ intact found => intact.resolveFunction found)
    (.inr fun _ _ _ _ intact found isConstructor => intact.constructor_callable found isConstructor)
  intro before type reference address memory intact allocated
  refine intact.change (.keep rfl rfl rfl rfl (Scope.Tree.retains_same rfl))
    (intact.toProvided.allocate (fun _ => ?_) allocated)
  exact nofun

def Safe {α : Type} (action : Action α) : Prop :=
  Survives (.keeping (fun generator => generator.tree.Intact) False) action

theorem safe_onTree {operation : Scope.Tree → Except Scope.Error (α × Scope.Tree)}
    (performs : ∀ tree value after, operation tree = .ok (value, after) → tree.Intact →
      tree.Change after ∧ after.Provided) :
    Safe (onTree operation) := by
  refine keeps_onTree fun before value tree intact performed => ?_
  obtain ⟨change, provided⟩ := performs before.tree value tree performed intact
  exact ⟨trivial, intact.change change provided⟩

theorem safe_declares {name : String}
    {operation : Scope.Tree → Except Scope.Error (Scope.Variable × Scope.Tree)}
    (declares : ∀ tree var after, operation tree = .ok (var, after) → tree.Declares name var after) :
    Safe (onTree operation) :=
  safe_onTree fun tree var after done intact =>
    ⟨(declares tree var after done).change, intact.toProvided.declare (declares tree var after done)⟩

theorem safe_declareVariable (name : String) (type : DataType) (dimensions : List Int) :
    Safe (declareVariable name type dimensions) :=
  keeps_bind (safe_declares fun _ _ _ declared => .inl (Scope.Tree.places_variable declared))
    fun _ _ => keeps_pure trivial

theorem safe_declareObject (name class_ : String) : Safe (declareObject name class_) :=
  keeps_bind (safe_declares fun _ _ _ declared => .inl (Scope.Tree.places_object declared))
    fun _ _ => keeps_pure trivial

theorem safe_declareArgument (name : String) (type : DataType) (dimensions : List Int) :
    Safe (declareArgument name type dimensions) :=
  keeps_declareArgument (safe_declares fun _ _ _ declared => (Scope.Tree.declares_argument declared).2)

theorem safe_declareObjectArgument (name class_ : String) :
    Safe (declareObjectArgument name class_) :=
  keeps_bind (safe_declares fun _ _ _ declared => (Scope.Tree.declares_objectArgument declared).2)
    fun _ _ => keeps_pure trivial

theorem safe_declareFunction (name : String) (returns : DataType) :
    Safe (declareFunction name returns) := by
  refine keeps_bind keeps_get fun before _ => ?_
  refine keeps_bind (keeps_openFunction fun _ intact => ?_)
    fun _ _ => keeps_pure trivial
  exact ⟨intact.toRooted.changes
      (Scope.Tree.changes_declareFunction intact.toRooted (Nat.zero_le _) name returns _),
    intact.toProvided.declareFunction intact.toRooted name returns (Int.natCast_nonneg _)⟩

theorem safe_declareNative (name : String) (returns : DataType) :
    Safe (declareNative name returns) := by
  intro before intact
  unfold declareNative
  rw [run_get_bind]
  split
  · exact ⟨nofun, intact⟩
  rename_i outside
  rw [run_bind, run_openFunction]
  have changes := Scope.Tree.changes_declareFunction intact.toRooted (Nat.zero_le _) name returns (-1)
  rcases intact.toProvided.declareHost name returns outside with
    ⟨cause, declared⟩ | ⟨id, after, declared, provided⟩
  · rw [declared]
    exact ⟨nofun, intact⟩
  · rw [declared] at changes ⊢
    have rooted : (after.setFunction id fun function => { function with native := true }).Rooted :=
      (intact.toRooted.changes changes).change
        (.keep rfl rfl rfl Array.size_modify (Scope.Tree.retains_same rfl))
    exact ⟨trivial, rooted, provided⟩

theorem safe_closeFunction : Safe closeFunction := by
  refine steady_intact.keeps_closeFunction fun before intact => ?_
  rw [run_bind, run_onTree]
  cases closes : before.tree.closeFunction with
  | error => exact ⟨nofun, intact⟩
  | ok closed =>
    have rooted : ({ closed.2 with memory := closed.2.memory.resetLocals } : Scope.Tree).Rooted :=
      (intact.toRooted.change (Scope.Tree.change_closeFunction closes)).change
        (.keep rfl rfl rfl rfl (Scope.Tree.retains_same rfl))
    exact ⟨trivial, rooted, intact.toProvided.closeFunction closes⟩

theorem safe_declareClass (name : String) : Safe (declareClass name) := by
  refine safe_onTree fun tree _ after declared intact => ?_
  obtain ⟨_, opened, ⟨⟩⟩ := map_eq_ok.1 declared
  exact ⟨Scope.Tree.change_declareClass opened, intact.toProvided.declareClass opened⟩

theorem safe_closeClass : Safe closeClass := by
  refine safe_onTree fun tree _ after closes intact => ?_
  obtain ⟨_, closed, ⟨⟩⟩ := map_eq_ok.1 closes
  exact ⟨Scope.Tree.change_closeClass intact.toRooted closed, intact.toProvided.closeClass closed⟩

theorem safe_pushScope : Safe pushScope :=
  keeps_modify fun _ intact => intact.change (.push rfl rfl rfl rfl (Scope.Tree.retains_same rfl))
    (intact.toProvided.of_same rfl rfl rfl intact.free)

theorem safe_popScope : Safe popScope :=
  keeps_modify fun _ intact => ⟨intact.toRooted.pop, intact.toProvided.pop⟩

/-! ### Jumps -/

theorem safe_onBuffer (operation : CodeBuffer → Except Code.Error Unit × CodeBuffer) :
    Safe (onBuffer operation) :=
  keeps_onBuffer fun _ intact => intact

theorem safe_waiting (jump : Instruction) : Safe (do pushPending (← emit jump)) :=
  keeps_bind (steady_intact.keeps_emit False.elim) fun _ _ => keeps_modify fun _ intact => intact

theorem safe_loopJump (depth : Int) : Safe (loopJump depth) := by
  refine keeps_bind keeps_get fun before _ => ?_
  split
  · exact keeps_fail
  · refine keeps_bind (keeps_modify fun _ intact => intact) fun _ _ => ?_
    exact steady_intact.emitting False.elim fun _ => keeps_pure trivial

theorem safe_start : Safe start := by
  refine keeps_bind keeps_get fun before _ => ?_
  simp only
  split
  · exact keeps_fail_bind
  split
  · exact keeps_fail_bind
  refine keeps_bind (keeps_modify fun _ intact => intact) fun _ _ => ?_
  refine keeps_bind (safe_onBuffer _) fun _ _ => ?_
  exact steady_intact.emitting False.elim fun _ => keeps_pure trivial

theorem safe_perform {command : Command} (other : command ≠ .returnValue) :
    Safe command.perform := by
  cases command with
  | constant value => exact steady_intact.keeps_constant value
  | identifier name => exact steady_intact.keeps_identifier name
  | member name => exact steady_intact.keeps_memberContext name
  | clearContext => exact steady_intact.keeps_forgetContext
  | «variable» indices => exact steady_intact.keeps_variableOperand indices
  | call => exact steady_intact.keeps_call
  | operator opcode => exact steady_intact.keeps_operator opcode
  | assign opcode => exact steady_intact.keeps_assign opcode
  | expression => exact steady_intact.keeps_expressionStatement
  | declareVariable => exact safe_declareVariable _ _ _
  | declareObject => exact safe_declareObject _ _
  | declareArgument => exact safe_declareArgument _ _ _
  | declareObjectArgument => exact safe_declareObjectArgument _ _
  | declareFunction => exact safe_declareFunction _ _
  | declareNative => exact safe_declareNative _ _
  | closeFunction => exact safe_closeFunction
  | declareClass => exact safe_declareClass _
  | closeClass => exact safe_closeClass
  | newObject => exact steady_intact.keeps_newObject
  | returnValue => exact absurd rfl other
  | pushScope => exact safe_pushScope
  | popScope => exact safe_popScope
  | pushDelimiter => exact keeps_modify fun _ intact => intact
  | patchPending => exact safe_onBuffer CodeBuffer.patchPending
  | conditionalJump => exact steady_intact.keeps_conditionalJump fun _ => safe_waiting _
  | jump => exact safe_waiting _
  | patchJump depth => exact safe_onBuffer fun buffer => buffer.patchOne depth
  | loopStart => exact keeps_bind keeps_get fun _ _ => keeps_modify fun _ intact => intact
  | loopJump => exact safe_loopJump _
  | start => exact safe_start
  | exit => exact steady_intact.keeps_exit

theorem safe_declareStandardNatives : Safe declareStandardNatives :=
  keeps_declareStandardNatives safe_declareNative (fun name type => safe_declareArgument name type [])
    safe_closeFunction

theorem intact_ofCapacities (capacities : Capacities) : (ofCapacities capacities).tree.Intact :=
  ⟨Scope.Tree.rooted_ofMemory _, Scope.Tree.provided_ofMemory capacities⟩

theorem intact_fresh (capacities : Capacities) (natives : Bool) :
    (fresh capacities natives).tree.Intact := by
  unfold fresh
  split
  · exact Keeps.after safe_declareStandardNatives (intact_ofCapacities capacities)
  · exact intact_ofCapacities capacities

theorem intact_attempt (generator : Generator) (command : Command)
    (intact : generator.tree.Intact) : (generator.attempt command.perform).2.tree.Intact := by
  by_cases returns : command = .returnValue
  · rw [returns]
    exact (steady_intact.keeps_returnValue fun _ intact => ⟨fun _ => trivial, intact⟩).after intact
  · exact (safe_perform returns).after intact

/-! ### Returns with a value from functions of the host -/

/-- Whether a return would leave a value of the right type, but the function that is open is one of the
host. -/
def ReturnsFromHost (generator : Generator) : Prop :=
  ∃ function value after, generator.tree.currentFunction? = some function ∧ function.native = true ∧
    function.isVoid = false ∧ Gives popValue generator value after ∧ value.type = function.returns

section

variable (intact : generator.tree.Intact)
include intact

theorem complete_current {function : Scope.Function}
    (current : generator.tree.currentFunction? = some function) : function.Complete := by
  obtain ⟨opened, _, found⟩ := Option.bind_eq_some_iff.1 current
  exact intact.complete opened.id function found

theorem popValue_ne_crash {after : Generator} :
    popValue.run.run generator ≠ (.error .crash, after) := by
  intro crashes
  exact steady_intact.keeps_popValue.ne_crash intact id (congrArg Prod.fst crashes)

theorem crash_returnValue_iff :
    (generator.attempt returnValue).1 = .error .crash ↔ generator.ReturnsFromHost := by
  unfold attempt returnValue
  rw [run_get_bind]
  constructor
  · -- Only one of the ends is abrupt, and what leads there is what is asked for.
    intro crashes
    split at crashes
    · cases crashes
    rename_i function current
    split at crashes
    · simp only at crashes
      split at crashes <;> cases crashes
    rw [run_bind] at crashes
    split at crashes
    · rename_i value after gives
      simp only at crashes
      split at crashes
      · cases crashes
      rename_i valued
      split at crashes
      · cases crashes
      rename_i typed
      split at crashes
      · rename_i none_
        have complete := complete_current intact current
        have valued := Bool.eq_false_iff.2 valued
        exact ⟨function, value, after, current, (complete.result valued).1 none_, valued, gives,
          Decidable.not_not.1 typed⟩
      · cases crashes
    · rename_i failure after fails
      cases crashes
      exact absurd fails (popValue_ne_crash intact)
  · rintro ⟨function, value, after, current, native, valued, gives, typed⟩
    have none_ := ((complete_current intact current).result valued).2 native
    obtain ⟨entry, _, popped, _⟩ := gives_bind.1 gives
    obtain ⟨operands, some_, _⟩ := gives_pop.1 popped
    rw [current]
    simp only [some_, List.isEmpty_cons, Bool.false_eq_true, if_false]
    rw [run_bind, gives]
    simp only [valued, typed, none_]
    rw [if_neg Bool.false_ne_true, if_neg fun different => different rfl]
    rfl

theorem crash_attempt_iff (command : Command) :
    (generator.attempt command.perform).1 = .error .crash ↔
      command = .returnValue ∧ generator.ReturnsFromHost := by
  by_cases returns : command = .returnValue
  · subst returns
    rw [and_iff_right rfl]
    exact crash_returnValue_iff intact
  · constructor
    · intro crashes
      exact absurd crashes (Keeps.ne_crash (safe_perform returns) intact id)
    · exact fun both => absurd both.1 returns

end

end Generator

theorem Event.crash_deliver_iff (event : Event) (generator : Generator) :
    (event.deliver generator).1 = .error .crash ↔
      ∃ command, event.command = .ok command ∧
        (generator.attempt command.perform).1 = .error .crash := by
  unfold deliver
  cases event.command with
  | error cause => simp
  | ok command =>
    simp only [Except.ok.injEq, exists_eq_left']
    cases generator.attempt command.perform with
    | mk outcome after =>
      cases outcome with
      | ok => simp
      | error failure => cases failure <;> simp

namespace Generator

open Event (Command)

/-- Whatever commands a compilation has seen, failed ones included, its scopes are in place and its
functions complete. So the next command ends abruptly only if it is a return with a value from a
function of the host, and likewise for an event; declaring the functions of every host never does. -/
theorem crash_iff_returnsFromHost (capacities : Capacities) (natives : Bool)
    (commands : List Command) :
    ((fresh capacities natives).after commands).tree.Intact ∧
      (∀ command : Command,
        (((fresh capacities natives).after commands).attempt command.perform).1 = .error .crash ↔
          command = .returnValue ∧ ((fresh capacities natives).after commands).ReturnsFromHost) ∧
      (∀ event : Event,
        (event.deliver ((fresh capacities natives).after commands)).1 = .error .crash ↔
          event.command = .ok .returnValue ∧
            ((fresh capacities natives).after commands).ReturnsFromHost) ∧
      ((ofCapacities capacities).attempt declareStandardNatives).1 ≠ .error .crash := by
  have intact : ((fresh capacities natives).after commands).tree.Intact :=
    holds_after _ commands (intact_fresh capacities natives) intact_attempt
  refine ⟨intact, crash_attempt_iff intact, fun event => ?_, ?_⟩
  · rw [event.crash_deliver_iff]
    constructor
    · rintro ⟨command, reads, crashes⟩
      obtain ⟨rfl, returns⟩ := (crash_attempt_iff intact command).1 crashes
      exact ⟨reads, returns⟩
    · rintro ⟨reads, returns⟩
      exact ⟨_, reads, (crash_attempt_iff intact _).2 ⟨rfl, returns⟩⟩
  · exact Keeps.ne_crash safe_declareStandardNatives (intact_ofCapacities capacities) id

/-- A function of the host gives an integer by its declaration, and a return tries to leave one. -/
theorem return_from_host_crashes :
    (((fresh {} false).after [.declareNative "f" .int, .constant (.int 5)]).attempt
      Command.returnValue.perform).1 = .error .crash :=
  rfl

end Generator

end Quadruple
