import Quadruple.Proofs.ObjectStorage
import Quadruple.Proofs.ScopeDiscipline

/-!
The cells that declarations set aside. A ledger lists the cells given to variables and to the values of
functions since their arenas were last rewound, and the fields of classes in the order in which they were
declared. What is set aside lies inside the arena and is set aside once; fields follow each other. It is
as much as is declared if that can be told in a machine word, and only then.
-/

namespace Quadruple

namespace Scope

theorem toInt_ofInt_eq_iff {number : Int} (least : 0 ≤ number) :
    (Int64.ofInt number).toInt = number ↔ number < 9223372036854775808 := by
  constructor
  · intro same
    have bound := (Int64.ofInt number).toInt_lt
    omega
  · intro fits
    exact Int64.toInt_ofInt_of_le (by omega) (by omega)

/-! ### Blocks -/

/-- Cells for a variable or for the value of a function: the first one, and how many are declared. -/
structure Block where
  cell : Address
  span : Int

namespace Block

/-- How many cells are set aside: at least one, and else what a word tells of the declared number. -/
def reserved (block : Block) : Nat :=
  if (Int64.ofInt block.span).toInt < 1 then 1 else (Int64.ofInt block.span).toInt.toNat

def ending (block : Block) : Nat :=
  block.cell.offset.toNat + block.reserved

def Precedes (block later : Block) : Prop :=
  block.cell.area = later.cell.area → block.cell.type = later.cell.type →
    block.ending ≤ later.cell.offset.toNat

theorem reserved_eq_iff {block : Block} (positive : 1 ≤ block.span) :
    (block.reserved : Int) = block.span ↔ block.span < 9223372036854775808 := by
  have bound := (Int64.ofInt block.span).toInt_lt
  unfold reserved
  constructor
  · intro same
    split at same <;> omega
  · intro fits
    rw [(toInt_ofInt_eq_iff (by omega)).2 fits]
    split <;> omega

def ofVariable (var : Variable) : Block :=
  ⟨var.address, var.span⟩

end Block

/-! ### Ledgers -/

namespace Tree

/-- The variable that an operation declares, if it declares one. -/
def declared? (tree : Tree) : Operation → Option Variable
  | .declareVariable name type dimensions =>
    ((tree.declareVariable name type dimensions).map Prod.fst).toOption
  | .declareObject name class_ => ((tree.declareObject name class_).map Prod.fst).toOption
  | .declareArgument name type dimensions =>
    ((tree.declareArgument name type dimensions).map Prod.fst).toOption
  | .declareObjectArgument name class_ =>
    ((tree.declareObjectArgument name class_).map Prod.fst).toOption
  | _ => none

def blockOf (tree : Tree) (var : Variable) : List Block :=
  if tree.memberClass?.isSome then [] else [.ofVariable var]

def entryOf (tree : Tree) (var : Variable) : List (String × Variable) :=
  (tree.memberClass?.map fun class_ => (class_.name, var)).toList

/-- The cells of the function that has been added to a tree, if one has: that of its value, and that of
the object of a method. -/
def blocksAdded (tree after : Tree) : List Block :=
  (after.functions[tree.functions.size]?).elim [] fun function =>
    (function.result.map (⟨·, 1⟩)).toList ++ function.arguments.map .ofVariable

def granted (tree : Tree) : Operation → List Block
  | .declareFunction name returns start =>
    tree.blocksAdded (tree.declareFunction name returns start).2
  | operation => (tree.declared? operation).elim [] tree.blockOf

def joined (tree : Tree) (operation : Operation) : List (String × Variable) :=
  (tree.declared? operation).elim [] tree.entryOf

end Tree

/-- What may happen to a tree: an operation, or the rewinding of arenas of its memory. -/
inductive Request where
  | operation (operation : Tree.Operation)
  | reset (area : Area) (type : DataType)
  | resetLocals

structure Ledger where
  tree : Tree
  blocks : List Block
  fields : List (String × Variable)

namespace Ledger

def ofCapacities (capacities : Capacities) : Ledger :=
  ⟨.ofMemory (.ofCapacities capacities), [], []⟩

def perform (ledger : Ledger) : Request → Ledger
  | .operation operation =>
    ⟨ledger.tree.perform operation, ledger.blocks ++ ledger.tree.granted operation,
      ledger.fields ++ ledger.tree.joined operation⟩
  | .reset area type =>
    match ledger.tree.memory.reset area type with
    | .ok memory =>
      { ledger with
        tree := { ledger.tree with memory }
        blocks := ledger.blocks.filter fun block => block.cell.area ≠ area ∨ block.cell.type ≠ type }
    | .error _ => ledger
  | .resetLocals =>
    { ledger with
      tree := { ledger.tree with memory := ledger.tree.memory.resetLocals }
      blocks := ledger.blocks.filter fun block =>
        block.cell.area ≠ .locals ∧ block.cell.area ≠ .temps }

def performAll (ledger : Ledger) (requests : List Request) : Ledger :=
  requests.foldl perform ledger

def fieldsOf (fields : List (String × Variable)) (name : String) : List Variable :=
  (fields.filter fun entry => entry.1 = name).map Prod.snd

end Ledger

/-! ### What declarations do to the ledger -/

namespace Tree

variable {tree after : Tree} {name : String} {class_ : Class}

/-- What a class keeps of its fields. -/
def layout (tree : Tree) (name : String) : Option (Int64 × List Variable) :=
  (tree.class? name).map fun class_ => (class_.cells, class_.fields)

theorem class?_setClass (tree : Tree) (changed : Class) (name : String) :
    (tree.setClass changed).class? name =
      if name = changed.name then (tree.class? name).map fun _ => changed else tree.class? name := by
  unfold class? setClass
  induction tree.classes with
  | nil => simp
  | cons class_ classes ih =>
    rw [List.map_cons, List.find?_cons, List.find?_cons, ih]
    by_cases replaced : class_.name = changed.name
    · by_cases wanted : name = changed.name
      · simp [replaced, wanted]
      · have other : (changed.name == name) = false := beq_false_of_ne (Ne.symm wanted)
        simp [replaced, wanted, other]
    · by_cases wanted : name = changed.name
      · have other : (class_.name == changed.name) = false := beq_false_of_ne replaced
        simp [replaced, wanted, other]
      · simp [replaced, wanted]

theorem class?_append (classes : after.classes = tree.classes ++ [class_]) (name : String) :
    after.class? name = (tree.class? name).or (if class_.name = name then some class_ else none) := by
  unfold class?
  rw [classes, List.find?_append, List.find?_singleton]
  simp only [beq_iff_eq]

theorem layout_setClass {changed : Class} (found : tree.class? changed.name = some class_)
    (cells : changed.cells = class_.cells) (fields : changed.fields = class_.fields) :
    (tree.setClass changed).layout = tree.layout := by
  funext name
  rw [layout, class?_setClass, layout]
  split
  · rename_i same
    rw [same, found, Option.map_some, Option.map_some, Option.map_some, cells, fields]
  · rfl

theorem layout_openBody (tree : Tree) (function : Function) :
    (tree.openBody function).2.layout = tree.layout := by
  unfold openBody
  cases member : tree.memberClass? with
  | none => rfl
  | some class_ => exact @layout_setClass _ class_ _ (class?_of_memberClass? member) rfl rfl

theorem memory_openBody (tree : Tree) (function : Function) :
    (tree.openBody function).2.memory = tree.memory := by
  obtain ⟨classes, same⟩ := tree.openBody_eq function
  rw [same]

end Tree

namespace Ledger

variable {capacities : Capacities} {tree after : Tree} {blocks : List Block}
  {fields : List (String × Variable)} {var : Variable} {name : String}

/-- What is set aside lies inside its arena and is not set aside again, and classes have the fields that
were declared for them. -/
structure Balanced (capacities : Capacities) (ledger : Ledger) : Prop where
  sizes : ledger.tree.memory.sizes = (Memory.ofCapacities capacities).sizes
  inside : ∀ block ∈ ledger.blocks, 1 ≤ block.span ∧
    block.ending ≤ ledger.tree.memory.cursor block.cell.area block.cell.type ∧
    ∃ capacity, (Memory.ofCapacities capacities).sizes block.cell.area block.cell.type = some capacity ∧
      block.ending ≤ capacity
  ordered : ledger.blocks.Pairwise Block.Precedes
  classes : ∀ name class_, ledger.tree.class? name = some class_ →
    class_.Laid ∧ class_.fields = fieldsOf ledger.fields name
  owned : ∀ entry ∈ ledger.fields, ledger.tree.class? entry.1 ≠ none

theorem balanced_ofCapacities (capacities : Capacities) : (ofCapacities capacities).Balanced capacities where
  sizes := rfl
  inside := fun _ listed => nomatch listed
  ordered := .nil
  classes := fun _ _ found => nomatch found
  owned := fun _ listed => nomatch listed

namespace Balanced

variable {type : DataType} {reference : Bool} {memory : Memory}

theorem of_same (balanced : Balanced capacities ⟨tree, blocks, fields⟩)
    (memory : after.memory = tree.memory) (layout : after.layout = tree.layout) :
    Balanced capacities ⟨after, blocks, fields⟩ where
  sizes := memory ▸ balanced.sizes
  inside := by
    simp only [memory]
    exact balanced.inside
  ordered := balanced.ordered
  classes := by
    intro name class_ found
    have same : some (class_.cells, class_.fields) = tree.layout name := by
      rw [← layout, Tree.layout, found, Option.map_some]
    obtain ⟨former, here, same⟩ := Option.map_eq_some_iff.1 same.symm
    obtain ⟨cells, former_fields⟩ := Prod.mk.inj same
    obtain ⟨laid, listed⟩ := balanced.classes name former here
    refine ⟨⟨?_, ?_, ?_⟩, former_fields ▸ listed⟩
    · rw [← cells, ← former_fields]
      exact laid.cells
    · rw [← former_fields]
      exact laid.slots
    · rw [← former_fields]
      exact laid.extents
  owned := by
    intro entry listed missing
    have same : tree.layout entry.1 = none := by
      rw [← layout, Tree.layout, missing, Option.map_none]
    exact balanced.owned entry listed (Option.map_eq_none_iff.1 same)

/-- Cells that are set aside start where everything before them in their arena ends. -/
theorem allocate (balanced : Balanced capacities ⟨tree, blocks, fields⟩) {area : Area} {span : Int}
    {address : Address} (positive : 1 ≤ span)
    (given : tree.memory.allocate area type (Int64.ofInt span).toInt reference = .ok (address, memory)) :
    Balanced capacities ⟨{ tree with memory }, blocks ++ [⟨address, span⟩], fields⟩ := by
  obtain ⟨rfl, ⟨capacity, size, room⟩, sizes, cursor⟩ := Memory.allocate_cells given
  simp only [balanced.sizes] at size
  have limit := Memory.sizes_le size
  have most : capacity ≤ 67108864 := limit
  have offset : (UInt32.ofNat (tree.memory.cursor area type)).toNat = tree.memory.cursor area type := by
    rw [UInt32.toNat_ofNat']
    omega
  refine ⟨sizes.trans balanced.sizes, fun block listed => ?_, ?_, balanced.classes, balanced.owned⟩
  · rcases List.mem_append.1 listed with old | new
    · obtain ⟨positive, below, fits⟩ := balanced.inside block old
      refine ⟨positive, Nat.le_trans below ?_, fits⟩
      simp only [cursor]
      split
      · rename_i same
        rw [same.1, same.2]
        exact Nat.le_add_right _ _
      · exact Nat.le_refl _
    · cases List.mem_singleton.1 new
      refine ⟨positive, ?_, capacity, size, ?_⟩
      · simp only [cursor, and_self, if_true, Block.ending, offset]
        exact Nat.le_refl _
      · simp only [Block.ending, offset]
        exact room
  · refine List.pairwise_append.2 ⟨balanced.ordered, List.pairwise_singleton .., ?_⟩
    intro block listed later new
    cases List.mem_singleton.1 new
    intro sameArea sameType
    obtain ⟨_, below, _⟩ := balanced.inside block listed
    simp only at sameArea sameType
    rw [sameArea, sameType] at below
    simp only [offset]
    exact below

section

variable (balanced : Balanced capacities ⟨tree, blocks, fields⟩)
include balanced

theorem join {class_ : Class} (found : tree.class? class_.name = some class_)
    (slot : var.slot = class_.cells) (extents : ∀ extent ∈ var.dimensions, 1 ≤ extent) :
    Balanced capacities ⟨tree.setClass
      { class_ with
        cells := class_.cells + var.size
        fields := class_.fields ++ [var] }, blocks, fields ++ [(class_.name, var)]⟩ := by
  obtain ⟨laid, listed⟩ := balanced.classes class_.name class_ found
  refine ⟨balanced.sizes, balanced.inside, balanced.ordered, fun name other here => ?_, ?_⟩
  · simp only [Tree.class?_setClass] at here
    split at here
    · rename_i same
      simp only [same, found, Option.map_some] at here
      cases here
      refine ⟨laid.grow var slot extents, ?_⟩
      simp [same, listed, fieldsOf]
    · rename_i different
      obtain ⟨laid, listed⟩ := balanced.classes name other here
      refine ⟨laid, ?_⟩
      simp [listed, fieldsOf, Ne.symm different]
  · intro entry listed
    have known : tree.class? entry.1 ≠ none := by
      rcases List.mem_append.1 listed with old | new
      · exact balanced.owned entry old
      · cases List.mem_singleton.1 new
        rw [found]
        exact Option.some_ne_none _
    simp only [Tree.class?_setClass]
    split
    · simpa using known
    · exact known

theorem place {fresh : Variable} (extents : ∀ extent ∈ fresh.dimensions, 1 ≤ extent)
    (placed : tree.place fresh reference = .ok (var, after)) :
    Balanced capacities ⟨after, blocks ++ tree.blockOf var, fields ++ tree.entryOf var⟩ := by
  rcases Tree.place_eq_ok placed with ⟨class_, member, same, rfl⟩ | ⟨outside, address, memory, given, rfl, rfl⟩
  · have size : var.size = fresh.size := by rw [same]; rfl
    have slot : var.slot = class_.cells := by rw [same]
    have dimensions : var.dimensions = fresh.dimensions := by rw [same]
    have joins := balanced.join (Tree.class?_of_memberClass? member) slot (dimensions ▸ extents)
    simp only [Tree.blockOf, Tree.entryOf, member, Option.isSome_some, if_true, Option.map_some,
      Option.toList_some, List.append_nil]
    rw [← size]
    exact joins.of_same rfl rfl
  · have positive : 1 ≤ fresh.span := one_le_span extents
    rw [Variable.size, extent_eq] at given
    simp only [Tree.blockOf, Tree.entryOf, outside, Option.isSome_none, Bool.false_eq_true, if_false,
      Option.map_none, Option.toList_none, List.append_nil]
    exact (balanced.allocate positive given).of_same rfl rfl

theorem declare (declares : tree.Declares name var after) :
    Balanced capacities ⟨after, blocks ++ tree.blockOf var, fields ++ tree.entryOf var⟩ := by
  rcases declares with ⟨_, _, _, fits, _, placed⟩ | ⟨_, between, _, ⟨_, _, _, fits, _, placed⟩, rfl⟩
  · exact balanced.place fits.extents placed
  · exact (balanced.place fits.extents placed).of_same rfl rfl

theorem declareClass (declared : tree.declareClass name = .ok after) :
    Balanced capacities ⟨after, blocks, fields⟩ := by
  obtain ⟨_, unknown, _, rfl⟩ := Tree.declareClass_eq_ok declared
  refine ⟨balanced.sizes, balanced.inside, balanced.ordered, fun other class_ found => ?_,
    fun entry listed missing => ?_⟩
  · rw [Tree.class?_append rfl] at found
    rcases Option.or_eq_some_iff.1 found with old | ⟨_, new⟩
    · exact balanced.classes other class_ old
    · split at new
      · rename_i same
        cases new
        -- Nothing has been declared yet for a class that was not known.
        have empty : fieldsOf fields other = [] := by
          refine List.map_eq_nil_iff.2 (List.filter_eq_nil_iff.2 fun entry listed => ?_)
          simp only [decide_eq_true_eq]
          intro named
          rw [← same] at named
          exact balanced.owned entry listed (named ▸ unknown)
        exact ⟨⟨rfl, fun _ _ _ same => by simp at same, fun _ listed => by cases listed⟩, empty.symm⟩
      · cases new
  · rw [Tree.class?_append rfl, Option.or_eq_none_iff] at missing
    exact balanced.owned entry listed missing.1

theorem declareFunction (name : String) (returns : DataType) (start : Int) :
    Balanced capacities ⟨(tree.declareFunction name returns start).2,
      blocks ++ tree.blocksAdded (tree.declareFunction name returns start).2, fields⟩ := by
  have unchanged : Balanced capacities ⟨tree, blocks ++ tree.blocksAdded tree, fields⟩ := by
    have none_ : tree.blocksAdded tree = [] := by
      simp [Tree.blocksAdded]
    rw [none_, List.append_nil]
    exact balanced
  unfold Tree.declareFunction
  split
  · exact unchanged
  split
  · exact unchanged
  split
  · exact unchanged
  split
  · exact unchanged
  rename_i result allocated found
  have valued : Balanced capacities
      ⟨allocated, blocks ++ (result.map fun cell => (⟨cell, 1⟩ : Block)).toList, fields⟩ ∧
      allocated.functions = tree.functions := by
    rcases Tree.allocateResult_eq_ok found with ⟨rfl, rfl⟩ | ⟨address, memory, rfl, given, rfl⟩
    · exact ⟨by simpa using balanced, rfl⟩
    · exact ⟨balanced.allocate (by decide) given, rfl⟩
  obtain ⟨valued, functions⟩ := valued
  simp only
  generalize (tree.memberClass?.map Class.name).getD "" = owner
  generalize opening : (allocated.openBody ⟨name, returns, result, start, [], false, owner⟩).2 = inside
  have entered : inside.functions = tree.functions.push ⟨name, returns, result, start, [], false, owner⟩ := by
    rw [← opening, Tree.functions_openBody, functions]
  have opened : Balanced capacities ⟨inside, blocks ++ tree.blocksAdded inside, fields⟩ := by
    have added : tree.blocksAdded inside = (result.map fun cell => (⟨cell, 1⟩ : Block)).toList := by
      simp [Tree.blocksAdded, entered]
    rw [added]
    refine valued.of_same ?_ ?_
    · rw [← opening, Tree.memory_openBody]
    · rw [← opening, Tree.layout_openBody]
  split
  · split
    · exact opened
    · rename_i this complete argued
      obtain ⟨function, between, isOpen, declared, rfl⟩ := Tree.asArgument_eq_ok argued
      have outside : inside.memberClass? = none := Tree.memberClass?_of_openFunction isOpen
      have id : function.id = tree.functions.size := by
        obtain ⟨classes, same⟩ := allocated.openBody_eq ⟨name, returns, result, start, [], false, owner⟩
        rw [← opening, same] at isOpen
        cases isOpen
        rw [functions]
      have kept : between.functions = inside.functions :=
        Tree.functions_place (Tree.declareObject_eq_ok declared).2
      have added : tree.blocksAdded (between.addArgument function.id this) =
          tree.blocksAdded inside ++ inside.blockOf this := by
        simp only [Tree.blocksAdded, Tree.addArgument, Tree.setFunction, Tree.blockOf, kept, entered, id,
          outside, Array.getElem?_modify, Array.getElem?_push_size]
        simp
      have placed := opened.declare (.inl (Tree.places_object declared))
      simp only [Tree.entryOf, outside, Option.map_none, Option.toList_none, List.append_nil] at placed
      rw [added, ← List.append_assoc]
      exact placed.of_same rfl rfl
  · exact opened

/-- A declaration that fails leaves the ledger as it is. -/
theorem orSame {outcome : Except Error (Variable × Tree)}
    (declares : ∀ var after, outcome = .ok (var, after) →
      Balanced capacities ⟨after, blocks ++ tree.blockOf var, fields ++ tree.entryOf var⟩) :
    Balanced capacities ⟨tree.orSame (outcome.map Prod.snd),
      blocks ++ ((outcome.map Prod.fst).toOption).elim [] tree.blockOf,
      fields ++ ((outcome.map Prod.fst).toOption).elim [] tree.entryOf⟩ := by
  cases outcome with
  | ok declared => exact declares declared.1 declared.2 rfl
  | error =>
    simp only [Except.map, Except.toOption, Option.elim_none, List.append_nil]
    exact balanced

theorem perform (operation : Tree.Operation) :
    Balanced capacities ⟨tree.perform operation, blocks ++ tree.granted operation,
      fields ++ tree.joined operation⟩ := by
  -- Operations that declare nothing add nothing.
  have other : ∀ after : Tree, after.memory = tree.memory → after.layout = tree.layout →
      Balanced capacities ⟨after, blocks ++ [], fields ++ []⟩ := by
    intro after memory layout
    rw [List.append_nil, List.append_nil]
    exact balanced.of_same memory layout
  have attempt : ∀ outcome : Except Error Tree, (∀ after, outcome = .ok after →
      Balanced capacities ⟨after, blocks, fields⟩) →
      Balanced capacities ⟨tree.orSame outcome, blocks ++ [], fields ++ []⟩ := by
    intro outcome kept
    rw [List.append_nil, List.append_nil]
    cases outcome with
    | ok after => exact kept after rfl
    | error => exact balanced
  cases operation with
  | push | setContext class_ | clearContext => exact other _ rfl rfl
  | pop =>
    simp only [Tree.perform, Tree.pop]
    split <;> exact other _ rfl rfl
  | declareVariable name type dimensions =>
    exact balanced.orSame fun _ _ declared => balanced.declare (.inl (Tree.places_variable declared))
  | declareObject name class_ =>
    exact balanced.orSame fun _ _ declared => balanced.declare (.inl (Tree.places_object declared))
  | declareArgument name type dimensions =>
    exact balanced.orSame fun _ _ declared => balanced.declare (Tree.declares_argument declared).2
  | declareObjectArgument name class_ =>
    exact balanced.orSame fun _ _ declared => balanced.declare (Tree.declares_objectArgument declared).2
  | declareFunction name returns start =>
    have declared := balanced.declareFunction name returns start
    rw [← List.append_nil fields] at declared
    exact declared
  | closeFunction =>
    refine attempt _ fun after closed => ?_
    obtain ⟨closing, done, rfl⟩ := map_eq_ok.1 closed
    obtain ⟨_, _, same⟩ := Tree.closeFunction_eq_ok done
    rw [same]
    exact balanced.of_same rfl rfl
  | declareClass name => exact attempt _ fun after => balanced.declareClass
  | closeClass =>
    refine attempt _ fun after closed => ?_
    obtain ⟨_, _, _, rfl⟩ := Tree.closeClass_eq_ok closed
    exact balanced.of_same rfl rfl

/-- Rewinding arenas strikes what was set aside in them. -/
theorem rewind {keeps : Block → Bool} (sizes : memory.sizes = tree.memory.sizes)
    (cursor : ∀ block, keeps block = true → memory.cursor block.cell.area block.cell.type =
      tree.memory.cursor block.cell.area block.cell.type) :
    Balanced capacities ⟨{ tree with memory }, blocks.filter keeps, fields⟩ where
  sizes := sizes.trans balanced.sizes
  inside := by
    intro block listed
    obtain ⟨old, kept⟩ := List.mem_filter.1 listed
    rw [cursor block kept]
    exact balanced.inside block old
  ordered := balanced.ordered.filter keeps
  classes := balanced.classes
  owned := balanced.owned

end

theorem performAll {ledger : Ledger} (balanced : ledger.Balanced capacities) (requests : List Request) :
    (ledger.performAll requests).Balanced capacities := by
  induction requests generalizing ledger with
  | nil => exact balanced
  | cons request rest ih =>
    refine ih ?_
    cases request with
    | operation operation => exact balanced.perform operation
    | reset area type =>
      unfold Ledger.perform
      simp only
      split
      · rename_i memory done
        obtain ⟨sizes, cursor⟩ := Memory.reset_eq_ok done
        refine balanced.rewind sizes fun block kept => ?_
        rw [cursor, if_neg]
        simpa [Decidable.imp_iff_not_or] using kept
      · exact balanced
    | resetLocals =>
      refine balanced.rewind (Memory.sizes_resetLocals _) fun block kept => ?_
      rw [Memory.cursor_resetLocals, if_neg]
      simpa using kept

end Balanced

/-- What declarations set aside, under any capacities, whatever fails and whatever is rewound in between.
Every variable that is not a field and every value of a function has cells of its own: they lie inside
their arena and end before those start that were set aside later in it. There are as many as were declared
exactly if the declared number fits a machine word. The fields of a class are those that were declared for
it, in this order; a field starts where the one before it ends, and the class has the sum of their cells,
exactly as far as the sums fit a word. -/
theorem declared_cells_set_aside (capacities : Capacities) (requests : List Request) :
    (∀ block ∈ ((ofCapacities capacities).performAll requests).blocks,
      (∃ capacity, (Memory.ofCapacities capacities).sizes block.cell.area block.cell.type = some capacity ∧
        block.ending ≤ capacity) ∧
      ((block.reserved : Int) = block.span ↔ block.span < 9223372036854775808)) ∧
    ((ofCapacities capacities).performAll requests).blocks.Pairwise Block.Precedes ∧
    ∀ name class_, ((ofCapacities capacities).performAll requests).tree.class? name = some class_ →
      class_.fields = fieldsOf ((ofCapacities capacities).performAll requests).fields name ∧
      (class_.cells.toInt = spans class_.fields ↔ spans class_.fields < 9223372036854775808) ∧
      (spans class_.fields < 9223372036854775808 → class_.size.toInt = max 1 (spans class_.fields)) ∧
      ∀ front field back, class_.fields = front ++ field :: back →
        (field.slot.toInt = spans front ↔ spans front < 9223372036854775808) := by
  have balanced := (balanced_ofCapacities capacities).performAll requests
  refine ⟨fun block listed => ?_, balanced.ordered, fun name class_ found => ?_⟩
  · obtain ⟨positive, _, fits⟩ := balanced.inside block listed
    exact ⟨fits, Block.reserved_eq_iff positive⟩
  · obtain ⟨laid, listed⟩ := balanced.classes name class_ found
    refine ⟨listed, ?_, laid.size_of_lt, fun front field back here => ?_⟩
    · rw [laid.cells, total_eq]
      exact toInt_ofInt_eq_iff (spans_nonneg laid.extents)
    · rw [laid.slots front field back here, total_eq]
      refine toInt_ofInt_eq_iff (spans_nonneg fun other among => laid.extents other ?_)
      rw [here]
      exact List.mem_append_left _ among

/-- Of the cells of an array whose number does not fit a word there is only one, and the next variable
gets the cell behind it. -/
theorem huge_array_gets_one_cell :
    ((ofCapacities {}).performAll
      [.operation (.declareVariable "a" .int [4294967296, 4294967296]),
        .operation (.declareVariable "b" .int [])]).blocks =
      [⟨⟨.global, .int, false, 0⟩, 18446744073709551616⟩, ⟨⟨.global, .int, false, 1⟩, 1⟩] := by
  rfl

end Ledger

end Scope

end Quadruple
