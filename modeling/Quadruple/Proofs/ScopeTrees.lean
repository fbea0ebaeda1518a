import Quadruple.Proofs.Bindings

/-!
The shape of a scope tree. A scope lies inside another one if the way outward from it leads there;
since scopes are numbered in the order of their creation, that way leads to smaller numbers. What the
operations on a tree do to its scopes is said once: they keep them, open one, bind a name, or move to
another scope.
-/

namespace Quadruple.Scope.Tree

variable {tree after : Tree} {name : String} {alias_ : Alias} {scope outer : ScopeId} {changed : Class}
  {reference : Bool} {var : Variable} {class_ : String}

/-! ### What is seen of the scopes -/

@[simp]
theorem size_bind (tree : Tree) (name : String) (alias_ : Alias) :
    (tree.bind name alias_).nodes.size = tree.nodes.size :=
  Array.size_modify

@[simp]
theorem parent_bind (tree : Tree) (name : String) (alias_ : Alias) (scope : ScopeId) :
    (tree.bind name alias_).parent scope = tree.parent scope := by
  unfold parent
  rw [getElem?_bind]
  split
  · cases tree.nodes[scope]? <;> rfl
  · rfl

theorem size_push (tree : Tree) : tree.push.nodes.size = tree.nodes.size + 1 :=
  Array.size_push _

theorem parent_push (tree : Tree) (scope : ScopeId) :
    tree.push.parent scope =
      if scope = tree.nodes.size then some tree.current else tree.parent scope := by
  simp only [parent, push, Array.getElem?_push]
  split <;> rfl

@[simp]
theorem lookup_push (tree : Tree) (scope : ScopeId) (name : String) :
    tree.push.lookup scope name = tree.lookup scope name := by
  simp only [lookup, push, Array.getElem?_push]
  split
  · rename_i last
    rw [last, Array.getElem?_eq_none (Nat.le_refl _)]
    rfl
  · rfl

theorem lookup_bind {other : String} {found : Alias}
    (here : (tree.bind name alias_).lookup scope other = some found) :
    scope = tree.current ∧ found = alias_ ∨ tree.lookup scope other = some found := by
  unfold lookup at here ⊢
  rw [getElem?_bind] at here
  split at here
  · rename_i same
    cases node : tree.nodes[scope]? with
    | none =>
      rw [node] at here
      cases here
    | some former =>
      rw [node] at here
      simp only [Option.map_some, Option.bind_some, List.lookup_cons] at here ⊢
      split at here
      · cases here
        exact .inl ⟨same.symm, rfl⟩
      · exact .inr here
  · exact .inr here

theorem parent_of_nodes (same : after.nodes = tree.nodes) (scope : ScopeId) :
    after.parent scope = tree.parent scope := by
  rw [parent, same, parent]

theorem lookup_of_nodes (same : after.nodes = tree.nodes) (scope : ScopeId) (name : String) :
    after.lookup scope name = tree.lookup scope name := by
  rw [lookup, same, lookup]

theorem lt_of_parent (found : tree.parent scope = some outer) : scope < tree.nodes.size := by
  obtain ⟨_, node, _⟩ := Option.bind_eq_some_iff.1 found
  exact (Array.getElem?_eq_some_iff.1 node).1

theorem lookup_of_le (beyond : tree.nodes.size ≤ scope) (name : String) :
    tree.lookup scope name = none := by
  rw [lookup, Array.getElem?_eq_none beyond, Option.bind_none]

/-! ### Scopes inside others -/

def Ordered (tree : Tree) : Prop :=
  ∀ scope outer, tree.parent scope = some outer → outer < scope

section

variable (inside : tree.Inside outer scope)
include inside

theorem Inside.le (ordered : tree.Ordered) : outer ≤ scope := by
  induction inside with
  | here => exact Nat.le_refl _
  | child parent _ ih => exact Nat.le_trans ih (Nat.le_of_lt (ordered _ _ parent))

/-- Scopes up to a bound lie inside each other as they do in a tree that is the same so far. -/
theorem Inside.transfer {bound : Nat} (ordered : tree.Ordered)
    (same : ∀ scope < bound, after.parent scope = tree.parent scope) (below : scope < bound) :
    after.Inside outer scope := by
  induction inside with
  | here => exact .here
  | child parent _ ih =>
    have smaller := ordered _ _ parent
    exact .child ((same _ below).trans parent) (ih (Nat.lt_trans smaller below))

theorem Inside.of_nodes (same : after.nodes = tree.nodes) : after.Inside outer scope := by
  induction inside with
  | here => exact .here
  | child parent _ ih => exact .child ((parent_of_nodes same _).trans parent) ih

end

/-! ### What operations do to the scopes -/

def Retains (tree after : Tree) : Prop :=
  ∀ class_ ∈ after.classes, ∃ former ∈ tree.classes, class_.scope = former.scope

/-- What an operation other than leaving a scope does to the scopes of a tree. -/
inductive Change (tree after : Tree) : Prop where
  | keep (nodes : after.nodes = tree.nodes) (current : after.current = tree.current)
      (body : after.openFunction = tree.openFunction)
      (functions : after.functions.size = tree.functions.size) (classes : tree.Retains after)
  | push (nodes : after.nodes = tree.push.nodes) (current : after.current = tree.nodes.size)
      (body : after.openFunction = tree.openFunction)
      (functions : after.functions.size = tree.functions.size) (classes : tree.Retains after)
  | declare {name : String} {var : Variable}
      (stored : tree.openFunction = none → var.address.area ≠ .locals)
      (nodes : after.nodes = (tree.bind name (.variable var)).nodes)
      (current : after.current = tree.current) (body : after.openFunction = tree.openFunction)
      (functions : after.functions.size = tree.functions.size) (classes : tree.Retains after)
      (fresh : tree.isDeclared name = false)
  | enter {name : String} (closed : tree.openFunction = none)
      (nodes : after.nodes = (tree.bind name (.function tree.functions.size)).push.nodes)
      (current : after.current = tree.nodes.size)
      (body : after.openFunction = some ⟨tree.functions.size, tree.nodes.size⟩)
      (functions : after.functions.size = tree.functions.size + 1) (classes : tree.Retains after)
      (fresh : tree.isDeclared name = false)
  | leave {opened : OpenFunction} (opens : tree.openFunction = some opened)
      (nodes : after.nodes = tree.nodes)
      (current : after.current = (tree.parent opened.scope).getD tree.current)
      (body : after.openFunction = none)
      (functions : after.functions.size = tree.functions.size) (classes : tree.Retains after)
  | enterClass {name : String} (closed : tree.openFunction = none)
      (nodes : after.nodes = (tree.bind name (.class name)).push.nodes)
      (current : after.current = tree.nodes.size) (body : after.openFunction = none)
      (functions : after.functions.size = tree.functions.size)
      (classes : ∀ class_ ∈ after.classes, class_.scope = tree.nodes.size ∨
        ∃ former ∈ tree.classes, class_.scope = former.scope)
      (fresh : tree.isDeclared name = false)
  | leaveClass {class_ : Class} (listed : class_ ∈ tree.classes) (closed : tree.openFunction = none)
      (nodes : after.nodes = tree.nodes)
      (current : after.current = (tree.parent class_.scope).getD tree.current)
      (body : after.openFunction = none)
      (functions : after.functions.size = tree.functions.size) (classes : tree.Retains after)

/-- A change that is made in a scope with at least a given number. -/
def ChangeFrom (least : ScopeId) (tree after : Tree) : Prop :=
  tree.Change after ∧ least ≤ tree.current

theorem retains_same (same : after.classes = tree.classes) : tree.Retains after := by
  intro class_ listed
  rw [same] at listed
  exact ⟨class_, listed, rfl⟩

theorem retains_setClass {former : Class} (listed : former ∈ tree.classes)
    (same : changed.scope = former.scope) (classes : after.classes = (tree.setClass changed).classes) :
    tree.Retains after := by
  intro class_ present
  rw [classes] at present
  rcases mem_setClass present with rfl | old
  · exact ⟨former, listed, same⟩
  · exact ⟨class_, old, rfl⟩

/-- A variable that has been given its place is bound in the current scope. What is done to functions
afterwards makes no difference. -/
theorem change_place {fresh : Variable} {placed : Tree} (isNew : tree.isDeclared fresh.name = false)
    (done : tree.place fresh reference = .ok (var, placed)) (nodes : after.nodes = placed.nodes)
    (current : after.current = placed.current) (body : after.openFunction = placed.openFunction)
    (functions : after.functions.size = placed.functions.size)
    (classes : after.classes = placed.classes) : tree.Change after := by
  rcases place_eq_ok done with ⟨class_, member, rfl, rfl⟩ | ⟨_, address, memory, given, rfl, rfl⟩
  · refine .declare (fun _ => ?_) nodes current body functions ?_ isNew
    · exact fun area => Area.noConfusion area
    · exact retains_setClass (mem_of_memberClass? member) (by rfl) classes
  · refine .declare (fun closed => ?_) nodes current body functions (retains_same classes) isNew
    have outside : tree.storage = .global := by simp [storage, closed]
    obtain ⟨_, _, _, rfl, _⟩ := Memory.allocate_eq_ok.1 given
    rw [outside]
    exact nofun

theorem Declares.change (declares : tree.Declares name var after) : tree.Change after := by
  rcases declares with ⟨_, _, _, _, isNew, placed⟩ | ⟨_, between, _, ⟨_, _, _, _, isNew, placed⟩, rfl⟩
  · exact change_place isNew placed rfl rfl rfl rfl rfl
  · exact change_place isNew placed rfl rfl rfl Array.size_modify rfl

theorem change_openBody (closed : tree.openFunction = none) {function : Function}
    (isNew : tree.isDeclared function.name = false) : tree.Change (tree.openBody function).2 := by
  have size := tree.size_bind function.name (.function tree.functions.size)
  have body := congrArg (fun scope => some (⟨tree.functions.size, scope⟩ : OpenFunction)) size
  unfold openBody
  cases member : tree.memberClass? with
  | none => exact .enter closed rfl size body (Array.size_push _) (retains_same rfl) isNew
  | some class_ =>
    exact .enter closed rfl size body (Array.size_push _)
      (retains_setClass (mem_of_memberClass? member) (by rfl) rfl) isNew

theorem change_closeFunction {id : FunctionId} (closed : tree.closeFunction = .ok (id, after)) :
    tree.Change after := by
  obtain ⟨opened, opens, rfl⟩ := closeFunction_eq_ok closed
  exact .leave opens rfl rfl rfl rfl (retains_same rfl)

theorem change_declareClass (declared : tree.declareClass name = .ok after) : tree.Change after := by
  obtain ⟨closed, _, isNew, rfl⟩ := declareClass_eq_ok declared
  have size := tree.size_bind name (.class name)
  refine .enterClass closed rfl size closed rfl (fun class_ listed => ?_) isNew
  rcases List.mem_append.1 listed with old | new
  · exact .inr ⟨class_, old, rfl⟩
  · cases List.mem_singleton.1 new
    exact .inl size

/-! ### Trees whose scopes are in place -/

/-- The current scope, the body of the open function and the bodies of classes are scopes of the tree,
around bodies there is another scope, and what is bound as a function is one. -/
structure Rooted (tree : Tree) : Prop where
  ordered : tree.Ordered
  current : tree.current < tree.nodes.size
  body : ∀ opened, tree.openFunction = some opened →
    opened.id < tree.functions.size ∧ ∃ outer, tree.parent opened.scope = some outer
  classes : ∀ class_ ∈ tree.classes, ∃ outer, tree.parent class_.scope = some outer
  functions : ∀ scope name id, tree.lookup scope name = some (.function id) →
    id < tree.functions.size

theorem lookup_ofMemory (memory : Memory) (scope : ScopeId) (name : String) :
    (ofMemory memory).lookup scope name = none := by
  simp only [lookup, ofMemory, Array.getElem?_singleton]
  split <;> rfl

theorem parent_ofMemory (memory : Memory) (scope : ScopeId) :
    (ofMemory memory).parent scope = none := by
  simp only [parent, ofMemory, Array.getElem?_singleton]
  split <;> rfl

theorem rooted_ofMemory (memory : Memory) : (ofMemory memory).Rooted where
  ordered := fun scope _ found => nomatch (parent_ofMemory memory scope).symm.trans found
  current := Nat.zero_lt_one
  body := fun _ opens => nomatch opens
  classes := fun _ listed => nomatch listed
  functions := fun scope name _ found => nomatch (lookup_ofMemory memory scope name).symm.trans found

def Grows (tree after : Tree) : Prop :=
  after.nodes.size = tree.nodes.size + 1 ∧ ∀ scope,
    after.parent scope = if scope = tree.nodes.size then some tree.current else tree.parent scope

theorem grows_push (nodes : after.nodes = tree.push.nodes) : tree.Grows after := by
  refine ⟨?_, fun scope => ?_⟩
  · rw [nodes, size_push]
  · rw [parent_of_nodes nodes, parent_push]

theorem grows_bind_push (nodes : after.nodes = (tree.bind name alias_).push.nodes) :
    tree.Grows after := by
  refine ⟨?_, fun scope => ?_⟩
  · rw [nodes, size_push, size_bind]
  · rw [parent_of_nodes nodes, parent_push, size_bind, parent_bind]
    rfl

theorem Grows.parent_old (grows : tree.Grows after) (found : tree.parent scope = some outer) :
    after.parent scope = some outer := by
  rw [grows.2, if_neg (Nat.ne_of_lt (lt_of_parent found)), found]

theorem Grows.parent_new (grows : tree.Grows after) :
    after.parent tree.nodes.size = some tree.current := by
  rw [grows.2, if_pos rfl]

theorem Grows.ordered (grows : tree.Grows after) (rooted : tree.Rooted) : after.Ordered := by
  intro scope outer found
  rw [grows.2] at found
  split at found
  · rename_i new
    cases found
    rw [new]
    exact rooted.current
  · exact rooted.ordered _ _ found

section

variable (rooted : tree.Rooted)
include rooted

theorem Rooted.outside (scope : ScopeId) :
    (tree.parent scope).getD tree.current < tree.nodes.size := by
  cases found : tree.parent scope with
  | none => exact rooted.current
  | some outer => exact Nat.lt_trans (rooted.ordered _ _ found) (lt_of_parent found)

theorem Rooted.still (size : after.nodes.size = tree.nodes.size)
    (parent : ∀ scope, after.parent scope = tree.parent scope) (current : after.current < tree.nodes.size)
    (body : ∀ opened, after.openFunction = some opened → tree.openFunction = some opened)
    (functions : after.functions.size = tree.functions.size) (classes : tree.Retains after)
    (bound : ∀ scope name id, after.lookup scope name = some (.function id) →
      tree.lookup scope name = some (.function id)) : after.Rooted := by
  refine ⟨fun scope outer found => rooted.ordered scope outer (parent scope ▸ found),
    size ▸ current, fun opened opens => ?_, fun class_ listed => ?_, fun scope name id found => ?_⟩
  · rw [functions, parent]
    exact rooted.body opened (body opened opens)
  · obtain ⟨former, here, same⟩ := classes class_ listed
    rw [same, parent]
    exact rooted.classes former here
  · rw [functions]
    exact rooted.functions scope name id (bound scope name id found)

theorem Rooted.grown (grows : tree.Grows after) (current : after.current = tree.nodes.size)
    (body : ∀ opened, after.openFunction = some opened → opened.id < after.functions.size ∧
      (tree.openFunction = some opened ∨ opened.scope = tree.nodes.size))
    (functions : tree.functions.size ≤ after.functions.size)
    (classes : ∀ class_ ∈ after.classes, class_.scope = tree.nodes.size ∨
      ∃ former ∈ tree.classes, class_.scope = former.scope)
    (bound : ∀ scope name id, after.lookup scope name = some (.function id) →
      id < after.functions.size ∨ tree.lookup scope name = some (.function id)) : after.Rooted := by
  refine ⟨grows.ordered rooted, ?_, fun opened opens => ?_, fun class_ listed => ?_,
    fun scope name id found => ?_⟩
  · rw [current, grows.1]
    exact Nat.lt_succ_self _
  · obtain ⟨known, old | new⟩ := body opened opens
    · obtain ⟨_, outer, found⟩ := rooted.body opened old
      exact ⟨known, outer, grows.parent_old found⟩
    · exact ⟨known, tree.current, new ▸ grows.parent_new⟩
  · rcases classes class_ listed with new | ⟨former, here, same⟩
    · exact ⟨tree.current, new ▸ grows.parent_new⟩
    · obtain ⟨outer, found⟩ := rooted.classes former here
      exact ⟨outer, same ▸ grows.parent_old found⟩
  · rcases bound scope name id found with known | old
    · exact known
    · exact Nat.lt_of_lt_of_le (rooted.functions scope name id old) functions

theorem Rooted.change (change : tree.Change after) : after.Rooted := by
  cases change with
  | keep nodes current body functions classes =>
    exact rooted.still (congrArg _ nodes) (parent_of_nodes nodes) (current ▸ rooted.current)
      (fun _ opens => body ▸ opens) functions classes
      (fun scope name id found => lookup_of_nodes nodes scope name ▸ found)
  | push nodes current body functions classes =>
    refine rooted.grown (grows_push nodes) current (fun opened opens => ?_) (Nat.le_of_eq functions.symm)
      (fun class_ listed => .inr (classes class_ listed)) fun scope name id found => .inr ?_
    · rw [body] at opens
      exact ⟨functions ▸ (rooted.body opened opens).1, .inl opens⟩
    · rwa [lookup_of_nodes nodes, lookup_push] at found
  | declare stored nodes current body functions classes =>
    refine rooted.still (by rw [nodes, size_bind]) (fun scope => ?_) (current ▸ rooted.current)
      (fun _ opens => body ▸ opens) functions classes fun scope name id found => ?_
    · rw [parent_of_nodes nodes, parent_bind]
    · rw [lookup_of_nodes nodes] at found
      rcases lookup_bind found with ⟨_, other⟩ | old
      · cases other
      · exact old
  | enter closed nodes current body functions classes =>
    refine rooted.grown (grows_bind_push nodes) current (fun opened opens => ?_) (by omega)
      (fun class_ listed => .inr (classes class_ listed)) fun scope name id found => ?_
    · rw [body] at opens
      cases opens
      exact ⟨by simp only [functions, Nat.lt_succ_self], .inr rfl⟩
    · rw [lookup_of_nodes nodes, lookup_push] at found
      rcases lookup_bind found with ⟨_, same⟩ | old
      · cases same
        exact .inl (by simp only [functions, Nat.lt_succ_self])
      · exact .inr old
  | leave opens nodes current body functions classes
  | leaveClass listed closed nodes current body functions classes =>
    exact rooted.still (congrArg _ nodes) (parent_of_nodes nodes) (current ▸ rooted.outside _)
      (fun _ opens => nomatch body.symm.trans opens) functions classes
      (fun scope name id found => lookup_of_nodes nodes scope name ▸ found)
  | enterClass closed nodes current body functions classes =>
    refine rooted.grown (grows_bind_push nodes) current (fun _ opens => nomatch body.symm.trans opens)
      (Nat.le_of_eq functions.symm) classes fun scope name id found => ?_
    rw [lookup_of_nodes nodes, lookup_push] at found
    rcases lookup_bind found with ⟨_, other⟩ | old
    · cases other
    · exact .inr old

theorem Rooted.changes {least : ScopeId}
    (changes : Relation.ReflTransGen (ChangeFrom least) tree after) : after.Rooted := by
  induction changes with
  | refl => exact rooted
  | tail _ change ih => exact ih.change change.1

theorem Rooted.pop : tree.pop.Rooted := by
  unfold Tree.pop
  split
  · rename_i outer found
    exact ⟨rooted.ordered, Nat.lt_trans (rooted.ordered _ _ found) rooted.current, rooted.body,
      rooted.classes, rooted.functions⟩
  · exact rooted

/-- Where the open function is one of the tree, none is current only if none is open. -/
theorem Rooted.closed (none_ : tree.currentFunction? = none) : tree.openFunction = none := by
  cases opens : tree.openFunction with
  | none => rfl
  | some opened =>
    have found := (rooted.body opened opens).1
    simp only [currentFunction?, opens, Option.bind_some, function?, Array.getElem?_eq_none_iff]
      at none_
    exact absurd found (Nat.not_lt.2 none_)

theorem change_closeClass (closes : tree.closeClass = .ok after) : tree.Change after := by
  obtain ⟨class_, found, none_, rfl⟩ := closeClass_eq_ok closes
  obtain ⟨_, _, listed⟩ := Option.bind_eq_some_iff.1 found
  have closed := rooted.closed none_
  exact .leaveClass (List.mem_of_find?_eq_some listed) closed rfl rfl closed rfl (retains_same rfl)

/-- A function is declared in up to three changes: a cell is found for its value, its body is opened,
and a method gets its object. -/
theorem changes_declareFunction {least : ScopeId} (within : least ≤ tree.current) (name : String)
    (returns : DataType) (start : Int) :
    Relation.ReflTransGen (ChangeFrom least) tree (tree.declareFunction name returns start).2 := by
  unfold declareFunction
  split
  · exact .refl
  rename_i none_
  have closed := rooted.closed none_
  split
  · exact .refl
  split
  · exact .refl
  rename_i isNew
  have isNew := Bool.eq_false_iff.2 isNew
  split
  · exact .refl
  rename_i result allocated found
  have kept : ∃ memory, allocated = { tree with memory } := by
    rcases allocateResult_eq_ok found with ⟨_, rfl⟩ | ⟨_, memory, _, _, same⟩
    · exact ⟨_, rfl⟩
    · exact ⟨memory, same⟩
  obtain ⟨memory, rfl⟩ := kept
  have given : tree.Change { tree with memory } := .keep rfl rfl rfl rfl (retains_same rfl)
  have opening := @change_openBody { tree with memory } closed
    ⟨name, returns, result, start, [], false, (tree.memberClass?.map Class.name).getD ""⟩ isNew
  have opened : Relation.ReflTransGen (ChangeFrom least) tree _ :=
    .tail (.single ⟨given, within⟩) ⟨opening, within⟩
  simp only
  split
  · split
    · exact opened
    · rename_i argued
      refine opened.tail ⟨(declares_objectArgument argued).2.change, Nat.le_trans within ?_⟩
      obtain ⟨_, same⟩ := openBody_eq { tree with memory }
        ⟨name, returns, result, start, [], false, (tree.memberClass?.map Class.name).getD ""⟩
      rw [same]
      exact Nat.le_of_lt rooted.current
  · exact opened

end

end Quadruple.Scope.Tree
