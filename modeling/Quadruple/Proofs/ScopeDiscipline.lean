import Quadruple.Proofs.ScopeTrees

/-!
Cells of a function are seen only inside it. Where a variable is kept depends on whether a function is
open, while the scope in which it is seen depends on where the tree stands, and the two are moved by
different operations. They stay together as long as the scope of a body is left by closing the function:
the current scope then lies inside the body of the open function, and what is found while no function is
open is never a cell of one. Leaving the body's scope with the function still open parts them.
-/

namespace Quadruple.Scope.Tree

variable {tree after : Tree} {scope outer : ScopeId}

/-! ### Sequences of operations -/

inductive Operation where
  | push
  | pop
  | declareVariable (name : String) (type : DataType) (dimensions : List Int)
  | declareObject (name class_ : String)
  | declareArgument (name : String) (type : DataType) (dimensions : List Int)
  | declareObjectArgument (name class_ : String)
  | declareFunction (name : String) (returns : DataType) (start : Int)
  | closeFunction
  | declareClass (name : String)
  | closeClass
  | setContext (class_ : String)
  | clearContext

def orSame (tree : Tree) : Except Error Tree → Tree
  | .ok after => after
  | .error _ => tree

def perform (tree : Tree) : Operation → Tree
  | .push => tree.push
  | .pop => tree.pop
  | .declareVariable name type dimensions =>
    tree.orSame ((tree.declareVariable name type dimensions).map Prod.snd)
  | .declareObject name class_ => tree.orSame ((tree.declareObject name class_).map Prod.snd)
  | .declareArgument name type dimensions =>
    tree.orSame ((tree.declareArgument name type dimensions).map Prod.snd)
  | .declareObjectArgument name class_ =>
    tree.orSame ((tree.declareObjectArgument name class_).map Prod.snd)
  | .declareFunction name returns start => (tree.declareFunction name returns start).2
  | .closeFunction => tree.orSame (tree.closeFunction.map Prod.snd)
  | .declareClass name => tree.orSame (tree.declareClass name)
  | .closeClass => tree.orSame tree.closeClass
  | .setContext class_ => tree.setContext class_
  | .clearContext => tree.clearContext

def performAll (tree : Tree) (operations : List Operation) : Tree :=
  operations.foldl perform tree

/-- Whether an operation leaves the scope of the open function's body without closing the function. -/
def abandons (tree : Tree) : Operation → Bool
  | .pop => tree.openFunction.any fun opened => opened.scope == tree.current
  | _ => false

/-- Whether none of the operations leaves the scope of a body without closing its function. -/
def isOrderly (tree : Tree) : List Operation → Bool
  | [] => true
  | operation :: rest => !tree.abandons operation && (tree.perform operation).isOrderly rest

section

variable {least : ScopeId} (within : least ≤ tree.current)

include within

theorem changes_single (change : tree.Change after) : Relation.ReflTransGen (ChangeFrom least) tree after :=
  .single ⟨change, within⟩

theorem changes_orSame {outcome : Except Error Tree}
    (changes : ∀ after, outcome = .ok after → tree.Change after) :
    Relation.ReflTransGen (ChangeFrom least) tree (tree.orSame outcome) := by
  cases outcome with
  | ok after => exact changes_single within (changes after rfl)
  | error => exact .refl

theorem changes_orSame_snd {α : Type} {outcome : Except Error (α × Tree)}
    (changes : ∀ given after, outcome = .ok (given, after) → tree.Change after) :
    Relation.ReflTransGen (ChangeFrom least) tree (tree.orSame (outcome.map Prod.snd)) := by
  cases outcome with
  | ok pair => exact changes_single within (changes pair.1 pair.2 rfl)
  | error => exact .refl

theorem perform_cases (rooted : tree.Rooted) (operation : Operation) :
    operation = .pop ∨ Relation.ReflTransGen (ChangeFrom least) tree (tree.perform operation) := by
  cases operation with
  | pop => exact .inl rfl
  | push => exact .inr (changes_single within (.push rfl rfl rfl rfl (retains_same rfl)))
  | declareVariable =>
    exact .inr (changes_orSame_snd within fun _ _ declared => Declares.change (.inl (places_variable declared)))
  | declareObject =>
    exact .inr (changes_orSame_snd within fun _ _ declared => Declares.change (.inl (places_object declared)))
  | declareArgument =>
    exact .inr (changes_orSame_snd within fun _ _ declared => (declares_argument declared).2.change)
  | declareObjectArgument =>
    exact .inr (changes_orSame_snd within fun _ _ declared => (declares_objectArgument declared).2.change)
  | declareFunction name returns start =>
    exact .inr (changes_declareFunction rooted within name returns start)
  | closeFunction => exact .inr (changes_orSame_snd within fun _ _ => change_closeFunction)
  | declareClass => exact .inr (changes_orSame within fun _ => change_declareClass)
  | closeClass => exact .inr (changes_orSame within fun _ => change_closeClass rooted)
  | setContext | clearContext =>
    exact .inr (changes_single within (.keep rfl rfl rfl rfl (retains_same rfl)))

end

/-! ### Scopes from which no cell of a function is seen -/

/-- While a function is open, the current scope is that of its body or lies inside it. -/
def Confined (tree : Tree) : Prop :=
  ∀ opened, tree.openFunction = some opened → tree.Inside opened.scope tree.current

/-- No scope around the given one, itself included, binds a variable kept with a function's cells. -/
def Clear (tree : Tree) (scope : ScopeId) : Prop :=
  ∀ outer name var, tree.Inside outer scope → tree.lookup outer name = some (.variable var) →
    var.address.area ≠ .locals

theorem Clear.around (clear : tree.Clear scope) (parent : tree.parent scope = some outer) :
    tree.Clear outer :=
  fun around name var inside => clear around name var (.child parent inside)

theorem Clear.of_nodes (clear : tree.Clear scope) (same : after.nodes = tree.nodes) :
    after.Clear scope := by
  intro outer name var inside found
  rw [lookup_of_nodes same] at found
  exact clear outer name var (inside.of_nodes same.symm) found

theorem Clear.inner (clear : tree.Clear outer) (parent : tree.parent scope = some outer)
    (empty : ∀ name, tree.lookup scope name = none) : tree.Clear scope := by
  intro around name var inside found
  cases inside with
  | here => cases (empty name).symm.trans found
  | child other inside =>
    cases parent.symm.trans other
    exact clear around name var inside found

section

variable (change : tree.Change after)
include change

theorem Change.parent (old : scope < tree.nodes.size) : after.parent scope = tree.parent scope := by
  have former (grows : tree.Grows after) : after.parent scope = tree.parent scope := by
    rw [grows.2, if_neg (Nat.ne_of_lt old)]
  cases change with
  | keep nodes | leave _ nodes | leaveClass _ _ nodes => exact parent_of_nodes nodes scope
  | push nodes => exact former (grows_push nodes)
  | declare _ nodes => rw [parent_of_nodes nodes, parent_bind]
  | enter _ nodes | enterClass _ nodes => exact former (grows_bind_push nodes)

/-- A change binds at most one name, in the current scope, and one that was not bound there. -/
theorem Change.lookup_eq : (∀ scope name, after.lookup scope name = tree.lookup scope name) ∨
      ∃ name alias_, tree.isDeclared name = false ∧
        (∀ scope other, after.lookup scope other = (tree.bind name alias_).lookup scope other) ∧
        ∀ var, alias_ = .variable var → tree.openFunction = none → var.address.area ≠ .locals := by
  cases change with
  | keep nodes | leave _ nodes | leaveClass _ _ nodes => exact .inl (lookup_of_nodes nodes)
  | push nodes => exact .inl fun scope name => (lookup_of_nodes nodes scope name).trans (lookup_push ..)
  | declare stored nodes _ _ _ _ fresh =>
    refine .inr ⟨_, _, fresh, lookup_of_nodes nodes, ?_⟩
    rintro _ ⟨⟩
    exact stored
  | enter _ nodes _ _ _ _ fresh | enterClass _ nodes _ _ _ _ fresh =>
    refine .inr ⟨_, _, fresh, fun scope other => (lookup_of_nodes nodes scope other).trans (lookup_push ..), ?_⟩
    rintro _ ⟨⟩

/-- A variable kept with a function's cells is bound in the current scope and while a function is open,
or was bound before. -/
theorem Change.lookup {name : String} {var : Variable}
    (found : after.lookup scope name = some (.variable var))
    (kept : var.address.area = .locals) :
    tree.lookup scope name = some (.variable var) ∨
      scope = tree.current ∧ tree.openFunction ≠ none := by
  rcases change.lookup_eq with same | ⟨_, _, _, same, stored⟩
  · exact .inl (same scope name ▸ found)
  · rw [same] at found
    rcases lookup_bind found with ⟨here, isVariable⟩ | old
    · exact .inr ⟨here, fun closed => stored var isVariable.symm closed kept⟩
    · exact .inl old

/-- A clear scope stays clear, unless variables of an open function are declared in it or around it. -/
theorem Change.clear (rooted : tree.Rooted) (clear : tree.Clear scope)
    (old : scope < tree.nodes.size) (apart : tree.openFunction = none ∨ scope < tree.current) :
    after.Clear scope := by
  intro outer name var inside found kept
  have ordered := (rooted.change change).ordered
  have before : tree.Inside outer scope :=
    inside.transfer ordered (fun scope old => (change.parent old).symm) old
  rcases change.lookup found kept with former | ⟨here, opens⟩
  · exact clear outer name var before former kept
  · have below := inside.le ordered
    rcases apart with closed | apart
    · exact opens closed
    · exact Nat.not_le.2 apart (here ▸ below)

end

/-! ### The discipline -/

/-- The tree stands inside the open function, from outside which none of the function's cells is seen. -/
structure Disciplined (tree : Tree) : Prop extends Rooted tree where
  confined : tree.Confined
  clear : tree.openFunction = none → tree.Clear tree.current
  /-- Closing the function leads to a clear scope. -/
  outside : ∀ opened outer, tree.openFunction = some opened →
    tree.parent opened.scope = some outer → tree.Clear outer
  /-- Closing a class leads to a clear scope. -/
  outsideClass : ∀ class_ ∈ tree.classes, ∀ outer,
    tree.parent class_.scope = some outer → tree.Clear outer
  /-- No class is declared inside a function. -/
  older : ∀ opened, tree.openFunction = some opened → ∀ class_ ∈ tree.classes,
    class_.scope < opened.scope

theorem disciplined_ofMemory (memory : Memory) : (ofMemory memory).Disciplined := by
  have rooted := rooted_ofMemory memory
  refine ⟨rooted, ?_, fun _ => ?_, ?_, ?_, ?_⟩
  · exact fun _ opens => nomatch opens
  · intro outer name var _ found
    cases (lookup_ofMemory memory outer name).symm.trans found
  · exact fun _ _ opens => nomatch opens
  · exact fun _ listed => nomatch listed
  · exact fun _ opens => nomatch opens

section

variable (disciplined : tree.Disciplined)
include disciplined

theorem Disciplined.clear_outsideClass (change : tree.Change after) {former : Class}
    (listed : former ∈ tree.classes) (parent : after.parent former.scope = some outer) :
    after.Clear outer := by
  obtain ⟨around, found⟩ := disciplined.classes former listed
  have within := lt_of_parent found
  rw [change.parent within] at parent
  have smaller := disciplined.ordered _ _ parent
  refine change.clear disciplined.toRooted (disciplined.outsideClass former listed outer parent)
    (Nat.lt_trans smaller within) ?_
  cases opens : tree.openFunction with
  | none => exact .inl rfl
  | some opened =>
    have earlier := disciplined.older opened opens former listed
    have inside := (disciplined.confined opened opens).le disciplined.ordered
    exact .inr (Nat.lt_of_lt_of_le (Nat.lt_trans smaller earlier) inside)

theorem Disciplined.clear_outside (change : tree.Change after) {opened : OpenFunction}
    (opens : tree.openFunction = some opened) (parent : tree.parent opened.scope = some outer) :
    after.Clear outer := by
  have smaller := disciplined.ordered _ _ parent
  have inside := (disciplined.confined opened opens).le disciplined.ordered
  exact change.clear disciplined.toRooted (disciplined.outside opened outer opens parent)
    (Nat.lt_trans smaller (lt_of_parent parent)) (.inr (Nat.lt_of_lt_of_le smaller inside))

theorem Disciplined.within (change : tree.Change after)
    (body : after.openFunction = tree.openFunction) (classes : tree.Retains after)
    (confined : ∀ opened, tree.openFunction = some opened → after.Inside opened.scope tree.current →
      after.Inside opened.scope after.current)
    (clear : tree.openFunction = none → after.Clear tree.current → after.Clear after.current) :
    after.Disciplined := by
  have rooted := disciplined.toRooted
  refine ⟨rooted.change change, fun opened opens => ?_, fun closed => ?_,
    fun opened outer opens parent => ?_, fun class_ listed outer parent => ?_,
    fun opened opens class_ listed => ?_⟩
  · rw [body] at opens
    exact confined opened opens ((disciplined.confined opened opens).transfer rooted.ordered
      (fun _ old => change.parent old) rooted.current)
  · rw [body] at closed
    exact clear closed (change.clear rooted (disciplined.clear closed) rooted.current (.inl closed))
  · rw [body] at opens
    obtain ⟨_, _, found⟩ := rooted.body opened opens
    rw [change.parent (lt_of_parent found)] at parent
    exact disciplined.clear_outside change opens parent
  · obtain ⟨former, here, same⟩ := classes class_ listed
    rw [same] at parent
    exact disciplined.clear_outsideClass change here parent
  · rw [body] at opens
    obtain ⟨former, here, same⟩ := classes class_ listed
    rw [same]
    exact disciplined.older opened opens former here

theorem Disciplined.closed (change : tree.Change after) (body : after.openFunction = none)
    (clear : after.Clear after.current)
    (classes : ∀ class_ ∈ after.classes, ∀ outer, after.parent class_.scope = some outer →
      (∃ former ∈ tree.classes, class_.scope = former.scope) ∨ after.Clear outer) : after.Disciplined := by
  refine ⟨disciplined.toRooted.change change, fun _ opens => ?_, fun _ => clear, fun _ _ opens => ?_,
    fun class_ listed outer parent => ?_, fun _ opens => ?_⟩
  · cases body.symm.trans opens
  · cases body.symm.trans opens
  · rcases classes class_ listed outer parent with ⟨former, here, same⟩ | new
    · rw [same] at parent
      exact disciplined.clear_outsideClass change here parent
    · exact new
  · cases body.symm.trans opens

theorem Disciplined.change (change : tree.Change after) : after.Disciplined := by
  have rooted := disciplined.toRooted
  have changed := change
  cases change with
  | keep nodes current body functions classes
  | declare stored nodes current body functions classes =>
    exact disciplined.within changed body classes (fun _ _ inside => current ▸ inside)
      fun _ clear => current ▸ clear
  | push nodes current body functions classes =>
    have grows := grows_push nodes
    have parent : after.parent after.current = some tree.current := current ▸ grows.parent_new
    refine disciplined.within changed body classes (fun _ _ inside => .child parent inside)
      fun _ clear => clear.inner parent fun name => ?_
    rw [current, lookup_of_nodes nodes, lookup_push, lookup_of_le (Nat.le_refl _)]
  | enter closed nodes current body functions classes =>
    have grows := grows_bind_push nodes
    have clear := changed.clear rooted (disciplined.clear closed) rooted.current (.inl closed)
    refine ⟨rooted.change changed, fun opened opens => ?_, fun other => ?_,
      fun opened outer opens parent => ?_, fun class_ listed outer parent => ?_,
      fun opened opens class_ listed => ?_⟩
    · cases body.symm.trans opens
      exact current ▸ .here
    · cases body.symm.trans other
    · cases body.symm.trans opens
      cases grows.parent_new.symm.trans parent
      exact clear
    · obtain ⟨former, here, same⟩ := classes class_ listed
      rw [same] at parent
      exact disciplined.clear_outsideClass changed here parent
    · cases body.symm.trans opens
      obtain ⟨former, here, same⟩ := classes class_ listed
      obtain ⟨_, found⟩ := rooted.classes former here
      rw [same]
      exact lt_of_parent found
  | leave opens nodes current body functions classes =>
    obtain ⟨_, outer, found⟩ := rooted.body _ opens
    refine disciplined.closed changed body ?_ fun class_ listed _ _ => .inl (classes class_ listed)
    rw [current, found, Option.getD_some]
    exact disciplined.clear_outside changed opens found
  | enterClass closed nodes current body functions classes =>
    have grows := grows_bind_push nodes
    have clear := changed.clear rooted (disciplined.clear closed) rooted.current (.inl closed)
    have parent : after.parent after.current = some tree.current := current ▸ grows.parent_new
    refine disciplined.closed changed body (clear.inner parent fun name => ?_)
      fun class_ listed outer found => ?_
    · rw [current, lookup_of_nodes nodes, lookup_push, lookup_of_le (Nat.le_of_eq (size_bind ..))]
    · rcases classes class_ listed with new | former
      · rw [new, grows.parent_new] at found
        cases found
        exact .inr clear
      · exact .inl former
  | leaveClass listed closed nodes current body functions classes =>
    obtain ⟨outer, found⟩ := rooted.classes _ listed
    refine disciplined.closed changed body ?_ fun class_ listed _ _ => .inl (classes class_ listed)
    rw [current, found, Option.getD_some]
    refine disciplined.clear_outsideClass changed listed ?_
    rw [changed.parent (lt_of_parent found), found]

theorem Disciplined.pop (stays : tree.abandons .pop = false) : tree.pop.Disciplined := by
  unfold Tree.pop
  split
  · rename_i around found
    have rooted : ({ tree with current := around } : Tree).Rooted := by
      have popped := disciplined.toRooted.pop
      rwa [Tree.pop, found] at popped
    refine ⟨rooted, fun opened opens => ?_,
      fun closed => ((disciplined.clear closed).around found).of_nodes rfl,
      fun opened outer opens parent => (disciplined.outside opened outer opens parent).of_nodes rfl,
      fun class_ listed outer parent =>
        (disciplined.outsideClass class_ listed outer parent).of_nodes rfl, disciplined.older⟩
    -- The scope that is left is not the body's, so it lies properly inside it.
    have opens : tree.openFunction = some opened := opens
    have elsewhere : opened.scope ≠ tree.current := by
      intro same
      simp [abandons, opens, same] at stays
    have inside := disciplined.confined opened opens
    generalize tree.current = left at inside found elsewhere
    cases inside with
    | here => exact absurd rfl elsewhere
    | child parent inside =>
      cases parent.symm.trans found
      exact inside.of_nodes rfl
  · exact disciplined

theorem Disciplined.changes {least : ScopeId}
    (changes : Relation.ReflTransGen (ChangeFrom least) tree after) : after.Disciplined := by
  induction changes with
  | refl => exact disciplined
  | tail _ change ih => exact ih.change change.1

theorem Disciplined.perform {operation : Operation} (stays : tree.abandons operation = false) :
    (tree.perform operation).Disciplined := by
  rcases perform_cases (Nat.zero_le _) disciplined.toRooted operation with rfl | changes
  · exact disciplined.pop stays
  · exact disciplined.changes changes

end

/-- A body that is left with its function still open does not enclose the current scope. -/
theorem Rooted.not_confined {operation : Operation} (rooted : tree.Rooted)
    (leaves : tree.abandons operation = true) : ¬(tree.perform operation).Confined := by
  have pops : operation = .pop := by cases operation <;> first | rfl | cases leaves
  subst pops
  intro confined
  cases opens : tree.openFunction with
  | none => simp [abandons, opens] at leaves
  | some opened =>
    have here : opened.scope = tree.current := by simpa [abandons, opens] using leaves
    obtain ⟨_, outer, found⟩ := rooted.body opened opens
    have popped : tree.perform .pop = { tree with current := outer } := by
      rw [perform, Tree.pop, ← here, found]
    rw [popped] at confined
    have inside := (confined opened opens).le rooted.ordered
    exact Nat.not_le.2 (rooted.ordered _ _ found) inside

section

variable (disciplined : tree.Disciplined)
include disciplined

theorem Disciplined.performAll {operations : List Operation}
    (orderly : tree.isOrderly operations = true) : (tree.performAll operations).Disciplined := by
  induction operations generalizing tree with
  | nil => exact disciplined
  | cons operation rest ih =>
    simp only [isOrderly, Bool.and_eq_true, Bool.not_eq_true'] at orderly
    exact ih (disciplined.perform orderly.1) orderly.2

/-- Sequences that leave no body with its function open are those throughout which the tree stands
inside the open function. -/
theorem Disciplined.isOrderly_iff (operations : List Operation) : tree.isOrderly operations = true ↔
      ∀ earlier, earlier <+: operations → (tree.performAll earlier).Confined := by
  induction operations generalizing tree with
  | nil =>
    refine ⟨fun _ earlier before => ?_, fun _ => rfl⟩
    cases List.prefix_nil.1 before
    exact disciplined.confined
  | cons operation rest ih =>
    simp only [isOrderly, Bool.and_eq_true, Bool.not_eq_true']
    constructor
    · rintro ⟨stays, orderly⟩ earlier before
      rcases List.prefix_cons_iff.1 before with rfl | ⟨further, rfl, within⟩
      · exact disciplined.confined
      · exact (ih (disciplined.perform stays)).1 orderly further within
    · intro confined
      have stays : tree.abandons operation = false := by
        rw [Bool.eq_false_iff]
        intro leaves
        exact disciplined.toRooted.not_confined leaves (confined [operation] ⟨rest, rfl⟩)
      refine ⟨stays, (ih (disciplined.perform stays)).2 fun further within => ?_⟩
      exact confined (operation :: further) ((List.prefix_cons_inj operation).2 within)

/-- With no function open and no member context, no name stands for a variable kept with a function's
cells. -/
theorem Disciplined.resolve {name : String} {var : Variable}
    (closed : tree.openFunction = none) (context : tree.context = none)
    (found : tree.resolve name = .ok (.variable var)) : var.address.area ≠ .locals := by
  rw [Tree.resolve, context, Option.bind_none] at found
  simp only at found
  split at found
  · rename_i sought
    cases found
    obtain ⟨outer, inside, here⟩ := search_eq_some sought
    exact disciplined.clear closed outer name var inside here
  · cases found

end

/-- The tree stands inside the open function throughout a sequence of operations exactly if none of them
leaves the scope of its body other than by closing it, and after such a sequence no cell of a function
is seen while none is open. -/
theorem confined_iff_isOrderly (memory : Memory) (operations : List Operation) :
    ((∀ earlier, earlier <+: operations → ((ofMemory memory).performAll earlier).Confined) ↔
      (ofMemory memory).isOrderly operations = true) ∧
    ((ofMemory memory).isOrderly operations = true →
      ((ofMemory memory).performAll operations).openFunction = none →
      ((ofMemory memory).performAll operations).context = none →
      ∀ name variable_,
        ((ofMemory memory).performAll operations).resolve name = .ok (.variable variable_) →
          variable_.address.area ≠ .locals) := by
  have start := disciplined_ofMemory memory
  refine ⟨(start.isOrderly_iff operations).symm, fun orderly closed context name variable_ found => ?_⟩
  exact (start.performAll orderly).resolve closed context found

theorem resolve_of_lookup {found : Alias} (context : tree.context = none)
    (here : tree.lookup tree.current name = some found) : tree.resolve name = .ok found := by
  rw [Tree.resolve, context, Option.bind_none, search, here]

private def nested : List Operation :=
  [.declareFunction "f" .void 0, .push, .declareVariable "x" .int [], .pop, .closeFunction,
    .declareVariable "y" .int []]

theorem confined_nested :
    let final := (ofMemory (.ofCapacities {})).performAll nested
    (ofMemory (.ofCapacities {})).isOrderly nested = true ∧ final.openFunction = none ∧
      final.context = none ∧
      final.resolve "y" = .ok (.variable ⟨"y", .int, ⟨.global, .int, false, 0⟩, [], "", "", 0⟩) ∧
      (⟨.global, .int, false, 0⟩ : Address).area ≠ .locals := by
  have found : ((ofMemory (.ofCapacities {})).performAll nested).resolve "y" =
      .ok (.variable ⟨"y", .int, ⟨.global, .int, false, 0⟩, [], "", "", 0⟩) :=
    resolve_of_lookup rfl rfl
  have kept := (confined_iff_isOrderly (.ofCapacities {}) nested).2 rfl rfl rfl _ _ found
  exact ⟨rfl, rfl, rfl, found, kept⟩

/-- The scope of the body is left while the function is open, so a variable declared next is the
function's and yet found after the function is closed. -/
theorem local_found_after_pop :
    let parted := [Operation.declareFunction "f" .void 0, .pop]
    let final := ((ofMemory (.ofCapacities {})).performAll parted).performAll
      [.declareVariable "x" .int [], .closeFunction]
    ¬((ofMemory (.ofCapacities {})).performAll parted).Confined ∧
      final.openFunction = none ∧ final.context = none ∧
      final.resolve "x" = .ok (.variable ⟨"x", .int, ⟨.locals, .int, false, 0⟩, [], "", "", 0⟩) := by
  intro parted final
  have opened : ((ofMemory (.ofCapacities {})).perform (.declareFunction "f" .void 0)).Disciplined :=
    (disciplined_ofMemory _).perform rfl
  have left : ((ofMemory (.ofCapacities {})).perform (.declareFunction "f" .void 0)).abandons .pop =
    true := rfl
  exact ⟨opened.toRooted.not_confined left, rfl, rfl, resolve_of_lookup rfl rfl⟩

end Quadruple.Scope.Tree
