import Quadruple.Proofs.ScopeDiscipline

/-!
What names stand for. Bindings are only ever added, and only where the tree stands. So a name keeps its
meaning in a scope once it has one, it stands for what the nearest scope around says of it, and what is
declared in a scope is forgotten when the scope is left.
-/

namespace Quadruple.Scope.Tree

variable {tree after : Tree} {scope outer least : ScopeId} {name : String} {alias_ found : Alias}

/-! ### Bindings -/

theorem lookup_bind_of_ne (elsewhere : scope ≠ tree.current) (other : String) :
    (tree.bind name alias_).lookup scope other = tree.lookup scope other := by
  rw [lookup, getElem?_bind, if_neg (Ne.symm elsewhere), lookup]

theorem lookup_bind_of_fresh {other : String} (fresh : tree.isDeclared name = false)
    (bound : tree.lookup scope other = some found) :
    (tree.bind name alias_).lookup scope other = some found := by
  by_cases here : scope = tree.current
  · subst here
    have different : other ≠ name := by
      rintro rfl
      rw [isDeclared, bound] at fresh
      cases fresh
    obtain ⟨node, at_, listed⟩ := Option.bind_eq_some_iff.1 bound
    rw [lookup, getElem?_bind, if_pos rfl, at_]
    simp only [Option.map_some, Option.bind_some, List.lookup_cons, beq_false_of_ne different]
    exact listed
  · rw [lookup_bind_of_ne here, bound]

theorem Change.lookup_of_some (change : tree.Change after) (bound : tree.lookup scope name = some found) :
    after.lookup scope name = some found := by
  rcases change.lookup_eq with same | ⟨_, _, fresh, same, _⟩
  · rw [same, bound]
  · rw [same, lookup_bind_of_fresh fresh bound]

theorem Change.lookup_of_ne (change : tree.Change after) (elsewhere : scope ≠ tree.current) (name : String) :
    after.lookup scope name = tree.lookup scope name := by
  rcases change.lookup_eq with same | ⟨_, _, _, same, _⟩
  · rw [same]
  · rw [same, lookup_bind_of_ne elsewhere]

/-! ### Names that stay -/

/-- Scopes and bindings are still there, and the scopes below a number are as they were. -/
structure Extends (least : ScopeId) (tree after : Tree) : Prop where
  rooted : after.Rooted
  parent : ∀ scope outer, tree.parent scope = some outer → after.parent scope = some outer
  bound : ∀ scope name found, tree.lookup scope name = some found →
    after.lookup scope name = some found
  below : ∀ scope < least, after.parent scope = tree.parent scope ∧
    ∀ name, after.lookup scope name = tree.lookup scope name

namespace Extends

theorem trans {between : Tree} (first : Extends least tree between)
    (second : Extends least between after) : Extends least tree after where
  rooted := second.rooted
  parent := fun scope outer found => second.parent scope outer (first.parent scope outer found)
  bound := fun scope name found bound => second.bound scope name found (first.bound scope name found bound)
  below := by
    intro scope lower
    obtain ⟨parent, names⟩ := first.below scope lower
    obtain ⟨parent', names'⟩ := second.below scope lower
    exact ⟨parent'.trans parent, fun name => (names' name).trans (names name)⟩

theorem of_nodes (rooted : after.Rooted) (same : after.nodes = tree.nodes) : Extends least tree after where
  rooted := rooted
  parent := fun scope _ found => (parent_of_nodes same scope).trans found
  bound := fun scope name _ bound => (lookup_of_nodes same scope name).trans bound
  below := fun scope _ => ⟨parent_of_nodes same scope, lookup_of_nodes same scope⟩

theorem change (rooted : tree.Rooted) (change : ChangeFrom least tree after) : Extends least tree after where
  rooted := rooted.change change.1
  parent := fun scope outer found => (change.1.parent (lt_of_parent found)).trans found
  bound := fun _ _ _ => change.1.lookup_of_some
  below := by
    intro scope lower
    have earlier := Nat.lt_of_lt_of_le lower change.2
    exact ⟨change.1.parent (Nat.lt_trans earlier rooted.current),
      change.1.lookup_of_ne (Nat.ne_of_lt earlier)⟩

theorem perform (rooted : tree.Rooted) (within : least ≤ tree.current) (operation : Operation) :
    Extends least tree (tree.perform operation) := by
  rcases perform_cases within rooted operation with rfl | changes
  · obtain ⟨current, same⟩ := tree.pop_eq
    exact of_nodes rooted.pop (show tree.pop.nodes = tree.nodes by rw [same])
  · generalize tree.perform operation = after at changes
    induction changes with
    | refl => exact of_nodes rooted rfl
    | tail _ step ih => exact ih.trans (change ih.rooted step)

theorem performAll (rooted : tree.Rooted) {operations : List Operation}
    (within : ∀ earlier, earlier <+: operations → least ≤ (tree.performAll earlier).current) :
    Extends least tree (tree.performAll operations) := by
  induction operations generalizing tree with
  | nil => exact of_nodes rooted rfl
  | cons operation rest ih =>
    have first := perform rooted (within [] List.nil_prefix) operation
    exact first.trans (ih first.rooted fun earlier before =>
      within (operation :: earlier) ((List.prefix_cons_inj operation).2 before))

end Extends

theorem Rooted.extends (rooted : tree.Rooted) (operations : List Operation) :
    Extends 0 tree (tree.performAll operations) :=
  .performAll rooted fun _ _ => Nat.zero_le _

/-! ### The nearest binding -/

/-- Of the scopes around a given one that bind a name, the one that lies inside all others. -/
structure Nearest (tree : Tree) (scope : ScopeId) (name : String) (nearest : ScopeId) : Prop where
  around : tree.Inside nearest scope
  binds : tree.lookup nearest name ≠ none
  inmost : ∀ outer, tree.Inside outer scope → tree.lookup outer name ≠ none → tree.Inside outer nearest

theorem nearest_of_child {around nearest : ScopeId} (parent : tree.parent scope = some around)
    (unbound : tree.lookup scope name = none) :
    tree.Nearest scope name nearest ↔ tree.Nearest around name nearest := by
  have inside {outer : ScopeId} (binds : tree.lookup outer name ≠ none) :
      tree.Inside outer scope ↔ tree.Inside outer around := by
    refine ⟨fun inside => ?_, .child parent⟩
    cases inside with
    | here => exact absurd unbound binds
    | child parent' inside =>
      cases parent.symm.trans parent'
      exact inside
  constructor
  · exact fun near => ⟨(inside near.binds).1 near.around, near.binds, fun outer around binds =>
      near.inmost outer ((inside binds).2 around) binds⟩
  · exact fun near => ⟨(inside near.binds).2 near.around, near.binds, fun outer around binds =>
      near.inmost outer ((inside binds).1 around) binds⟩

theorem search_eq_some_iff (ordered : tree.Ordered) : tree.search scope name = some found ↔
    ∃ nearest, tree.Nearest scope name nearest ∧ tree.lookup nearest name = some found := by
  fun_induction Tree.search tree scope name with
  | case1 scope other here =>
    have bound : tree.lookup scope name ≠ none := by rw [here]; exact Option.some_ne_none _
    constructor
    · rintro ⟨⟩
      exact ⟨scope, ⟨.here, bound, fun _ inside _ => inside⟩, here⟩
    · rintro ⟨nearest, near, same⟩
      have above := (near.inmost scope .here bound).le ordered
      cases Nat.le_antisymm (near.around.le ordered) above
      exact here.symm.trans same
  | case2 scope unbound outermost =>
    constructor
    · rintro ⟨⟩
    · rintro ⟨nearest, near, _⟩
      cases near.around with
      | here => exact absurd unbound near.binds
      | child parent => cases outermost.symm.trans parent
  | case3 scope unbound around parent _ ih =>
    rw [ih]
    exact exists_congr fun nearest => and_congr_left' (nearest_of_child parent unbound).symm
  | case4 scope _ around parent early => exact absurd (ordered _ _ parent) early

theorem search_eq_none_iff (ordered : tree.Ordered) : tree.search scope name = none ↔
    ∀ outer, tree.Inside outer scope → tree.lookup outer name = none := by
  constructor
  · intro unfound outer inside
    induction inside with
    | here =>
      rw [search] at unfound
      split at unfound
      · cases unfound
      · assumption
    | child parent _ ih =>
      rw [search] at unfound
      split at unfound
      · cases unfound
      · simp only [parent, if_pos (ordered _ _ parent)] at unfound
        exact ih unfound
  · intro unbound
    rw [Option.eq_none_iff_forall_not_mem]
    intro found sought
    obtain ⟨outer, inside, here⟩ := search_eq_some sought
    cases (unbound outer inside).symm.trans here

theorem resolve_of_context (context : tree.context = none) (name : String) : tree.resolve name =
    (tree.search tree.current name).elim (.error (.noAlias name)) .ok := by
  rw [resolve, context, Option.bind_none]
  cases tree.search tree.current name <;> rfl

/-- Names stand for the same in scopes that are the same so far. -/
theorem search_eq
    (same : ∀ scope < least, after.parent scope = tree.parent scope ∧
      ∀ name, after.lookup scope name = tree.lookup scope name) (lower : scope < least) :
    after.search scope name = tree.search scope name := by
  fun_induction Tree.search tree scope name with
  | case1 scope other here => rw [search, (same scope lower).2, here]
  | case2 scope unbound outermost =>
    rw [search, (same scope lower).2, unbound]
    simp only [(same scope lower).1, outermost]
  | case3 scope unbound around parent earlier ih =>
    rw [search, (same scope lower).2, unbound]
    simp only [(same scope lower).1, parent, if_pos earlier]
    exact ih (Nat.lt_trans earlier lower)
  | case4 scope unbound around parent early =>
    rw [search, (same scope lower).2, unbound]
    simp only [(same scope lower).1, parent, if_neg early]

theorem resolve_push_pop (rooted : tree.Rooted) {inner : List Operation}
    (stays : ∀ earlier, earlier <+: inner →
      (tree.push.performAll earlier).Inside tree.nodes.size (tree.push.performAll earlier).current)
    (back : (tree.push.performAll inner).current = tree.nodes.size) (context : tree.context = none)
    (context' : (tree.push.performAll inner).pop.context = none) (name : String) :
    (tree.push.performAll inner).pop.resolve name = tree.resolve name := by
  have pushed : tree.push.Rooted := rooted.change (.push rfl rfl rfl rfl (retains_same rfl))
  have kept : Extends tree.nodes.size tree.push (tree.push.performAll inner) :=
    .performAll pushed fun earlier before =>
      (stays earlier before).le (pushed.extends earlier).rooted.ordered
  have outside : (tree.push.performAll inner).parent tree.nodes.size = some tree.current :=
    kept.parent _ _ (by rw [parent_push, if_pos rfl])
  have popped : (tree.push.performAll inner).pop =
      { tree.push.performAll inner with current := tree.current } := by
    rw [pop, back, outside]
  have same : ∀ scope < tree.nodes.size,
      (tree.push.performAll inner).parent scope = tree.parent scope ∧
      ∀ name, (tree.push.performAll inner).lookup scope name = tree.lookup scope name := by
    intro scope lower
    obtain ⟨parent, names⟩ := kept.below scope lower
    refine ⟨?_, fun name => (names name).trans (lookup_push ..)⟩
    rw [parent, parent_push, if_neg (Nat.ne_of_lt lower)]
  rw [resolve_of_context context, resolve_of_context context', popped]
  exact congrArg (Option.elim · _ _) (search_eq same rooted.current)

/-- After any sequence of operations, every scope has a smaller number than those inside it, and
whatever is done next, a name that is bound in a scope stays bound there to the same. With no member
context, a name stands for what the nearest scope around the current one says, and is unresolved exactly
if no scope around says anything. So what is done from opening a scope to leaving it, staying inside it,
changes nothing about what names stand for. -/
theorem names_resolve_lexically (memory : Memory) (operations : List Operation) :
    let tree := (ofMemory memory).performAll operations
    (∀ scope outer, tree.parent scope = some outer → outer < scope) ∧
    (∀ more scope name found, tree.lookup scope name = some found →
      (tree.performAll more).lookup scope name = some found) ∧
    (tree.context = none → ∀ name,
      (∀ found, tree.resolve name = .ok found ↔ ∃ nearest,
        tree.Nearest tree.current name nearest ∧ tree.lookup nearest name = some found) ∧
      ((∃ failure, tree.resolve name = .error failure ∧ failure.report.kind = .unresolvedAlias) ↔
        ∀ outer, tree.Inside outer tree.current → tree.lookup outer name = none)) ∧
    ∀ inner,
      (∀ earlier, earlier <+: inner →
        (tree.performAll (.push :: earlier)).Inside tree.nodes.size
          (tree.performAll (.push :: earlier)).current) →
      (tree.performAll (.push :: inner)).current = tree.nodes.size →
      tree.context = none → (tree.performAll (.push :: inner ++ [.pop])).context = none →
      ∀ name, (tree.performAll (.push :: inner ++ [.pop])).resolve name = tree.resolve name := by
  intro tree
  have rooted : tree.Rooted := ((rooted_ofMemory memory).extends operations).rooted
  refine ⟨rooted.ordered, fun more => (rooted.extends more).bound, fun context name => ⟨fun found => ?_, ?_⟩,
    fun inner stays back context context' name => ?_⟩
  · rw [resolve_of_context context, ← search_eq_some_iff rooted.ordered]
    cases tree.search tree.current name with
    | none => simp
    | some => simp
  · rw [resolve_of_context context, ← search_eq_none_iff rooted.ordered]
    cases tree.search tree.current name with
    | none => simp [Error.report, Report.of]
    | some => simp
  · have way : tree.performAll (.push :: inner ++ [.pop]) = (tree.push.performAll inner).pop :=
      List.foldl_append
    rw [way] at context' ⊢
    exact resolve_push_pop rooted stays back context context' name

end Quadruple.Scope.Tree
