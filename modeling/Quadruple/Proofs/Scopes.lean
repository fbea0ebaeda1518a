import Quadruple.Proofs.Instructions
import Quadruple.Scope.Declaration

/-!
What declarations do when they succeed.
-/

namespace Quadruple.Scope.Tree

variable {tree after : Tree} {name : String} {var : Variable} {type returns : DataType}
  {dimensions : List Int} {class_ : String} {start : Int} {id : FunctionId}

theorem getElem?_bind (tree : Tree) (name : String) (alias_ : Alias) (scope : ScopeId) :
    (tree.bind name alias_).nodes[scope]? =
      if tree.current = scope then
        (tree.nodes[scope]?).map fun node => { node with aliases := (name, alias_) :: node.aliases }
      else tree.nodes[scope]? := by
  simp only [bind, Array.getElem?_modify]

theorem openBody_eq (tree : Tree) (function : Function) :
    ∃ classes, (tree.openBody function).2 = { tree with
      nodes := (tree.bind function.name (.function tree.functions.size)).nodes.push
        ⟨some tree.current, []⟩
      current := tree.nodes.size
      functions := tree.functions.push function
      classes
      openFunction := some ⟨tree.functions.size, tree.nodes.size⟩ } := by
  have size : ∀ alias_ : Alias, (tree.bind function.name alias_).nodes.size = tree.nodes.size :=
    fun _ => Array.size_modify
  unfold openBody
  cases tree.memberClass? with
  | none =>
    refine ⟨tree.classes, ?_⟩
    rw [← size (.function tree.functions.size)]
    rfl
  | some class_ =>
    refine ⟨(tree.addMethod class_ tree.functions.size function.name).classes, ?_⟩
    rw [← size (.function tree.functions.size)]
    rfl

theorem place_eq_ok {fresh : Variable} {reference : Bool}
    (placed : tree.place fresh reference = .ok (var, after)) :
    (∃ class_, tree.memberClass? = some class_ ∧
      var = { fresh with
        owner := class_.name
        slot := class_.cells
        address := ⟨.stack, fresh.type, false, class_.cells.toUInt64.toUInt32⟩ } ∧
      after = (tree.setClass
        { class_ with
          cells := class_.cells + fresh.size
          fields := class_.fields ++ [var] }).bind fresh.name (.variable var)) ∨
    (tree.memberClass? = none ∧ ∃ address memory,
      tree.memory.allocate tree.storage fresh.type fresh.size.toInt reference = .ok (address, memory) ∧
      var = { fresh with address } ∧
      after = ({ tree with memory } : Tree).bind fresh.name (.variable var)) := by
  unfold place at placed
  cases member : tree.memberClass? with
  | some class_ =>
    simp only [member] at placed
    cases placed
    exact .inl ⟨class_, rfl, rfl, rfl⟩
  | none =>
    simp only [member] at placed
    split at placed
    · cases placed
    · rename_i address memory allocated
      cases placed
      exact .inr ⟨rfl, address, memory, allocated, rfl, rfl⟩

theorem declareVariable_eq_ok (declared : tree.declareVariable name type dimensions = .ok (var, after)) :
    type.isStored = true ∧ type ≠ .object ∧ (∀ extent ∈ dimensions, 1 ≤ extent) ∧
      tree.isDeclared name = false ∧
      tree.place ⟨name, type, .origin, dimensions, "", "", 0⟩ false = .ok (var, after) := by
  unfold declareVariable at declared
  split at declared
  · cases declared
  rename_i declarable
  split at declared
  · cases declared
  rename_i none
  split at declared
  · cases declared
  rename_i isNew
  simp only [Bool.or_eq_true, Bool.not_eq_true', decide_eq_true_eq, not_or, Bool.not_eq_false] at declarable
  refine ⟨declarable.1, declarable.2, fun extent listed => ?_, Bool.eq_false_iff.2 isNew, declared⟩
  have fits := List.find?_eq_none.1 none extent listed
  simp only [decide_eq_true_eq] at fits
  omega

theorem declareObject_eq_ok (declared : tree.declareObject name class_ = .ok (var, after)) :
    tree.isDeclared name = false ∧
      tree.place ⟨name, .object, .origin, [], class_, "", 0⟩ true = .ok (var, after) := by
  unfold declareObject at declared
  split at declared
  · cases declared
  · split at declared
    · cases declared
    · rename_i isNew
      exact ⟨Bool.eq_false_iff.2 isNew, declared⟩

theorem asArgument_eq_ok {declared : Except Error (Variable × Tree)}
    (argued : tree.asArgument name declared = .ok (var, after)) :
    ∃ function between, tree.openFunction = some function ∧ declared = .ok (var, between) ∧
      after = between.addArgument function.id var := by
  unfold asArgument at argued
  split at argued
  · cases argued
  · rename_i function opened
    obtain ⟨⟨argument, between⟩, found, ⟨⟩⟩ := map_eq_ok.1 argued
    exact ⟨function, between, opened, found, rfl⟩

theorem declareFunction_eq_ok (declared : tree.declareFunction name returns start = (.ok id, after)) :
    ∃ result allocated owner, tree.allocateResult name returns start = .ok (result, allocated) ∧
      id = allocated.functions.size ∧
      (tree.memberClass? = none ∧ owner = "" ∧
        after = (allocated.openBody ⟨name, returns, result, start, [], false, owner⟩).2 ∨
      ∃ class_ this, tree.memberClass? = some class_ ∧ owner = class_.name ∧
        (allocated.openBody ⟨name, returns, result, start, [], false, owner⟩).2.declareObjectArgument
          receiverName owner = .ok (this, after)) := by
  unfold declareFunction at declared
  split at declared
  · cases declared
  · split at declared
    · cases declared
    · split at declared
      · cases declared
      · split at declared
        · cases declared
        · rename_i result allocated found
          cases member : tree.memberClass? with
          | none =>
            simp only [member, Option.map_none, Option.getD_none, Option.isSome_none,
              Bool.false_eq_true, if_false] at declared
            cases declared
            exact ⟨result, allocated, "", found, rfl, .inl ⟨rfl, rfl, rfl⟩⟩
          | some class_ =>
            simp only [member, Option.map_some, Option.getD_some, Option.isSome_some, if_true]
              at declared
            split at declared
            · cases declared
            · rename_i this complete argued
              cases declared
              exact ⟨result, allocated, class_.name, found, rfl, .inr ⟨class_, this, rfl, rfl, argued⟩⟩

theorem allocateResult_eq_ok {result : Option Address}
    (allocated : tree.allocateResult name returns start = .ok (result, after)) :
    (result = none ∧ after = tree) ∨ ∃ address memory, result = some address ∧
      tree.memory.allocate tree.storage returns 1 false = .ok (address, memory) ∧
      after = { tree with memory } := by
  unfold allocateResult at allocated
  split at allocated
  · split at allocated
    · cases allocated
    · rename_i address memory found
      cases allocated
      exact .inr ⟨address, memory, rfl, found, rfl⟩
  · cases allocated
    exact .inl ⟨rfl, rfl⟩

theorem closeFunction_eq_ok (closed : tree.closeFunction = .ok (id, after)) :
    ∃ function, tree.openFunction = some function ∧
      after = { tree with
        current := (tree.parent function.scope).getD tree.current
        openFunction := none } := by
  unfold closeFunction at closed
  split at closed
  · cases closed
  · rename_i function opened
    cases closed
    exact ⟨function, opened, rfl⟩

theorem declareClass_eq_ok (declared : tree.declareClass name = .ok after) :
    tree.openFunction = none ∧ tree.class? name = none ∧ tree.isDeclared name = false ∧
      after = { (tree.bind name (.class name)).push with
        classes := tree.classes ++ [⟨name, (tree.bind name (.class name)).nodes.size, [], none, [], 0⟩]
        openClass := some name } := by
  unfold declareClass at declared
  split at declared
  · cases declared
  rename_i top
  split at declared
  · cases declared
  rename_i unknown
  split at declared
  · cases declared
  rename_i isNew
  cases declared
  simp only [Bool.or_eq_true, not_or, Option.not_isSome_iff_eq_none] at top unknown
  exact ⟨top.2, unknown, Bool.eq_false_iff.2 isNew, rfl⟩

theorem closeClass_eq_ok (closed : tree.closeClass = .ok after) :
    ∃ class_, tree.currentClass? = some class_ ∧ tree.currentFunction? = none ∧
      after = { tree with
        current := (tree.parent class_.scope).getD tree.current
        openClass := none } := by
  unfold closeClass at closed
  split at closed
  · cases closed
  · rename_i class_ found
    split at closed
    · cases closed
    · rename_i outside
      cases closed
      exact ⟨class_, found, outside, rfl⟩

theorem pop_eq (tree : Tree) : ∃ current, tree.pop = { tree with current } := by
  unfold pop
  split
  · exact ⟨_, rfl⟩
  · exact ⟨tree.current, rfl⟩

end Quadruple.Scope.Tree
