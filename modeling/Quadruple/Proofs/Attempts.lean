import Quadruple.Proofs.Actions

/-!
What operations of a compilation keep whatever way they end. An operation that fails keeps what it did
before, so a property of the state that is to hold after every sequence of events must survive failures
too. An abrupt end is told from an error that is reported.
-/

namespace Quadruple.Generator

/-- What operations are held to: a property of the state that they keep, and what may be left of it by one
that fails. To report an error is to leave all of it. -/
structure Terms where
  holds : Generator → Prop
  fails : Failure → Generator → Prop
  reports : ∀ generator cause, holds generator → fails (.error cause) generator

/-- The property survives failures too, and an end is abrupt only where that is allowed. -/
def Terms.keeping (holds : Generator → Prop) (abrupt : Prop) : Terms where
  holds := holds
  fails := fun failure generator => (failure = .crash → abrupt) ∧ holds generator
  reports := fun _ _ kept => ⟨nofun, kept⟩

variable {α β : Type} {terms : Terms} {action : Action α} {rest : α → Action β} {Given : α → Prop}
  {Then : β → Prop} {cause : Error} {change : Generator → Generator} {elements : List β}
  {operation : Scope.Tree → Except Scope.Error (α × Scope.Tree)} {name : String} {returns : DataType}
  {start : Int} {holds : Generator → Prop} {abrupt : Prop} {before : Generator}

def Terms.Abrupt (terms : Terms) : Prop :=
  ∀ generator, terms.holds generator → terms.fails .crash generator

def Terms.Leaves (terms : Terms) (Given : α → Prop) : Except Failure α × Generator → Prop
  | (.ok value, after) => Given value ∧ terms.holds after
  | (.error failure, after) => terms.fails failure after

def Keeps (terms : Terms) (action : Action α) (Given : α → Prop) : Prop :=
  ∀ before, terms.holds before → terms.Leaves Given (action.run.run before)

/-- Nothing is asked of the value. -/
abbrev Survives (terms : Terms) (action : Action α) : Prop :=
  Keeps terms action fun _ => True

theorem Keeps.of_gives {value : α} {left : Generator} (keeps : Keeps terms action Given)
    (kept : terms.holds before) (gives : Gives action before value left) : Given value ∧ terms.holds left := by
  have leaves := keeps before kept
  rwa [show action.run.run before = (.ok value, left) from gives] at leaves

section

variable (keeps : Keeps (.keeping holds abrupt) action Given) (kept : holds before)
include keeps kept

theorem Keeps.after : holds (action.run.run before).2 := by
  have leaves := keeps before kept
  generalize action.run.run before = ran at leaves ⊢
  obtain ⟨_ | _, left⟩ := ran <;> exact leaves.2

theorem Keeps.ne_crash (safe : ¬ abrupt) : (action.run.run before).1 ≠ .error .crash := by
  have leaves := keeps before kept
  generalize action.run.run before = ran at leaves ⊢
  obtain ⟨outcome, left⟩ := ran
  rintro ⟨⟩
  exact safe (leaves.1 rfl)

end

theorem run_bind (before : Generator) :
    (action >>= rest).run.run before =
      match action.run.run before with
      | (.ok value, between) => (rest value).run.run between
      | (.error failure, between) => (.error failure, between) := by
  rw [ExceptT.run_bind, StateT.run_bind]
  cases StateT.run (ExceptT.run action) before with
  | mk outcome between => cases outcome <;> rfl

theorem keeps_bind (first : Keeps terms action Given)
    (next : ∀ value, Given value → Keeps terms (rest value) Then) : Keeps terms (action >>= rest) Then := by
  intro before kept
  have leaves := first before kept
  rw [run_bind]
  generalize action.run.run before = ran at leaves ⊢
  obtain ⟨outcome, between⟩ := ran
  cases outcome with
  | ok value => exact next value leaves.1 between leaves.2
  | error => exact leaves

theorem keeps_ite_bind {condition : Prop} [Decidable condition] {other : Action α}
    (first : Keeps terms action Given) (second : Keeps terms other Given)
    (next : ∀ value, Given value → Keeps terms (rest value) Then) :
    Keeps terms (if condition then action >>= rest else other >>= rest) Then := by
  split
  · exact keeps_bind first next
  · exact keeps_bind second next

theorem keeps_pure {value : α} (given : Given value) : Keeps terms (pure value) Given :=
  fun _ kept => ⟨given, kept⟩

theorem keeps_fail : Keeps terms (fail cause : Action α) Given :=
  fun before kept => terms.reports before cause kept

theorem keeps_fail_bind : Keeps terms (fail cause >>= rest) Then :=
  keeps_bind keeps_fail fun _ => False.elim

theorem keeps_crash (allowed : terms.Abrupt) : Keeps terms (throw .crash : Action α) Given :=
  allowed

theorem keeps_get : Keeps terms (get : Action Generator) terms.holds :=
  fun _ kept => ⟨kept, kept⟩

theorem keeps_modify (closed : ∀ before, terms.holds before → terms.holds (change before)) :
    Survives terms (modify change : Action Unit) :=
  fun before kept => ⟨trivial, closed before kept⟩

theorem keeps_settle {outcome : Except Error α} (given : ∀ value, outcome = .ok value → Given value) :
    Keeps terms (settle outcome) Given := by
  cases outcome with
  | ok value => exact keeps_pure (given value rfl)
  | error cause => exact keeps_fail

theorem Keeps.weaken {Weaker : α → Prop} (keeps : Keeps terms action Given)
    (implies : ∀ value, Given value → Weaker value) : Keeps terms action Weaker := by
  intro before kept
  have leaves := keeps before kept
  generalize action.run.run before = ran at leaves ⊢
  obtain ⟨outcome, left⟩ := ran
  cases outcome with
  | ok value => exact ⟨implies value leaves.1, leaves.2⟩
  | error => exact leaves

theorem keeps_forIn {body : β → PUnit → Action (ForInStep PUnit)}
    (round : ∀ element ∈ elements, Survives terms (body element ⟨⟩)) :
    Survives terms (forIn elements ⟨⟩ body) := by
  induction elements with
  | nil => exact keeps_pure trivial
  | cons element elements ih =>
    rw [List.forIn_cons]
    refine keeps_bind (round element List.mem_cons_self) fun step _ => ?_
    cases step with
    | done => exact keeps_pure trivial
    | yield => exact ih fun other listed => round other (List.mem_cons_of_mem _ listed)

theorem keeps_forM {body : β → Action PUnit}
    (round : ∀ element ∈ elements, Survives terms (body element)) :
    Survives terms (elements.forM body) := by
  induction elements with
  | nil => exact keeps_pure trivial
  | cons element elements ih =>
    refine keeps_bind (round element List.mem_cons_self) fun _ _ => ?_
    exact ih fun other listed => round other (List.mem_cons_of_mem _ listed)

/-! ### Operations that change what they have read -/

theorem run_get_bind {rest : Generator → Action β} (before : Generator) :
    (get >>= rest : Action β).run.run before = (rest before).run.run before :=
  rfl

theorem run_modify_bind {rest : Unit → Action β} (before : Generator) :
    (modify change >>= rest : Action β).run.run before = (rest ()).run.run (change before) :=
  rfl

theorem run_onTree (before : Generator) :
    (onTree operation).run.run before =
      match operation before.tree with
      | .ok (value, tree) => (.ok value, { before with tree })
      | .error cause => (.error (.error (.scope cause)), before) := by
  unfold onTree
  rw [run_get_bind]
  cases operation before.tree <;> rfl

theorem keeps_onTree
    (closed : ∀ before value tree, terms.holds before → operation before.tree = .ok (value, tree) →
      Given value ∧ terms.holds { before with tree }) :
    Keeps terms (onTree operation) Given := by
  intro before kept
  rw [run_onTree]
  split
  · rename_i value tree performed
    exact closed before value tree kept performed
  · exact terms.reports _ _ kept

variable {operation : CodeBuffer → Except Code.Error Unit × CodeBuffer}

theorem run_onBuffer (before : Generator) :
    (onBuffer operation).run.run before =
      ((operation before.buffer).1.mapError fun cause => .error (.code cause),
        { before with buffer := (operation before.buffer).2 }) := by
  unfold onBuffer
  rw [run_get_bind, run_modify_bind]
  cases operation before.buffer with
  | mk outcome buffer => cases outcome <;> rfl

theorem keeps_onBuffer (closed : ∀ before, terms.holds before →
      terms.holds { before with buffer := (operation before.buffer).2 }) :
    Survives terms (onBuffer operation) := by
  intro before kept
  have closed := closed before kept
  rw [run_onBuffer]
  cases (operation before.buffer).1 with
  | ok => exact ⟨trivial, closed⟩
  | error => exact terms.reports _ _ closed

theorem run_openFunction (before : Generator) :
    (openFunction name returns start).run.run before =
      ((before.tree.declareFunction name returns start).1.mapError fun cause => .error (.scope cause),
        { before with tree := (before.tree.declareFunction name returns start).2 }) := by
  unfold openFunction
  rw [run_get_bind, run_modify_bind]
  cases before.tree.declareFunction name returns start with
  | mk outcome tree => cases outcome <;> rfl

theorem keeps_openFunction (closed : ∀ before, terms.holds before →
      terms.holds { before with tree := (before.tree.declareFunction name returns start).2 }) :
    Survives terms (openFunction name returns start) := by
  intro before kept
  have closed := closed before kept
  rw [run_openFunction]
  cases (before.tree.declareFunction name returns start).1 with
  | ok => exact ⟨trivial, closed⟩
  | error => exact terms.reports _ _ closed

theorem keeps_declareArgument {type : DataType} {dimensions : List Int}
    (declares : Survives terms (onTree fun tree => tree.declareArgument name type [])) :
    Survives terms (declareArgument name type dimensions) := by
  unfold declareArgument
  split
  · exact keeps_fail_bind
  · exact keeps_bind declares fun _ _ => keeps_pure trivial

theorem keeps_declareStandardNatives
    (declares : ∀ name returns, Survives terms (declareNative name returns))
    (argues : ∀ name type, Survives terms (declareArgument name type []))
    (closes : Survives terms closeFunction) :
    Survives terms declareStandardNatives := by
  refine keeps_forM fun signature _ => ?_
  refine keeps_bind (declares _ _) fun _ _ => ?_
  refine keeps_bind (keeps_forIn fun parameter _ => ?_) fun _ _ => closes
  exact keeps_bind (argues _ _) fun _ _ => keeps_pure trivial

/-! ### Sequences of events -/

/-- A compilation before its first event, with the functions of the host declared or not. -/
def fresh (capacities : Capacities) (natives : Bool) : Generator :=
  if natives then ((ofCapacities capacities).attempt declareStandardNatives).2
  else ofCapacities capacities

/-- The state after commands of which any may have failed. -/
def after (generator : Generator) (commands : List Event.Command) : Generator :=
  commands.foldl (fun before command => (before.attempt command.perform).2) generator

theorem after_append (generator : Generator) (earlier later : List Event.Command) :
    generator.after (earlier ++ later) = (generator.after earlier).after later :=
  List.foldl_append

theorem holds_after (generator : Generator) (commands : List Event.Command) (start : holds generator)
    (step : ∀ before (command : Event.Command), holds before → holds (before.attempt command.perform).2) :
    holds (generator.after commands) := by
  induction commands generalizing generator with
  | nil => exact start
  | cons command commands ih => exact ih _ (step generator command start)

end Quadruple.Generator
