import Quadruple.Proofs.CrashFreedom

/-!
Declarations that fail. A method is recorded, bound and entered before its object gets a cell, and all of
that would stay if the object found none; but the cells of functions are free whenever a function may be
declared. Every other declaration, and the end of every body, is refused before anything is changed. So
a declaration that fails changes nothing, whatever events came before it.
-/

namespace Quadruple

namespace Scope.Tree

variable {tree : Tree} {name : String} {returns : DataType} {start : Int}

/-- A function that cannot be declared leaves its tree alone. -/
theorem Intact.declareFunction_of_error (intact : tree.Intact) {failure : Error}
    (fails : (tree.declareFunction name returns start).1 = .error failure) :
    (tree.declareFunction name returns start).2 = tree := by
  unfold declareFunction at fails ⊢
  split
  · rfl
  rename_i none_
  rw [none_] at fails
  have closed := intact.closed none_
  split
  · rfl
  rename_i returnable
  rw [if_neg returnable] at fails
  split
  · rfl
  rename_i undeclared
  rw [if_neg undeclared] at fails
  split
  · rfl
  rename_i result allocated found
  rw [found] at fails
  obtain ⟨kept, outside, sameMember⟩ := intact.toProvided.allocateResult closed found
  cases member : tree.memberClass? with
  | none =>
    rw [member] at fails
    simp at fails
  | some class_ =>
    -- The object's cell is the last thing asked for, and there always is one.
    obtain ⟨this, _, _, _, argued⟩ := kept.exists_receiver outside (sameMember.trans member)
      ⟨name, returns, result, start, [], false, class_.name⟩
    rw [member] at fails
    simp [argued] at fails

end Scope.Tree

namespace Generator

variable {α β : Type}

def Atomic (action : Action α) : Prop :=
  ∀ before failure, before.tree.Intact → (action.run.run before).1 = .error failure →
    (action.run.run before).2 = before

def Total (action : Action α) : Prop :=
  ∀ before failure, (action.run.run before).1 ≠ .error failure

theorem total_pure (value : α) : Total (pure value) :=
  nofun

theorem total_modify (change : Generator → Generator) : Total (modify change : Action Unit) :=
  nofun

theorem atomic_fail (cause : Error) : Atomic (fail cause : Action α) :=
  fun _ _ _ _ => rfl

theorem Atomic.bind {action : Action α} {rest : α → Action β} (first : Atomic action)
    (total : ∀ value, Total (rest value)) : Atomic (action >>= rest) := by
  intro before failure intact fails
  have kept := first before failure intact
  rw [run_bind] at fails ⊢
  split at fails
  · exact absurd fails (total _ _ _)
  · rename_i performed
    rw [performed] at kept
    cases fails
    exact kept rfl

theorem atomic_onTree (operation : Scope.Tree → Except Scope.Error (α × Scope.Tree)) :
    Atomic (onTree operation) := by
  intro before failure _ fails
  rw [run_onTree] at fails ⊢
  split at fails
  · cases fails
  · rfl

theorem atomic_openFunction (name : String) (returns : DataType) (start : Int) :
    Atomic (openFunction name returns start) := by
  intro before failure intact fails
  rw [run_openFunction] at fails ⊢
  cases outcome : (before.tree.declareFunction name returns start).1 with
  | ok => rw [outcome] at fails; cases fails
  | error => simp only [intact.declareFunction_of_error outcome]

theorem atomic_declareArgument (name : String) (type : DataType) (dimensions : List Int) :
    Atomic (declareArgument name type dimensions) := by
  unfold declareArgument
  split
  · intro _ _ _ _
    rfl
  · exact (atomic_onTree _).bind fun _ => total_pure _

theorem atomic_declareFunction (name : String) (returns : DataType) :
    Atomic (declareFunction name returns) := by
  intro before
  unfold declareFunction
  rw [run_get_bind]
  exact (atomic_openFunction name returns before.buffer.code.size).bind (fun _ => total_pure _) before

theorem atomic_declareNative (name : String) (returns : DataType) :
    Atomic (declareNative name returns) := by
  intro before
  unfold declareNative
  rw [run_get_bind]
  split
  · exact atomic_fail _ before
  · exact (atomic_openFunction name returns (-1)).bind (fun _ => total_modify _) before

theorem total_leave (before : Generator) {function : Scope.Function}
    (current : before.tree.currentFunction? = some function) (failure : Failure) :
    ((do
      let _ ← onTree Scope.Tree.closeFunction
      setTree fun tree => { tree with memory := tree.memory.resetLocals } : Action Unit).run.run
        before).1 ≠ .error failure := by
  obtain ⟨opened, isOpen, _⟩ := Option.bind_eq_some_iff.1 current
  rw [run_bind, run_onTree, Scope.Tree.closeFunction, isOpen]
  exact nofun

theorem atomic_closeFunction : Atomic closeFunction := by
  intro before failure _ fails
  unfold closeFunction at fails ⊢
  rw [run_get_bind] at fails ⊢
  split at fails
  · rfl
  rename_i function current
  simp only at fails ⊢
  split at fails
  · rename_i left
    rw [if_pos left]
    rfl
  · -- The closing return is emitted after the last check.
    exfalso
    split at fails
    · exact total_leave { before with buffer := before.buffer.emit _ } current failure fails
    · exact total_leave before current failure fails

end Generator

/-! ### Events -/

namespace Event

variable {event : Event} {generator : Generator}

def Command.Declares : Command → Prop
  | .declareVariable .. | .declareObject .. | .declareArgument .. | .declareObjectArgument ..
  | .declareFunction .. | .declareNative .. | .closeFunction | .declareClass .. | .closeClass => True
  | _ => False

theorem Command.Declares.atomic {command : Command} (declares : command.Declares) :
    Generator.Atomic command.perform := by
  cases command with
  | declareVariable | declareObject | declareObjectArgument =>
    exact (Generator.atomic_onTree _).bind fun _ => Generator.total_pure _
  | declareArgument => exact Generator.atomic_declareArgument _ _ _
  | declareFunction => exact Generator.atomic_declareFunction _ _
  | declareNative => exact Generator.atomic_declareNative _ _
  | closeFunction => exact Generator.atomic_closeFunction
  | declareClass | closeClass => exact Generator.atomic_onTree _
  | _ => exact declares.elim

def declaringKinds : List String :=
  ["declare_variable", "declare_argument", "declare_function", "declare_native", "declare_class",
    "close_function", "close_class"]

/-- Whether an event opens or ends a declaration. The letter case of its kind does not matter. -/
def Declaring (event : Event) : Prop :=
  String.ofList (event.kind.toList.map Text.lowerPlain) ∈ declaringKinds

theorem Command.Declares.of_read {α : Type} {read : Except Error α} {make : α → Command}
    {command : Command} (reads : (do return make (← read)) = Except.ok command)
    (declares : ∀ value, (make value).Declares) : command.Declares := by
  obtain ⟨value, _, ⟨⟩⟩ := bind_eq_ok.1 reads
  exact declares value

theorem Declaring.command (declaring : event.Declaring) {command : Command}
    (reads : event.command = .ok command) : command.Declares := by
  simp only [Declaring, declaringKinds, List.mem_cons, List.not_mem_nil, or_false] at declaring
  unfold Event.command at reads
  rcases declaring with kind | kind | kind | kind | kind | kind | kind
  all_goals
    rw [kind] at reads
    simp only at reads
  · split at reads
    · cases reads
      trivial
    · exact .of_read reads fun _ => trivial
  · split at reads
    · cases reads
      trivial
    · exact .of_read reads fun _ => trivial
  · exact .of_read reads fun _ => trivial
  · exact .of_read reads fun _ => trivial
  all_goals
    cases reads
    trivial

theorem deliver_of_error {cause : Error} (unread : event.command = .error cause) (generator : Generator) :
    event.deliver generator = (.error (.error cause), generator) := by
  rw [deliver, unread]

theorem deliver_of_ok {command : Command} (reads : event.command = .ok command) (generator : Generator) :
    (event.deliver generator).2 = (generator.attempt command.perform).2 ∧
      ((event.deliver generator).1 = .ok () ∨
        ∃ failure, (generator.attempt command.perform).1 = .error failure) := by
  rw [deliver, reads]
  simp only
  cases generator.attempt command.perform with
  | mk outcome after =>
    cases outcome with
    | ok => exact ⟨rfl, .inl rfl⟩
    | error failure => cases failure <;> exact ⟨rfl, .inr ⟨_, rfl⟩⟩

theorem intact_deliver (event : Event) (intact : generator.tree.Intact) :
    (event.deliver generator).2.tree.Intact := by
  cases reads : event.command with
  | error cause =>
    rw [deliver_of_error reads]
    exact intact
  | ok command =>
    rw [(deliver_of_ok reads generator).1]
    exact Generator.intact_attempt generator command intact

def deliverAll (generator : Generator) (events : List Event) : Generator :=
  events.foldl (fun before event => (event.deliver before).2) generator

theorem intact_deliverAll (events : List Event) (intact : generator.tree.Intact) :
    (deliverAll generator events).tree.Intact := by
  induction events generalizing generator with
  | nil => exact intact
  | cons event events ih => exact ih (event.intact_deliver intact)

theorem Declaring.ne_crash (declaring : event.Declaring) (intact : generator.tree.Intact) :
    (event.deliver generator).1 ≠ .error .crash := by
  intro crashes
  obtain ⟨command, reads, abrupt⟩ := (event.crash_deliver_iff generator).1 crashes
  obtain ⟨rfl, _⟩ := (Generator.crash_attempt_iff intact command).1 abrupt
  exact declaring.command reads

theorem Declaring.unchanged (declaring : event.Declaring) (intact : generator.tree.Intact)
    (fails : (event.deliver generator).1 ≠ .ok ()) : (event.deliver generator).2 = generator := by
  cases reads : event.command with
  | error cause => rw [deliver_of_error reads]
  | ok command =>
    obtain ⟨leaves, ends⟩ := deliver_of_ok reads generator
    obtain ⟨failure, refused⟩ := ends.resolve_left fails
    rw [leaves]
    exact (declaring.command reads).atomic generator failure intact refused

/-- Whatever events came before, failed ones included, and however few cells there are: an event that
opens or ends a declaration succeeds, or it reports an error and leaves the scopes and their names, the
classes, the functions and their arguments, the cells handed out, the code and the operand and name
stacks as they were. -/
theorem declaration_succeeds_or_changes_nothing (capacities : Capacities) (natives : Bool)
    (events : List Event) (event : Event) (declaring : event.Declaring) :
    (event.deliver (deliverAll (.fresh capacities natives) events)).1 = .ok () ∨
      ∃ cause, event.deliver (deliverAll (.fresh capacities natives) events) =
        (.error (.error cause), deliverAll (.fresh capacities natives) events) := by
  have intact := intact_deliverAll events (Generator.intact_fresh capacities natives)
  cases outcome : (event.deliver (deliverAll (.fresh capacities natives) events)).1 with
  | ok => exact .inl rfl
  | error failure =>
    cases failure with
    | crash => exact absurd outcome (declaring.ne_crash intact)
    | error cause =>
      refine .inr ⟨cause, Prod.ext outcome (declaring.unchanged intact ?_)⟩
      rw [outcome]
      exact fun same => nomatch same

/-- A class whose second method finds no cell for its value: the program has one for each type. -/
def crowdedClass : List Event :=
  [{ kind := "declare_class", name := "C" }, { kind := "declare_function", name := "f", type := "int" },
    { kind := "close_function" }]

theorem second_method_changes_nothing :
    ∃ cause, Event.deliver { kind := "Declare_Function", name := "g", type := "int" }
        (deliverAll (.fresh { global := 1 } false) crowdedClass) =
      (.error (.error cause), deliverAll (.fresh { global := 1 } false) crowdedClass) :=
  (declaration_succeeds_or_changes_nothing { global := 1 } false crowdedClass
    { kind := "Declare_Function", name := "g", type := "int" } (by unfold Declaring; decide)).resolve_left
      fun succeeds => nomatch succeeds

end Event

end Quadruple
