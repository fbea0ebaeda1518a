import Quadruple.Proofs.Declarations
import Quadruple.Proofs.Statements
import Quadruple.Proofs.Targets

/-!
Compiled structured programs. The main statement: the program of a structured statement halts, fails
or goes on for ever as the evaluator does, and leaves the evaluator's values in the variables' cells.
-/

namespace Quadruple

namespace Structured

open Generator (Gives)
open Transcript (Delivers)

/-! ### Cells of the variables -/

section

variable {capacities : Capacities} {scalars : List Variable} {var variable_' : Variable}
  {aliases : List (String × Scope.Alias)} {name : String} {address : Address}

def cellNamed (aliases : List (String × Scope.Alias)) (name : String) : Option Address :=
  match aliases.lookup name with
  | some (.variable found) => some found.address
  | _ => none

theorem cellNamed_eq_some : cellNamed aliases name = some address ↔
    ∃ found, aliases.lookup name = some (.variable found) ∧ found.address = address := by
  unfold cellNamed
  constructor
  · intro cell
    split at cell
    · rename_i found bound
      cases cell
      exact ⟨found, bound, rfl⟩
    · cases cell
  · rintro ⟨found, bound, rfl⟩
    rw [bound]

theorem countP_take_lt {index index' : Nat} {p : Variable → Bool}
    (listed : scalars[index]? = some var) (holds : p var = true)
    (later : index < index') :
    (scalars.take index).countP p < (scalars.take index').countP p := by
  have next : (scalars.take (index + 1)).countP p = (scalars.take index).countP p + 1 := by
    rw [List.take_add_one, listed, List.countP_append, Option.toList_some, List.countP_singleton,
      if_pos holds]
  have more : (scalars.take (index + 1)).countP p ≤ (scalars.take index').countP p :=
    (List.take_prefix_take_left later).sublist.countP_le
  omega

theorem toNat_place (room : Room capacities scalars) {index : Nat}
    (listed : scalars[index]? = some var) :
    (place (scalars.take index) var).offset.toNat =
      (scalars.take index).countP fun other => other.type = var.type := by
  obtain ⟨capacity, size, inside⟩ := room index var listed
  have small := Memory.sizes_le size
  refine UInt32.toNat_ofNat_of_lt' ?_
  simp only [Address.defaultCapacity, UInt32.size] at small ⊢
  omega

theorem place_injective (room : Room capacities scalars) {index index' : Nat}
    (listed : scalars[index]? = some var) (listed' : scalars[index']? = some variable_')
    (same : place (scalars.take index) var = place (scalars.take index') variable_') :
    index = index' := by
  have type : var.type = variable_'.type := congrArg Address.type same
  have count := congrArg (fun address => address.offset.toNat) same
  simp only [toNat_place room listed, toNat_place room listed', ← type] at count
  rcases Nat.lt_trichotomy index index' with before | equal | after
  · have fewer := countP_take_lt (p := fun other => other.type = var.type) listed
      (decide_eq_true rfl) before
    omega
  · exact equal
  · have fewer := countP_take_lt (p := fun other => other.type = var.type) listed'
      (decide_eq_true type.symm) after
    omega

theorem exists_place (names : Names scalars aliases) (cell : cellNamed aliases name = some address) :
    ∃ index var, scalars[index]? = some var ∧ var.name = name ∧ address = place (scalars.take index) var := by
  obtain ⟨found, bound, rfl⟩ := cellNamed_eq_some.1 cell
  exact (names.known name found bound).2.2

def placementOf (names : Names scalars aliases) (room : Room capacities scalars) : Placement where
  cell? := cellNamed aliases
  area name address cell := by
    obtain ⟨_, _, _, _, rfl⟩ := exists_place names cell
    rfl
  plain name address cell := by
    obtain ⟨_, _, _, _, rfl⟩ := exists_place names cell
    rfl
  apart name name' address cell cell' := by
    obtain ⟨index, var, listed, rfl, rfl⟩ := exists_place names cell
    obtain ⟨index', variable_', listed', rfl, same⟩ := exists_place names cell'
    cases place_injective room listed listed' same
    cases listed.symm.trans listed'
    rfl

section

variable (names : Names scalars aliases)
  (room : Room capacities scalars)
include names room

theorem cell?_placementOf {index : Nat} (listed : scalars[index]? = some var) :
    (placementOf names room).cell? var.name =
      some (place (scalars.take index) var) :=
  cellNamed_eq_some.2 (names.bound index var listed)

theorem typeOf_eq (placed : (placementOf names room).cell? name = some address) :
    typeOf scalars name = address.type := by
  obtain ⟨found, bound, rfl⟩ := cellNamed_eq_some.1 placed
  obtain ⟨_, _, index, var, listed, rfl, address⟩ := names.known name found bound
  unfold typeOf
  cases first : scalars.find? fun other => other.name == var.name with
  | none =>
    have absent := List.find?_eq_none.1 first var (List.mem_of_getElem? listed)
    exact absurd BEq.rfl absent
  | some variable_' =>
    obtain ⟨index', listed'⟩ := List.mem_iff_getElem?.1 (List.mem_of_find?_eq_some first)
    have isNamed := List.find?_some first
    have name : variable_'.name = var.name := eq_of_beq isNamed
    obtain ⟨found', bound', address'⟩ := names.bound index' variable_' listed'
    rw [name] at bound'
    cases bound.symm.trans bound'
    exact congrArg Address.type (address'.symm.trans rfl)

theorem represents_initial
    {workspace : Workspace} (fresh : workspace.memory = .ofCapacities capacities) :
    Represents (Memory.ofCapacities capacities).sizes (placementOf names room) (initial scalars)
      workspace := by
  refine ⟨by rw [fresh], by rw [fresh]; rfl, fun name address placed => ?_,
    fun name address placed => ?_⟩
  · obtain ⟨index, var, listed, _, isPlace⟩ := exists_place names placed
    obtain ⟨capacity, size, inside⟩ := room index var listed
    rw [fresh, initial, typeOf_eq names room placed]
    refine Memory.load_ofCapacities (Memory.has_iff.2 ⟨capacity, ?_, ?_⟩)
    · rw [isPlace]
      exact size
    · rw [isPlace, toNat_place room listed]
      exact inside
  · rw [initial, typeOf_eq names room placed]
    exact Value.type_zero _

end

end

/-! ### Jumps back -/

open Event.Command (leavesAll closesLoops)

/-- Events between what waits before them and what waits after them, of which every jump back takes the head
of a loop. -/
def Leads (marks : List Mark) (events : List Event) (left : List Mark) : Prop :=
  leavesAll marks (events.filterMap fun event => event.command.toOption) = left ∧
    closesLoops marks (events.filterMap fun event => event.command.toOption) = true

section

variable {events events' : List Event} {event : Event} {command : Event.Command}
  {marks between left : List Mark}

theorem Leads.nil : Leads marks [] marks :=
  ⟨rfl, rfl⟩

theorem Leads.cons (reads : event.command = .ok command) (closes : command.closes marks = true)
    (leads : Leads (command.leaves marks) events left) : Leads marks (event :: events) left := by
  unfold Leads
  rw [List.filterMap_cons_some (b := command) (by rw [reads]; rfl), closesLoops, closes]
  exact leads

theorem Leads.append (leads : Leads marks events between) (leads' : Leads between events' left) :
    Leads marks (events ++ events') left := by
  obtain ⟨rfl, closed⟩ := leads
  unfold Leads
  rw [List.filterMap_append, Event.Command.leavesAll_append, Event.Command.closesLoops_append, closed]
  exact leads'

theorem leads_use (name : String) : Leads marks (use name) marks :=
  .cons (command_identifier name) rfl (.cons command_variable rfl .nil)

theorem leads_expression (expression : Expression) : Leads marks expression.events marks := by
  induction expression with
  | constant given type =>
    refine Event.Command.leavesAll_of_others (fun command listed => ?_) marks
    obtain ⟨event, listed, reads⟩ := List.mem_filterMap.1 listed
    cases List.mem_singleton.1 listed
    obtain ⟨value, _, rfl⟩ := command_constant (toOption_eq_some.1 reads)
    rfl
  | named name => exact leads_use name
  | unary operator operand ih => exact ih.append (.cons (command_operator operator.inSource) rfl .nil)
  | binary operator left right ihLeft ihRight =>
    exact (ihLeft.append ihRight).append (.cons (command_operator operator.inSource) rfl .nil)

theorem leads_statement (statement : Statement) : Leads marks statement.events marks := by
  induction statement generalizing marks with
  | skip => exact .nil
  | assign name value =>
    exact ((leads_use name).append (leads_expression value)).append (.cons rfl rfl .nil)
  | update name operator value =>
    exact ((leads_use name).append (leads_expression value)).append
      (.cons (command_assign operator.inSource) rfl .nil)
  | sequence first second ihFirst ihSecond => exact ihFirst.append ihSecond
  | choose condition yes no ihYes ihNo =>
    refine Leads.append (Leads.append (Leads.append (.cons rfl rfl (leads_expression condition))
      (.cons rfl rfl ihYes)) (.cons rfl rfl (.cons rfl rfl ihNo))) (.cons rfl rfl .nil)
  | loop condition body ih =>
    refine Leads.append (Leads.append (.cons rfl rfl (.cons rfl rfl (leads_expression condition)))
      (.cons rfl rfl ih)) (.cons rfl rfl (.cons rfl rfl .nil))

end

theorem closesLoops_transcript (natives : Bool) (scalars : List Variable) (statement : Statement) :
    (transcript natives scalars statement).closesLoops = true := by
  have declares : Leads [] (scalars.map Variable.event) [] := by
    induction scalars with
    | nil => exact .nil
    | cons var scalars ih => exact .cons (command_declare var) rfl ih
  have runs : Leads [] ({ kind := "init" } :: statement.events) [] := .cons rfl rfl (leads_statement statement)
  have ends : Leads [] [{ kind := "exit" }] [] := .cons rfl rfl .nil
  exact ((declares.append runs).append ends).2

/-! ### Programs -/

/-- The code of a program: a jump to its start, the start, the code of its statement and the end. -/
structure Lowered (capacities : Capacities) (scalars : List Variable) (statement : Statement)
    (code : Code) (placement : Placement) (finish : Nat) : Prop where
  cells : ∀ (index : Nat) (var : Variable), scalars[index]? = some var →
    placement.cell? var.name = some (place (scalars.take index) var)
  represents : ∀ workspace : Workspace, workspace.memory = .ofCapacities capacities →
    Represents (Memory.ofCapacities capacities).sizes placement (initial scalars) workspace
  jump : code[0]? = some (always 1)
  start : code[1]? = some { opcode := .init }
  executes : Executes code (Memory.ofCapacities capacities).sizes placement (typeOf scalars) 2 finish
    statement
  exit : code[finish]? = some { opcode := .exit }
  inside : Code.TargetsInside code

section

variable {capacities : Capacities} {scalars : List Variable} {statement : Statement} {code : Code}
  {before after : Generator}

theorem start_declared (declared : Declared capacities scalars before)
    (gives : Gives Generator.start before () after) :
    after.names = [] ∧ after.tree = before.tree ∧
      after.buffer.code = #[always 1, { opcode := .init }] := by
  obtain ⟨_, changed, jumped, rfl⟩ := Generator.gives_start gives
  rw [declared.buffer] at jumped
  cases jumped
  exact ⟨declared.names, rfl, rfl⟩

theorem compile_lowers {natives : Bool}
    (compiled : (transcript natives scalars statement).compile capacities = .ok code) :
    ∃ placement finish, Lowered capacities scalars statement code placement finish := by
  obtain ⟨prepared, final, prepares, delivers, rfl⟩ := Transcript.compile_eq_ok compiled
  have fresh : Declared capacities [] prepared := by
    rcases prepares with ⟨_, declares⟩ | ⟨_, rfl⟩
    · exact declared_natives (declared_ofCapacities capacities)
        (Generator.performs_declareSignatures declares)
    · exact declared_ofCapacities capacities
  obtain ⟨stated, delivers, last⟩ := Delivers.of_append delivers
  obtain ⟨named, declares, delivers⟩ := Delivers.of_append delivers
  obtain ⟨started, starts, delivers⟩ := delivers_cons rfl delivers
  have declared := declared_variables fresh declares
  rw [List.nil_append] at declared
  obtain ⟨aliases, top, names⟩ := declared.top
  obtain ⟨noNames, tree, entry⟩ := start_declared declared starts
  have ready : Ready (Memory.ofCapacities capacities).sizes (placementOf names declared.room)
      started := by
    refine ⟨noNames, ?_, ?_, fun _ _ _ => Memory.sizes_le, aliases, ?_,
      fun name found bound => ⟨cellNamed_eq_some.2 ⟨found, bound, rfl⟩, ?_⟩⟩
    · rw [tree]
      exact declared.context
    · rw [tree]
      exact declared.sizes
    · rw [tree]
      exact top
    · obtain ⟨isField, className, _⟩ := names.known name found bound
      exact ⟨isField, className⟩
  have lowers := lowers_statement (fun _ _ => typeOf_eq names declared.room) ready delivers
  have exits : Gives Event.Command.exit.perform stated () final := delivers_singleton rfl last
  obtain ⟨_, _, left⟩ := Generator.gives_exit exits
  have size : started.buffer.code.size = 2 := by
    rw [entry]
    rfl
  have toFinal : Continues stated final [] := by
    rw [left]
    exact .emit _ _ _
  have stays : ∀ place < 2, final.buffer.code[place]? = #[always 1, { opcode := .init }][place]? := by
    intro place inside
    rw [(lowers.toContinues.trans toFinal).code place (by omega) List.not_mem_nil, entry]
  have executes := lowers.executes final.buffer.code fun place _ high =>
    toFinal.code place high List.not_mem_nil
  rw [size] at executes
  refine ⟨placementOf names declared.room, stated.buffer.code.size,
    fun index var => cell?_placementOf names declared.room,
    fun workspace => represents_initial names declared.room, stays 0 (by decide), stays 1 (by decide),
    executes, ?_, ?_⟩
  · rw [left]
    exact Array.getElem?_push_size
  · exact Transcript.targetsInside_of_compile ⟨_, _, rfl, rfl⟩ (closesLoops_transcript _ _ _) compiled

end

/-! ### Runs -/

def endingOf : Except Opcode.EvalError Unit → Ending
  | .ok _ => .halted
  | .error _ => .failed .runtime

section

variable {capacities : Capacities} {scalars : List Variable} {statement : Statement} {code : Code}
  {placement : Placement} {finish : Nat} {workspace : Workspace}
  (lowered : Lowered capacities scalars statement code placement finish)
include lowered

theorem Lowered.reaches_statement (workspace : Workspace) :
    (Code.chart code).walk.Reaches ⟨workspace, 0, []⟩ ⟨workspace, 2, []⟩ :=
  (System.Reaches.step (step_always lowered.jump)).trans
    (.step (Code.step_next lowered.start rfl))

section

variable (fresh : workspace.memory = .ofCapacities capacities)
include fresh

theorem Lowered.ends {rounds : Nat} {outcome : Except Opcode.EvalError Unit} {store : Store}
    (evaluated : statement.run (typeOf scalars) rounds (initial scalars) = some (outcome, store)) :
    ∃ left, (Code.chart code).walk.Ends ⟨workspace, 0, []⟩ (endingOf outcome, left) ∧
      Represents (Memory.ofCapacities capacities).sizes placement store left := by
  have follows := lowered.executes rounds _ workspace (lowered.represents workspace fresh)
  rw [evaluated] at follows
  obtain ⟨left, comes, represents⟩ := follows
  refine ⟨left, (lowered.reaches_statement workspace).ends ?_, represents⟩
  cases outcome with
  | ok _ =>
    have halts := Code.step_halt lowered.exit (Workspace.effect_exit rfl represents.frames)
    exact System.Reaches.ends comes (System.ends_of_step halts)
  | error cause => exact comes

theorem Lowered.diverges (endless : statement.Diverges (typeOf scalars) (initial scalars)) :
    (Code.chart code).walk.Diverges ⟨workspace, 0, []⟩ := by
  refine System.diverges_of_lasts fun count => ?_
  have follows := lowered.executes (count + statement.depth) _ workspace (lowered.represents workspace fresh)
  rw [endless, Nat.add_sub_cancel] at follows
  exact (lowered.reaches_statement workspace).lasts follows

end

end

/-- A machine runs as a statement is evaluated: it halts, fails or goes on for ever as the evaluation
does, it fails with runtime errors only, and it leaves the evaluator's values in the variables'
cells. -/
structure RunsAs (scalars : List Variable) (statement : Statement) (machine : Machine) : Prop where
  halts : (∃ final, machine.HaltsWith final) ↔ ∃ rounds store,
    statement.run (typeOf scalars) rounds (initial scalars) = some (.ok (), store)
  fails : ∀ kind, (∃ final, machine.FailsWith kind final) ↔ kind = .runtime ∧ ∃ rounds cause store,
    statement.run (typeOf scalars) rounds (initial scalars) = some (.error cause, store)
  diverges : machine.Diverges ↔ statement.Diverges (typeOf scalars) (initial scalars)
  values : ∀ final, (machine.HaltsWith final ∨ ∃ kind, machine.FailsWith kind final) →
    ∀ rounds outcome store,
      statement.run (typeOf scalars) rounds (initial scalars) = some (outcome, store) →
      ∀ (index : Nat) (var : Variable), scalars[index]? = some var →
        final.memory.load (place (scalars.take index) var) = .ok (store var.name)

/-- The compiled program of a structured statement runs as the statement is evaluated. -/
theorem compile_runsAs {natives : Bool} {scalars : List Variable} {statement : Statement}
    {capacities : Capacities} {code : Code}
    (compiled : (transcript natives scalars statement).compile capacities = .ok code)
    {options : Machine.Options} (unlimited : options.limit = 0)
    (sameMemory : options.capacities = capacities) :
    RunsAs scalars statement (Machine.ofProgram code options) := by
  obtain ⟨placement, finish, lowered⟩ := compile_lowers compiled
  have fresh : (Machine.ofProgram code options).workspace.memory = .ofCapacities capacities := by
    rw [← sameMemory]
    rfl
  have walks := Machine.ends_ofProgram_iff lowered.inside unlimited
  have ends {ending : Ending} : (∃ final, (Machine.ofProgram code options).EndsWith ending final) ↔
      ∃ rounds outcome store,
        statement.run (typeOf scalars) rounds (initial scalars) = some (outcome, store) ∧
        endingOf outcome = ending := by
    constructor
    · rintro ⟨final, given⟩
      have ended := (walks _).1 ((Machine.endsWith_iff _ _ _).2 ⟨final, given, rfl⟩)
      rcases Statement.ends_or_diverges (typeOf scalars) statement (initial scalars) with
        ⟨rounds, outcome, store, evaluated⟩ | endless
      · obtain ⟨left, ended', _⟩ := lowered.ends fresh evaluated
        cases ended.unique ended'
        exact ⟨rounds, outcome, store, evaluated, rfl⟩
      · exact absurd ended ((System.diverges_iff _ _).1 (lowered.diverges fresh endless) _)
    · rintro ⟨rounds, outcome, store, evaluated, rfl⟩
      obtain ⟨left, ended, _⟩ := lowered.ends fresh evaluated
      obtain ⟨final, given, _⟩ := (Machine.endsWith_iff _ _ _).1 ((walks _).2 ended)
      exact ⟨final, given⟩
  refine ⟨Iff.trans (@ends .halted) ⟨?_, ?_⟩, fun kind => Iff.trans (@ends (.failed kind)) ⟨?_, ?_⟩,
    ⟨?_, ?_⟩, ?_⟩
  · rintro ⟨rounds, outcome, store, evaluated, ending⟩
    cases outcome with
    | ok _ => exact ⟨rounds, store, evaluated⟩
    | error cause => cases ending
  · rintro ⟨rounds, store, evaluated⟩
    exact ⟨rounds, _, store, evaluated, rfl⟩
  · rintro ⟨rounds, outcome, store, evaluated, ending⟩
    cases outcome with
    | ok _ => cases ending
    | error cause =>
      cases ending
      exact ⟨rfl, rounds, cause, store, evaluated⟩
  · rintro ⟨rfl, rounds, cause, store, evaluated⟩
    exact ⟨rounds, _, store, evaluated, rfl⟩
  · intro endless
    rcases Statement.ends_or_diverges (typeOf scalars) statement (initial scalars) with
      ⟨rounds, outcome, store, evaluated⟩ | diverges
    · obtain ⟨left, ended, _⟩ := lowered.ends fresh evaluated
      rw [Machine.diverges_iff, System.diverges_iff] at endless
      exact absurd ((walks _).2 ended) (endless _)
    · exact diverges
  · intro diverges
    rw [Machine.diverges_iff, System.diverges_iff]
    intro final ended
    exact (System.diverges_iff _ _).1 (lowered.diverges fresh diverges) final ((walks _).1 ended)
  · intro final given rounds outcome store evaluated index variable_ listed
    obtain ⟨left, ended, represents⟩ := lowered.ends fresh evaluated
    have same : left = final.workspace := by
      obtain ⟨ending, given⟩ : ∃ ending, (Machine.ofProgram code options).EndsWith ending final := by
        rcases given with halts | ⟨kind, fails⟩
        · exact ⟨.halted, halts⟩
        · exact ⟨.failed kind, fails⟩
      have ended' := (walks _).1 ((Machine.endsWith_iff _ _ _).2 ⟨final, given, rfl⟩)
      exact congrArg Prod.snd (ended.unique ended')
    rw [same] at represents
    exact represents.cells _ _ (lowered.cells index variable_ listed)

/-- Doubles a number until it has two digits, and keeps it as a float unless it is odd. -/
def doubling : Statement :=
  .sequence (.assign "x" (.constant (.int 1) none))
    (.sequence
      (.loop (.binary ⟨.lt, by decide, rfl, by decide⟩ (.named "x") (.constant (.int 10) none))
        (.update "x" ⟨.add, by decide, rfl, by decide⟩ (.named "x")))
      (.choose
        (.binary ⟨.mod, by decide, rfl, by decide⟩ (.named "x") (.constant (.int 2) none))
        .skip (.assign "y" (.named "x"))))

theorem doubling_runsAs : ∃ code,
    (transcript false [⟨"x", .int, .inl rfl⟩, ⟨"y", .float, .inr (.inl rfl)⟩] doubling).compile {} =
      .ok code ∧
    RunsAs [⟨"x", .int, .inl rfl⟩, ⟨"y", .float, .inr (.inl rfl)⟩] doubling
      (Machine.ofProgram code {}) := by
  obtain ⟨code, compiled⟩ := exists_ok
    ((transcript false [⟨"x", .int, .inl rfl⟩, ⟨"y", .float, .inr (.inl rfl)⟩] doubling).compile {})
    (by decide +kernel)
  exact ⟨code, compiled, compile_runsAs compiled rfl rfl⟩

end Structured

end Quadruple
