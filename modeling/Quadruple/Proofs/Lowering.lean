import Quadruple.Proofs.Operations
import Quadruple.Proofs.Realization

/-!
The code of expressions. The events of an expression append code that computes it: its operands
go to fresh cells, which the code after them leaves as they are until the operator reads them.
-/

namespace Quadruple

namespace Structured

open Generator (Gives withResult)
open Opcode (EvalError)
open Transcript (Delivers)

def cursorsOf (generator : Generator) : Cursors :=
  generator.tree.memory.cursor .temps

/-- A compilation at the top level of a program whose variables have their cells. -/
structure Ready (sizes : Sizes) (placement : Placement) (generator : Generator) : Prop where
  names : generator.names = []
  context : generator.tree.context = none
  sized : generator.tree.memory.sizes = sizes
  small : ∀ area type capacity, sizes area type = some capacity → capacity ≤ Address.defaultCapacity
  top : ∃ aliases, generator.tree.nodes[generator.tree.current]? = some ⟨none, aliases⟩ ∧
    ∀ name var, aliases.lookup name = some (.variable var) →
      placement.cell? name = some var.address ∧ var.isField = false ∧
      var.className = ""

/-- A compilation that has gone on. Its code stays, up to the targets that instructions at some places have
got. -/
structure Continues (before after : Generator) (aimed : List Nat) : Prop where
  names : after.names = before.names
  tree : after.tree = { before.tree with memory := after.tree.memory }
  sized : after.tree.memory.sizes = before.tree.memory.sizes
  cursors : ∀ type, cursorsOf before type ≤ cursorsOf after type
  size : before.buffer.code.size ≤ after.buffer.code.size
  code : ∀ place < before.buffer.code.size, place ∉ aimed →
    after.buffer.code[place]? = before.buffer.code[place]?

/-- A compilation that has gone on by one instruction. -/
structure Emits (before after : Generator) (instr : Instruction) : Prop
    extends Continues before after [] where
  push : after.buffer.code = before.buffer.code.push instr
  pending : after.buffer.pending = before.buffer.pending

section

variable {before between after : Generator} {aimed aimed' : List Nat} {code : Code} {start : Nat}
  {instr : Instruction}

theorem Continues.idle (generator : Generator) (pending : List Pending) (operands : List Entry) :
    Continues generator { generator with buffer := ⟨generator.buffer.code, pending⟩, operands } [] :=
  ⟨rfl, rfl, rfl, fun _ => Nat.le_refl _, Nat.le_refl _, fun _ _ _ => rfl⟩

theorem Continues.trans (first : Continues before between aimed) (second : Continues between after aimed') :
    Continues before after (aimed ++ aimed') := by
  refine ⟨second.names.trans first.names, ?_, second.sized.trans first.sized,
    fun type => Nat.le_trans (first.cursors type) (second.cursors type),
    Nat.le_trans first.size second.size, fun place inside apart => ?_⟩
  · rw [second.tree, first.tree]
  · rw [List.mem_append, not_or] at apart
    rw [second.code place (Nat.lt_of_lt_of_le inside first.size) apart.2, first.code place inside apart.1]

theorem Continues.agrees (continues : Continues between after [])
    (agrees : code.Agrees after.buffer.code start after.buffer.code.size) :
    code.Agrees between.buffer.code start between.buffer.code.size :=
  fun place low high => (agrees place low (Nat.lt_of_lt_of_le high continues.size)).trans
    (continues.code place high List.not_mem_nil)

theorem Continues.of_push (names : after.names = before.names)
    (tree : after.tree = { before.tree with memory := after.tree.memory })
    (sized : after.tree.memory.sizes = before.tree.memory.sizes)
    (cursors : ∀ type, cursorsOf before type ≤ cursorsOf after type)
    (push : after.buffer.code = before.buffer.code.push instr) : Continues before after [] := by
  refine ⟨names, tree, sized, cursors, ?_, fun place inside _ => ?_⟩
  · rw [push, Array.size_push]
    exact Nat.le_succ _
  · rw [push, Array.getElem?_push, if_neg (Nat.ne_of_lt inside)]

theorem Continues.emit (generator : Generator) (instr : Instruction) (pending : List Pending) :
    Continues generator
      { generator with buffer := ⟨generator.buffer.code.push instr, pending⟩ } [] :=
  .of_push rfl rfl rfl (fun _ => Nat.le_refl _) rfl

theorem Emits.agrees (emits : Emits before after instr) (low : start ≤ before.buffer.code.size)
    (agrees : code.Agrees after.buffer.code start after.buffer.code.size) :
    code.Agrees before.buffer.code start before.buffer.code.size ∧
      code[before.buffer.code.size]? = some instr ∧
      after.buffer.code.size = before.buffer.code.size + 1 := by
  have size : after.buffer.code.size = before.buffer.code.size + 1 := by
    rw [emits.push, Array.size_push]
  refine ⟨emits.toContinues.agrees agrees, ?_, size⟩
  rw [agrees _ low (by omega), emits.push, Array.getElem?_push_size]

end

section

variable {sizes : Sizes} {placement : Placement} {before after : Generator} {aimed : List Nat}
  {address : Address} {memory : Memory} {type : DataType}

theorem Ready.continues (ready : Ready sizes placement before)
    (continues : Continues before after aimed) : Ready sizes placement after := by
  refine ⟨continues.names.trans ready.names, ?_, continues.sized.trans ready.sized, ready.small, ?_⟩
  · rw [continues.tree]
    exact ready.context
  · rw [continues.tree]
    exact ready.top

/-- A cell that is handed out for an intermediate result is available, and in use from then on. -/
theorem Ready.fresh (ready : Ready sizes placement before)
    (allocated : before.tree.memory.allocate .temps type 1 false = .ok (address, memory))
    (instr : Instruction) (operands : List Entry) :
    Emits before { before.withResult memory instr with operands } instr ∧
      Available sizes (cursorsOf before) address ∧
      Below (cursorsOf { before.withResult memory instr with operands }) address ∧
      address.type = type := by
  obtain ⟨area, rfl, plain, offset, has, sizes, next, cursors⟩ := Memory.allocate_next
    (fun capacity size => ready.small _ _ capacity (by rw [← ready.sized]; exact size)) allocated
  obtain ⟨capacity, size, inside⟩ := Memory.has_iff.1 has
  refine ⟨⟨.of_push rfl rfl sizes (cursors .temps) rfl, rfl, rfl⟩,
    ⟨area, plain, Nat.le_of_eq offset.symm, capacity, ?_, inside⟩, ⟨plain, fun _ => ?_⟩, rfl⟩
  · rw [← ready.sized]
    exact size
  · change address.offset.toNat < memory.cursor .temps address.type
    rw [next, offset]
    exact Nat.lt_succ_self _

end

/-! ### Expressions -/

/-- The code of a compilation's step from one state to another computes an expression. -/
structure LowersExpression (sizes : Sizes) (placement : Placement) (before after : Generator)
    (outcome : Store → Except EvalError Value) (address : Address) : Prop
    extends Continues before after [] where
  pending : after.buffer.pending = before.buffer.pending
  below : Below (cursorsOf after) address
  computes : ∀ code : Code, code.Agrees after.buffer.code before.buffer.code.size after.buffer.code.size →
    Computes code sizes placement (cursorsOf before) before.buffer.code.size after.buffer.code.size
      outcome address

namespace LowersExpression

variable {sizes : Sizes} {placement : Placement} {before middle between after : Generator}
  {outcome outcome' : Store → Except EvalError Value} {address left right : Address} {opcode : Opcode}

theorem emit {instr : Instruction} (continues : Continues before between [])
    (pending : between.buffer.pending = before.buffer.pending) (emits : Emits between after instr)
    (below : Below (cursorsOf after) address)
    (computes : ∀ code : Code,
      code.Agrees between.buffer.code before.buffer.code.size between.buffer.code.size →
      code[between.buffer.code.size]? = some instr →
      Computes code sizes placement (cursorsOf before) before.buffer.code.size (between.buffer.code.size + 1)
        outcome address) :
    LowersExpression sizes placement before after outcome address := by
  refine ⟨continues.trans emits.toContinues, emits.pending.trans pending, below, fun code agrees => ?_⟩
  obtain ⟨agrees, last, size⟩ := emits.agrees continues.size agrees
  rw [size]
  exact computes code agrees last

theorem unary {result : Value → Except EvalError Value}
    (lowers : LowersExpression sizes placement before between outcome right)
    (available : Available sizes (cursorsOf between) address) (below : Below (cursorsOf after) address)
    (pure : opcode.isPure = true)
    (emits : Emits between after ⟨opcode, .none, .address right, .address address⟩)
    (means : ∀ given, given.type = right.type → opcode.eval .absent given = result given ∧
      ∀ value, result given = .ok value → value.type = address.type) :
    LowersExpression sizes placement before after (fun store => outcome store >>= result) address :=
  emit lowers.toContinues lowers.pending emits below fun code agrees last =>
    (lowers.computes code agrees).unary lowers.below lowers.cursors available pure last means

theorem binary {result : Value → Value → Except EvalError Value}
    (lowers : LowersExpression sizes placement before middle outcome left)
    (lowers' : LowersExpression sizes placement middle between outcome' right)
    (available : Available sizes (cursorsOf between) address) (below : Below (cursorsOf after) address)
    (pure : opcode.isPure = true)
    (emits : Emits between after ⟨opcode, .address left, .address right, .address address⟩)
    (means : ∀ first second, first.type = left.type → second.type = right.type →
      opcode.eval first second = result first second ∧
        ∀ value, result first second = .ok value → value.type = address.type) :
    LowersExpression sizes placement before after
      (fun store => outcome store >>= fun first => outcome' store >>= result first) address := by
  refine emit (lowers.toContinues.trans lowers'.toContinues) (lowers'.pending.trans lowers.pending) emits below
    fun code agrees last => ?_
  have computes' := lowers'.computes code fun place low => agrees place (Nat.le_trans lowers.size low)
  exact (lowers.computes code (lowers'.agrees agrees)).binary computes' lowers.below lowers'.below
    lowers.cursors lowers'.cursors available pure last means

section

variable (lowers : LowersExpression sizes placement before after outcome address)
include lowers

theorem coerce : LowersExpression sizes placement before after
      (fun store => outcome store >>= fun value => .ok (value.coerce address.type)) address := by
  refine { lowers with computes := fun code agrees => ?_ }
  intro store workspace represents
  obtain ⟨later, comes, kept, holds⟩ := lowers.computes code agrees store workspace represents
  have same : (outcome store >>= fun value => .ok (value.coerce address.type)) = outcome store := by
    cases isGiven : outcome store with
    | error cause => rfl
    | ok given => exact congrArg Except.ok (Value.coerce_of_type (holds given isGiven).1)
  rw [← same] at comes holds
  exact ⟨later, comes, kept, holds⟩

theorem operands {others : List Entry} :
    LowersExpression sizes placement before { after with operands := others } outcome address :=
  ⟨lowers.toContinues.trans (.idle _ _ _), lowers.pending, lowers.below, lowers.computes⟩

end

end LowersExpression

section

variable {sizes : Sizes} {placement : Placement} {before between after : Generator} {name : String}
  {address : Address} {event : Event} {command : Event.Command}

theorem delivers_cons {events : List Event} (reads : event.command = .ok command)
    (delivers : Delivers (event :: events) before after) :
    ∃ between, Gives command.perform before () between ∧ Delivers events between after := by
  cases delivers with
  | cons reads' performs rest =>
    cases reads.symm.trans reads'
    exact ⟨_, performs, rest⟩

theorem delivers_singleton (reads : event.command = .ok command) (delivers : Delivers [event] before after) :
    Gives command.perform before () after := by
  obtain ⟨_, performs, ⟨⟩⟩ := delivers_cons reads delivers
  exact performs

theorem command_identifier (name : String) :
    ({ kind := "identifier", name } : Event).command = .ok (.identifier name) := by
  have lowered : String.ofList ("identifier".toList.map Text.lowerPlain) = "identifier" := by
    decide +kernel
  unfold Event.command
  rw [lowered]
  rfl

theorem command_variable : ({ kind := "variable" } : Event).command = .ok (.variable 0) := by
  have lowered : String.ofList ("variable".toList.map Text.lowerPlain) = "variable" := by
    decide +kernel
  unfold Event.command
  rw [lowered]
  rfl

section

variable (ready : Ready sizes placement before)
include ready

theorem Ready.resolve {var : Scope.Variable}
    (resolved : before.tree.resolveVariable name 0 = .ok var) :
    placement.cell? name = some var.address ∧ var.isField = false ∧
      var.className = "" := by
  obtain ⟨aliases, found, declared⟩ := ready.top
  refine declared name var ?_
  have noClass : before.tree.context.bind before.tree.class? = none := by
    rw [ready.context]
    rfl
  have parent : before.tree.parent before.tree.current = none := by
    rw [Scope.Tree.parent, found]
    rfl
  have lookup : before.tree.lookup before.tree.current name = aliases.lookup name := by
    rw [Scope.Tree.lookup, found]
    rfl
  obtain ⟨alias_, isAlias, resolved⟩ := bind_eq_ok.1 resolved
  rw [Scope.Tree.resolve, noClass, Scope.Tree.search, lookup, parent] at isAlias
  cases listed : aliases.lookup name with
  | none =>
    rw [listed] at isAlias
    cases isAlias
  | some alias' =>
    rw [listed] at isAlias
    cases isAlias
    cases alias_
    · simp only at resolved
      split at resolved
      · cases resolved
        rfl
      · cases resolved
    · cases resolved
    · cases resolved

theorem lowers_use (delivers : Delivers (use name) before after) :
    ∃ address, placement.cell? name = some address ∧
      after = { before with operands := .cell address "" :: before.operands } := by
  obtain ⟨_, identified, rest⟩ := delivers_cons (command_identifier name) delivers
  have used := delivers_singleton command_variable rest
  obtain ⟨taken, _, took, rfl⟩ := Generator.gives_identifier identified
  rcases Generator.gives_takeBase took with ⟨rfl, rfl⟩ | ⟨top, names, some, _⟩
  · have sameTree : before.tree.clearContext = before.tree := by
      rw [Scope.Tree.clearContext, ← ready.context]
    rw [sameTree] at used
    obtain ⟨pending, _, popped, used⟩ := Generator.gives_bind.1 used
    obtain ⟨_, names, top, rfl⟩ := Generator.gives_popName popped
    obtain ⟨rfl, rfl⟩ := List.cons.inj top
    obtain ⟨entry, _, entered, pushed⟩ := Generator.gives_bind.1 used
    obtain ⟨var, _, resolved, entered⟩ := Generator.gives_bind.1 entered
    obtain ⟨found, rfl⟩ := Generator.gives_resolveVariable resolved
    obtain ⟨placed, notField, noClass⟩ := ready.resolve found
    simp only [notField, Bool.not_false, if_true, Generator.plainEntry] at entered
    obtain ⟨rfl, rfl⟩ := Generator.gives_pure.1 entered
    cases Generator.gives_push.1 pushed
    refine ⟨var.address, placed, ?_⟩
    rw [noClass, sameTree]
  · rw [ready.names] at some
    cases some

theorem lowers_variable (delivers : Delivers (use name) before after) :
    ∃ address, placement.cell? name = some address ∧
      after.operands = .cell address "" :: before.operands ∧
      LowersExpression sizes placement before after (fun store => .ok (store name)) address := by
  obtain ⟨address, placed, rfl⟩ := lowers_use ready delivers
  exact ⟨address, placed, rfl, .idle _ _ _, rfl, Placement.below placed, fun _ _ => .var placed⟩

end

theorem name_reserved {code : UInt8} (unassigned : 8 ≤ code ∨ code = 5 ∨ code = 6) :
    ∃ rest, (DataType.reserved code unassigned).name.toList = 'D' :: rest :=
  ⟨"ataType(".toList ++ (Text.digits 10 code.toNat ++ ")").toList, by simp [DataType.name]⟩

theorem name_ne_empty (type : DataType) : type.name ≠ "" := by
  cases type with
  | reserved code unassigned =>
    obtain ⟨rest, letters⟩ := name_reserved unassigned
    intro empty
    rw [empty] at letters
    cases letters
  | _ => decide

theorem typeNamed_name {type found : DataType} (named : Event.typeNamed type.name = .ok found) :
    found = type := by
  cases type with
  | reserved code unassigned =>
    obtain ⟨rest, letters⟩ := name_reserved unassigned
    have others : ∀ other ∈ DataType.named, other.name.toList.head? ≠ some (Text.upperPlain 'D') := by
      decide
    have unknown : DataType.ofName? (DataType.reserved code unassigned).name = none := by
      refine List.find?_eq_none.2 fun other listed same => others other listed ?_
      rw [eq_of_beq same, letters]
      rfl
    rw [Event.typeNamed, unknown] at named
    cases named
  | _ =>
    cases named
    rfl

theorem command_constant {given : Constant} {type : Option DataType}
    (reads : Event.command
      { kind := "constant", value := some given, type := (type.map DataType.name).getD "" } =
        .ok command) :
    ∃ value, given.value? = some value ∧
      command = .constant ((type.map value.coerce).getD value) := by
  have kind : String.ofList ("constant".toList.map Text.lowerPlain) = "constant" := by decide
  simp only [Event.command, kind] at reads
  obtain ⟨value, isValue, ⟨⟩⟩ := bind_eq_ok.1 reads
  cases given with
  | other => cases isValue
  | _ =>
    refine ⟨_, rfl, ?_⟩
    cases type with
    | none =>
      cases isValue
      rfl
    | some type =>
      simp only [Event.literal, Constant.value?, Option.map_some, Option.getD_some,
        if_neg (name_ne_empty type)] at isValue
      obtain ⟨found, named, isValue⟩ := bind_eq_ok.1 isValue
      cases typeNamed_name named
      split at isValue
      · cases isValue
        rfl
      · cases isValue

theorem ofSymbol?_symbol : ∀ opcode ∈ Opcode.sourceOperators,
    Opcode.ofSymbol? opcode.symbol = some opcode := by
  decide

variable {opcode : Opcode}

theorem command_operator (listed : opcode ∈ Opcode.sourceOperators) :
    ({ kind := "operator", operator := opcode.symbol } : Event).command = .ok (.operator opcode) := by
  have kind : String.ofList ("operator".toList.map Text.lowerPlain) = "operator" := by decide
  simp only [Event.command, kind, Event.operatorNamed, ofSymbol?_symbol opcode listed]
  rfl

/-- A compound assignment is written with its operator in front of the equals sign. -/
theorem command_assign (listed : opcode ∈ Opcode.sourceOperators) :
    ({ kind := "assign", operator := opcode.symbol ++ "=" } : Event).command =
      .ok (.assign opcode) := by
  have kind : String.ofList ("assign".toList.map Text.lowerPlain) = "assign" := by decide
  have form : ∀ opcode ∈ Opcode.sourceOperators,
      (decide (opcode.symbol ++ "=" = "") || decide (opcode.symbol ++ "=" = "=")) = false ∧
      (opcode.symbol ++ "=").toList.reverse = '=' :: opcode.symbol.toList.reverse := by
    decide
  obtain ⟨notPlain, reversed⟩ := form opcode listed
  simp only [Event.command, kind, Event.assignmentOperator, notPlain, reversed, Bool.false_eq_true,
    if_false, List.reverse_reverse, String.ofList_toList, Event.operatorNamed,
    ofSymbol?_symbol opcode listed]
  rfl

theorem isPure_of_source : ∀ opcode ∈ Opcode.sourceOperators, opcode ≠ .assign →
    opcode.isPure = true := by
  decide

theorem isPure_emitted {type : DataType} (listed : opcode ∈ Opcode.sourceOperators)
    (noAssignment : opcode ≠ .assign) : (Generator.emitted opcode type).isPure = true := by
  unfold Generator.emitted
  split
  · split <;> rfl
  · exact isPure_of_source opcode listed noAssignment

theorem gives_popValue_cell {found : Address} {className : String} {operands : List Entry}
    (gives : Gives Generator.popValue before found after)
    (top : before.operands = .cell address className :: operands) :
    address = found ∧ { before with operands } = after := by
  obtain ⟨entry, others, top', valued⟩ := Generator.gives_popValue gives
  obtain ⟨rfl, rfl⟩ := List.cons.inj (top.symm.trans top')
  exact Generator.gives_valueOf_cell.1 valued

theorem LowersExpression.operator {operator : BinaryOperator} {middle between after : Generator}
    {outcome outcome' : Store → Except EvalError Value} {left right : Address} {type : DataType}
    {operands : List Entry} (ready : Ready sizes placement between)
    (lowers : LowersExpression sizes placement before middle outcome left)
    (lowers' : LowersExpression sizes placement middle between outcome' right)
    (typed : operator.opcode.resultType left.type right.type = .ok type)
    (applied : Gives (Generator.apply operator.opcode (.address left) right type)
      { between with operands } () after) :
    ∃ address, after.operands = .cell address "" :: operands ∧ address.type = type ∧
      LowersExpression sizes placement before after
        (fun store => outcome store >>= fun first =>
          outcome' store >>= fun second => operator.opcode.eval first second) address := by
  obtain ⟨address, memory, allocated, rfl⟩ := Generator.gives_apply applied
  obtain ⟨emits, available, below, sameType⟩ := ready.fresh allocated _ _
  have binaryType := Opcode.resultType_binary (by rw [operator.binary]; decide) typed
  refine ⟨address, rfl, sameType, lowers.binary lowers' available below
    (isPure_emitted operator.inSource operator.noAssignment) emits fun first second firstType secondType => ?_⟩
  rw [← firstType, ← secondType] at binaryType
  rw [sameType]
  exact ⟨Opcode.eval_emitted binaryType, fun value => Opcode.type_of_binary binaryType⟩

/-- The events of an expression append code that computes it. -/
theorem lowers_expression {expression : Expression} (ready : Ready sizes placement before)
    (delivers : Delivers expression.events before after) :
    ∃ address, after.operands = .cell address "" :: before.operands ∧
      LowersExpression sizes placement before after (fun store => expression.eval store) address := by
  induction expression generalizing before after with
  | constant given type =>
    cases delivers with
    | cons reads performs rest =>
      cases rest
      obtain ⟨value, isValue, rfl⟩ := command_constant reads
      obtain ⟨_, address, memory, allocated, rfl⟩ := Generator.gives_constant performs
      obtain ⟨emits, available, below, sameType⟩ := ready.fresh allocated _ _
      have lowers : LowersExpression sizes placement before _ _ address :=
        .emit (.idle before _ _) rfl emits below fun code _ last => .literal sameType.symm available last
      simp only [Expression.eval, isValue, Option.getD_some]
      exact ⟨address, rfl, lowers⟩
  | named name =>
    obtain ⟨address, _, operands, lowers⟩ := lowers_variable ready delivers
    exact ⟨address, operands, lowers⟩
  | unary operator operand ih =>
    obtain ⟨between, delivers, last⟩ := Delivers.of_append delivers
    obtain ⟨right, top, lowers⟩ := ih ready delivers
    have performs := delivers_singleton (command_operator operator.inSource) last
    rcases Generator.gives_operator performs with
      ⟨_, _, _, type, popped, typed, applied⟩ | ⟨binary, _⟩
    · obtain ⟨rfl, rfl⟩ := gives_popValue_cell popped top
      have unaryType := Opcode.resultType_unary operator.unary typed
      obtain ⟨address, memory, allocated, same⟩ := Generator.gives_apply applied
      rw [Opcode.emitted_unary unaryType] at same
      subst same
      obtain ⟨emits, available, below, sameType⟩ :=
        (ready.continues lowers.toContinues).fresh allocated _ _
      have noAssignment : operator.opcode ≠ .assign := by
        intro assigns
        have unary := operator.unary
        rw [assigns] at unary
        cases unary
      have outcome : (fun store => (Expression.unary operator operand).eval store) =
          fun store => operand.eval store >>= operator.opcode.eval .absent := by
        funext store
        simp only [Expression.eval]
        cases operand.eval store <;> rfl
      rw [outcome]
      refine ⟨address, rfl, lowers.unary available below
        (isPure_of_source _ operator.inSource noAssignment) emits fun given givenType => ⟨rfl, ?_⟩⟩
      rw [← givenType] at unaryType
      rw [sameType]
      exact fun value => Opcode.type_of_unary unaryType
    · rw [operator.unary] at binary
      cases binary
  | binary operator left right ihLeft ihRight =>
    obtain ⟨between, delivers, last⟩ := Delivers.of_append delivers
    obtain ⟨middle, delivers, delivers'⟩ := Delivers.of_append delivers
    obtain ⟨first, top, lowers⟩ := ihLeft ready delivers
    obtain ⟨second, top', lowers'⟩ := ihRight (ready.continues lowers.toContinues) delivers'
    have performs := delivers_singleton (command_operator operator.inSource) last
    rcases Generator.gives_operator performs with
      ⟨unary, _⟩ | ⟨_, _, _, _, _, type, popped, popped', typed, applied⟩
    · rw [operator.binary] at unary
      cases unary
    · obtain ⟨rfl, rfl⟩ := gives_popValue_cell popped top'
      obtain ⟨rfl, rfl⟩ := gives_popValue_cell popped' top
      obtain ⟨address, operands, _, lowered⟩ := LowersExpression.operator
        (ready.continues (lowers.toContinues.trans lowers'.toContinues)) lowers lowers' typed applied
      have outcome : (fun store => (Expression.binary operator left right).eval store) =
          fun store => left.eval store >>= fun first =>
            right.eval store >>= fun second => operator.opcode.eval first second := by
        funext store
        simp only [Expression.eval]
        cases left.eval store with
        | error cause => rfl
        | ok first => cases right.eval store <;> rfl
      rw [outcome]
      exact ⟨address, operands, lowered⟩

end

end Structured

end Quadruple
