import Quadruple.Proofs.Lowering
import Quadruple.Proofs.Patching

/-!
The code of statements. The events of a statement append code that executes it. A jump that waits for
its target stands outside the code of the statements around which it leads, so that this does not
change when its target is filled in.
-/

namespace Quadruple

/-! ### Waiting jumps -/

namespace CodeBuffer

variable {buffer : CodeBuffer} {place : Nat} {index : Int} {instr : Instruction} {top : Pending}
  {rest : List Pending}

theorem take_one (waiting : buffer.pending = top :: .jump index :: rest) :
    buffer.take 1 = .ok (index, { buffer with pending := top :: rest }) := by
  simp [take, waiting]

section

variable (found : buffer.code[place]? = some instr)
include found

theorem patchOne_one (waiting : buffer.pending = top :: .jump place :: rest) :
    buffer.patchOne 1 =
      (.ok (), ⟨buffer.code.setIfInBounds place (instr.aimed buffer.code.size), top :: rest⟩) := by
  simp only [patchOne, take_one waiting, Code.setTarget_found found]

theorem patchPending_one (waiting : buffer.pending = .jump place :: .delimiter :: rest) :
    buffer.patchPending =
      (.ok (), ⟨buffer.code.setIfInBounds place (instr.aimed buffer.code.size), rest⟩) := by
  simp only [patchPending, waiting, patchAll, Code.setTarget_found found]

end

end CodeBuffer

namespace Structured

open Generator (Gives withResult)
open Opcode (EvalError)
open Transcript (Delivers)

variable {target type : DataType}

/-- A compilation that has gone on to other waiting jumps. -/
structure Moves (before after : Generator) (aimed : List Nat) (pending : List Pending) : Prop
    extends Continues before after aimed where
  operands : after.operands = before.operands
  pending : after.buffer.pending = pending

/-- The code of a compilation's step from one state to another executes a statement. -/
structure LowersStatement (sizes : Sizes) (placement : Placement) (types : String → DataType)
    (before after : Generator) (statement : Statement) : Prop
    extends Moves before after [] before.buffer.pending where
  executes : ∀ code : Code, code.Agrees after.buffer.code before.buffer.code.size after.buffer.code.size →
    Executes code sizes placement types before.buffer.code.size after.buffer.code.size statement

/-! ### Assignments -/

section

variable {sizes : Sizes} {placement : Placement} {types : String → DataType}
  {before between after : Generator} {name : String} {address value source : Address}
  {operands : List Entry} {statement : Statement} {outcome : Store → Except EvalError Value}

theorem lowers_convert (ready : Ready sizes placement between)
    (lowers : LowersExpression sizes placement before between outcome value)
    (typed : Opcode.assign.resultType target value.type = .ok type)
    (converted : Gives (Generator.convert target value) { between with operands } source after) :
    source.type = target ∧ after.operands = operands ∧ LowersExpression sizes placement before after
        (fun store => outcome store >>= fun given => .ok (given.coerce target)) source := by
  rcases Generator.gives_convert converted with
    ⟨none, rfl, rfl⟩ | ⟨opcode, memory, converts, allocated, rfl⟩
  · have same := Opcode.type_of_conversion? none typed
    subst same
    exact ⟨rfl, rfl, lowers.coerce.operands⟩
  · obtain ⟨emits, available, below, sameType⟩ :=
      ready.fresh allocated ⟨opcode, .none, .address value, .address source⟩ operands
    refine ⟨sameType, rfl, lowers.unary available below (Opcode.isPure_of_conversion? converts) emits
      fun given typed => ?_⟩
    obtain ⟨evaluated, isType⟩ := @Opcode.eval_of_conversion? _ .absent _ _ _ converts typed
    refine ⟨evaluated, fun value computed => ?_⟩
    cases computed
    exact isType.trans sameType.symm

theorem lowers_store (ready : Ready sizes placement between)
    (runs : ∀ rounds store, statement.run types (rounds + 1) store =
      within store (outcome store >>= fun given => .ok (given.coerce address.type))
        fun computed => some (.ok (), store.set name computed))
    (placed : placement.cell? name = some address)
    (lowers : LowersExpression sizes placement before between outcome value)
    (typed : Opcode.assign.resultType address.type value.type = .ok type)
    (converted : Gives (Generator.convert address.type value)
      { between with operands := before.operands } source after) :
    LowersStatement sizes placement types before
      { after with buffer := after.buffer.emit ⟨.store, .address source, .none, .address address⟩ }
      statement := by
  obtain ⟨sameType, sameOperands, lowered⟩ := lowers_convert ready lowers typed converted
  have emits : Emits after { after with buffer := after.buffer.emit _ } _ :=
    ⟨.emit after ⟨.store, .address source, .none, .address address⟩ _, rfl, rfl⟩
  refine ⟨⟨lowered.toContinues.trans emits.toContinues, sameOperands, lowered.pending⟩,
    fun code agrees => ?_⟩
  obtain ⟨agrees, last, size⟩ := emits.agrees lowered.size agrees
  rw [size]
  exact .store runs (lowered.computes code agrees) lowered.below.1 placed sameType last

end

section

variable {sizes : Sizes} {placement : Placement} {types : String → DataType}
  {before middle between after : Generator} {name : String} {address : Address} {operands : List Entry}

theorem gives_popValues_cell {values : List Generator.Classed} {className : String}
    (gives : Gives (Generator.popValues 1) before values after)
    (top : before.operands = .cell address className :: operands) :
    values = [⟨address, className⟩] ∧ { before with operands } = after := by
  obtain ⟨entry, others, found, _, top', valued, rest⟩ :=
    Generator.gives_popMore_succ (Generator.gives_popValues gives)
  obtain ⟨rfl, rfl⟩ := List.cons.inj (top.symm.trans top')
  obtain ⟨rfl, rfl⟩ := Generator.gives_valueOf_cell.1 valued
  obtain ⟨rfl, rfl⟩ := Generator.gives_pure.1 rest
  exact ⟨rfl, rfl⟩

theorem LowersExpression.of_operands {outcome : Store → Except EvalError Value}
    (lowers : LowersExpression sizes placement { before with operands } after outcome address) :
    LowersExpression sizes placement before after outcome address :=
  ⟨(Continues.idle before _ operands).trans lowers.toContinues, lowers.pending, lowers.below,
    lowers.computes⟩

theorem lowers_assign {value : Expression} (ready : Ready sizes placement before)
    (known : ∀ name address, placement.cell? name = some address → types name = address.type)
    (delivers : Delivers (Statement.assign name value).events before after) :
    LowersStatement sizes placement types before after (.assign name value) := by
  obtain ⟨between, delivers, last⟩ := Delivers.of_append delivers
  obtain ⟨middle, used, delivers⟩ := Delivers.of_append delivers
  obtain ⟨address, placed, rfl⟩ := lowers_use ready used
  have ready' := ready.continues (.idle before before.buffer.pending (.cell address "" :: before.operands))
  obtain ⟨right, top, lowers⟩ := lowers_expression ready' delivers
  have performs : Gives (Event.Command.assign .assign).perform between () after := delivers_singleton rfl last
  obtain ⟨_, _, _, target, others, given, _, type, source, after, popped, top', computed, typed,
    converted, rfl⟩ := Generator.gives_assign performs
  obtain ⟨same, rfl⟩ := gives_popValues_cell popped top
  cases same
  obtain ⟨rfl, rfl⟩ := List.cons.inj top'
  rw [Generator.assigned, if_pos rfl] at computed
  obtain ⟨rfl, rfl⟩ := Generator.gives_pure.1 computed
  refine lowers_store (ready'.continues lowers.toContinues) (fun rounds store => ?_) placed
    lowers.of_operands typed converted
  simp only [Statement.run, known name address placed]
  cases value.eval store <;> rfl

theorem lowers_update {operator : BinaryOperator} {value : Expression}
    (ready : Ready sizes placement before)
    (known : ∀ name address, placement.cell? name = some address → types name = address.type)
    (delivers : Delivers (Statement.update name operator value).events before after) :
    LowersStatement sizes placement types before after (.update name operator value) := by
  obtain ⟨between, delivers, last⟩ := Delivers.of_append delivers
  obtain ⟨middle, used, delivers⟩ := Delivers.of_append delivers
  obtain ⟨address, placed, operands, lowers⟩ := lowers_variable ready used
  have ready' := ready.continues lowers.toContinues
  obtain ⟨right, top, lowers'⟩ := lowers_expression ready' delivers
  rw [operands] at top
  have performs := delivers_singleton (command_assign operator.inSource) last
  obtain ⟨_, _, _, target, others, given, _, type, source, after, popped, top', computed, typed,
    converted, rfl⟩ := Generator.gives_assign performs
  obtain ⟨same, rfl⟩ := gives_popValues_cell popped top
  cases same
  obtain ⟨rfl, rfl⟩ := List.cons.inj top'
  rw [Generator.assigned, if_neg operator.noAssignment] at computed
  obtain ⟨_, current, _, type', _, valued, typed', applied, popped'⟩ :=
    Generator.gives_compound computed
  obtain ⟨rfl, rfl⟩ := Generator.gives_valueOf_cell.1 valued
  obtain ⟨result, top'', _, lowered⟩ := LowersExpression.operator
    (ready'.continues lowers'.toContinues) lowers lowers' typed' applied
  obtain ⟨rfl, rfl⟩ := gives_popValue_cell popped' top''
  refine lowers_store (ready.continues lowered.toContinues) (fun rounds store => ?_) placed
    lowered typed converted
  simp only [Statement.run, known name address placed]
  cases value.eval store with
  | error cause => rfl
  | ok given =>
    simp only [within, bind, Except.bind]
    cases operator.opcode.eval (store name) given <;> rfl

end

/-! ### Jumps -/

section

variable {before between after : Generator} {place : Nat} {instr : Instruction} {top : Pending}
  {rest pending pending' : List Pending} {index : Int} {aimed aimed' : List Nat}

theorem Moves.trans (moves : Moves before between aimed pending)
    (moves' : Moves between after aimed' pending') :
    Moves before after (aimed ++ aimed') pending' :=
  ⟨moves.toContinues.trans moves'.toContinues, moves'.operands.trans moves.operands, moves'.pending⟩

/-- What has got a target since is none of the earlier code. -/
theorem Moves.settled (moves : Moves before after aimed pending)
    (beyond : ∀ place ∈ aimed, before.buffer.code.size ≤ place) : Moves before after [] pending :=
  { moves with code := fun place inside _ => moves.code place inside fun listed =>
      Nat.not_le_of_lt inside (beyond place listed) }

theorem moves_pushDelimiter (gives : Gives Generator.pushDelimiter before () after) :
    Moves before after [] (.delimiter :: before.buffer.pending) ∧ after.buffer.code = before.buffer.code := by
  cases Generator.gives_modify.1 gives
  exact ⟨⟨.idle _ _ _, rfl, rfl⟩, rfl⟩

theorem moves_loopStart (gives : Gives Generator.loopStart before () after) :
    Moves before after [] (.jump before.buffer.code.size :: before.buffer.pending) ∧
      after.buffer.code = before.buffer.code := by
  cases Generator.gives_loopStart gives
  rw [← Pending.ofIndex_natCast]
  exact ⟨⟨.idle _ _ _, rfl, rfl⟩, rfl⟩

theorem moves_jump (gives : Gives Generator.jump before () after) :
    Moves before after [] (.jump before.buffer.code.size :: before.buffer.pending) ∧
      after.buffer.code = before.buffer.code.push { opcode := .goto } := by
  cases Generator.gives_jump gives
  rw [← Pending.ofIndex_natCast]
  exact ⟨⟨.emit _ _ _, rfl, rfl⟩, rfl⟩

theorem moves_loopJump (waiting : before.buffer.pending = top :: .jump index :: rest)
    (gives : Gives (Generator.loopJump 1) before () after) :
    Moves before after [] (top :: rest) ∧
      after.buffer.code = before.buffer.code.push { opcode := .goto, result := .target index } := by
  obtain ⟨head, buffer, taken, rfl⟩ := Generator.gives_loopJump gives
  cases (CodeBuffer.take_one waiting).symm.trans taken
  exact ⟨⟨.emit _ _ _, rfl, rfl⟩, rfl⟩

section

variable (found : before.buffer.code[place]? = some instr)
include found

theorem moves_aim (pending : List Pending) (target : Int) (after : Generator)
    (aims : { before with
      buffer := ⟨before.buffer.code.setIfInBounds place (instr.aimed target), pending⟩ } = after) :
    Moves before after [place] pending ∧ after.buffer.code.size = before.buffer.code.size ∧
      after.buffer.code[place]? = some (instr.aimed target) := by
  subst aims
  have size : (before.buffer.code.setIfInBounds place (instr.aimed target)).size = before.buffer.code.size :=
    Array.size_setIfInBounds
  refine ⟨⟨⟨rfl, rfl, rfl, fun _ => Nat.le_refl _, Nat.le_of_eq size.symm, fun other _ apart => ?_⟩, rfl, rfl⟩,
    size, Array.getElem?_setIfInBounds_self_of_lt (Array.getElem?_eq_some_iff.1 found).1⟩
  exact Array.getElem?_setIfInBounds_ne fun same => apart (List.mem_singleton.2 same.symm)

theorem moves_patchJump (waiting : before.buffer.pending = top :: .jump place :: rest)
    (gives : Gives (Generator.patchJump 1) before () after) :
    Moves before after [place] (top :: rest) ∧ after.buffer.code.size = before.buffer.code.size ∧
      after.buffer.code[place]? = some (instr.aimed before.buffer.code.size) := by
  obtain ⟨buffer, patched, same⟩ := Generator.gives_onBuffer.1 gives
  cases (CodeBuffer.patchOne_one found waiting).symm.trans patched
  exact moves_aim found _ _ _ same

theorem moves_patchPending (waiting : before.buffer.pending = .jump place :: .delimiter :: rest)
    (gives : Gives Generator.patchPending before () after) :
    Moves before after [place] rest ∧ after.buffer.code.size = before.buffer.code.size ∧
      after.buffer.code[place]? = some (instr.aimed before.buffer.code.size) := by
  obtain ⟨buffer, patched, same⟩ := Generator.gives_onBuffer.1 gives
  cases (CodeBuffer.patchPending_one found waiting).symm.trans patched
  exact moves_aim found _ _ _ same

end

end

/-! ### Choices and loops -/

section

variable {sizes : Sizes} {placement : Placement} {types : String → DataType}
  {before after : Generator} {condition : Expression} {body no : Statement}

/-- A condition and a statement that it guards: the jump that leads around the statement where the
condition does not hold still waits for its target. -/
structure LowersGuarded (sizes : Sizes) (placement : Placement) (types : String → DataType)
    (before after : Generator) (tested : Nat) (address : Address) (condition : Expression)
    (body : Statement) : Prop
    extends Moves before after [] (.jump tested :: before.buffer.pending) where
  plain : address.reference = false
  above : before.buffer.code.size ≤ tested
  inside : tested < after.buffer.code.size
  tests : after.buffer.code[tested]? = some { opcode := .gotoFalse, left := .address address }
  computes : ∀ code : Code, code.Agrees after.buffer.code before.buffer.code.size tested →
    Computes code sizes placement (cursorsOf before) before.buffer.code.size tested
      (fun store => condition.eval store) address
  executes : ∀ code : Code, code.Agrees after.buffer.code (tested + 1) after.buffer.code.size →
    Executes code sizes placement types (tested + 1) after.buffer.code.size body

section

variable (ready : Ready sizes placement before)
  (lowersBody : ∀ {before after : Generator}, Ready sizes placement before →
    Delivers body.events before after → LowersStatement sizes placement types before after body)
include ready lowersBody

theorem lowers_guarded {between middle : Generator}
    (delivers : Delivers condition.events before between)
    (jumps : Gives Generator.conditionalJump between () middle)
    (delivers' : Delivers body.events middle after) :
    ∃ tested address, LowersGuarded sizes placement types before after tested address condition body := by
  obtain ⟨address, top, lowers⟩ := lowers_expression ready delivers
  obtain ⟨_, _, popped, same⟩ := Generator.gives_conditionalJump jumps
  obtain ⟨rfl, rfl⟩ := gives_popValue_cell popped top
  have emitted : middle.buffer.code =
      between.buffer.code.push { opcode := .gotoFalse, left := .address address } := by
    rw [same]
    rfl
  have size : middle.buffer.code.size = between.buffer.code.size + 1 := by
    rw [emitted, Array.size_push]
  have moves : Moves before middle [] (.jump between.buffer.code.size :: before.buffer.pending) := by
    rw [same, ← Pending.ofIndex_natCast, ← lowers.pending]
    exact ⟨lowers.toContinues.trans ((Continues.idle _ _ _).trans (.emit _ _ _)), rfl, rfl⟩
  have lowers' := lowersBody (ready.continues moves.toContinues) delivers'
  have longer := lowers'.size
  refine ⟨between.buffer.code.size, address, ⟨moves.toContinues.trans lowers'.toContinues,
    lowers'.operands.trans moves.operands, lowers'.pending.trans moves.pending⟩, lowers.below.1, lowers.size,
    by omega, ?_, fun code agrees => lowers.computes code fun place low high => ?_, fun code agrees => ?_⟩
  · rw [lowers'.code _ (by omega) List.not_mem_nil, emitted, Array.getElem?_push_size]
  · rw [agrees place low high, lowers'.code place (by omega) List.not_mem_nil, emitted, Array.getElem?_push,
      if_neg (Nat.ne_of_lt high)]
  · rw [← size] at agrees ⊢
    exact lowers'.executes code agrees

theorem lowers_choose (lowersNo : ∀ {before after : Generator}, Ready sizes placement before →
      Delivers no.events before after → LowersStatement sizes placement types before after no)
    (delivers : Delivers (Statement.choose condition body no).events before after) :
    LowersStatement sizes placement types before after (.choose condition body no) := by
  obtain ⟨otherwise, delivers, last⟩ := Delivers.of_append delivers
  obtain ⟨chosen, delivers, delivers'⟩ := Delivers.of_append delivers
  obtain ⟨tested, delivers, delivers''⟩ := Delivers.of_append delivers
  obtain ⟨opened, opens, delivers⟩ := delivers_cons rfl delivers
  obtain ⟨toOpened, same⟩ := moves_pushDelimiter opens
  obtain ⟨jumped, jumps, delivers''⟩ := delivers_cons rfl delivers''
  obtain ⟨test, address, lowers⟩ :=
    lowers_guarded (ready.continues toOpened.toContinues) lowersBody delivers jumps delivers''
  have above := lowers.above
  have inside := lowers.inside
  have sizeOpened : opened.buffer.code.size = before.buffer.code.size := by rw [same]
  -- the jump around the statement for when the condition does not hold
  obtain ⟨around, jumps', delivers'⟩ := delivers_cons rfl delivers'
  obtain ⟨toAround, emitted⟩ := moves_jump jumps'
  have sizeAround : around.buffer.code.size = chosen.buffer.code.size + 1 := by
    rw [emitted, Array.size_push]
  obtain ⟨patched, patches, delivers'⟩ := delivers_cons rfl delivers'
  obtain ⟨toPatched, sizePatched, tests⟩ := moves_patchJump
    ((toAround.code test inside List.not_mem_nil).trans lowers.tests)
    (by rw [toAround.pending, lowers.pending]) patches
  have moves := ((toOpened.trans lowers.toMoves).trans toAround).trans toPatched
  have lowers' := lowersNo (ready.continues moves.toContinues) delivers'
  have longer := lowers'.size
  have waits : otherwise.buffer.code[chosen.buffer.code.size]? = some { opcode := .goto } := by
    rw [lowers'.code _ (by omega) List.not_mem_nil, toPatched.code _ (by omega) (by simp; omega), emitted,
      Array.getElem?_push_size]
  have closes := delivers_singleton rfl last
  obtain ⟨toAfter, sizeAfter, jumps⟩ := moves_patchPending waits
    (by rw [lowers'.pending, toPatched.pending, toOpened.pending]) closes
  refine ⟨((moves.trans lowers'.toMoves).trans toAfter).settled (by simp; omega), fun code agrees => ?_⟩
  have stays : ∀ place, before.buffer.code.size ≤ place → place < chosen.buffer.code.size → place ≠ test →
      code[place]? = chosen.buffer.code[place]? := by
    intro place low high apart
    rw [agrees place low (by omega), toAfter.code place (by omega) (by simp; omega),
      lowers'.code place (by omega) List.not_mem_nil, toPatched.code place (by omega) (by simpa using apart),
      toAround.code place high List.not_mem_nil]
  have tests : code[test]? = some (whenFalse address (chosen.buffer.code.size + 1)) := by
    rw [agrees test (by omega) (by omega), toAfter.code test (by omega) (by simp; omega),
      lowers'.code test (by omega) List.not_mem_nil, tests, sizeAround]
    rfl
  have executes' := lowers'.executes code fun place low high =>
    (agrees place (by omega) (by omega)).trans (toAfter.code place high (by simp; omega))
  rw [sizePatched, sizeAround] at executes'
  rw [← sizeOpened, sizeAfter]
  exact .choose (lowers.computes code fun place low high => stays place (by omega) (by omega) (by omega))
    lowers.plain tests (lowers.executes code fun place low high => stays place (by omega) high (by omega))
    ((agrees _ (by omega) (by omega)).trans jumps) executes'

theorem lowers_loop (delivers : Delivers (Statement.loop condition body).events before after) :
    LowersStatement sizes placement types before after (.loop condition body) := by
  obtain ⟨repeated, delivers, last⟩ := Delivers.of_append delivers
  obtain ⟨tested, delivers, delivers'⟩ := Delivers.of_append delivers
  obtain ⟨opened, opens, delivers⟩ := delivers_cons rfl delivers
  obtain ⟨toOpened, same⟩ := moves_pushDelimiter opens
  obtain ⟨headed, heads, delivers⟩ := delivers_cons rfl delivers
  obtain ⟨toHeaded, same'⟩ := moves_loopStart heads
  have moves := toOpened.trans toHeaded
  obtain ⟨jumped, jumps, delivers'⟩ := delivers_cons rfl delivers'
  obtain ⟨test, address, lowers⟩ :=
    lowers_guarded (ready.continues moves.toContinues) lowersBody delivers jumps delivers'
  have above := lowers.above
  have inside := lowers.inside
  have sizeHeaded : headed.buffer.code.size = before.buffer.code.size := by rw [same', same]
  obtain ⟨back, jumpsBack, last⟩ := delivers_cons rfl last
  obtain ⟨toBack, emitted⟩ := moves_loopJump (by rw [lowers.pending, toHeaded.pending]) jumpsBack
  have sizeBack : back.buffer.code.size = repeated.buffer.code.size + 1 := by
    rw [emitted, Array.size_push]
  have closes := delivers_singleton rfl last
  obtain ⟨toAfter, sizeAfter, tests⟩ := moves_patchPending
    ((toBack.code test inside List.not_mem_nil).trans lowers.tests)
    (by rw [toBack.pending, toOpened.pending]) closes
  refine ⟨(((moves.trans lowers.toMoves).trans toBack).trans toAfter).settled (by simp; omega),
    fun code agrees => ?_⟩
  have stays : ∀ place, before.buffer.code.size ≤ place → place < repeated.buffer.code.size → place ≠ test →
      code[place]? = repeated.buffer.code[place]? := by
    intro place low high apart
    rw [agrees place low (by omega), toAfter.code place (by omega) (by simpa using apart),
      toBack.code place high List.not_mem_nil]
  have tests : code[test]? = some (whenFalse address back.buffer.code.size) :=
    (agrees test (by omega) (by omega)).trans tests
  have jumps : code[repeated.buffer.code.size]? = some (always headed.buffer.code.size) := by
    rw [agrees _ (by omega) (by omega), toAfter.code _ (by omega) (by simp; omega), emitted,
      Array.getElem?_push_size, same']
    rfl
  rw [← sizeHeaded, sizeAfter]
  exact .loop (lowers.computes code fun place low high => stays place (by omega) (by omega) (by omega))
    lowers.plain tests (lowers.executes code fun place low high => stays place (by omega) high (by omega)) jumps

end

/-- The events of a statement append code that executes it. -/
theorem lowers_statement {statement : Statement}
    (known : ∀ name address, placement.cell? name = some address → types name = address.type)
    (ready : Ready sizes placement before) (delivers : Delivers statement.events before after) :
    LowersStatement sizes placement types before after statement := by
  induction statement generalizing before after with
  | skip =>
    cases delivers
    exact ⟨⟨.idle before _ _, rfl, rfl⟩, fun _ _ => .skip⟩
  | assign name value => exact lowers_assign ready known delivers
  | update name operator value => exact lowers_update ready known delivers
  | sequence first second ihFirst ihSecond =>
    obtain ⟨between, delivers, delivers'⟩ := Delivers.of_append delivers
    have lowers := ihFirst ready delivers
    have lowers' := ihSecond (ready.continues lowers.toContinues) delivers'
    refine ⟨⟨lowers.toContinues.trans lowers'.toContinues, lowers'.operands.trans lowers.operands,
      lowers'.pending.trans lowers.pending⟩, fun code agrees => ?_⟩
    exact .sequence (lowers.executes code (lowers'.agrees agrees))
      (lowers'.executes code fun place low => agrees place (Nat.le_trans lowers.size low))
  | choose condition yes no ihYes ihNo => exact lowers_choose ready ihYes ihNo delivers
  | loop condition body ih => exact lowers_loop ready ih delivers

end

end Structured

end Quadruple
