import Quadruple.Proofs.Actions

/-!
What the operations of a compilation do when they succeed: those on names and operands, those that
compute and store values, and those on jumps.
-/

namespace Quadruple.Generator

variable {before after : Generator} {done : Unit} {name className class_ : String} {indices : Int}
  {var : Scope.Variable} {found right : Address} {index : Operand} {type returns : DataType}
  {values : List Classed} {opcode : Opcode} {entry : Entry} {dimensions : List Int}

/-- After an instruction whose result goes to a cell that was handed out for it. -/
def withResult (generator : Generator) (memory : Memory) (instr : Instruction) : Generator :=
  { generator with
    tree := { generator.tree with memory }
    buffer := generator.buffer.emit instr }

/-! ### Names -/

theorem gives_takeBase {taken : Option Address × Option String}
    (gives : Gives takeBase before taken after) :
    ((none, none) = taken ∧ before = after) ∨ ∃ top names, before.names = top :: names ∧
      (top.base, top.className) = taken ∧ { before with names } = after := by
  unfold takeBase at gives
  simp only [gives_get_bind] at gives
  split at gives
  · rename_i top names found
    split at gives
    · exact .inr ⟨top, names, found, gives_modify_pure.1 gives⟩
    · exact .inl (gives_pure.1 gives)
  · exact .inl (gives_pure.1 gives)

theorem gives_popName {pending : PendingName} (gives : Gives popName before pending after) :
    pending.name ≠ "" ∧ ∃ names, before.names = pending :: names ∧ { before with names } = after := by
  unfold popName at gives
  simp only [gives_get_bind] at gives
  split at gives
  · rename_i top names found
    split at gives
    · exact (gives_fail.1 gives).elim
    · rename_i named
      obtain ⟨rfl, same⟩ := gives_modify_pure.1 gives
      exact ⟨named, names, found, same⟩
  · exact (gives_fail.1 gives).elim

theorem gives_identifier (gives : Gives (identifier name) before done after) :
    ∃ taken between, Gives takeBase before taken between ∧
      after = { between with
        tree := between.tree.clearContext
        names := ⟨name, taken.1, taken.2⟩ :: between.names } := by
  unfold identifier at gives
  simp only [gives_bind, gives_setTree, gives_pushName] at gives
  obtain ⟨taken, between, took, _, _, rfl, rfl⟩ := gives
  exact ⟨taken, between, took, rfl⟩

def searched (tree : Scope.Tree) : Option String → Scope.Tree
  | none => tree
  | some class_ => tree.setContext class_

theorem gives_resolveVariable {className : Option String}
    (gives : Gives (resolveVariable name indices className) before var after) :
    (searched before.tree className).resolveVariable name indices = .ok var ∧
      { before with tree := before.tree.clearContext } = after := by
  have plain (generator : Generator) (gives : Gives (resolveVariable name indices none) generator var after) :
      generator.tree.resolveVariable name indices = .ok var ∧
      { generator with tree := generator.tree.clearContext } = after := by
    unfold resolveVariable at gives
    rw [gives_get_bind] at gives
    obtain ⟨_, _, cleared, gives⟩ := gives_bind.1 gives
    cases gives_setTree.1 cleared
    split at gives
    · rename_i found
      obtain ⟨rfl, rfl⟩ := gives_pure.1 gives
      exact ⟨found, rfl⟩
    · exact (gives_fail.1 gives).elim
  cases className with
  | none => exact plain before gives
  | some class_ =>
    obtain ⟨_, _, set, gives⟩ := gives_bind.1 gives
    cases gives_setTree.1 set
    exact plain _ gives

/-! ### Operands -/

theorem gives_valueOf_cell {address : Address} :
    Gives (valueOf (.cell address className)) before found after ↔
      address = found ∧ before = after :=
  gives_pure

theorem gives_popValue (gives : Gives popValue before found after) :
    ∃ entry operands, before.operands = entry :: operands ∧
      Gives (valueOf entry) { before with operands } found after := by
  simp only [popValue, gives_bind, gives_pop] at gives
  obtain ⟨entry, _, ⟨operands, top, rfl⟩, gives⟩ := gives
  exact ⟨entry, operands, top, gives⟩

theorem gives_popMore_succ {taken : List Classed} {more : Nat}
    (gives : Gives (popMore taken (more + 1)) before values after) : ∃ entry operands address between,
      before.operands = entry :: operands ∧
      Gives (valueOf entry) { before with operands } address between ∧
      Gives (popMore (⟨address, entry.className⟩ :: taken) more) between values after := by
  simp only [popMore, gives_bind, gives_pop] at gives
  obtain ⟨entry, _, ⟨operands, top, rfl⟩, address, between, valued, gives⟩ := gives
  exact ⟨entry, operands, address, between, top, valued, gives⟩

theorem gives_popValues {count : Nat} (gives : Gives (popValues count) before values after) :
    Gives (popMore [] count) before values after := by
  unfold popValues at gives
  simp only [gives_get_bind] at gives
  split at gives
  · exact (gives_fail.1 gives).elim
  · exact gives

/-! ### Values -/

theorem gives_constant {value : Value} (gives : Gives (constant value) before done after) :
    value.type ≠ .object ∧ ∃ address memory,
      before.tree.memory.allocate .temps value.type 1 false = .ok (address, memory) ∧
      after = { before.withResult memory ⟨.load, .literal value, .none, .address address⟩ with
        operands := .cell address "" :: before.operands } := by
  unfold constant at gives
  by_cases refused : (!value.type.isStored || decide (value.type = .object)) = true
  · rw [if_pos refused] at gives
    exact (not_gives_fail_bind gives).elim
  · rw [if_neg refused] at gives
    simp only [gives_bind, gives_temp, gives_emit, gives_push] at gives
    obtain ⟨address, _, ⟨memory, allocated, rfl⟩, _, _, ⟨_, rfl⟩, rfl⟩ := gives
    refine ⟨fun object => refused ?_, address, memory, allocated, rfl⟩
    simp [object]

theorem gives_typeOf {left right : DataType} :
    Gives (settle (typeOf opcode left right)) before type after ↔
      opcode.resultType left right = .ok type ∧ before = after := by
  rw [gives_settle, typeOf, mapError_eq_ok]

theorem gives_apply {left : Operand} (gives : Gives (apply opcode left right type) before done after) :
    ∃ address memory, before.tree.memory.allocate .temps type 1 false = .ok (address, memory) ∧
      { before.withResult memory ⟨emitted opcode type, left, .address right, .address address⟩ with
        operands := .cell address "" :: before.operands } = after := by
  simp only [apply, gives_bind, gives_temp, gives_emit, gives_push] at gives
  obtain ⟨address, _, ⟨memory, allocated, rfl⟩, _, _, ⟨_, rfl⟩, rfl⟩ := gives
  exact ⟨address, memory, allocated, rfl⟩

theorem gives_convert {target : DataType} {source : Address}
    (gives : Gives (convert target source) before found after) :
    (conversion? target source.type = none ∧ source = found ∧ before = after) ∨
      ∃ opcode memory, conversion? target source.type = some opcode ∧
        before.tree.memory.allocate .temps target 1 false = .ok (found, memory) ∧
        after = before.withResult memory ⟨opcode, .none, .address source, .address found⟩ := by
  unfold convert at gives
  split at gives
  · rename_i none
    obtain ⟨rfl, rfl⟩ := gives_pure.1 gives
    exact .inl ⟨none, rfl, rfl⟩
  · rename_i opcode needed
    simp only [gives_bind, gives_temp, gives_emit, gives_pure] at gives
    obtain ⟨address, _, ⟨memory, allocated, rfl⟩, _, _, ⟨_, rfl⟩, rfl, rfl⟩ := gives
    exact .inr ⟨opcode, memory, needed, allocated, rfl⟩

theorem gives_operator (gives : Gives (operator opcode) before done after) :
    (opcode.arity = 1 ∧ ∃ operand between type, Gives popValue before operand between ∧
      opcode.resultType operand.type operand.type = .ok type ∧
      Gives (apply opcode .none operand type) between done after) ∨
    (opcode.arity = 2 ∧ ∃ right between left between' type, Gives popValue before right between ∧
      Gives popValue between left between' ∧ opcode.resultType left.type right.type = .ok type ∧
      Gives (apply opcode (.address left) right type) between' done after) := by
  unfold operator at gives
  by_cases unary : opcode.arity = 1
  · rw [if_pos unary] at gives
    simp only [gives_bind, gives_typeOf] at gives
    obtain ⟨operand, between, popped, type, _, ⟨typed, rfl⟩, applied⟩ := gives
    exact .inl ⟨unary, operand, between, type, popped, typed, applied⟩
  · rw [if_neg unary] at gives
    by_cases binary : opcode.arity = 2
    · rw [if_pos binary] at gives
      by_cases assigns : opcode = .assign
      · rw [if_pos assigns] at gives
        exact (not_gives_fail_bind gives).elim
      · rw [if_neg assigns] at gives
        simp only [gives_bind, gives_typeOf] at gives
        obtain ⟨right, between, popped, left, between', popped', type, _, ⟨typed, rfl⟩, applied⟩ :=
          gives
        exact .inr ⟨binary, right, between, left, between', type, popped, popped', typed, applied⟩
    · rw [if_neg binary] at gives
      exact (gives_fail.1 gives).elim

theorem gives_compound {target : Entry} {value : Address}
    (gives : Gives (compound opcode target right) before value after) :
    opcode.arity = 2 ∧ ∃ current between type between',
      Gives (valueOf target) before current between ∧
      opcode.resultType current.type right.type = .ok type ∧
      Gives (apply opcode (.address current) right type) between () between' ∧
      Gives popValue between' value after := by
  unfold compound at gives
  by_cases refused : opcode.arity ≠ 2
  · rw [if_pos refused] at gives
    exact (not_gives_fail_bind gives).elim
  · rw [if_neg refused] at gives
    simp only [gives_bind, gives_typeOf] at gives
    obtain ⟨current, between, valued, type, _, ⟨typed, rfl⟩, _, between', applied, popped⟩ := gives
    exact ⟨Decidable.not_not.1 refused, current, between, type, between', valued, typed, applied,
      popped⟩

/-- The value that an assignment stores: the one given, or that of a compound assignment. -/
def assigned (opcode : Opcode) (target : Entry) (right : Address) : Action Address :=
  if opcode = .assign then pure right else compound opcode target right

def storing (source : Address) : Entry → Instruction
  | .cell address _ => ⟨.store, .address source, .none, .address address⟩
  | .element base index _ _ => ⟨.storeElement, .address base, index, .address source⟩

theorem gives_assign (gives : Gives (assign opcode) before done after) :
    ∃ right rest between target operands value between' type source between'',
      Gives (popValues 1) before (right :: rest) between ∧
      between.operands = target :: operands ∧
      Gives (assigned opcode target right.address) { between with operands } value between' ∧
      Opcode.assign.resultType target.type value.type = .ok type ∧
      Gives (convert target.type value) between' source between'' ∧
      after = { between'' with buffer := between''.buffer.emit (storing source target) } := by
  obtain ⟨values, between, popped, gives⟩ := gives_bind.1 gives
  cases values with
  | nil => exact (gives_throw.1 gives).elim
  | cons right rest =>
    obtain ⟨target, _, took, gives⟩ := gives_bind.1 gives
    obtain ⟨operands, top, rfl⟩ := gives_pop.1 took
    obtain ⟨value, between', computed, gives⟩ := gives_bind.1 (gives_ite_bind.1 gives)
    simp only [gives_bind, gives_settle, typeOf, mapError_eq_ok] at gives
    obtain ⟨type, _, ⟨typed, rfl⟩, _, _, ⟨_, rfl⟩, source, between'', converted, gives⟩ := gives
    refine ⟨right, rest, between, target, operands, value, between', type, source, between'', popped,
      top, computed, typed, converted, ?_⟩
    cases target with
    | cell address className | element base index type className =>
      obtain ⟨_, _, emitted, finished⟩ := gives_bind.1 gives
      obtain ⟨_, rfl⟩ := gives_emit.1 emitted
      obtain ⟨_, rfl⟩ := gives_pure.1 finished
      rfl

/-! ### Jumps -/

theorem gives_pushPending {index : Nat} :
    Gives (pushPending index) before done after ↔
      { before with buffer := before.buffer.pushPending index } = after :=
  gives_modify

theorem gives_conditionalJump (gives : Gives conditionalJump before done after) :
    ∃ condition between, Gives popValue before condition between ∧
      after = { between with
        buffer := (between.buffer.emit { opcode := .gotoFalse, left := .address condition }).pushPending
          between.buffer.code.size } := by
  obtain ⟨condition, between, popped, gives⟩ := gives_bind.1 gives
  have jumps : Gives (do pushPending (← emit { opcode := .gotoFalse, left := .address condition }))
      between done after := by
    split at gives
    · exact gives
    · exact gives
    · exact gives
    · exact (gives_fail.1 gives).elim
  simp only [gives_bind, gives_emit, gives_pushPending] at jumps
  obtain ⟨_, _, ⟨rfl, rfl⟩, rfl⟩ := jumps
  exact ⟨condition, between, popped, rfl⟩

theorem gives_jump (gives : Gives jump before done after) :
    after = { before with
      buffer := (before.buffer.emit { opcode := .goto }).pushPending before.buffer.code.size } := by
  unfold jump at gives
  simp only [gives_bind, gives_emit, gives_pushPending] at gives
  obtain ⟨_, _, ⟨rfl, rfl⟩, rfl⟩ := gives
  rfl

theorem gives_loopStart (gives : Gives loopStart before done after) :
    after = { before with buffer := before.buffer.pushPending before.buffer.code.size } := by
  unfold loopStart at gives
  simp only [gives_bind, gives_get, gives_pushPending] at gives
  obtain ⟨_, _, ⟨rfl, rfl⟩, rfl⟩ := gives
  rfl

theorem gives_loopJump {depth : Int} (gives : Gives (loopJump depth) before done after) :
    ∃ head buffer, before.buffer.take depth = .ok (head, buffer) ∧
      after = { before with buffer := buffer.emit { opcode := .goto, result := .target head } } := by
  unfold loopJump at gives
  simp only [gives_get_bind] at gives
  split at gives
  · exact (gives_fail.1 gives).elim
  · rename_i head buffer taken
    simp only [gives_bind, gives_modify, gives_emit, gives_pure] at gives
    obtain ⟨_, _, rfl, _, _, ⟨_, rfl⟩, _, rfl⟩ := gives
    exact ⟨head, buffer, taken, rfl⟩

theorem gives_start (gives : Gives start before done after) :
    before.started = false ∧
      ∃ code, Code.setTarget before.buffer.code 0 before.buffer.code.size = .ok code ∧
      after = { before with
        started := true
        buffer := CodeBuffer.emit { before.buffer with code } { opcode := .init } } := by
  unfold start at gives
  simp only [gives_get_bind] at gives
  split at gives
  · exact (not_gives_fail_bind gives).elim
  rename_i unstarted
  split at gives
  · exact (not_gives_fail_bind gives).elim
  simp only [gives_bind, gives_modify, gives_onBuffer, gives_emit, gives_pure] at gives
  obtain ⟨_, _, rfl, _, _, ⟨buffer, patched, rfl⟩, _, _, ⟨_, rfl⟩, _, rfl⟩ := gives
  split at patched
  · rename_i code found
    cases patched
    exact ⟨Bool.eq_false_iff.2 unstarted, code, found, rfl⟩
  · cases patched

theorem gives_exit (gives : Gives exit before done after) :
    before.started = true ∧ before.buffer.pending = [] ∧
      after = { before with buffer := before.buffer.emit { opcode := .exit } } := by
  unfold exit at gives
  simp only [gives_get_bind] at gives
  split at gives
  · exact (not_gives_fail_bind gives).elim
  rename_i started
  split at gives
  · exact (not_gives_fail_bind gives).elim
  · rename_i closed
    simp only [gives_bind, gives_emit, gives_pure] at gives
    obtain ⟨_, _, ⟨_, rfl⟩, _, rfl⟩ := gives
    exact ⟨by simpa using started, List.length_eq_zero_iff.1 (Decidable.not_not.1 closed), rfl⟩

/-! ### Declarations -/

theorem gives_onTree_pure {α : Type} {operation : Scope.Tree → Except Scope.Error (α × Scope.Tree)}
    (gives : Gives (do let _ ← onTree operation; pure ()) before done after) :
    ∃ value tree, operation before.tree = .ok (value, tree) ∧ after = { before with tree } := by
  simp only [gives_bind, gives_onTree, gives_pure] at gives
  obtain ⟨value, _, ⟨tree, found, rfl⟩, _, rfl⟩ := gives
  exact ⟨value, tree, found, rfl⟩

theorem gives_declareVariable (gives : Gives (declareVariable name type dimensions) before done after) :
    ∃ var tree, before.tree.declareVariable name type dimensions = .ok (var, tree) ∧
      after = { before with tree } :=
  gives_onTree_pure gives

theorem gives_declareArgument (gives : Gives (declareArgument name type dimensions) before done after) :
    ∃ var tree, before.tree.declareArgument name type [] = .ok (var, tree) ∧
      after = { before with tree } := by
  unfold declareArgument at gives
  split at gives
  · exact (not_gives_fail_bind gives).elim
  · exact gives_onTree_pure gives

theorem gives_openFunction {start : Int} {id : Scope.FunctionId}
    (gives : Gives (openFunction name returns start) before id after) :
    ∃ tree, before.tree.declareFunction name returns start = (.ok id, tree) ∧
      after = { before with tree } := by
  unfold openFunction at gives
  simp only [gives_bind, gives_get, gives_modify] at gives
  obtain ⟨_, _, ⟨rfl, rfl⟩, _, _, rfl, gives⟩ := gives
  split at gives
  · rename_i found
    obtain ⟨rfl, rfl⟩ := gives_pure.1 gives
    exact ⟨_, Prod.ext found rfl, rfl⟩
  · exact (gives_fail.1 gives).elim

theorem gives_declareNative (gives : Gives (declareNative name returns) before done after) :
    before.tree.memberClass? = none ∧
      ∃ id tree, before.tree.declareFunction name returns (-1) = (.ok id, tree) ∧
      after = { before with
        tree := tree.setFunction id fun function => { function with native := true } } := by
  unfold declareNative at gives
  simp only [gives_get_bind] at gives
  split at gives
  · exact (gives_fail.1 gives).elim
  · rename_i outside
    simp only [gives_bind, gives_setTree] at gives
    obtain ⟨id, _, opened, rfl⟩ := gives
    obtain ⟨tree, declared, rfl⟩ := gives_openFunction opened
    exact ⟨by simp only [Scope.Tree.memberClass?, outside, ite_self], id, tree, declared, rfl⟩

theorem gives_declareClass (gives : Gives (declareClass name) before done after) :
    ∃ tree, before.tree.declareClass name = .ok tree ∧ after = { before with tree } := by
  obtain ⟨tree, declared, rfl⟩ := gives_onTree.1 gives
  obtain ⟨found, declared, ⟨⟩⟩ := map_eq_ok.1 declared
  exact ⟨tree, declared, rfl⟩

theorem gives_closeClass (gives : Gives closeClass before done after) :
    ∃ tree, before.tree.closeClass = .ok tree ∧ after = { before with tree } := by
  obtain ⟨tree, closed, rfl⟩ := gives_onTree.1 gives
  obtain ⟨found, closed, ⟨⟩⟩ := map_eq_ok.1 closed
  exact ⟨tree, closed, rfl⟩

theorem gives_closeFunction (gives : Gives closeFunction before done after) :
    ∃ function buffer id tree, before.tree.currentFunction? = some function ∧
      (buffer = before.buffer ∨ function.native = false ∧
        buffer = before.buffer.emit { opcode := .ret, left := .name function.name }) ∧
      before.tree.closeFunction = .ok (id, tree) ∧
      after = { before with
        buffer
        tree := { tree with memory := tree.memory.resetLocals } } := by
  unfold closeFunction at gives
  simp only [gives_get_bind] at gives
  split at gives
  · exact (gives_fail.1 gives).elim
  rename_i function current
  split at gives
  · exact (not_gives_fail_bind gives).elim
  split at gives
  · rename_i falls
    simp only [gives_bind, gives_emit, gives_onTree, gives_setTree] at gives
    obtain ⟨_, _, ⟨_, rfl⟩, id, _, ⟨tree, found, rfl⟩, rfl⟩ := gives
    simp only [Bool.and_eq_true, Bool.not_eq_true'] at falls
    exact ⟨function, _, id, tree, current, .inr ⟨falls.1, rfl⟩, found, rfl⟩
  · simp only [gives_bind, gives_onTree, gives_setTree] at gives
    obtain ⟨id, _, ⟨tree, found, rfl⟩, rfl⟩ := gives
    exact ⟨function, _, id, tree, current, .inl rfl, found, rfl⟩

end Quadruple.Generator
