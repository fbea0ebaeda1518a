import Quadruple.FlowGraph.ConstantFolding
import Quadruple.Proofs.Temporaries
import Quadruple.Proofs.Typing

/-!
Known values in instructions. An instruction does the same when known values take the place of the
cells that hold them, and one whose value is known stores just that value.
-/

namespace Quadruple

namespace Opcode

variable {opcode : Opcode}

theorem eval_of_arity (pure : opcode.isPure = true) (unary : opcode.arity ≠ 2) (left left' right : Value) :
    opcode.eval left right = opcode.eval left' right := by
  cases opcode with
  | floatToInt | intToFloat | not | bitNot => rfl
  | assign | reserved => cases pure
  | _ => first | exact absurd rfl unary | cases pure

theorem arity_of_isPure (pure : opcode.isPure = true) (unary : opcode.arity ≠ 2) : opcode.arity = 1 := by
  cases opcode with
  | _ => first | rfl | exact absurd rfl unary | cases pure

theorem type_of_eval {left right value : Value} (computes : opcode.eval left right = .ok value) :
    value.type ≠ .object := by
  have arithmeticType : ∀ ints floats, (arithmetic ints floats left right).type ≠ .object := by
    intro ints floats
    unfold arithmetic
    split
    · exact DataType.noConfusion
    · split <;> exact DataType.noConfusion
  have divided : ∀ value, divideInts left right = .ok value → value.type ≠ .object := by
    intro value divides
    unfold divideInts at divides
    split at divides
    · cases divides
    · cases divides
      exact DataType.noConfusion
  unfold eval at computes
  cases opcode with
  | add | sub | mul =>
    cases computes
    exact arithmeticType _ _
  | div =>
    simp only at computes
    split at computes
    · cases computes
      exact DataType.noConfusion
    · exact divided value computes
  | intDiv => exact divided value computes
  | mod =>
    simp only [modulo] at computes
    split at computes
    · cases computes
      exact DataType.noConfusion
    · split at computes
      · cases computes
      · cases computes
        exact DataType.noConfusion
  | bitNot =>
    cases computes
    cases right <;> exact DataType.noConfusion
  | _ =>
    cases computes
    try exact DataType.noConfusion

end Opcode

namespace FlowGraph

variable {opcode : Opcode}

/-! ### What is known -/

namespace Facts

variable {facts more : Facts} {slot other : Slot} {value : Value} {region : Option Nat}
  {operand : Operand}

theorem lookup_forget (facts : Facts) (slot other : Slot) :
    (facts.forget slot).lookup other = if other = slot then none else facts.lookup other := by
  unfold forget
  induction facts with
  | nil => simp
  | cons fact rest ih =>
    obtain ⟨known, value⟩ := fact
    by_cases forgotten : known = slot
    · have skipped : ((known, value) :: rest).filter (fun fact => fact.1 ≠ slot) =
          rest.filter fun fact => fact.1 ≠ slot :=
        List.filter_cons_of_neg (by simpa using forgotten)
      rw [skipped, ih, List.lookup_cons]
      by_cases same : other = slot
      · rw [if_pos same, if_pos same]
      · have different : (other == known) = false := by
          rw [forgotten]
          exact beq_false_of_ne same
        rw [if_neg same, if_neg same, different]
    · have kept : ((known, value) :: rest).filter (fun fact => fact.1 ≠ slot) =
          (known, value) :: rest.filter fun fact => fact.1 ≠ slot :=
        List.filter_cons_of_pos (by simpa using forgotten)
      rw [kept, List.lookup_cons, ih, List.lookup_cons]
      by_cases same : other = known
      · simp only [same, beq_self_eq_true, if_neg forgotten]
      · have apart : (other == known) = false := beq_false_of_ne same
        simp only [apart]

theorem lookup_learn (facts : Facts) (slot other : Slot) (value : Value) :
    (facts.learn slot value).lookup other =
      if other = slot then some value else facts.lookup other := by
  rw [learn, List.lookup_cons, lookup_forget]
  by_cases same : other = slot
  · simp [same]
  · have different : (other == slot) = false := beq_false_of_ne same
    simp only [different, if_neg same]

def Within (facts more : Facts) : Prop :=
  ∀ slot value, facts.lookup slot = some value → more.lookup slot = some value

theorem apply_cases (facts : Facts) (region : Option Nat) (operand : Operand) :
    facts.apply region operand = operand ∨ ∃ address value, operand = .address address ∧
      address.area = .temps ∧ facts.lookup ⟨region, address.plain⟩ = some value ∧
      facts.apply region operand = .literal value := by
  unfold apply
  cases operand with
  | address address =>
    by_cases inTemps : address.area = .temps
    · simp only [if_pos inTemps]
      cases known : facts.lookup ⟨region, address.plain⟩ with
      | none => exact .inl rfl
      | some value => exact .inr ⟨address, value, rfl, inTemps, known, rfl⟩
    · exact .inl (if_neg inTemps)
  | _ => exact .inl rfl

theorem apply_of_known {address : Address} (inTemps : address.area = .temps)
    (known : facts.lookup ⟨region, address.plain⟩ = some value) :
    facts.apply region (.address address) = .literal value := by
  simp only [apply, if_pos inTemps, known]

/-- Knowing more, it does not matter what has been put in before. -/
theorem apply_apply (within : facts.Within more) (region : Option Nat) (operand : Operand) :
    more.apply region (facts.apply region operand) = more.apply region operand := by
  rcases facts.apply_cases region operand with same | ⟨address, value, rfl, inTemps, known, applied⟩
  · rw [same]
  · rw [applied, apply_of_known inTemps (within _ _ known)]
    rfl

theorem apply_of_none (empty : ∀ slot, facts.lookup slot = none) (region : Option Nat)
    (operand : Operand) : facts.apply region operand = operand := by
  rcases facts.apply_cases region operand with same | ⟨_, _, _, _, known, _⟩
  · exact same
  · rw [empty] at known
    cases known

end Facts

def replacesLeft : Opcode → Bool
  | .store | .param | .nativeParam | .gotoTrue | .gotoFalse => true
  | opcode => opcode.isPure

def replacesRight : Opcode → Bool
  | .loadElement | .storeElement => true
  | opcode => opcode.isPure

def looksThroughLeft : Opcode → Bool
  | .malloc | .loadElement | .storeElement => true
  | _ => false

theorem mem_inputs {instr : Instruction} {operand : Operand} :
    operand ∈ instr.inputs ↔
      (operand = instr.left ∧
        (replacesLeft instr.opcode = true ∨ looksThroughLeft instr.opcode = true)) ∨
      (operand = instr.right ∧ replacesRight instr.opcode = true) ∨
      (operand = instr.result ∧ instr.opcode = .storeElement) := by
  unfold Instruction.inputs
  cases instr.opcode with
  | _ => simp [replacesLeft, replacesRight, looksThroughLeft, Opcode.isPure]

namespace Facts

variable {facts more : Facts} {value : Value} {region : Option Nat} {instr : Instruction} {cell : Address}
  {operand : Operand} {machine : Machine}

theorem substitute_eq (facts : Facts) (region : Option Nat) (instr : Instruction) :
    facts.substitute region instr =
      { instr with
        left := if replacesLeft instr.opcode then facts.apply region instr.left
          else instr.left
        right := if replacesRight instr.opcode then facts.apply region instr.right
          else instr.right
        result := if instr.opcode = .storeElement then facts.apply region instr.result
          else instr.result } := by
  obtain ⟨opcode, left, right, result⟩ := instr
  cases opcode with
  | _ => rfl

theorem opcode_substitute (facts : Facts) (region : Option Nat) (instr : Instruction) :
    (facts.substitute region instr).opcode = instr.opcode := by
  rw [substitute_eq]

theorem substitute_substitute (within : facts.Within more) (region : Option Nat)
    (instr : Instruction) :
    more.substitute region (facts.substitute region instr) =
      more.substitute region instr := by
  have twice : ∀ (replaced : Bool) (operand : Operand),
      (if replaced then more.apply region (if replaced then facts.apply region operand else operand)
        else if replaced then facts.apply region operand else operand) =
      if replaced then more.apply region operand else operand := by
    intro replaced operand
    cases replaced with
    | true => exact apply_apply within region operand
    | false => rfl
  rw [substitute_eq more, substitute_eq facts, substitute_eq more]
  simp only [twice]
  by_cases stored : instr.opcode = .storeElement
  · simp only [if_pos stored, apply_apply within]
  · simp only [if_neg stored]

theorem substitute_of_none (empty : ∀ slot, facts.lookup slot = none) (region : Option Nat)
    (instr : Instruction) : facts.substitute region instr = instr := by
  rw [substitute_eq]
  simp only [apply_of_none empty, ite_self]

/-- What is not stored to an element stays the result. -/
theorem result_substitute (facts : Facts) (region : Option Nat)
    (elsewhere : instr.opcode ≠ .storeElement) :
    (facts.substitute region instr).result = instr.result := by
  rw [substitute_eq]
  exact if_neg elsewhere

theorem written?_substitute (facts : Facts) (region : Option Nat) (instr : Instruction) :
    written? (facts.substitute region instr) = written? instr := by
  unfold written?
  rw [opcode_substitute]
  by_cases stored : instr.opcode = .storeElement
  · simp [stored]
  · rw [result_substitute facts region stored]

theorem writes_substitute (facts : Facts) (region : Option Nat) (instr : Instruction)
    (cell : Address) :
    (facts.substitute region instr).Writes cell ↔ instr.Writes cell := by
  have stores : (facts.substitute region instr).stores = instr.stores := by
    unfold Instruction.stores
    rw [opcode_substitute]
  unfold Instruction.Writes
  rw [stores]
  by_cases stored : instr.opcode = .storeElement
  · have silent : instr.stores = false := by
      unfold Instruction.stores
      rw [stored]
      rfl
    simp [silent]
  · rw [result_substitute facts region stored]

/-- An operand that may have been replaced is a cell only if it was, and nothing is known of it. -/
theorem is_of_apply (isTemp : cell.IsTemp) (named : (facts.apply region operand).Is cell) :
    operand.Is cell ∧ facts.lookup ⟨region, cell⟩ = none := by
  obtain ⟨address, same, rfl⟩ := named
  rcases facts.apply_cases region operand with kept | ⟨_, value, _, _, _, applied⟩
  · rw [kept] at same
    subst same
    refine ⟨⟨address, rfl, rfl⟩, ?_⟩
    cases known : facts.lookup ⟨region, address.plain⟩ with
    | none => rfl
    | some value =>
      have inTemps : address.area = .temps := isTemp.1
      rw [apply_of_known inTemps known] at kept
      cases kept
  · rw [applied] at same
    cases same

/-- What an instruction still reads when known values have been put in: nothing that is known, unless
it looks through it. -/
theorem reads_of_substitute (reads : (facts.substitute region instr).Reads cell) :
    instr.Reads cell ∧ (facts.lookup ⟨region, cell⟩ = none ∨
      looksThroughLeft instr.opcode = true ∧ instr.left.Is cell) := by
  obtain ⟨isTemp, operand, among, named⟩ := reads
  have read : ∀ {operand : Operand}, operand ∈ instr.inputs → operand.Is cell →
      instr.Reads cell := fun among named => ⟨isTemp, _, among, named⟩
  rw [mem_inputs, opcode_substitute, substitute_eq] at among
  rcases among with ⟨rfl, replaced | looked⟩ | ⟨rfl, replaced⟩ | ⟨rfl, stored⟩
  · simp only [if_pos replaced] at named
    obtain ⟨named, unknown⟩ := is_of_apply isTemp named
    exact ⟨read (mem_inputs.2 (.inl ⟨rfl, .inl replaced⟩)) named, .inl unknown⟩
  · have kept : replacesLeft instr.opcode = false := by
      unfold looksThroughLeft at looked
      split at looked
      · rename_i same; rw [same]; rfl
      · rename_i same; rw [same]; rfl
      · rename_i same; rw [same]; rfl
      · cases looked
    simp only [kept, Bool.false_eq_true, if_false] at named
    exact ⟨read (mem_inputs.2 (.inl ⟨rfl, .inr looked⟩)) named, .inr ⟨looked, named⟩⟩
  · simp only [if_pos replaced] at named
    obtain ⟨named, unknown⟩ := is_of_apply isTemp named
    exact ⟨read (mem_inputs.2 (.inr (.inl ⟨rfl, replaced⟩))) named, .inl unknown⟩
  · simp only [if_pos stored] at named
    obtain ⟨named, unknown⟩ := is_of_apply isTemp named
    exact ⟨read (mem_inputs.2 (.inr (.inr ⟨rfl, stored⟩))) named, .inl unknown⟩

/-! ### What instructions do with known values -/

/-- What is known of the cells that an instruction reads is true of a bank of intermediate results. -/
def HoldFor (facts : Facts) (region : Option Nat) (instr : Instruction) (temps : Bank) : Prop :=
  ∀ cell value, instr.Reads cell → facts.lookup ⟨region, cell⟩ = some value →
    temps.cell? cell = some value ∧ value.type = cell.type

theorem read_apply (hold : facts.HoldFor region instr machine.memory.temps) (among : operand ∈ instr.inputs) :
    machine.read (facts.apply region operand) = machine.read operand ∧
      machine.readIfAny (facts.apply region operand) = machine.readIfAny operand ∧
      (facts.apply region operand).type = operand.type := by
  rcases facts.apply_cases region operand with kept | ⟨address, value, rfl, inTemps, known, applied⟩
  · rw [kept]
    exact ⟨rfl, rfl, rfl⟩
  · obtain ⟨held, typed⟩ := hold address.plain value
      ⟨.plain inTemps, .address address, among, address, rfl, rfl⟩ known
    have loaded : machine.memory.load address.plain = .ok value :=
      Memory.load_temp (.plain inTemps) held
    rw [applied]
    refine ⟨?_, ?_, typed⟩
    · simp only [Machine.read, loaded]
      rfl
    · simp only [Machine.readIfAny, Machine.read, loaded]
      rfl

/-- An instruction does the same when known values take the place of cells. -/
theorem effect_substitute {workspace : Workspace} (callers : Nat)
    (hold : facts.HoldFor region instr workspace.memory.temps) :
    workspace.effect callers (facts.substitute region instr) =
      workspace.effect callers instr := by
  have hold' : facts.HoldFor region instr workspace.idle.memory.temps := hold
  obtain ⟨opcode, left, right, result⟩ := instr
  have same : ∀ operand, operand ∈ Instruction.inputs ⟨opcode, left, right, result⟩ →
      workspace.idle.read (facts.apply region operand) = workspace.idle.read operand ∧
        workspace.idle.readIfAny (facts.apply region operand) = workspace.idle.readIfAny operand ∧
        (facts.apply region operand).type = operand.type :=
    fun operand among => read_apply hold' among
  cases opcode with
  | nop | init | goto | exit | load | malloc | openRecord | call | ret | nativeCall | assign
  | reserved => rfl
  | gotoTrue | gotoFalse =>
    have condition := (same left List.mem_cons_self).1
    simp only [substitute, Workspace.effect, Workspace.branch, condition]
  | store | param | nativeParam =>
    have source := (same left List.mem_cons_self).1
    simp only [substitute, Workspace.effect, Machine.copy, Machine.passParam, Machine.passNative, source]
  | loadElement =>
    have place := (same right (List.mem_cons_of_mem _ List.mem_cons_self)).1
    simp only [substitute, Workspace.effect, Machine.loadElement, Machine.element, place]
  | storeElement =>
    have place := (same right (List.mem_cons_of_mem _ List.mem_cons_self)).1
    have source := same result (List.mem_cons_of_mem _ (List.mem_cons_of_mem _ List.mem_cons_self))
    simp only [substitute, Workspace.effect, Machine.storeElement, Machine.element, place,
      source.1, source.2.2]
  | _ =>
    have first := (same left List.mem_cons_self).2.1
    have second := (same right (List.mem_cons_of_mem _ List.mem_cons_self)).2.1
    refine congrArg (Effect.ofOutcome · workspace.idle) (show workspace.idle.operate
      ⟨_, facts.apply region left, facts.apply region right, result⟩ = _ from ?_)
    simp only [Machine.operate, first, second]

end Facts

/-! ### Instructions whose value is known -/

variable {instr : Instruction} {value : Value} {cell : Address}

theorem known?_eq_some (known : known? instr = some value) :
    (instr.opcode = .load ∧ instr.left = .literal value) ∨
      (instr.opcode.isPure = true ∧ ∃ right, instr.right = .literal right ∧
        ((∃ left, instr.left = .literal left ∧
            instr.opcode.eval left right = .ok value) ∨
          (instr.opcode.arity ≠ 2 ∧
            instr.opcode.eval .absent right = .ok value))) := by
  obtain ⟨opcode, left, right, result⟩ := instr
  unfold known? at known
  simp only at known ⊢
  split at known
  · cases known
    exact .inl ⟨rfl, rfl⟩
  · cases known
  · rename_i left right _
    split at known
    · rename_i pure
      exact .inr ⟨pure, right, rfl, .inl ⟨left, rfl, toOption_eq_some.1 known⟩⟩
    · cases known
  · rename_i second _ _
    split at known
    · rename_i unary
      simp only [Bool.and_eq_true, decide_eq_true_eq] at unary
      exact .inr ⟨unary.1, _, rfl, .inr ⟨unary.2, toOption_eq_some.1 known⟩⟩
    · cases known
  · cases known

theorem known?_literals (pure : opcode.isPure = true) (left right : Value) (result : Operand) :
    known? ⟨opcode, .literal left, .literal right, result⟩ = (opcode.eval left right).toOption := by
  cases opcode with
  | _ => first
    | rfl
    | cases pure

theorem substitute_pure (pure : opcode.isPure = true) (facts : Facts) (region : Option Nat)
    (left right result : Operand) :
    facts.substitute region ⟨opcode, left, right, result⟩ =
      ⟨opcode, facts.apply region left, facts.apply region right, result⟩ := by
  cases opcode with
  | _ => first
    | rfl
    | cases pure

theorem known?_substitute (facts : Facts) (region : Option Nat)
    (known : known? instr = some value) :
    known? (facts.substitute region instr) = some value := by
  obtain ⟨opcode, left, right, result⟩ := instr
  rcases known?_eq_some known with ⟨loads, literal⟩ | ⟨pure, second, literal, computed⟩
  · simp only at loads literal
    subst loads literal
    exact known
  · simp only at pure literal computed
    subst literal
    have kept : facts.apply region (.literal second) = .literal second := rfl
    rw [substitute_pure pure, kept]
    rcases facts.apply_cases region left with same | ⟨address, first, rfl, _, _, applied⟩
    · rw [same]
      exact known
    · -- only an operator of one operand is known without its left one, and it does not look at it
      rcases computed with ⟨_, impossible, _⟩ | ⟨unary, computed⟩
      · cases impossible
      · rw [applied, known?_literals pure, Opcode.eval_of_arity pure unary first .absent,
          toOption_eq_some]
        exact computed

theorem written?_eq_some (written : written? instr = some cell) :
    ∃ address : Address, instr.result = .address address ∧ address.plain = cell := by
  unfold written? at written
  split at written
  · cases written
  · split at written
    · rename_i address same
      cases written
      exact ⟨address, same, rfl⟩
    · cases written

theorem written?_of_writes (writes : instr.Writes cell) :
    written? instr = some cell := by
  obtain ⟨_, stores, address, same, rfl⟩ := writes
  have plain : (instr.opcode = .storeElement || instr.opcode.hasTarget) = false := by
    unfold Instruction.stores at stores
    cases named : instr.opcode with
    | _ => first
      | rfl
      | (rw [named] at stores; cases stores)
  simp only [written?, plain, same, Bool.false_eq_true, if_false]

theorem writes_of_known (known : known? instr = some value)
    (written : written? instr = some cell) (inTemps : cell.area = .temps) :
    instr.Writes cell := by
  obtain ⟨address, same, rfl⟩ := written?_eq_some written
  refine ⟨.plain inTemps, ?_, address, same, rfl⟩
  unfold Instruction.stores
  rcases known?_eq_some known with ⟨loads, _⟩ | ⟨pure, _⟩
  · rw [loads]
  · cases named : instr.opcode with
    | _ => first
      | rfl
      | (rw [named] at pure; exact pure)

theorem effect_known {workspace : Workspace} (callers : Nat)
    (known : known? instr = some value) (written : written? instr = some cell)
    (typed : value.type = cell.type)
    (unary : instr.opcode.arity = 1 → instr.left = .none)
    {memory : Memory} (stored : workspace.memory.store cell value = .ok memory) :
    workspace.effect callers instr = .flow .next { workspace with memory } := by
  obtain ⟨address, same, rfl⟩ := written?_eq_some written
  have writes : workspace.idle.write instr.result value =
      .ok { workspace.idle with memory } := by
    refine Machine.write_eq_ok.2 ⟨address, memory, same, ?_, rfl⟩
    have kept : value.coerce address.type = value := Value.coerce_of_type typed
    rw [kept]
    exact stored
  rcases known?_eq_some known with ⟨loads, literal⟩ | ⟨pure, right, literal, computed⟩
  · have done : workspace.idle.loadLiteral instr = .ok { workspace.idle with memory } :=
      Machine.loadLiteral_eq_ok.2 ⟨value, literal, writes⟩
    simp only [Workspace.effect, loads, done]
    rfl
  · have evaluated : ∃ left, workspace.idle.readIfAny instr.left = .ok left ∧
        instr.opcode.eval left right = .ok value := by
      rcases computed with ⟨left, isLiteral, computed⟩ | ⟨notBinary, computed⟩
      · exact ⟨left, by rw [isLiteral]; rfl, computed⟩
      · refine ⟨.absent, ?_, computed⟩
        rw [unary (Opcode.arity_of_isPure pure notBinary)]
        rfl
    obtain ⟨left, readLeft, evaluated⟩ := evaluated
    have done : workspace.idle.operate instr = .ok { workspace.idle with memory } :=
      Machine.operate_eq_ok.2 ⟨left, right, value, readLeft, by rw [literal]; rfl, evaluated, writes⟩
    rw [Workspace.effect_pure pure, done]
    rfl

end FlowGraph

end Quadruple
