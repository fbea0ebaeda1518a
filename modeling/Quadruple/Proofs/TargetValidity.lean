import Quadruple.Proofs.NativePolicy
import Quadruple.Proofs.ProgramBounds
import Quadruple.Proofs.Relayout

/-!
Targets of jumps and calls are checked in three places: when an image is loaded, when the flow graph of a
program is made, and when a machine takes a jump. All three ask for the same, so a program that is loaded
can be optimized once it has a start, and its runs never fail for want of a target. An optimized program
is enclosed: its targets are instructions and its last instruction hands control on, so its runs stay
inside and it can be optimized again.
-/

namespace Quadruple

namespace Machine

variable {α β : Type} {machine : Machine} {instr : Instruction}

/-! ### Failures for want of a target -/

def Fault.Astray : Fault → Prop
  | .noTarget _ | .targetOutside _ => True
  | _ => False

def Aimed (outcome : Except Fault α) : Prop :=
  ∀ fault, outcome = .error fault → ¬ fault.Astray

theorem aimed_ok (value : α) : Aimed (.ok value) :=
  fun _ fails => nomatch fails

theorem aimed_error {fault : Fault} (other : ¬ fault.Astray) : Aimed (.error fault : Except Fault α) := by
  intro _ fails
  cases fails
  exact other

theorem Aimed.bind {first : Except Fault α} {rest : α → Except Fault β} (aimed : Aimed first)
    (next : ∀ value, Aimed (rest value)) : Aimed (first >>= rest) := by
  cases first with
  | error fault => exact aimed_error (aimed fault rfl)
  | ok value => exact next value

theorem Aimed.map {outcome : Except Fault α} (aimed : Aimed outcome) (change : α → β) :
    Aimed (outcome.map change) := by
  cases outcome with
  | error fault => exact aimed_error (aimed fault rfl)
  | ok value => exact aimed_ok _

theorem aimed_mapError {ε : Type} (outcome : Except ε α) {change : ε → Fault}
    (other : ∀ cause, ¬ (change cause).Astray) : Aimed (outcome.mapError change) := by
  cases outcome with
  | error cause => exact aimed_error (other cause)
  | ok value => exact aimed_ok value

theorem aimed_memory (outcome : Except Memory.Error α) : Aimed (outcome.mapError Fault.memory) :=
  aimed_mapError outcome fun _ => id

section

variable (machine)

theorem aimed_read (operand : Operand) : Aimed (machine.read operand) := by
  cases operand with
  | literal => exact aimed_ok _
  | address => exact aimed_memory _
  | _ => exact aimed_error id

theorem aimed_readIfAny (operand : Operand) : Aimed (machine.readIfAny operand) := by
  unfold readIfAny
  split
  · exact aimed_ok _
  · exact aimed_read machine operand

theorem aimed_write (operand : Operand) (value : Value) : Aimed (machine.write operand value) := by
  unfold write
  split
  · exact (aimed_memory _).map _
  · exact aimed_error id

theorem aimed_originOf (base : Address) : Aimed (machine.originOf base) := by
  unfold originOf
  split
  · refine (aimed_memory _).bind fun value => ?_
    split
    · split
      · exact aimed_ok _
      · exact aimed_error id
    · exact aimed_error id
  · exact aimed_ok _

theorem aimed_element (base index : Operand) (type : DataType) :
    Aimed (machine.element base index type) := by
  unfold element
  split
  · refine (aimed_read machine index).bind fun value => ?_
    simp only
    split
    · exact aimed_error id
    · refine (aimed_originOf machine _).bind fun origin => ?_
      split
      · exact aimed_error id
      · exact aimed_ok _
  · exact aimed_error id

theorem aimed_loadLiteral (instr : Instruction) : Aimed (machine.loadLiteral instr) := by
  unfold loadLiteral
  split
  · exact aimed_write machine _ _
  · exact aimed_error id

theorem aimed_loadElement (instr : Instruction) : Aimed (machine.loadElement instr) := by
  unfold loadElement
  split
  · refine (aimed_element machine _ _ _).bind fun cell => ?_
    exact (aimed_memory _).bind fun value => aimed_write machine _ _
  · exact aimed_error id

theorem aimed_storeElement (instr : Instruction) : Aimed (machine.storeElement instr) := by
  refine (aimed_read machine _).bind fun value => ?_
  refine (aimed_element machine _ _ _).bind fun cell => ?_
  exact (aimed_memory _).bind fun memory => aimed_ok _

theorem aimed_allocateObject (instr : Instruction) : Aimed (machine.allocateObject instr).1 := by
  have reading := aimed_read machine instr.left
  unfold allocateObject
  split
  · rename_i found
    rw [found] at reading
    exact aimed_error (reading _ rfl)
  · split
    · exact aimed_error id
    · exact aimed_write _ _ _

theorem aimed_operate (instr : Instruction) : Aimed (machine.operate instr) := by
  refine (aimed_readIfAny machine _).bind fun left => ?_
  refine (aimed_readIfAny machine _).bind fun right => ?_
  exact (aimed_mapError _ fun _ => id).bind fun value => aimed_write machine _ _

theorem aimed_passParam (instr : Instruction) : Aimed (machine.passParam instr) := by
  refine (aimed_read machine _).bind fun value => ?_
  split
  · exact aimed_ok _
  · exact aimed_error id

end

theorem aimed_bindAll (memory : Memory) (passed : List Passed) :
    Aimed (bindAll memory passed).1 := by
  induction passed generalizing memory with
  | nil => exact aimed_ok _
  | cons argument rest ih =>
    have storing : Aimed (storeAt memory argument.destination argument.value) := aimed_memory _
    unfold bindAll
    split
    · exact ih _
    · rename_i found
      rw [found] at storing
      exact aimed_error (storing _ rfl)

theorem aimed_ret (machine : Machine) (instr : Instruction) :
    Aimed (machine.ret instr) := by
  unfold ret
  split
  · exact aimed_error id
  · exact (aimed_memory _).bind fun memory => aimed_ok _

theorem aimed_callNative (machine : Machine) (instr : Instruction) :
    Aimed (machine.callNative instr).1 := by
  unfold callNative
  simp only
  split
  · exact aimed_error id
  · split
    · exact aimed_error id
    · split
      · exact aimed_write _ _ _
      · exact aimed_ok _

theorem aimed_exit (machine : Machine) : Aimed machine.exit := by
  unfold exit
  simp only
  split
  · exact aimed_error id
  · exact aimed_ok _

/-! ### Programs whose targets lie inside -/

theorem aimed_targetOf (inside : Code.TargetsInside machine.program)
    (found : machine.program[machine.position]? = some instr)
    (jumps : instr.opcode.hasTarget = true) : Aimed (machine.targetOf instr) := by
  obtain ⟨target, named, bounded⟩ := inside _ instr found jumps
  rw [targetOf_eq machine named bounded]
  exact aimed_ok _

theorem aimed_call (aims : Aimed (machine.targetOf instr)) :
    Aimed (machine.call instr).1 := by
  have binding := aimed_bindAll machine.memory machine.passed
  unfold call
  split
  · exact aimed_error id
  · split
    · rename_i bound
      rw [bound] at binding
      exact aimed_error (binding _ rfl)
    · simp only
      split
      · rename_i found
        exact aimed_error (aims _ found)
      · exact aimed_ok _

theorem aimed_branch (aims : Aimed (machine.targetOf instr)) (sense : Bool) :
    Aimed (machine.branch instr sense) := by
  refine (aimed_read machine _).bind fun condition => ?_
  split
  · exact aims.map _
  · exact aimed_ok _

/-- Only a target that is not there leads an instruction astray. -/
theorem aimed_execute (aims : instr.opcode.hasTarget = true → Aimed (machine.targetOf instr))
    {outcome : Except Fault Next} {left : Machine}
    (executed : machine.execute? instr = some (outcome, left)) : Aimed outcome := by
  have settled : ∀ {given : Except Fault Next} {other : Machine},
      some (given, other) = some (outcome, left) → Aimed given → Aimed outcome := by
    intro given other same aimed
    cases same
    exact aimed
  unfold execute? at executed
  cases named : instr.opcode <;> rw [named] at executed aims
  case nop | init | openRecord => exact settled executed (aimed_ok _)
  case exit => exact settled executed (aimed_exit machine)
  case goto => exact settled executed ((aims rfl).map _)
  case gotoTrue | gotoFalse => exact settled executed (aimed_branch (aims rfl) _)
  case load => exact settled executed ((aimed_loadLiteral machine instr).map _)
  case store =>
    exact settled executed (((aimed_read machine _).bind fun _ => aimed_write machine _ _).map _)
  case loadElement => exact settled executed ((aimed_loadElement machine instr).map _)
  case storeElement => exact settled executed ((aimed_storeElement machine instr).map _)
  case malloc => exact settled executed ((aimed_allocateObject machine instr).map _)
  case param => exact settled executed ((aimed_passParam machine instr).map _)
  case call => exact settled executed (aimed_call (aims rfl))
  case ret => exact settled executed (aimed_ret machine instr)
  case nativeParam =>
    exact settled executed (((aimed_read machine _).bind fun _ => aimed_ok _).map _)
  case nativeCall => exact settled executed ((aimed_callNative machine instr).map _)
  case assign | reserved => cases executed
  all_goals exact settled executed ((aimed_operate machine instr).map _)

/-- Whether a step fails because its instruction continues nowhere, or outside the program. -/
def GoesAstray (machine : Machine) : Prop :=
  ∃ position opcode fault, machine.step.1 = .error (.fault position opcode fault) ∧ fault.Astray

theorem not_goesAstray (inside : Code.TargetsInside machine.program) : ¬ machine.GoesAstray := by
  rintro ⟨position, opcode, fault, fails, astray⟩
  unfold step at fails
  split at fails
  · cases fails
  split at fails
  · cases fails
  rename_i instr found
  split at fails
  · cases fails
  split at fails
  · cases fails
  · cases fails
  · rename_i executed
    cases fails
    exact aimed_execute (aimed_targetOf inside found) executed fault rfl astray

end Machine

/-! ### Programs that control does not leave -/

/-- A program that starts with its start instruction, whose targets are instructions, and whose last
instruction does not go on to a following one. -/
structure Code.Enclosed (code : Code) : Prop where
  starts : ∃ first, code[0]? = some first ∧ first.opcode = .init
  targets : ∀ instr ∈ code, instr.opcode.hasTarget = true →
    ∃ target : Nat, instr.target? = some (target : Int) ∧ target < code.size
  ends : ∃ last, code.back? = some last ∧
    (last.opcode = .goto ∨ last.opcode = .ret ∨ last.opcode = .exit)

variable {code : Code}

theorem Code.Enclosed.targetsInside (enclosed : Code.Enclosed code) : Code.TargetsInside code := by
  intro position instr found jumps
  obtain ⟨target, named, bounded⟩ := enclosed.targets _ (Array.mem_of_getElem? found) jumps
  exact ⟨target, named, Nat.le_of_lt bounded⟩

theorem FlowGraph.fallsThrough_eq_false_iff {opcode : Opcode} :
    fallsThrough opcode = false ↔ opcode = .goto ∨ opcode = .ret ∨ opcode = .exit := by
  cases opcode <;> simp [fallsThrough]

theorem Instruction.hasTarget_of_target? {instr : Instruction} {index : Int}
    (names : instr.target? = some index) : instr.opcode.hasTarget = true := by
  unfold target? at names
  split at names
  · exact (Option.ite_none_right_eq_some.1 names).1
  · cases names

theorem Code.Enclosed.inward (enclosed : Code.Enclosed code) : Code.Inward code := by
  constructor
  · intro position instr found falls
    obtain ⟨inside, here⟩ := Array.getElem?_eq_some_iff.1 found
    obtain ⟨last, isLast, leaves⟩ := enclosed.ends
    by_contra beyond
    rw [Array.back?_eq_getElem?, show code.size - 1 = position by omega, found] at isLast
    cases isLast
    rw [FlowGraph.fallsThrough_eq_false_iff.2 leaves] at falls
    cases falls
  · intro position instr target found names
    obtain ⟨index, named, bounded⟩ := enclosed.targets _ (Array.mem_of_getElem? found)
      (Instruction.hasTarget_of_target? names)
    cases named.symm.trans names
    exact bounded

theorem Machine.within_afterSteps (enclosed : Code.Enclosed code) (options : Options)
    (count : Nat) : Within code ((ofProgram code options).afterSteps count) := by
  obtain ⟨first, found, _⟩ := enclosed.starts
  exact (within_ofProgram (Array.getElem?_eq_some_iff.1 found).1 options).afterSteps enclosed.inward
    count

/-! ### Programs that have a flow graph -/

namespace FlowGraph

variable {code : Code} {graph : FlowGraph}

/-- What is wrong with a single instruction is its target. -/
theorem nodeOf_ne_noStart (size : Nat) (instr : Instruction) (index : Nat) :
    nodeOf size instr index ≠ .error .noStart := by
  unfold nodeOf
  simp only
  split
  · split
    · exact fun same => nomatch same
    · split <;> exact fun same => nomatch same
  · exact fun same => nomatch same

theorem mapM_ne_error {α β ε : Type} {make : α → Except ε β} {cause : ε}
    (never : ∀ value, make value ≠ .error cause) (values : List α) :
    values.mapM make ≠ .error cause := by
  induction values with
  | nil => exact fun same => nomatch same
  | cons value rest ih =>
    rw [List.mapM_cons]
    intro fails
    cases made : make value with
    | error other =>
      rw [made] at fails
      cases fails
      exact never value made
    | ok first =>
      rw [made] at fails
      cases more : rest.mapM make with
      | error other =>
        rw [more] at fails
        cases fails
        exact ih more
      | ok made' =>
        rw [more] at fails
        cases fails

theorem nodesOf_ne_noStart (code : Code) : nodesOf code ≠ .error .noStart := by
  have never := mapM_ne_error
    (fun item : Instruction × Nat => nodeOf_ne_noStart code.size item.1 item.2) code.toList.zipIdx
  unfold nodesOf
  cases made : code.toList.zipIdx.mapM
      fun item : Instruction × Nat => nodeOf code.size item.1 item.2 with
  | error cause =>
    rw [made] at never
    intro fails
    cases fails
    exact never rfl
  | ok nodes => exact fun fails => nomatch fails

/-- Apart from having no start, a program is refused for its targets only. -/
theorem targetsInside_iff :
    code.TargetsInside ↔ ∀ failure, ofCode code = .error failure → failure = .noStart := by
  constructor
  · intro inside failure fails
    obtain ⟨nodes, made⟩ := exists_nodesOf inside
    unfold ofCode at fails
    rw [made] at fails
    simp only [bind, Except.bind] at fails
    split at fails
    · cases fails
      rfl
    · cases fails
  · intro only
    cases made : nodesOf code with
    | ok nodes => exact targetsInside_nodesOf made
    | error failure =>
      have fails : ofCode code = .error failure := by
        unfold ofCode
        rw [made]
        rfl
      cases only failure fails
      exact absurd made (nodesOf_ne_noStart code)

theorem exists_ofCode_iff :
    (∃ graph, ofCode code = .ok graph) ↔
      code.TargetsInside ∧ ∃ instr ∈ code, instr.opcode = .init := by
  constructor
  · rintro ⟨graph, made⟩
    refine ⟨targetsInside_ofCode made, ?_⟩
    obtain ⟨_, _, start, _⟩ := ofCode_eq_ok made
    obtain ⟨inside, isInit, _⟩ := Array.findIdx?_eq_some_iff_getElem.1 start
    exact ⟨_, Array.getElem_mem inside, of_decide_eq_true isInit⟩
  · rintro ⟨inside, instr, listed, isInit⟩
    have starts : (code.findIdx? fun instr => instr.opcode = .init).isSome = true := by
      rw [Array.findIdx?_isSome, Array.any_eq_true']
      exact ⟨instr, listed, decide_eq_true isInit⟩
    obtain ⟨root, start⟩ := Option.isSome_iff_exists.1 starts
    obtain ⟨graph, made, _⟩ := exists_ofCode inside start
    exact ⟨graph, made⟩

/-- A program that is laid out from a graph is enclosed. -/
theorem Relaid.enclosed {after : FlowGraph} (relaid : graph.Relaid after) :
    Code.Enclosed graph.toCode := by
  have start := start_toCode relaid.coherent
  obtain ⟨nonempty, isInit, _⟩ := Array.findIdx?_eq_some_iff_getElem.1 start
  have finish : after.finish = graph.toCode.size := size_ofCode relaid.accepted
  refine ⟨⟨_, Array.getElem?_eq_getElem nonempty, of_decide_eq_true isInit⟩, ?_, ?_⟩
  · intro instr listed jumps
    obtain ⟨place, inside, rfl⟩ := Array.mem_iff_getElem.1 listed
    obtain ⟨node, found, represents⟩ :=
      node_ofCode relaid.accepted (Array.getElem?_eq_getElem inside)
    have named := represents.target
    rw [if_pos jumps] at named
    obtain ⟨target, names, bounded, leads⟩ := named
    have elsewhere : target ≠ after.finish := by
      rintro rfl
      exact relaid.inner place node found
        (((relaid.coherent'.shaped place node found).mem_successors _).2 (.inr leads))
    exact ⟨target, names, by omega⟩
  · -- Control would go on from the last instruction to the end.
    have inside : graph.toCode.size - 1 < graph.toCode.size := by omega
    have here := Array.getElem?_eq_getElem inside
    obtain ⟨node, found, represents⟩ := node_ofCode relaid.accepted here
    refine ⟨_, (Array.back?_eq_getElem? ..).trans here, ?_⟩
    rw [← fallsThrough_eq_false_iff, ← Bool.not_eq_true]
    intro falls
    have leads := represents.next
    rw [if_pos falls, show graph.toCode.size - 1 + 1 = after.finish by omega] at leads
    exact relaid.inner _ node found
      (((relaid.coherent'.shaped _ node found).mem_successors _).2 (.inl leads))

end FlowGraph

namespace Optimization

theorem exists_reduce_iff (options : Options) :
    (∃ reduced, reduce code options = .ok reduced) ↔ ∃ graph, FlowGraph.ofCode code = .ok graph := by
  constructor
  · rintro ⟨_, done⟩
    obtain ⟨graph, accepted, _⟩ := bind_eq_ok.1 done
    exact ⟨graph, accepted⟩
  · rintro ⟨graph, accepted⟩
    exact ⟨_, bind_eq_ok.2 ⟨graph, accepted, rfl⟩⟩

theorem enclosed_optimize {code made : Code} {options : Options} {stats : Stats}
    (done : optimize code options = .ok (made, stats)) : Code.Enclosed made := by
  obtain ⟨_, reduced, _⟩ := bind_eq_ok.1 done
  obtain ⟨graph, accepted⟩ := (exists_reduce_iff options).1 ⟨_, reduced⟩
  rw [optimize_eq accepted] at done
  cases done
  obtain ⟨_, relaid⟩ := (exact_iterate options accepted
    { before := code.size, unreachable := code.size - graph.liveCount }).exists_relaid
  exact relaid.enclosed

end Optimization

/-! ### Images -/

namespace Image

variable {image : Image}

theorem executed_target (record : InstructionRecord) :
    record.executed.opcode = record.toInstruction.opcode ∧
      record.executed.target? = record.toInstruction.target? := by
  unfold InstructionRecord.executed
  split <;> exact ⟨rfl, rfl⟩

theorem size_program (image : Image) : image.program.size = image.code.size := by
  simp [program, code]

theorem getElem?_code (position : Nat) :
    image.code[position]? = (image.records[position]?).map InstructionRecord.toInstruction := by
  rw [code, List.getElem?_toArray, List.getElem?_map]

theorem getElem?_program (position : Nat) :
    image.program[position]? = (image.records[position]?).map InstructionRecord.executed := by
  rw [program, List.getElem?_toArray, List.getElem?_map]

theorem program_of_code {position : Nat} {instr : Instruction}
    (found : image.code[position]? = some instr) :
    ∃ executed, image.program[position]? = some executed ∧ executed.opcode = instr.opcode := by
  rw [getElem?_code] at found
  obtain ⟨record, listed, rfl⟩ := Option.map_eq_some_iff.1 found
  exact ⟨record.executed, by rw [getElem?_program, listed, Option.map_some], (executed_target record).1⟩

theorem code_of_program {position : Nat} {executed : Instruction}
    (found : image.program[position]? = some executed) :
    ∃ instr, image.code[position]? = some instr ∧
      executed.opcode = instr.opcode ∧ executed.target? = instr.target? := by
  rw [getElem?_program] at found
  obtain ⟨record, listed, rfl⟩ := Option.map_eq_some_iff.1 found
  exact ⟨record.toInstruction, by rw [getElem?_code, listed, Option.map_some], executed_target record⟩

theorem targetsInside_program (inside : image.code.TargetsInside) : image.program.TargetsInside := by
  intro position executed found jumps
  obtain ⟨instr, here, opcode, target⟩ := code_of_program found
  rw [target, size_program]
  exact inside position instr here (opcode ▸ jumps)

theorem enclosed_program (enclosed : image.code.Enclosed) : image.program.Enclosed := by
  refine ⟨?_, fun executed listed jumps => ?_, ?_⟩
  · obtain ⟨first, found, isInit⟩ := enclosed.starts
    obtain ⟨executed, here, opcode⟩ := program_of_code found
    exact ⟨executed, here, opcode.trans isInit⟩
  · obtain ⟨position, inside, rfl⟩ := Array.mem_iff_getElem.1 listed
    obtain ⟨instr, here, opcode, target⟩ := code_of_program (Array.getElem?_eq_getElem inside)
    rw [target, size_program]
    exact enclosed.targets instr (Array.mem_of_getElem? here) (opcode ▸ jumps)
  · obtain ⟨last, found, leaves⟩ := enclosed.ends
    rw [Array.back?_eq_getElem?] at found
    obtain ⟨executed, here, opcode⟩ := program_of_code found
    refine ⟨executed, ?_, opcode ▸ leaves⟩
    rw [Array.back?_eq_getElem?, size_program]
    exact here

theorem exists_optimize_iff (options : Optimization.Options) :
    (∃ made, image.optimize options = .ok made) ↔
      image.validate = .ok () ∧ ∃ instr ∈ image.code, instr.opcode = .init := by
  rw [validate_eq_ok_iff, ← FlowGraph.exists_ofCode_iff, ← Optimization.exists_reduce_iff options]
  constructor
  · rintro ⟨made, done⟩
    obtain ⟨reduced, same, _⟩ := bind_eq_ok.1 done
    exact ⟨reduced, same⟩
  · rintro ⟨reduced, same⟩
    exact ⟨_, bind_eq_ok.2 ⟨reduced, same, rfl⟩⟩

/-- Loading, optimizing and running agree on targets. An image passes the check of its targets exactly if
the flow graph of its program is not refused for one, and it can be optimized exactly if it also has a
start. No run of an image that passes goes astray, however long it is. An optimized image is enclosed, so
it passes with every target at an instruction, its runs never come to the end of the program, and it can
be optimized again. -/
theorem targets_checked_alike (image : Image) :
    (image.validate = .ok () ↔
      ∀ failure, FlowGraph.ofCode image.code = .error failure → failure = .noStart) ∧
    (∀ options : Optimization.Options, (∃ made, image.optimize options = .ok made) ↔
      image.validate = .ok () ∧ ∃ instruction ∈ image.code, instruction.opcode = .init) ∧
    (image.validate = .ok () → ∀ (run : Machine.Options) (count : Nat),
      ¬ ((Machine.ofProgram image.program run).afterSteps count).GoesAstray) ∧
    ∀ (options : Optimization.Options) (made : Image) (stats : Optimization.Stats),
      image.optimize options = .ok (made, stats) →
        Optimization.optimize image.code options = .ok (made.code, stats) ∧
        made.code.Enclosed ∧ made.validate = .ok () ∧
        (∀ (run : Machine.Options) (count : Nat),
          ((Machine.ofProgram made.program run).afterSteps count).position < made.program.size) ∧
        ∀ again : Optimization.Options, ∃ remade, made.optimize again = .ok remade := by
  refine ⟨?_, exists_optimize_iff, fun valid run count => ?_, fun options made stats done => ?_⟩
  · rw [validate_eq_ok_iff]
    exact FlowGraph.targetsInside_iff
  · apply Machine.not_goesAstray
    rw [Machine.program_afterSteps]
    exact targetsInside_program (validate_eq_ok_iff.1 valid)
  · have optimized := code_optimize done
    have enclosed := Optimization.enclosed_optimize optimized
    have valid : made.validate = .ok () := validate_eq_ok_iff.2 enclosed.targetsInside
    obtain ⟨first, found, isInit⟩ := enclosed.starts
    refine ⟨optimized, enclosed, valid, fun run count => ?_, fun again => ?_⟩
    · exact (Machine.within_afterSteps (enclosed_program enclosed) run count).position
    · exact (exists_optimize_iff again).2 ⟨valid, first, Array.mem_of_getElem? found, isInit⟩

/-- A program that ends by a jump behind its last instruction. -/
def openEnded : Image :=
  .ofCode "open" #[{ opcode := .init }, { opcode := .goto, result := .target 2 }] false

theorem openEnded_is_enclosed :
    openEnded.validate = .ok () ∧
    ((Machine.ofProgram openEnded.program {}).afterSteps 2).position = openEnded.program.size ∧
    ∃ made stats, openEnded.optimize {} = .ok (made, stats) ∧ made.code.Enclosed ∧
      ∀ (run : Machine.Options) (count : Nat),
        ((Machine.ofProgram made.program run).afterSteps count).position < made.program.size := by
  have valid : openEnded.validate = .ok () := rfl
  have starts : openEnded.code[0]? = some { opcode := .init } := rfl
  obtain ⟨_, accepts, _, stays⟩ := targets_checked_alike openEnded
  obtain ⟨⟨made, stats⟩, done⟩ := (accepts {}).2 ⟨valid, _, Array.mem_of_getElem? starts, rfl⟩
  obtain ⟨_, enclosed, _, inside, _⟩ := stays {} made stats done
  exact ⟨valid, rfl, made, stats, done, enclosed, inside⟩

end Image

end Quadruple
