import Quadruple.Image.Optimized
import Quadruple.Image.Policy
import Quadruple.Proofs.Activations
import Quadruple.Proofs.Exactness
import Quadruple.Proofs.LoadableImages

/-!
Policies about native functions. An image passes exactly if a policy permits every native that one of
its instructions names. No run of the image looks another one up, and optimizing the image brings no
other one in: the passes leave calls of natives as they are.
-/

namespace Quadruple

/-! ### What optimization leaves of an instruction -/

namespace FlowGraph

variable {graph : FlowGraph} {code : Code} {index : Nat} {node : Node} {original : Instruction}

/-- An instruction that stands for an original one: known values may have come in for cells, but not
in a call of a native. -/
structure StandsFor (instr original : Instruction) : Prop where
  opcode : instr.opcode = original.opcode
  native : original.opcode = .nativeCall → instr = original

theorem StandsFor.substitute {instr : Instruction} (stands : StandsFor instr original) (facts : Facts)
    (region : Option Nat) :
    StandsFor (facts.substitute region instr) original where
  opcode := (facts.opcode_substitute region instr).trans stands.opcode
  native calls := by
    rw [stands.native calls, Facts.substitute, calls]
    rfl

def StemsFrom (graph : FlowGraph) (code : Code) : Prop :=
  ∀ (index : Nat) (node : Node), graph.nodes[index]? = some node →
    ∃ original, code[index]? = some original ∧ StandsFor node.instruction original

theorem stemsFrom_ofCode (accepted : ofCode code = .ok graph) : graph.StemsFrom code := by
  intro index node found
  obtain ⟨original, here, represents⟩ := represents_ofCode accepted found
  exact ⟨original, here, by rw [represents.same], fun _ => represents.same⟩

theorem instruction_modify (nodes : Array Node) (place vertex : Nat) {change : Node → Node}
    (keeps : ∀ node, (change node).instruction = node.instruction) :
    ((nodes.modify place change)[vertex]?).map Node.instruction =
      (nodes[vertex]?).map Node.instruction := by
  rw [Array.getElem?_modify]
  split
  · cases nodes[vertex]? with
    | none => rfl
    | some node => exact congrArg some (keeps node)
  · rfl

theorem instruction_splice (graph : FlowGraph) (index vertex : Nat) :
    ((graph.splice index).nodes[vertex]?).map Node.instruction =
      (graph.nodes[vertex]?).map Node.instruction := by
  unfold splice
  split
  · rfl
  · simp only
    rw [instruction_modify _ _ _ fun _ => by rfl]
    refine List.foldlRecOn (motive := fun nodes : Array Node =>
      (nodes[vertex]?).map Node.instruction = (graph.nodes[vertex]?).map Node.instruction) _ _ rfl ?_
    intro nodes same source _
    rw [instruction_modify _ _ _ fun _ => by rfl]
    exact same

section

variable (stems : graph.StemsFrom code)
include stems

theorem StemsFrom.splice (index : Nat) : (graph.splice index).StemsFrom code := by
  intro vertex node found
  have same := instruction_splice graph index vertex
  rw [found, Option.map_some] at same
  obtain ⟨before, stood, unchanged⟩ := Option.map_eq_some_iff.1 same.symm
  rw [← unchanged]
  exact stems vertex before stood

theorem StemsFrom.threadJumps : graph.threadJumps.1.StemsFrom code :=
  threadJumps_induction (motive := fun after => after.StemsFrom code)
    (fun _ index stems _ => stems.splice index) stems

theorem StemsFrom.substituted {graph' : FlowGraph} {facts : Facts}
    (substituted : graph.Substituted facts graph') : graph'.StemsFrom code := by
  intro place node' found'
  obtain ⟨node, found, _⟩ := substituted.origin found'
  obtain ⟨part, here, _⟩ := substituted.nodes place node found
  cases found'.symm.trans here
  obtain ⟨original, listed, stands⟩ := stems place node found
  exact ⟨original, listed, stands.substitute part _⟩

theorem StemsFrom.foldConstants (coherent : graph.Coherent) :
    graph.foldConstants.1.StemsFrom code := by
  obtain ⟨_, _, _, substituted, _, folded⟩ := coherent.foldConstants_eq
  rw [folded]
  exact List.foldlRecOn (motive := fun after : FlowGraph => after.StemsFrom code) _ _
    (stems.substituted substituted) fun _ stems index _ => stems.splice index

end

/-- A call of a native has no target that the layout could replace. -/
theorem StandsFor.instructionFor (stands : StandsFor node.instruction original) (shaped : node.Shaped) :
    StandsFor (graph.instructionFor node) original := by
  have plain : original.opcode = .nativeCall → node.target = none := by
    intro calls
    have none := shaped.target
    rw [stands.opcode, calls] at none
    exact Option.isSome_eq_false_iff.1 none |> Option.isNone_iff_eq_none.1
  unfold FlowGraph.instructionFor
  split
  · rename_i target leads
    refine ⟨stands.opcode, fun calls => ?_⟩
    rw [plain calls] at leads
    cases leads
  · exact stands

end FlowGraph

namespace Optimization

theorem stemsFrom_reduce {code : Code} {options : Options} {final : FlowGraph} {stats : Stats}
    (reduced : reduce code options = .ok (final, stats)) : final.Exact ∧ final.StemsFrom code := by
  unfold reduce at reduced
  cases accepted : FlowGraph.ofCode code with
  | error failure =>
    rw [accepted] at reduced
    cases reduced
  | ok graph =>
    rw [accepted] at reduced
    cases reduced
    -- Exactness is carried along because folding keeps the origin of nodes in coherent graphs only.
    exact iterate_induction
      (motive := fun after => after.Exact ∧ after.StemsFrom code)
      (fun _ kept => ⟨kept.1.threadJumps.isExact, kept.2.threadJumps⟩)
      (fun _ _ kept => ⟨kept.1.foldConstants.isExact, kept.2.foldConstants kept.1.coherent⟩)
      options.rounds _ ⟨FlowGraph.exact_ofCode accepted, FlowGraph.stemsFrom_ofCode accepted⟩

end Optimization

/-! ### Records of optimized programs -/

theorem OperandRecord.toOperand_revised (record : OperandRecord) (operand : Operand) :
    (record.revised operand).toOperand = operand := by
  unfold revised
  split
  · assumption
  · exact toOperand_ofOperand operand

theorem InstructionRecord.toInstruction_revised (record : InstructionRecord)
    (instr : Instruction) : (record.revised instr).toInstruction = instr := by
  have result : (if instr.opcode.hasTarget = true then OperandRecord.ofOperand instr.result
      else record.result.revised instr.result).toOperand = instr.result := by
    split
    · exact OperandRecord.toOperand_ofOperand _
    · exact OperandRecord.toOperand_revised _ _
  simp only [toInstruction, revised, OperandRecord.toOperand_revised, result]

/-- Where the operand that names the native is left as it was, so is the name. -/
theorem InstructionRecord.native?_revised (record : InstructionRecord) {instr : Instruction}
    (stands : FlowGraph.StandsFor instr record.toInstruction) :
    (record.revised instr).native? = record.native? := by
  have opcode : (record.revised instr).opcode = record.opcode := stands.opcode
  unfold native?
  by_cases calls : record.opcode = .nativeCall
  · have left : record.left.toOperand = instr.left := by
      rw [stands.native calls]
      rfl
    rw [if_pos calls, if_pos (opcode.trans calls)]
    simp only [revised, OperandRecord.revised, if_pos left]
  · rw [if_neg calls, if_neg (fun same => calls (opcode.symm.trans same))]

namespace Image

variable {image made : Image} {options : Optimization.Options} {stats : Optimization.Stats}

theorem toInstruction_revisedRecord (records : List InstructionRecord) (item : FlowGraph.Item)
    (instr : Instruction) :
    (revisedRecord records item instr).toInstruction = instr := by
  cases item with
  | exit | goto => exact InstructionRecord.toInstruction_ofInstruction instr
  | node index =>
    show (((records[index]?).map fun record : InstructionRecord => record.revised instr).getD
      (InstructionRecord.ofInstruction instr)).toInstruction = instr
    cases records[index]? with
    | none => exact InstructionRecord.toInstruction_ofInstruction instr
    | some record => exact record.toInstruction_revised instr

theorem toInstruction_revisedRecords (records : List InstructionRecord) (graph : FlowGraph) :
    (revisedRecords records graph).map InstructionRecord.toInstruction = graph.toCode.toList := by
  have fewer : graph.toCode.toList.length ≤ graph.items.length := by
    rw [graph.toCode_eq]
    exact List.length_filterMap_le _ _
  unfold revisedRecords
  rw [List.map_map]
  calc (graph.items.zip graph.toCode.toList).map _
      = (graph.items.zip graph.toCode.toList).map Prod.snd :=
        List.map_congr_left fun pair _ => toInstruction_revisedRecord records pair.1 pair.2
    _ = graph.toCode.toList := List.map_snd_zip fewer

/-- What an optimized program calls, the program called before. -/
theorem native?_of_mem_revisedRecords {records : List InstructionRecord} {graph : FlowGraph}
    (coherent : graph.Coherent)
    (stems : graph.StemsFrom (records.map InstructionRecord.toInstruction).toArray)
    {record : InstructionRecord} (listed : record ∈ revisedRecords records graph) {name : String}
    (calls : record.native? = some name) : ∃ before ∈ records, before.native? = some name := by
  obtain ⟨⟨item, instr⟩, paired, rfl⟩ := List.mem_map.1 listed
  obtain ⟨place, here⟩ := List.mem_iff_getElem?.1 paired
  obtain ⟨standing, written⟩ := List.getElem?_zip_eq_some.1 here
  simp only at standing written calls
  rw [Array.getElem?_toList, FlowGraph.getElem?_toCode coherent, standing, Option.bind_some] at written
  cases item with
  | exit | goto =>
    cases written
    cases calls
  | node index =>
    obtain ⟨node, found, rfl⟩ := Option.map_eq_some_iff.1 written
    obtain ⟨original, stood, stands⟩ := stems index node found
    rw [List.getElem?_toArray, List.getElem?_map] at stood
    obtain ⟨before, recorded, rfl⟩ := Option.map_eq_some_iff.1 stood
    have laidOut : FlowGraph.StandsFor (graph.instructionFor node) before.toInstruction :=
      stands.instructionFor (coherent.shaped index node found)
    refine ⟨before, List.mem_of_getElem? recorded, ?_⟩
    rw [← before.native?_revised laidOut, ← calls, revisedRecord, recorded]
    rfl

theorem optimize_eq_ok (done : image.optimize options = .ok (made, stats)) :
    ∃ final, Optimization.reduce image.code options = .ok (final, stats) ∧
      made = ofRecords image.name (revisedRecords image.records final) true := by
  unfold optimize at done
  cases reduced : Optimization.reduce image.code options with
  | error failure =>
    rw [reduced] at done
    cases done
  | ok result =>
    rw [reduced] at done
    cases done
    exact ⟨result.1, rfl, rfl⟩

theorem code_optimize (done : image.optimize options = .ok (made, stats)) :
    Optimization.optimize image.code options = .ok (made.code, stats) := by
  obtain ⟨final, reduced, rfl⟩ := optimize_eq_ok done
  have code : (ofRecords image.name (revisedRecords image.records final) true).code =
      final.toCode := by
    unfold Image.code
    rw [records_ofRecords, toInstruction_revisedRecords, Array.toArray_toList]
  rw [Optimization.optimize, reduced, code]
  rfl

/-! ### Policies -/

namespace Policy

variable {policy : Policy}

/-- What a policy says about a native by its name. -/
structure Permits (policy : Policy) (native : String) : Prop where
  notDenied : native ∉ policy.denied
  allowed : ∀ allowed, policy.allowed = some allowed → native ∈ allowed

theorem checkNative_eq_ok_iff {native : String} :
    policy.checkNative native = .ok () ↔ policy.Permits native := by
  unfold checkNative
  by_cases denied : native ∈ policy.denied
  · rw [if_pos (List.contains_iff_mem.2 denied)]
    exact iff_of_false (fun same => nomatch same) fun permits => permits.notDenied denied
  · rw [if_neg (mt List.contains_iff_mem.1 denied)]
    cases restricted : policy.allowed with
    | none =>
      refine iff_of_true rfl ⟨denied, fun allowed given => ?_⟩
      rw [restricted] at given
      cases given
    | some allowed =>
      by_cases among : native ∈ allowed
      · rw [Option.all_some, if_pos (List.contains_iff_mem.2 among)]
        refine iff_of_true rfl ⟨denied, fun other given => ?_⟩
        cases restricted.symm.trans given
        exact among
      · rw [Option.all_some, if_neg (mt List.contains_iff_mem.1 among)]
        exact iff_of_false (fun same => nomatch same) fun permits =>
          among (permits.allowed allowed restricted)

theorem forM_eq_ok_iff {α ε : Type} {check : α → Except ε Unit} (elements : List α) :
    elements.forM check = .ok () ↔ ∀ element ∈ elements, check element = .ok () := by
  induction elements with
  | nil => exact iff_of_true rfl fun _ listed => absurd listed List.not_mem_nil
  | cons element rest ih =>
    rw [List.forall_mem_cons, ← ih]
    show (check element >>= fun _ => rest.forM check) = .ok () ↔ _
    cases check element with
    | error cause => exact iff_of_false (fun same => nomatch same) fun both => nomatch both.1
    | ok done => exact (and_iff_right rfl).symm

/-- Natives pass by what instructions call, each as often as it is called. -/
theorem check_eq_ok_iff {image : Image} :
    policy.check image = .ok () ↔
      ∀ record ∈ image.records, ∀ name, record.native? = some name → policy.Permits name := by
  unfold check
  rw [forM_eq_ok_iff]
  simp only [checkNative_eq_ok_iff, mem_calledNatives]
  constructor
  · intro all record listed name calls
    exact all name ⟨record, listed, calls⟩
  · rintro all name ⟨record, listed, calls⟩
    exact all record listed name calls

end Policy

end Image

/-! ### Runs -/

namespace Machine

variable {machine : Machine}

/-- The next step looks for a native by the name. -/
def LooksUp (machine : Machine) (name : String) : Prop :=
  ∃ instr, machine.Executes instr ∧ instr.opcode = .nativeCall ∧
    nativeName instr.left = name

theorem program_afterSteps (machine : Machine) (count : Nat) :
    (machine.afterSteps count).program = machine.program :=
  Function.Iterate.rec (fun after : Machine => after.program = machine.program) rfl
    (fun after same => after.program_step.trans same) count

end Machine

theorem InstructionRecord.executed_eq (record : InstructionRecord) :
    record.executed.opcode = record.opcode ∧ (record.opcode = .nativeCall →
      Machine.nativeName record.executed.left = record.left.name) := by
  unfold executed native?
  by_cases calls : record.opcode = .nativeCall
  · rw [if_pos calls]
    exact ⟨rfl, fun _ => rfl⟩
  · rw [if_neg calls]
    exact ⟨rfl, fun same => absurd same calls⟩

namespace Image

/-- What a run looks up, an instruction names, whatever the kind of its operand. -/
theorem native?_of_looksUp {image : Image} {options : Machine.Options} {count : Nat} {name : String}
    (looksUp : ((Machine.ofProgram image.program options).afterSteps count).LooksUp name) :
    ∃ record ∈ image.records, record.native? = some name := by
  obtain ⟨instr, ⟨_, found, _⟩, calls, rfl⟩ := looksUp
  have program : ((Machine.ofProgram image.program options).afterSteps count).program =
      image.program :=
    Machine.program_afterSteps _ count
  rw [program, Image.program, List.getElem?_toArray, List.getElem?_map] at found
  obtain ⟨record, listed, rfl⟩ := Option.map_eq_some_iff.1 found
  obtain ⟨opcode, named⟩ := record.executed_eq
  have calls' : record.opcode = .nativeCall := opcode.symm.trans calls
  refine ⟨record, List.mem_of_getElem? listed, ?_⟩
  rw [named calls', InstructionRecord.native?, if_pos calls']

/-- A policy lets an image pass exactly if it permits every native that a call names. Then a run of
the image looks up permitted natives only, on any input and however long it goes on, and the image of
the optimized program passes too. -/
theorem check_enforced (policy : Policy) (image : Image) :
    (policy.check image = .ok () ↔ ∀ record ∈ image.records, record.opcode = .nativeCall →
      policy.Permits record.left.name) ∧
    (policy.check image = .ok () →
      (∀ (options : Machine.Options) (count : Nat) (name : String),
        ((Machine.ofProgram image.program options).afterSteps count).LooksUp name →
          policy.Permits name) ∧
      ∀ (options : Optimization.Options) (made : Image) (stats : Optimization.Stats),
        image.optimize options = .ok (made, stats) →
          Optimization.optimize image.code options = .ok (made.code, stats) ∧
            policy.check made = .ok ()) := by
  refine ⟨?_, fun passes => ⟨?_, ?_⟩⟩
  · rw [Policy.check_eq_ok_iff]
    refine forall₂_congr fun record _ => ?_
    simp only [InstructionRecord.native?, Option.ite_none_right_eq_some, Option.some.injEq,
      and_imp]
    exact ⟨fun all calls => all _ calls rfl, fun all name calls named => named ▸ all calls⟩
  · intro options count name looksUp
    obtain ⟨record, listed, calls⟩ := native?_of_looksUp looksUp
    exact Policy.check_eq_ok_iff.1 passes record listed name calls
  · intro options made stats done
    refine ⟨code_optimize done, Policy.check_eq_ok_iff.2 fun record listed name calls => ?_⟩
    obtain ⟨final, reduced, rfl⟩ := optimize_eq_ok done
    obtain ⟨isExact, stems⟩ := Optimization.stemsFrom_reduce reduced
    rw [records_ofRecords] at listed
    obtain ⟨before, among, named⟩ := native?_of_mem_revisedRecords isExact.coherent stems listed calls
    exact Policy.check_eq_ok_iff.1 passes before among name named

/-- Calls a native by a name that its operand's kind does not use. -/
def disguised : Image :=
  .ofRecords "disguised"
    [{ opcode := .init },
      { opcode := .nativeParam, left := .ofOperand (.literal (.int 5)) },
      { opcode := .nativeCall, left := { kind := 1, name := "write" } },
      { opcode := .exit }] false

theorem disguised_enforced :
    let policy : Policy := { allowed := some ["write"], denied := ["read"] }
    policy.check disguised = .ok () ∧
    ((Machine.ofProgram disguised.program {}).afterSteps 2).LooksUp "write" ∧
    policy.Permits "write" ∧
    ∃ made stats, disguised.optimize {} = .ok (made, stats) ∧ policy.check made = .ok () := by
  intro policy
  have passes : policy.check disguised = .ok () := by decide +kernel
  have looksUp : ((Machine.ofProgram disguised.program {}).afterSteps 2).LooksUp "write" :=
    ⟨{ opcode := .nativeCall, left := .name "write" }, ⟨rfl, rfl, .inl rfl⟩, rfl, rfl⟩
  have enforced := (check_enforced policy disguised).2 passes
  refine ⟨passes, looksUp, enforced.1 {} 2 "write" looksUp, ?_⟩
  obtain ⟨⟨made, stats⟩, optimized⟩ := exists_ok (disguised.optimize {}) (by decide +kernel)
  exact ⟨made, stats, optimized, (enforced.2 {} made stats optimized).2⟩

end Image

end Quadruple
