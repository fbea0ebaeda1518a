import Quadruple.Proofs.Discipline

/-!
Conditions on code that can be checked place by place. If control does not go from one body to
another without a call, no instruction belongs to two bodies. If an intermediate result is written
in the run of instructions right before its use, and no jump leads into that run, it is written on
every path.
-/

namespace Quadruple

open FlowGraph (fallsThrough)

theorem Operand.is_address {address cell : Address} :
    (Operand.address address).Is cell ↔ address.plain = cell := by
  constructor
  · rintro ⟨_, ⟨⟩, same⟩
    exact same
  · exact fun same => ⟨address, rfl, same⟩

instance (operand : Operand) (cell : Address) : Decidable (operand.Is cell) :=
  match operand with
  | .address _ => decidable_of_iff _ Operand.is_address.symm
  | .none | .literal _ | .name _ | .target _ | .unknown _ _ => isFalse (by rintro ⟨_, ⟨⟩, _⟩)

instance (address : Address) : Decidable address.IsTemp :=
  inferInstanceAs (Decidable (_ ∧ _))

instance (instr : Instruction) (cell : Address) : Decidable (instr.Writes cell) :=
  inferInstanceAs (Decidable (_ ∧ _ ∧ _))

def Instruction.readCells (instr : Instruction) : List Address :=
  instr.inputs.filterMap fun operand =>
    match operand with
    | .address address => if address.area = .temps then some address.plain else none
    | _ => none

theorem Instruction.Reads.mem_readCells {instr : Instruction} {cell : Address}
    (reads : instr.Reads cell) : cell ∈ instr.readCells := by
  obtain ⟨isTemp, operand, listed, address, rfl, rfl⟩ := reads
  exact List.mem_filterMap.2 ⟨_, listed, if_pos isTemp.1⟩

namespace Code

variable {code : Code} {graph : FlowGraph} {entry place : Nat} {cell : Address}

/-- Whether a body starts at a place: there the program starts, or a call leads there. -/
def startsBody (code : Code) (place : Nat) : Bool :=
  (code[place]?).any (fun instr => instr.opcode = .init) ||
    code.toList.any fun instr =>
      instr.opcode = .call && instr.targetIndex = place

/-- Whether control can come to a place other than from the instruction before it. -/
def isLanding (code : Code) (place : Nat) : Bool :=
  code.startsBody place ||
    code.toList.any fun instr =>
      instr.opcode.isJump && instr.targetIndex = place

/-- Where the body starts to which a place belongs, if bodies lie one behind the other. -/
def bodyStart (code : Code) (place : Nat) : Option Nat :=
  if code.startsBody place then some place
  else
    match place with
    | 0 => none
    | before + 1 => code.bodyStart before

def Confined (code : Code) : Prop :=
  ∀ place < code.size, ∀ instr ∈ code[place]?, (code.bodyStart place).isSome →
    (fallsThrough instr.opcode = true → code.bodyStart (place + 1) = code.bodyStart place) ∧
    (instr.opcode.isJump = true →
      code.bodyStart instr.targetIndex = code.bodyStart place)

/-- Whether an intermediate result is written in the run of instructions right before a place. -/
def isWrittenBefore (code : Code) (cell : Address) : Nat → Bool
  | 0 => false
  | place + 1 => !code.isLanding (place + 1) &&
      ((code[place]?).any (fun instr => instr.Writes cell) ||
        code.isWrittenBefore cell place)

def Prepared (code : Code) : Prop :=
  ∀ place < code.size, ∀ instr ∈ code[place]?, ∀ cell ∈ instr.readCells,
    code.isWrittenBefore cell place = true

instance (code : Code) : Decidable code.Confined :=
  inferInstanceAs (Decidable (∀ _ < _, ∀ _ ∈ _, _))

instance (code : Code) : Decidable code.Prepared :=
  inferInstanceAs (Decidable (∀ _ < _, ∀ _ ∈ _, _))

theorem startsBody_of_entry (accepted : FlowGraph.ofCode code = .ok graph)
    (isEntry : graph.Entry entry) : code.startsBody entry = true := by
  unfold startsBody
  rw [Bool.or_eq_true]
  rcases isEntry with rfl | ⟨caller, node, found, _, calls, target⟩
  · left
    obtain ⟨_, _, start, _⟩ := FlowGraph.ofCode_eq_ok accepted
    obtain ⟨inside, isInit, _⟩ := Array.findIdx?_eq_some_iff_getElem.1 start
    rw [Array.getElem?_eq_getElem inside]
    exact isInit
  · right
    obtain ⟨instr, here, represents⟩ := FlowGraph.represents_ofCode accepted found
    rw [represents.same] at calls
    have named := represents.target
    rw [calls] at named
    obtain ⟨index, names, _, same⟩ := named
    cases same.symm.trans target
    refine List.any_eq_true.2 ⟨instr, Array.mem_toList_iff.2 (Array.mem_of_getElem? here), ?_⟩
    rw [calls, Instruction.targetIndex, names]
    exact decide_eq_true rfl

theorem bodyStart_of_startsBody (starts : code.startsBody place = true) :
    code.bodyStart place = some place := by
  unfold bodyStart
  exact if_pos starts

theorem Confined.bodyStart (confined : code.Confined) (accepted : FlowGraph.ofCode code = .ok graph)
    (isEntry : graph.Entry entry) (inBody : graph.Body entry place) :
    code.bodyStart place = some entry := by
  induction inBody with
  | refl => exact bodyStart_of_startsBody (startsBody_of_entry accepted isEntry)
  | @tail before after _ leads ih =>
    obtain ⟨instr, here, ways⟩ := FlowGraph.bodySuccessors_ofCode accepted leads
    have inside : before < code.size := (Array.getElem?_eq_some_iff.1 here).1
    obtain ⟨falls, jumps⟩ := confined before inside instr here (by rw [ih]; rfl)
    rcases ways with ⟨through, rfl⟩ | ⟨isJump, rfl⟩
    · rw [falls through, ih]
    · rw [jumps isJump, ih]

theorem Confined.bodiesApart (confined : code.Confined)
    (accepted : FlowGraph.ofCode code = .ok graph) : graph.BodiesApart := by
  intro entry entry' place isEntry isEntry' _ inBody inBody'
  have first := confined.bodyStart accepted isEntry inBody
  have second := confined.bodyStart accepted isEntry' inBody'
  exact Option.some.inj (first.symm.trans second)

theorem isLanding_of_jump {instr : Instruction} (here : code[place]? = some instr)
    (jumps : instr.opcode.isJump = true) : code.isLanding instr.targetIndex = true := by
  unfold isLanding
  rw [Bool.or_eq_true]
  refine .inr (List.any_eq_true.2
    ⟨instr, Array.mem_toList_iff.2 (Array.mem_of_getElem? here), ?_⟩)
  rw [jumps, decide_eq_true rfl]
  rfl

theorem not_unwritten_of_isWrittenBefore (accepted : FlowGraph.ofCode code = .ok graph)
    (isEntry : graph.Entry entry) (written : code.isWrittenBefore cell place = true) :
    ¬ graph.Unwritten cell entry place := by
  induction place with
  | zero => cases written
  | succ place ih =>
    rw [isWrittenBefore, Bool.and_eq_true, Bool.not_eq_true'] at written
    obtain ⟨apart, written⟩ := written
    intro unwritten
    cases unwritten with
    | start =>
      have landing : code.isLanding (place + 1) = true := by
        rw [isLanding, startsBody_of_entry accepted isEntry]
        rfl
      cases apart.symm.trans landing
    | @step before _ node unwritten found silent leads =>
      obtain ⟨instr, here, ways⟩ := FlowGraph.bodySuccessors_ofCode accepted leads
      -- Only the instruction before the place leads to it.
      rcases ways with ⟨_, same⟩ | ⟨jumps, same⟩
      · cases Nat.succ.inj same
        rw [here, Bool.or_eq_true] at written
        obtain ⟨_, here', represents⟩ := FlowGraph.represents_ofCode accepted found
        cases here.symm.trans here'
        rw [represents.same] at silent
        exact ih (written.resolve_left fun writes => silent (of_decide_eq_true writes)) unwritten
      · have landing := isLanding_of_jump here jumps
        rw [← same] at landing
        cases apart.symm.trans landing

theorem Prepared.writesFirst (prepared : code.Prepared)
    (accepted : FlowGraph.ofCode code = .ok graph) : graph.WritesFirst := by
  intro entry place node cell isEntry _ found _ reads
  obtain ⟨instr, here, represents⟩ := FlowGraph.represents_ofCode accepted found
  rw [represents.same] at reads
  have inside : place < code.size := (Array.getElem?_eq_some_iff.1 here).1
  exact not_unwritten_of_isWrittenBefore accepted isEntry
    (prepared place inside instr here cell reads.mem_readCells)

end Code

end Quadruple
