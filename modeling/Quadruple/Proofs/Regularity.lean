import Quadruple.Proofs.Discipline
import Quadruple.Proofs.Patching

/-!
Compiled instructions are regular. Their intermediate results have cells, so their instructions are
regular for a memory that has these cells and all that an address can name elsewhere: a field whose
name hides the object of a method is named as if it were a cell of its own, and need not be one.
-/

namespace Quadruple

def Bank.spacious : Bank :=
  let arena : Arena := ⟨UInt32.size, 0, ∅⟩
  ⟨arena, arena, arena, arena, arena⟩

/-- A memory that has all cells but for those of intermediate results, of which it has as many as
the capacities say. -/
def Memory.spacious (capacities : Capacities) : Memory :=
  { Memory.ofCapacities capacities with
    global := .spacious
    locals := .spacious
    stack := .spacious }

variable {capacities : Capacities}

theorem Memory.has_spacious {address : Address}
    (assigned : address.area.isAssigned = true) (stored : address.type.isStored = true)
    (temps : address.area = .temps → (Memory.ofCapacities capacities).Has address) :
    (Memory.spacious capacities).Has address := by
  obtain ⟨area, type, reference, offset⟩ := address
  have bounded : offset.toNat < UInt32.size := offset.toNat_lt
  cases area with
  | temps => exact temps rfl
  | reserved => cases assigned
  | global | locals | stack =>
    cases type with
    | void | reserved => cases stored
    | _ => exact ⟨_, rfl, bounded⟩

/-- The rules of code that has cells for its intermediate results. -/
def Rules.storing (capacities : Capacities) : Rules where
  capacities
  usable := fun address => address.area.isAssigned = true ∧ address.type.isStored = true ∧
    (address.area = .temps → (Memory.ofCapacities capacities).Has address)
  hosts := fun _ _ => True
  usable_of_has := by
    intro address has
    obtain ⟨arena, found, _⟩ := id has
    have present := Memory.arena?_isSome (.ofCapacities capacities) address.area address.type
    rw [found, Option.isSome_some, eq_comm, Bool.and_eq_true] at present
    exact ⟨present.1, present.2, fun _ => has⟩
  usable_mark := fun _ _ => Iff.rfl

def Operand.Regular (memory : Memory) : Operand → Prop
  | .address cell => memory.Has cell
  | .literal value => value.type ≠ .object
  | _ => True

namespace Instruction

variable {memory : Memory} {instr : Instruction}

theorem regular_of_operands (left : instr.left.Regular memory)
    (right : instr.right.Regular memory) (result : instr.result.Regular memory)
    (unary : instr.opcode.arity = 1 → instr.left = .none)
    (sizes : instr.opcode = .malloc → ∃ size, instr.left = .literal size)
    (aside : instr.BaseAside) : instr.Regular memory := by
  have each : ∀ operand ∈ instr.operands, operand.Regular memory := by
    simp only [operands, List.forall_mem_cons, List.not_mem_nil, false_implies, implies_true, and_true]
    exact ⟨left, right, result⟩
  exact ⟨fun _ listed => each _ listed, fun _ listed => each _ listed, unary, sizes, aside⟩

/-- A target takes the place of the result, which is then no cell. -/
theorem Regular.aimed (regular : instr.Regular memory) (target : Int) :
    (instr.aimed target).Regular memory where
  addresses := by
    intro address listed
    refine regular.addresses address ?_
    simp only [operands, Instruction.aimed, List.mem_cons, List.not_mem_nil, reduceCtorEq,
      or_false] at listed ⊢
    tauto
  literals := by
    intro value listed
    refine regular.literals value ?_
    simp only [operands, Instruction.aimed, List.mem_cons, List.not_mem_nil, reduceCtorEq,
      or_false] at listed ⊢
    tauto
  unary := regular.unary
  sizes := regular.sizes
  aside := regular.aside

end Instruction

namespace Rules

variable {capacities : Capacities} {made : Option Scope.Class} {instr : Instruction}
  {operand : Operand} {cell : Address}

theorem has_of_usable (usable : (storing capacities).usable cell) :
    (Memory.spacious capacities).Has cell :=
  Memory.has_spacious usable.1 usable.2.1 usable.2.2

theorem Reads.regular (reads : (storing capacities).Reads operand) :
    operand.Regular (.spacious capacities) := by
  cases operand with
  | address => exact has_of_usable reads
  | literal => exact reads
  | _ => cases reads

theorem Plain.regular (plain : (storing capacities).Plain instr) :
    instr.Regular (.spacious capacities) := by
  have notMade : instr.opcode ≠ .malloc := by
    intro same
    have isPlain := plain.isPlain
    rw [same] at isPlain
    cases isPlain
  cases plain with
  | load _ literal usable =>
    exact Instruction.regular_of_operands literal trivial (has_of_usable usable) nofun nofun nofun
  | store _ reads usable =>
    exact Instruction.regular_of_operands (has_of_usable reads) trivial (has_of_usable usable)
      nofun nofun nofun
  | loadElement holds reads usable | storeElement holds reads usable =>
    refine Instruction.regular_of_operands (has_of_usable holds.usable) reads.regular
      (has_of_usable usable) nofun nofun ?_
    rintro _ _ ⟨⟩
    exact holds.aside
  | convert _ reads usable | unary _ reads usable =>
    exact Instruction.regular_of_operands trivial (has_of_usable reads) (has_of_usable usable)
      (fun _ => rfl) (fun same => absurd same notMade) nofun
  | binary typed readsLeft readsRight usable =>
    have arity := (Opcode.emitted_binary typed).2
    refine Instruction.regular_of_operands readsLeft.regular readsRight.regular
      (has_of_usable usable) (fun unary => ?_) (fun same => absurd same notMade) ?_
    · cases arity.symm.trans unary
    · rintro (same | same) <;> cases arity.symm.trans (congrArg Opcode.arity same)
  | ret => exact Instruction.regular_of_operands trivial trivial trivial nofun nofun nofun

theorem Emits.regular (emits : (storing capacities).Emits made instr) :
    instr.Regular (.spacious capacities) := by
  cases emits with
  | append appends =>
    cases appends with
    | plain plain => exact plain.regular
    | malloc _ refers =>
      exact Instruction.regular_of_operands nofun trivial (has_of_usable refers.usable) nofun
        (fun _ => ⟨_, rfl⟩) nofun
    | openRecord | call =>
      exact Instruction.regular_of_operands trivial trivial trivial nofun nofun nofun
    | passing _ reads usable =>
      exact Instruction.regular_of_operands (has_of_usable reads) trivial (has_of_usable usable)
        nofun nofun nofun
    | passingHost reads =>
      exact Instruction.regular_of_operands (has_of_usable reads) trivial trivial nofun nofun nofun
    | callHost _ receives =>
      refine Instruction.regular_of_operands trivial trivial ?_ nofun nofun nofun
      cases receives with
      | nothing => exact trivial
      | value _ usable => exact has_of_usable usable
  | branch reads =>
    exact Instruction.regular_of_operands (has_of_usable reads) trivial trivial nofun nofun nofun
  | jump | start | exit =>
    exact Instruction.regular_of_operands trivial trivial trivial nofun nofun nofun

end Rules

theorem Generator.Performs.regular {commands : List Event.Command}
    {generator : Generator} (performs : Performs commands (.ofCapacities capacities) generator) :
    Code.Each (fun _ instr => instr.Regular (.spacious capacities))
      generator.buffer.code := by
  have loose : (Rules.storing capacities).Loose := by
    intro address area stored
    refine ⟨by rw [area]; rfl, stored, fun temps => ?_⟩
    cases area.symm.trans temps
  have admits : Admits (.storing capacities) commands :=
    admits_of_loose loose (fun _ _ => trivial) commands
  exact Performs.all performs admits (fun _ _ emits => emits.regular) fun _ target regular =>
    regular.aimed target

end Quadruple
