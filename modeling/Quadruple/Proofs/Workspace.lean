import Quadruple.Machine.Run

/-!
What an instruction does, apart from where it stands in a program. The workspace is the part of a
machine that instructions work on; the effect of an instruction is the workspace that it leaves and
the way in which control goes on. The step of a machine is determined by the effect of the
instruction at its position.
-/

namespace Quadruple

open Machine (Fault)

/-- The part of a machine that instructions work on. -/
structure Workspace where
  memory : Memory
  console : Console
  openRecords : Nat
  passed : List Passed
  nativeArguments : List Value

/-- How control goes on after an instruction. -/
inductive Flow where
  | next
  | target
  /-- To the target, with a return to the following instruction. -/
  | enter
  /-- Back to the latest caller. -/
  | leave
  | halt
deriving DecidableEq

/-- What comes of executing an instruction. -/
inductive Effect where
  | unknown
  | fault (cause : Fault) (left : Workspace)
  | flow (way : Flow) (result : Workspace)

namespace Machine

def workspace (machine : Machine) : Workspace :=
  ⟨machine.memory, machine.console, machine.openRecords, machine.passed, machine.nativeArguments⟩

def adopt (machine : Machine) (workspace : Workspace) : Machine :=
  { machine with
    memory := workspace.memory
    console := workspace.console
    openRecords := workspace.openRecords
    passed := workspace.passed
    nativeArguments := workspace.nativeArguments }

end Machine

namespace Workspace

/-- A machine that has a workspace and nothing to execute. -/
def idle (workspace : Workspace) : Machine :=
  { program := #[]
    memory := workspace.memory
    console := workspace.console
    position := 0
    halted := false
    steps := 0
    limit := 0
    openRecords := workspace.openRecords
    returns := []
    passed := workspace.passed
    nativeArguments := workspace.nativeArguments
    profile := none }

end Workspace

def Effect.ofOutcome (outcome : Except Fault Machine) (left : Machine) : Effect :=
  match outcome with
  | .ok machine => .flow .next machine.workspace
  | .error cause => .fault cause left.workspace

namespace Workspace

def branch (workspace : Workspace) (instr : Instruction) (sense : Bool) : Effect :=
  match workspace.idle.read instr.left with
  | .ok condition => .flow (if condition.holds = sense then .target else .next) workspace
  | .error cause => .fault cause workspace

def exit (workspace : Workspace) (callers : Nat) : Effect :=
  if 0 < workspace.memory.depth || 0 < callers then
    .fault (.exitInside workspace.memory.depth) workspace
  else .flow .halt workspace

def call (workspace : Workspace) (instr : Instruction) : Effect :=
  if workspace.openRecords = 0 then .fault (.callWithoutRecord instr.left) workspace
  else
    match Machine.bindAll workspace.memory workspace.passed with
    | (.error cause, memory) => .fault cause { workspace with memory }
    | (.ok (), memory) =>
      .flow .enter
        { workspace with memory, passed := [], openRecords := workspace.openRecords - 1 }

def ret (workspace : Workspace) (callers : Nat) (instr : Instruction) : Effect :=
  if callers = 0 then .fault (.returnWithoutCaller instr.left) workspace
  else
    match workspace.memory.restore with
    | .error cause => .fault (.memory cause) workspace
    | .ok memory => .flow .leave { workspace with memory }

def effect (workspace : Workspace) (callers : Nat) (instr : Instruction) : Effect :=
  match instr.opcode with
  | .nop | .init => .flow .next workspace
  | .exit => workspace.exit callers
  | .goto => .flow .target workspace
  | .gotoTrue => workspace.branch instr true
  | .gotoFalse => workspace.branch instr false
  | .load => .ofOutcome (workspace.idle.loadLiteral instr) workspace.idle
  | .store => .ofOutcome (workspace.idle.copy instr) workspace.idle
  | .loadElement => .ofOutcome (workspace.idle.loadElement instr) workspace.idle
  | .storeElement => .ofOutcome (workspace.idle.storeElement instr) workspace.idle
  | .malloc =>
    .ofOutcome (workspace.idle.allocateObject instr).1
      (workspace.idle.allocateObject instr).2
  | .openRecord => .flow .next workspace.idle.openRecord.workspace
  | .param => .ofOutcome (workspace.idle.passParam instr) workspace.idle
  | .call => workspace.call instr
  | .ret => workspace.ret callers instr
  | .nativeParam => .ofOutcome (workspace.idle.passNative instr) workspace.idle
  | .nativeCall =>
    .ofOutcome (workspace.idle.callNative instr).1 (workspace.idle.callNative instr).2
  | opcode =>
    if opcode.isPure then .ofOutcome (workspace.idle.operate instr) workspace.idle
    else .unknown

end Workspace

/-- The opcodes after which control can go on in a way. -/
def Flow.Fits : Flow → Opcode → Prop
  | next, opcode => opcode ≠ .goto ∧ opcode ≠ .call ∧ opcode ≠ .ret ∧ opcode ≠ .exit
  | target, opcode => opcode.isJump
  | enter, opcode => opcode = .call
  | leave, opcode => opcode = .ret
  | halt, opcode => opcode = .exit

variable {way : Flow}

theorem Effect.ofOutcome_flow {outcome : Except Fault Machine} {left : Machine}
    {result : Workspace} (flows : Effect.ofOutcome outcome left = .flow way result) :
    way = .next := by
  cases outcome with
  | error cause => cases flows
  | ok after => cases flows; rfl

namespace Workspace

variable {workspace result : Workspace} {callers : Nat} {instr : Instruction}

theorem effect_fits (flows : workspace.effect callers instr = .flow way result) :
    way.Fits instr.opcode := by
  unfold effect at flows
  cases named : instr.opcode <;> rw [named] at flows
  case nop | init | goto | openRecord =>
    cases flows
    simp [Flow.Fits, Opcode.isJump]
  case exit =>
    simp only [exit] at flows
    split at flows
    · cases flows
    · cases flows; rfl
  case gotoTrue | gotoFalse =>
    simp only [branch] at flows
    split at flows
    · cases flows
      split <;> simp [Flow.Fits, Opcode.isJump]
    · cases flows
  case call =>
    simp only [call] at flows
    split at flows
    · cases flows
    · split at flows
      · cases flows
      · cases flows; rfl
  case ret =>
    simp only [ret] at flows
    split at flows
    · cases flows
    · split at flows
      · cases flows
      · cases flows; rfl
  case assign | reserved => cases flows
  all_goals
    cases Effect.ofOutcome_flow flows
    simp [Flow.Fits]

theorem hasTarget_of_flow (flows : workspace.effect callers instr = .flow way result)
    (needs : way = .target ∨ way = .enter) : instr.opcode.hasTarget = true := by
  have fits := effect_fits flows
  rcases needs with rfl | rfl
  · cases named : instr.opcode <;> simp [Flow.Fits, Opcode.isJump, named] at fits <;> rfl
  · rw [show instr.opcode = .call from fits]
    rfl

theorem effect_pure (pure : instr.opcode.isPure = true) :
    workspace.effect callers instr =
      .ofOutcome (workspace.idle.operate instr) workspace.idle := by
  unfold effect
  cases named : instr.opcode with
  | _ => first
    | rfl
    | (rw [named] at pure; cases pure)

theorem callers_of_leave (leaves : workspace.effect callers instr = .flow .leave result) : 0 < callers := by
  have returns : instr.opcode = .ret := effect_fits leaves
  simp only [effect, returns, ret] at leaves
  split at leaves
  · cases leaves
  · omega

theorem effect_halt (halts : workspace.effect callers instr = .flow .halt result) : result = workspace := by
  have exits : instr.opcode = .exit := effect_fits halts
  simp only [effect, exits, exit] at halts
  split at halts
  · cases halts
  · cases halts; rfl

end Workspace

namespace Machine

/-! ### What instructions do to a machine, by what they do to its workspace -/

section

variable (machine : Machine)

theorem read_idle (operand : Operand) :
    machine.workspace.idle.read operand = machine.read operand := by
  cases operand <;> rfl

theorem readIfAny_idle (operand : Operand) :
    machine.workspace.idle.readIfAny operand = machine.readIfAny operand := by
  cases operand <;> rfl

theorem element_idle (base index : Operand) (type : DataType) :
    machine.workspace.idle.element base index type = machine.element base index type := by
  cases base <;> cases index <;> rfl

/-- An operation that looks at the workspace only, and changes nothing else. -/
def Local (operation : Machine → Except Fault Machine) : Prop :=
  ∀ machine : Machine, operation machine =
    (operation machine.workspace.idle).map fun after => machine.adopt after.workspace

theorem Local.bind {α : Type} {given : Machine → Except Fault α} {rest : α → Machine → Except Fault Machine}
    (same : ∀ machine : Machine, given machine.workspace.idle = given machine)
    (isLocal : ∀ value, Local (rest value)) : Local fun machine => given machine >>= (rest · machine) := by
  intro machine
  simp only [same]
  cases given machine with
  | error cause => rfl
  | ok value => exact isLocal value machine

theorem local_write (operand : Operand) (value : Value) : Local (·.write operand value) := by
  intro machine
  cases operand with
  | address cell =>
    have same : machine.workspace.idle.memory = machine.memory := rfl
    simp only [write, same]
    cases storeAt machine.memory cell value <;> rfl
  | _ => rfl

section

variable (instr : Instruction)

theorem local_loadLiteral : Local (·.loadLiteral instr) := by
  intro machine
  unfold loadLiteral
  cases instr.left with
  | literal value => exact local_write instr.result value machine
  | _ => rfl

theorem local_copy : Local (·.copy instr) :=
  .bind (fun machine => machine.read_idle _) fun value => local_write instr.result value

theorem local_loadElement : Local (·.loadElement instr) := by
  unfold loadElement
  cases instr.result with
  | address cell =>
    refine .bind (fun machine => machine.element_idle ..) fun place => ?_
    exact .bind (fun _ => rfl) fun value => local_write (.address cell) value
  | _ => exact fun _ => rfl

theorem local_storeElement : Local (·.storeElement instr) := by
  refine .bind (fun machine => machine.read_idle _) fun value => ?_
  refine .bind (fun machine => machine.element_idle ..) fun cell => ?_
  exact .bind (fun _ => rfl) fun memory _ => rfl

theorem local_operate : Local (·.operate instr) := by
  refine .bind (fun machine => machine.readIfAny_idle _) fun left => ?_
  refine .bind (fun machine => machine.readIfAny_idle _) fun right => ?_
  exact .bind (fun _ => rfl) fun value => local_write instr.result value

theorem local_passParam : Local (·.passParam instr) := by
  refine .bind (fun machine => machine.read_idle _) fun value machine => ?_
  cases instr.result <;> rfl

theorem local_passNative : Local (·.passNative instr) :=
  .bind (fun machine => machine.read_idle _) fun _ _ => rfl

theorem allocateObject_eq :
    machine.allocateObject instr =
      ((machine.workspace.idle.allocateObject instr).1.map fun after =>
          machine.adopt after.workspace,
        machine.adopt (machine.workspace.idle.allocateObject instr).2.workspace) := by
  unfold allocateObject
  rw [read_idle]
  cases machine.read instr.left with
  | error cause => rfl
  | ok size =>
    have same : machine.workspace.idle.memory = machine.memory := rfl
    simp only [same]
    cases machine.memory.allocate .stack .object size.toInt.toInt false with
    | error cause => rfl
    | ok allocated =>
      obtain ⟨pointer, memory⟩ := allocated
      exact Prod.ext (local_write instr.result (.object pointer) { machine with memory }) rfl

theorem callNative_eq :
    machine.callNative instr =
      ((machine.workspace.idle.callNative instr).1.map fun after =>
          machine.adopt after.workspace,
        machine.adopt (machine.workspace.idle.callNative instr).2.workspace) := by
  unfold callNative
  simp only
  cases Native.ofName? (nativeName instr.left) with
  | none => rfl
  | some native =>
    have sameArguments : machine.workspace.idle.nativeArguments = machine.nativeArguments := rfl
    have sameConsole : machine.workspace.idle.console = machine.console := rfl
    simp only [sameArguments, sameConsole]
    obtain ⟨outcome, console⟩ := native.execute machine.nativeArguments machine.console
    cases outcome with
    | error cause => rfl
    | ok value =>
      cases instr.result with
      | address cell =>
        exact Prod.ext
          (local_write (.address cell) value { machine with nativeArguments := [], console }) rfl
      | _ => rfl

end

end

end Machine

end Quadruple
