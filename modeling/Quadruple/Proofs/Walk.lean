import Quadruple.Proofs.System
import Quadruple.Proofs.Workspace

/-!
Walks. A chart says for every place which instruction stands there and where control goes from it;
a walk executes the instructions of a chart. The run of a machine is the walk through the chart of
its program, in which each place leads to the following one.
-/

namespace Quadruple

open Machine (Fault Next)

/-- An instruction at its place: where control goes without a jump, and where by a jump or call. -/
structure Site where
  instruction : Instruction
  next : Nat
  target : Nat

abbrev Chart := Nat → Option Site

structure Point where
  workspace : Workspace
  position : Nat
  returns : List Nat

/-- How a run ends, as far as a caller can tell. -/
inductive Ending where
  | halted
  | failed (kind : ErrorKind)
deriving DecidableEq

/-- Where control goes on from a site. A return without a caller does not come about. -/
def Site.goOn (site : Site) (returns : List Nat) (result : Workspace) :
    Flow → Point ⊕ (Ending × Workspace)
  | .next => .inl ⟨result, site.next, returns⟩
  | .target => .inl ⟨result, site.target, returns⟩
  | .enter => .inl ⟨result, site.target, site.next :: returns⟩
  | .leave =>
    match returns with
    | caller :: others => .inl ⟨result, caller, others⟩
    | [] => .inr (.halted, result)
  | .halt => .inr (.halted, result)

def Chart.step (chart : Chart) (point : Point) : Point ⊕ (Ending × Workspace) :=
  match chart point.position with
  | none => .inr (.halted, point.workspace)
  | some site =>
    match point.workspace.effect point.returns.length site.instruction with
    | .unknown => .inr (.failed .runtime, point.workspace)
    | .fault cause left => .inr (.failed cause.report.kind, left)
    | .flow way result => site.goOn point.returns result way

def Chart.walk (chart : Chart) : System Point (Ending × Workspace) :=
  ⟨chart.step, fun point => point.workspace.console.output⟩

section

variable {chart : Chart} {point : Point} {site : Site} {cause : Fault} {left result : Workspace}
  {way : Flow}
  (found : chart point.position = some site)
include found

theorem Chart.step_of_unknown
    (unknown : point.workspace.effect point.returns.length site.instruction = .unknown) :
    chart.walk.step point = .inr (.failed .runtime, point.workspace) := by
  simp only [walk, step, found, unknown]

theorem Chart.step_of_fault
    (fails : point.workspace.effect point.returns.length site.instruction = .fault cause left) :
    chart.walk.step point = .inr (.failed cause.report.kind, left) := by
  simp only [walk, step, found, fails]

theorem Chart.step_of_flow
    (flows : point.workspace.effect point.returns.length site.instruction = .flow way result) :
    chart.walk.step point = site.goOn point.returns result way := by
  simp only [walk, step, found, flows]

end

def Instruction.targetIndex (instruction : Instruction) : Nat :=
  (instruction.target?.getD 0).toNat

def Code.chart (code : Code) : Chart := fun position =>
  (code[position]?).map fun instruction => ⟨instruction, position + 1, instruction.targetIndex⟩

/-- Every jump and call has a target inside the program or at its end. -/
def Code.TargetsInside (code : Code) : Prop :=
  ∀ (position : Nat) (instruction : Instruction), code[position]? = some instruction →
    instruction.opcode.hasTarget →
      ∃ target : Nat, instruction.target? = some (target : Int) ∧ target ≤ code.size

namespace Machine

def point (machine : Machine) : Point :=
  ⟨machine.workspace, machine.position, machine.returns⟩

/-- Where control goes on from an instruction, with the machine that has its result. -/
def goOn (machine : Machine) (instruction : Instruction) : Flow → Except (Fault × Machine) Next
  | .next => .ok machine.follow
  | .target => (machine.jump instruction).mapError (·, machine)
  | .enter =>
    let entered := { machine with returns := (machine.position + 1) :: machine.returns }
    match machine.targetOf instruction with
    | .error fault => .error (fault, entered)
    | .ok target =>
      .ok ⟨{ entered with profile := machine.profile.map fun profile => profile.recordCall target }, target⟩
  | .leave =>
    match machine.returns with
    | [] => .error (.returnWithoutCaller instruction.left, machine)
    | caller :: returns => .ok ⟨{ machine with returns }, caller⟩
  | .halt => .ok ⟨{ machine with halted := true }, machine.position⟩

/-- What comes of executing an instruction, without what a success would have left if it had failed. -/
def settle : Except Fault Next × Machine → Except (Fault × Machine) Next
  | (.ok next, _) => .ok next
  | (.error fault, left) => .error (fault, left)

def conclude (machine : Machine) (instruction : Instruction) :
    Effect → Option (Except (Fault × Machine) Next)
  | .unknown => none
  | .fault cause left => some (.error (cause, machine.adopt left))
  | .flow way result => some ((machine.adopt result).goOn instruction way)

theorem targetOf_of_program {machine after : Machine} {instruction : Instruction}
    {outcome : Except Fault Nat}
    (found : machine.targetOf instruction = outcome) (same : after.program = machine.program) :
    after.targetOf instruction = outcome := by
  rw [← found]
  unfold targetOf
  rw [same]

section

variable (machine : Machine) (instruction : Instruction)

theorem settle_thenFollow (outcome : Except Fault Machine) (left : Machine) :
    some (settle (thenFollow
      (outcome.map fun after => machine.adopt after.workspace, machine.adopt left.workspace))) =
      machine.conclude instruction (.ofOutcome outcome left) := by
  cases outcome <;> rfl

theorem Local.settle {operation : Machine → Except Fault Machine} (isLocal : Local operation) :
    some (settle (machine.orUnchanged (operation machine))) =
      machine.conclude instruction
        (.ofOutcome (operation machine.workspace.idle) machine.workspace.idle) := by
  rw [isLocal machine]
  cases operation machine.workspace.idle <;> rfl

theorem settle_jump : settle (machine.jump instruction, machine) = machine.goOn instruction .target := by
  unfold goOn
  cases machine.jump instruction <;> rfl

theorem settle_branch (sense : Bool) :
    some (settle (machine.branch instruction sense, machine)) =
      machine.conclude instruction (machine.workspace.branch instruction sense) := by
  unfold Workspace.branch branch
  rw [read_idle]
  cases machine.read instruction.left with
  | error cause => rfl
  | ok condition =>
    simp only [bind, Except.bind]
    split
    · exact congrArg some (machine.settle_jump instruction)
    · rfl

theorem settle_exit :
    some (settle (machine.exit, machine)) =
      machine.conclude instruction (machine.workspace.exit machine.returns.length) := by
  have same : (!machine.returns.isEmpty) = decide (0 < machine.returns.length) := by
    cases machine.returns <;> rfl
  have memory : machine.workspace.memory = machine.memory := rfl
  unfold Workspace.exit exit
  rw [same, memory]
  simp only
  split <;> rfl

theorem settle_call :
    some (settle (machine.call instruction)) =
      machine.conclude instruction (machine.workspace.call instruction) := by
  have records : machine.workspace.openRecords = machine.openRecords := rfl
  have same : bindAll machine.workspace.memory machine.workspace.passed =
      bindAll machine.memory machine.passed := rfl
  unfold Workspace.call call
  rw [records, same]
  split
  · rfl
  · rcases bindAll machine.memory machine.passed with ⟨outcome, memory⟩
    cases outcome with
    | error cause => rfl
    | ok =>
      cases found : machine.targetOf instruction with
      | error fault | ok target =>
        simp only [conclude, goOn, targetOf_of_program found, adopt]
        rfl

theorem settle_ret :
    some (settle (machine.ret instruction, machine)) =
      machine.conclude instruction (machine.workspace.ret machine.returns.length instruction) := by
  have same : machine.workspace.memory.restore = machine.memory.restore := rfl
  unfold Workspace.ret ret
  cases callers : machine.returns with
  | nil => rfl
  | cons caller others =>
    rw [same, if_neg (by simp)]
    cases machine.memory.restore with
    | error cause => rfl
    | ok memory =>
      simp only [conclude, goOn, adopt, callers]
      rfl

/-- The execution of an instruction is determined by its effect. -/
theorem settle_execute? :
    (machine.execute? instruction).map settle =
      machine.conclude instruction (machine.workspace.effect machine.returns.length instruction) := by
  have operated := (local_operate instruction).settle machine instruction
  unfold Workspace.effect execute?
  cases instruction.opcode with
  | nop | init | openRecord => rfl
  | exit => exact machine.settle_exit instruction
  | goto => exact congrArg some (machine.settle_jump instruction)
  | gotoTrue => exact machine.settle_branch instruction true
  | gotoFalse => exact machine.settle_branch instruction false
  | load => exact (local_loadLiteral instruction).settle machine instruction
  | store => exact (local_copy instruction).settle machine instruction
  | loadElement => exact (local_loadElement instruction).settle machine instruction
  | storeElement => exact (local_storeElement instruction).settle machine instruction
  | malloc =>
    simp only [allocateObject_eq machine]
    exact machine.settle_thenFollow instruction _ _
  | param => exact (local_passParam instruction).settle machine instruction
  | call => exact machine.settle_call instruction
  | ret => exact machine.settle_ret instruction
  | nativeParam => exact (local_passNative instruction).settle machine instruction
  | nativeCall =>
    simp only [callNative_eq machine]
    exact machine.settle_thenFollow instruction _ _
  | assign | reserved => rfl
  | _ => exact operated

end

/-! ### Steps -/

def report (machine : Machine) (instruction : Instruction) :
    Option (Except (Fault × Machine) Next) → Except Error Unit × Machine
  | none => (.error (.unknownOpcode machine.position instruction.opcode), machine)
  | some (.ok next) => (.ok (), advance next instruction.opcode)
  | some (.error (fault, left)) => (.error (.fault machine.position instruction.opcode fault), left)

variable {machine : Machine}

/-- Whether a machine has executed as many instructions as it may. -/
def isSpent (machine : Machine) : Bool :=
  0 < machine.limit && machine.limit ≤ machine.steps

/-- The step of a machine that may execute its next instruction is determined by the instruction's effect. -/
theorem step_eq {instruction : Instruction} (running : ¬ machine.halted = true)
    (found : machine.program[machine.position]? = some instruction)
    (allowed : ¬ machine.isSpent = true) :
    machine.step = machine.report instruction (machine.conclude instruction
      (machine.workspace.effect machine.returns.length instruction)) := by
  unfold isSpent at allowed
  rw [← settle_execute?, step, if_neg running, found]
  simp only [if_neg allowed]
  cases machine.execute? instruction with
  | none => rfl
  | some executed =>
    obtain ⟨outcome, left⟩ := executed
    cases outcome <;> rfl

theorem step_full {instruction : Instruction} (running : ¬ machine.halted = true)
    (found : machine.program[machine.position]? = some instruction)
    (full : machine.isSpent = true) :
    machine.step = (.error (.stepLimit machine.limit machine.position), machine) := by
  rw [step, if_neg running, found]
  exact if_pos full

/-- The machine under another limit, and perhaps without its profile. Instructions see neither. -/
def guise (machine : Machine) (limit : Nat) (profiled : Bool) : Machine :=
  { machine with limit, profile := if profiled then machine.profile else none }

theorem report_guise (machine : Machine) (instruction : Instruction) (effect : Effect) (limit : Nat)
    (profiled : Bool) :
    (machine.guise limit profiled).report instruction
        ((machine.guise limit profiled).conclude instruction effect) =
      ((machine.report instruction (machine.conclude instruction effect)).1,
        (machine.report instruction (machine.conclude instruction effect)).2.guise limit profiled) := by
  cases effect with
  | unknown | fault => rfl
  | flow way result =>
    have target : ((machine.guise limit profiled).adopt result).targetOf instruction =
        (machine.adopt result).targetOf instruction := rfl
    have returns : ((machine.guise limit profiled).adopt result).returns =
        (machine.adopt result).returns := rfl
    unfold conclude
    cases way with
    | next | halt => cases profiled <;> rfl
    | target | enter =>
      simp only [goOn, jump, target]
      cases (machine.adopt result).targetOf instruction <;> cases profiled <;> rfl
    | leave =>
      simp only [goOn, returns]
      cases (machine.adopt result).returns <;> cases profiled <;> rfl

/-- A limit that is not reached, or that is reached at the end of the program, makes no difference. -/
theorem step_guise {limit : Nat} (profiled : Bool)
    (room : ∀ instruction, machine.program[machine.position]? = some instruction →
      limit = machine.limit ∨ ¬ machine.isSpent = true ∧ ¬ (machine.guise limit profiled).isSpent = true) :
    (machine.guise limit profiled).step = (machine.step.1, machine.step.2.guise limit profiled) := by
  by_cases halted : machine.halted = true
  · rw [step, step, if_pos halted, if_pos (show (machine.guise limit profiled).halted = true from halted)]
  have halted' : ¬ (machine.guise limit profiled).halted = true := halted
  cases found : machine.program[machine.position]? with
  | none =>
    have found' : (machine.guise limit profiled).program[(machine.guise limit profiled).position]? = none :=
      found
    simp only [step, if_neg halted, if_neg halted', found, found']
    rfl
  | some instruction =>
    have allowing (allowed : ¬ machine.isSpent = true)
        (allowed' : ¬ (machine.guise limit profiled).isSpent = true) :
        (machine.guise limit profiled).step = (machine.step.1, machine.step.2.guise limit profiled) := by
      rw [step_eq halted found allowed, @step_eq (machine.guise limit profiled) _ halted found allowed']
      exact report_guise ..
    rcases room instruction found with rfl | ⟨allowed, allowed'⟩
    · by_cases full : machine.isSpent = true
      · rw [step_full halted found full, @step_full (machine.guise machine.limit profiled) _ halted found full]
        rfl
      · exact allowing full full
    · exact allowing allowed allowed'

/-- The target of a jump or call lies inside the program or at its end. -/
def Reaches (machine : Machine) (instruction : Instruction) : Prop :=
  ∃ target : Nat, instruction.target? = some (target : Int) ∧ target ≤ machine.program.size

theorem targetOf_eq (machine : Machine) {instruction : Instruction} {target : Nat}
    (named : instruction.target? = some (target : Int)) (inside : target ≤ machine.program.size) :
    machine.targetOf instruction = .ok instruction.targetIndex := by
  have bounds : ¬ ((target : Int) < 0 ∨ (machine.program.size : Int) < target) := by omega
  simp only [targetOf, named, Bool.or_eq_true, decide_eq_true_eq, if_neg bounds,
    Instruction.targetIndex, Option.getD_some]

/-- Unless it halts, a machine goes on as its program's chart says. -/
theorem goOn_eq_ok {instruction : Instruction} {way : Flow} (moves : way ≠ .halt)
    (reaches : way = .target ∨ way = .enter → machine.Reaches instruction)
    (called : way = .leave → machine.returns ≠ []) :
    ∃ next, machine.goOn instruction way = .ok next ∧ next.machine.workspace = machine.workspace ∧
      next.machine.program = machine.program ∧ next.machine.limit = machine.limit ∧
      next.machine.halted = machine.halted ∧
      Site.goOn ⟨instruction, machine.position + 1, instruction.targetIndex⟩ machine.returns
        machine.workspace way = .inl ⟨machine.workspace, next.position, next.machine.returns⟩ := by
  cases way with
  | next => exact ⟨_, rfl, rfl, rfl, rfl, rfl, rfl⟩
  | target =>
    obtain ⟨target, named, bounded⟩ := reaches (.inl rfl)
    simp only [goOn, jump, machine.targetOf_eq named bounded]
    exact ⟨_, rfl, rfl, rfl, rfl, rfl, rfl⟩
  | enter =>
    obtain ⟨target, named, bounded⟩ := reaches (.inr rfl)
    simp only [goOn, machine.targetOf_eq named bounded]
    exact ⟨_, rfl, rfl, rfl, rfl, rfl, rfl⟩
  | leave =>
    unfold goOn Site.goOn
    cases callers : machine.returns with
    | nil => exact absurd callers (called rfl)
    | cons caller others => exact ⟨_, rfl, rfl, rfl, rfl, rfl, rfl⟩
  | halt => exact absurd rfl moves

end Machine

end Quadruple
