import Mathlib.Logic.Function.Iterate
import Quadruple.Proofs.Records
import Quadruple.Proofs.Steps

/-!
Activation records of a machine that steps, and goes on stepping when a step has failed. A step opens
a record, enters the one that waits, gives one back or leaves the records alone. So the saved records
are at all times those of the active calls and those that are open, and a call gives back the record
that was saved for it, whatever is called in between.
-/

namespace Quadruple.Machine

variable {machine after : Machine} {instr : Instruction}

/-! ### What a step does to the records -/

/-- What a step can do to the activation records and to the places to return to. -/
inductive Turn (machine after : Machine) : Prop where
  | keep (frames : after.memory.frames = machine.memory.frames)
      (returns : after.returns = machine.returns) (records : after.openRecords = machine.openRecords)
  | opens
      (frames : after.memory.frames =
        ⟨machine.memory.locals, machine.memory.temps⟩ :: machine.memory.frames)
      (returns : after.returns = machine.returns)
      (records : after.openRecords = machine.openRecords + 1)
  | enters (frames : after.memory.frames = machine.memory.frames)
      (returns : after.returns = (machine.position + 1) :: machine.returns)
      (records : machine.openRecords = after.openRecords + 1)
  | leaves {frame : Frame} {frames : List Frame} (saved : machine.memory.frames = frame :: frames)
      (memory : after.memory =
        { machine.memory with locals := frame.locals, temps := frame.temps, frames })
      (returns : machine.returns = after.position :: after.returns)
      (records : after.openRecords = machine.openRecords)

theorem Does.turn {position : Nat} (does : machine.Does instr after position)
    (opcode : Opcode) : machine.Turn (advance ⟨after, position⟩ opcode) := by
  cases does with
  | idle | halt | jump | fall | pass | passHost | callHost => exact .keep rfl rfl rfl
  | write _ stored | askHost _ _ _ _ stored => exact .keep (Memory.frames_store stored) rfl rfl
  | make _ _ found _ stored =>
    have kept := (Memory.frames_store stored).trans (Memory.frames_allocate found)
    exact .keep kept rfl rfl
  | openRecord => exact .opens rfl rfl rfl
  | enter _ opened bound =>
    have kept := frames_bindAll machine.passed machine.memory
    rw [bound] at kept
    apply Turn.enters kept rfl
    simp only [advance]
    omega
  | leave _ callers restored =>
    obtain ⟨frame, frames, saved, rfl⟩ := Memory.restore_eq_ok restored
    exact .leaves saved rfl callers rfl

theorem Leaves.turn (leaves : machine.Leaves instr after) : machine.Turn after := by
  have kept := frames_bindAll machine.passed machine.memory
  cases leaves with
  | same | called => exact .keep rfl rfl rfl
  | made _ found => exact .keep (Memory.frames_allocate found) rfl rfl
  | bound _ bound =>
    rw [bound] at kept
    exact .keep kept rfl rfl
  | entered _ opened bound =>
    -- the call fails on its target, but the record has been entered
    rw [bound] at kept
    apply Turn.enters kept rfl
    show machine.openRecords = machine.openRecords - 1 + 1
    omega

/-- A step turns to the records in one of four ways, whether it succeeds or not. -/
theorem turn_step (machine : Machine) : machine.Turn machine.step.2 :=
  step_keeps machine.Turn (.keep rfl rfl rfl) (.keep rfl rfl rfl) (fun _ does => does.turn _)
    fun _ leaves => leaves.turn

/-- The machine after a number of steps, each of which may succeed or fail. -/
def afterSteps (count : Nat) (machine : Machine) : Machine :=
  (fun machine => machine.step.2)^[count] machine

theorem afterSteps_succ (count : Nat) (machine : Machine) :
    machine.afterSteps (count + 1) = (machine.afterSteps count).step.2 :=
  Function.iterate_succ_apply' _ count machine

/-! ### The balance of records -/

def Balanced (machine : Machine) : Prop :=
  machine.memory.depth = machine.returns.length + machine.openRecords

theorem Balanced.turn (balanced : machine.Balanced) (turn : machine.Turn after) :
    after.Balanced := by
  unfold Balanced Memory.depth at balanced ⊢
  cases turn with
  | keep frames returns records => rw [frames, returns, records, balanced]
  | opens frames returns records =>
    rw [frames, returns, records, List.length_cons, balanced]
    omega
  | enters frames returns records =>
    rw [frames, returns, List.length_cons, balanced, records]
    omega
  | leaves saved memory returns records =>
    rw [saved, returns, List.length_cons, List.length_cons] at balanced
    rw [memory, records]
    simp only
    omega

theorem Balanced.afterSteps (balanced : machine.Balanced) (count : Nat) :
    (machine.afterSteps count).Balanced :=
  Function.Iterate.rec Balanced balanced (fun machine balanced => balanced.turn machine.turn_step) count

/-- An instruction that a step of the machine executes. -/
structure Executes (machine : Machine) (instr : Instruction) : Prop where
  running : machine.halted = false
  found : machine.program[machine.position]? = some instr
  allowed : machine.limit = 0 ∨ machine.steps < machine.limit

theorem Executes.step (executes : machine.Executes instr)
    {outcome : Except Fault Next} {left : Machine}
    (executed : machine.execute? instr = some (outcome, left)) :
    machine.step.1 =
      (outcome.mapError (Error.fault machine.position instr.opcode)).map fun _ => () := by
  obtain ⟨running, found, allowed⟩ := executes
  have within : ¬ (decide (0 < machine.limit) && decide (machine.limit ≤ machine.steps)) = true := by
    simp only [Bool.and_eq_true, decide_eq_true_eq]
    omega
  unfold Machine.step
  rw [running, found]
  simp only [Bool.false_eq_true, if_false, if_neg within, executed]
  cases outcome <;> rfl

/-- What the balance of records means for the instructions that depend on it. -/
structure Accounted (machine : Machine) : Prop where
  records : machine.memory.depth = machine.returns.length + machine.openRecords
  /-- Where there is a caller there is a record to give back. -/
  restores : machine.returns ≠ [] → ∃ memory, machine.memory.restore = .ok memory
  returns : ∀ instr, machine.Executes instr → instr.opcode = .ret →
    (machine.step.1 = .ok () ↔ machine.returns ≠ [])
  exits : ∀ instr, machine.Executes instr → instr.opcode = .exit →
    (machine.step.1 = .ok () ↔ machine.returns = [] ∧ machine.openRecords = 0) ∧
      ∀ error, machine.step.1 = .error error → error.report.kind = .activationImbalance

theorem Balanced.restores (balanced : machine.Balanced) (called : machine.returns ≠ []) :
    ∃ memory, machine.memory.restore = .ok memory := by
  have callers := List.length_pos_iff.2 called
  unfold Balanced Memory.depth at balanced
  obtain ⟨frame, frames, saved⟩ : ∃ frame frames, machine.memory.frames = frame :: frames := by
    apply List.exists_cons_of_length_pos
    omega
  exact ⟨_, by rw [Memory.restore, saved]⟩

theorem Balanced.step_ret (balanced : machine.Balanced) (executes : machine.Executes instr)
    (leaves : instr.opcode = .ret) :
    machine.step.1 = .ok () ↔ machine.returns ≠ [] := by
  have executed : machine.execute? instr = some (machine.ret instr, machine) := by
    rw [execute?, leaves]
  rw [executes.step executed]
  cases callers : machine.returns with
  | nil =>
    have fails : machine.ret instr = .error (.returnWithoutCaller instr.left) := by
      rw [ret, callers]
    rw [fails]
    constructor
    · intro done
      cases done
    · intro some
      exact absurd rfl some
  | cons caller others =>
    obtain ⟨memory, restored⟩ := balanced.restores (by rw [callers]; exact List.cons_ne_nil _ _)
    have succeeds : machine.ret instr = .ok ⟨{ machine with memory, returns := others }, caller⟩ := by
      rw [ret, callers]
      simp only [restored]
      rfl
    rw [succeeds]
    exact iff_of_true rfl (List.cons_ne_nil _ _)

theorem Balanced.step_exit (balanced : machine.Balanced) (executes : machine.Executes instr)
    (exits : instr.opcode = .exit) :
    (machine.step.1 = .ok () ↔ machine.returns = [] ∧ machine.openRecords = 0) ∧
      ∀ error, machine.step.1 = .error error → error.report.kind = .activationImbalance := by
  have executed : machine.execute? instr = some (machine.exit, machine) := by
    rw [execute?, exits]
  rw [executes.step executed]
  unfold Balanced at balanced
  by_cases closed : machine.returns = [] ∧ machine.openRecords = 0
  · have none : machine.memory.depth = 0 := by
      rw [balanced, closed.1, closed.2]
      rfl
    have succeeds : machine.exit = .ok ⟨{ machine with halted := true }, machine.position⟩ := by
      simp [exit, none, closed.1]
    rw [succeeds]
    refine ⟨iff_of_true rfl closed, fun error fails => ?_⟩
    cases fails
  · have inside : (decide (0 < machine.memory.depth) || !machine.returns.isEmpty) = true := by
      simp only [Bool.or_eq_true, decide_eq_true_eq, Bool.not_eq_true', List.isEmpty_eq_false_iff]
      by_contra outside
      rw [not_or, not_not] at outside
      obtain ⟨shallow, outermost⟩ := outside
      rw [outermost, List.length_nil] at balanced
      exact closed ⟨outermost, by omega⟩
    have fails : machine.exit = .error (.exitInside machine.memory.depth) := by
      simp only [exit, inside, if_true]
    rw [fails]
    refine ⟨iff_of_false (fun done => ?_) closed, fun error failed => ?_⟩
    · cases done
    · cases failed
      rfl

/-- At every moment of a run, and however often it is told to go on after it failed, the saved records
are those of the active calls and the open ones. So a return to a caller always finds a record, and
the program can end exactly where no call is active and no record is open. -/
theorem records_accounted (program : Code) (options : Options) (count : Nat) :
    ((ofProgram program options).afterSteps count).Accounted := by
  have start : (ofProgram program options).Balanced := rfl
  have balanced := start.afterSteps count
  exact ⟨balanced, balanced.restores, fun _ => balanced.step_ret, fun _ => balanced.step_exit⟩

end Quadruple.Machine
