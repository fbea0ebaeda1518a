import Quadruple.Proofs.Behaviour
import Quadruple.Proofs.Steps

/-!
Activation records. On every walk the saved records are those that wait for their call and those of
the active calls. So a walk that comes to the end of its program without a record can halt there, and
a program may as well be closed by an instruction that ends it.
-/

namespace Quadruple

namespace Machine

theorem frames_bindAll (passed : List Passed) (memory : Memory) :
    (bindAll memory passed).2.frames = memory.frames :=
  bindAll_keeps (fun after => after.frames = memory.frames)
    (fun _ _ _ _ same stored => (Memory.frames_store stored).trans same) rfl

end Machine

namespace Workspace

variable {workspace result : Workspace} {callers : Nat} {instr : Instruction}

/-- What an instruction after which control goes to the following one does to the records: only one
opcode opens a record. -/
theorem records_of_next (flows : workspace.effect callers instr = .flow .next result) :
    if instr.opcode = .openRecord then
      result.memory.frames =
        ⟨workspace.memory.locals, workspace.memory.temps⟩ :: workspace.memory.frames ∧
      result.openRecords = workspace.openRecords + 1
    else result.memory.frames = workspace.memory.frames ∧
      result.openRecords = workspace.openRecords := by
  split
  · rename_i opens
    simp only [effect, opens] at flows
    cases flows
    exact ⟨rfl, rfl⟩
  · rename_i stays
    have fits : Flow.next.Fits instr.opcode := effect_fits flows
    obtain ⟨after, position, does, rfl⟩ := does_of_next flows
    cases does with
    | openRecord opens => exact absurd opens stays
    | write _ stored | askHost _ _ _ _ stored => exact ⟨Memory.frames_store stored, rfl⟩
    | make _ _ found _ stored =>
      exact ⟨(Memory.frames_store stored).trans (Memory.frames_allocate found), rfl⟩
    | enter calls => exact absurd calls fits.2.1
    | leave leaves => exact absurd leaves fits.2.2.1
    | _ => exact ⟨rfl, rfl⟩

theorem frames_of_fault {cause : Machine.Fault}
    (fails : workspace.effect callers instr = .fault cause result) :
    result.memory.frames = workspace.memory.frames := by
  obtain ⟨left, leaves, rfl⟩ := leaves_of_fault fails
  have kept := Machine.frames_bindAll workspace.passed workspace.memory
  cases leaves with
  | made _ found => exact Memory.frames_allocate found
  | bound _ bound | entered _ _ bound => exact (congrArg (·.2.frames) bound).symm.trans kept
  | same | called => rfl

theorem effect_target (flows : workspace.effect callers instr = .flow .target result) :
    result = workspace := by
  have jumps : instr.opcode.isJump := effect_fits flows
  unfold effect at flows
  cases named : instr.opcode with
  | goto =>
    rw [named] at flows
    cases flows
    rfl
  | gotoTrue | gotoFalse =>
    rw [named] at flows
    simp only [branch] at flows
    split at flows
    · injection flows with _ same
      exact same.symm
    · cases flows
  | _ =>
    rw [named] at jumps
    cases jumps

theorem effect_enter (flows : workspace.effect callers instr = .flow .enter result) :
    workspace.openRecords ≠ 0 ∧ ∃ memory,
      Machine.bindAll workspace.memory workspace.passed = (.ok (), memory) ∧
      result =
        { workspace with memory, passed := [], openRecords := workspace.openRecords - 1 } := by
  have calls : instr.opcode = .call := effect_fits flows
  simp only [effect, calls, call] at flows
  by_cases closed : workspace.openRecords = 0
  · rw [if_pos closed] at flows
    cases flows
  · rw [if_neg closed] at flows
    split at flows
    · cases flows
    · rename_i memory bound
      cases flows
      exact ⟨closed, memory, bound, rfl⟩

theorem effect_leave (flows : workspace.effect callers instr = .flow .leave result) :
    ∃ memory, workspace.memory.restore = .ok memory ∧ result = { workspace with memory } := by
  have returns : instr.opcode = .ret := effect_fits flows
  simp only [effect, returns, ret] at flows
  split at flows
  · cases flows
  · split at flows
    · cases flows
    · rename_i memory restored
      cases flows
      exact ⟨memory, restored, rfl⟩

end Workspace

def Point.Balanced (point : Point) : Prop :=
  point.workspace.memory.depth = point.workspace.openRecords + point.returns.length

namespace Chart

variable {chart : Chart} {point later : Point}

theorem balanced_step (balanced : point.Balanced) (stepped : chart.step point = .inl later) :
    later.Balanced := by
  unfold step at stepped
  cases found : chart point.position with
  | none =>
    rw [found] at stepped
    cases stepped
  | some site =>
    rw [found] at stepped
    cases effect : point.workspace.effect point.returns.length site.instruction with
    | unknown | fault =>
      simp only [effect] at stepped
      cases stepped
    | flow way result =>
      simp only [effect] at stepped
      unfold Point.Balanced Memory.depth at balanced ⊢
      cases way with
      | next =>
        cases stepped
        have records := Workspace.records_of_next effect
        split at records
        · rw [records.1, records.2, List.length_cons, balanced]
          simp only
          omega
        · rw [records.1, records.2, balanced]
      | target =>
        cases stepped
        rw [Workspace.effect_target effect]
        exact balanced
      | enter =>
        cases stepped
        obtain ⟨opened, memory, bound, rfl⟩ := Workspace.effect_enter effect
        have kept : memory.frames = point.workspace.memory.frames := by
          have bindKeeps := Machine.frames_bindAll point.workspace.passed point.workspace.memory
          rw [bound] at bindKeeps
          exact bindKeeps
        simp only [kept, balanced, List.length_cons]
        omega
      | leave =>
        obtain ⟨memory, restored, rfl⟩ := Workspace.effect_leave effect
        obtain ⟨frame, frames, saved, rfl⟩ := Memory.restore_eq_ok restored
        rw [saved] at balanced
        cases callers : point.returns with
        | nil =>
          rw [callers] at stepped
          cases stepped
        | cons caller others =>
          rw [callers] at stepped balanced
          cases stepped
          simp only [List.length_cons] at balanced ⊢
          omega
      | halt => cases stepped

theorem balanced_follow {count : Nat} (balanced : point.Balanced)
    (reached : chart.walk.follow count point = .inl later) : later.Balanced := by
  induction count generalizing point with
  | zero =>
    cases reached
    exact balanced
  | succ count ih =>
    cases stepped : chart.walk.step point with
    | inl next =>
      rw [System.follow_succ_of_more _ stepped] at reached
      exact ih (balanced_step balanced stepped) reached
    | inr final =>
      rw [System.follow_succ_of_end _ stepped] at reached
      cases reached

def closing : Site := ⟨{ opcode := .exit }, 0, 0⟩

def close (chart : Chart) : Chart := fun place => some ((chart place).getD closing)

theorem step_closing (balanced : point.Balanced) (noRecord : point.workspace.memory.depth = 0)
    (found : chart point.position = some closing) :
    chart.step point = .inr (.halted, point.workspace) := by
  have noCaller : point.returns.length = 0 := by
    unfold Point.Balanced at balanced
    omega
  simp only [step, found, closing, Workspace.effect, Workspace.exit, noRecord, noCaller,
    Nat.lt_irrefl, decide_false, Bool.or_false, Bool.false_eq_true, if_false, Site.goOn]

/-- A walk that comes to its end with no record left may as well be ended by an instruction. -/
theorem close_simulation {start : Point} (balanced : start.Balanced)
    (closed : ∀ count later, chart.walk.follow count start = .inl later →
      chart later.position = none → later.workspace.memory.depth = 0) :
    System.Simulation (fun final => final) chart.walk chart.close.walk
      (fun point point' =>
        point = point' ∧ ∃ count, chart.walk.follow count start = .inl point)
      (fun _ _ => 0) := by
  constructor
  · rintro point _ ⟨rfl, _⟩
    rfl
  · rintro point _ ⟨rfl, count, reached⟩
    cases found : chart point.position with
    | none =>
      have ended : chart.walk.step point = .inr (.halted, point.workspace) := by
        simp only [walk, step, found]
      have ended' : chart.close.step point = .inr (.halted, point.workspace) := by
        refine step_closing (balanced_follow balanced reached) (closed count point reached found) ?_
        simp only [close, found, Option.getD_none]
      exact .finish _ _ ended ended' rfl
    | some site =>
      have same : chart.close.walk.step point = chart.walk.step point := by
        simp only [walk, step, close, found, Option.getD_some]
      cases stepped : chart.walk.step point with
      | inr final => exact .finish _ _ stepped (same.trans stepped) rfl
      | inl later =>
        refine .both _ _ stepped (same.trans stepped) ⟨rfl, count + 1, ?_⟩
        rw [System.follow_add _ reached]
        exact System.follow_succ_of_more _ stepped 0

end Chart

namespace Machine

/-- The run never comes to the end of the program while an activation record is open. -/
def EndsClosed (machine : Machine) : Prop :=
  ∀ count, machine.program.size ≤ (machine.run count).2.position →
    (machine.run count).2.memory.depth = 0

/-- A machine without a limit does the same as the walk through its program that is closed at the
end. -/
theorem agree_close {code : Code} {options : Options} (inside : Code.TargetsInside code)
    (unlimited : options.limit = 0) (closed : (ofProgram code options).EndsClosed) :
    System.Agree (fun final => final) system (Code.chart code).close.walk
      (ofProgram code options) (ofProgram code options).point := by
  have simulation := walks_simulation inside
  have start := walks_ofProgram code options unlimited
  have balanced : (ofProgram code options).point.Balanced := rfl
  refine (simulation.agree start).trans
    ((Chart.close_simulation balanced ?_).agree ⟨rfl, 0, rfl⟩)
  intro count later reached ended
  obtain ⟨count', machine, reached', _, _, workspace, position, _⟩ :=
    simulation.symm.reach start reached
  have noRecord := closed count'
  rw [run_of_reached reached', ← position] at noRecord
  have beyond : code.size ≤ later.position := by
    simpa only [Code.chart, Option.map_eq_none_iff, Array.getElem?_eq_none_iff] using ended
  have same : later.workspace.memory = machine.memory := by rw [workspace]; rfl
  rw [same]
  exact noRecord beyond

end Machine

end Quadruple
