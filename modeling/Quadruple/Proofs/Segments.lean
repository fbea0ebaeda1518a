import Quadruple.Proofs.Behaviour
import Quadruple.Proofs.Instructions

/-!
Segments of programs: instructions that follow each other from some place on. A walk through a
segment of simple instructions is put together from what each of them does.
-/

namespace Quadruple

namespace System

variable {State End : Type} {system : System State End} {state between later : State} {final : End}
  {count : Nat}

def Reaches (system : System State End) (state later : State) : Prop :=
  ∃ count, system.follow count state = .inl later

def Lasts (system : System State End) (state : State) (count : Nat) : Prop :=
  ∃ more later, count ≤ more ∧ system.follow more state = .inl later

namespace Reaches

theorem refl (system : System State End) (state : State) : system.Reaches state state :=
  ⟨0, rfl⟩

theorem trans (first : system.Reaches state between) (second : system.Reaches between later) :
    system.Reaches state later := by
  obtain ⟨count, reached⟩ := first
  obtain ⟨more, further⟩ := second
  exact ⟨count + more, by rw [follow_add system reached, further]⟩

theorem step (stepped : system.step state = .inl later) : system.Reaches state later :=
  ⟨1, follow_succ_of_more system stepped 0⟩

theorem ends (reaches : system.Reaches state later) (ended : system.Ends later final) :
    system.Ends state final := by
  obtain ⟨count, reached⟩ := reaches
  obtain ⟨more, ended⟩ := ended
  exact ⟨count + more, by rw [follow_add system reached, ended]⟩

theorem lasts (reaches : system.Reaches state later) (lasts : system.Lasts later count) :
    system.Lasts state count := by
  obtain ⟨steps, reached⟩ := reaches
  obtain ⟨more, beyond, enough, further⟩ := lasts
  exact ⟨steps + more, beyond, by omega, by rw [follow_add system reached, further]⟩

end Reaches

theorem ends_of_step (stepped : system.step state = .inr final) : system.Ends state final :=
  ⟨1, follow_succ_of_end system stepped 0⟩

theorem follow_of_end (ended : system.follow count state = .inr final) (more : Nat) :
    system.follow (count + more) state = .inr final := by
  induction count generalizing state with
  | zero => cases ended
  | succ count ih =>
    rw [Nat.add_right_comm]
    cases stepped : system.step state with
    | inl next =>
      rw [follow_succ_of_more system stepped] at ended ⊢
      exact ih ended
    | inr last =>
      rw [follow_succ_of_end system stepped] at ended ⊢
      exact ended

theorem Ends.unique {final' : End} (ends : system.Ends state final) (ends' : system.Ends state final') :
    final = final' := by
  obtain ⟨count, ended⟩ := ends
  obtain ⟨count', ended'⟩ := ends'
  have same := follow_of_end ended count'
  rw [Nat.add_comm, follow_of_end ended' count] at same
  exact (Sum.inr.inj same).symm

theorem Lasts.succ (stepped : system.step state = .inl later) (lasts : system.Lasts later count) :
    system.Lasts state (count + 1) := by
  obtain ⟨more, beyond, enough, further⟩ := lasts
  exact ⟨more + 1, beyond, by omega, by rw [follow_succ_of_more system stepped, further]⟩

theorem diverges_of_lasts (lasts : ∀ count, system.Lasts state count) : system.Diverges state := by
  rw [diverges_iff]
  rintro final ⟨count, ended⟩
  obtain ⟨more, later, enough, reached⟩ := lasts count
  obtain ⟨rest, rfl⟩ := Nat.exists_eq_add_of_le enough
  cases reached.symm.trans (follow_of_end ended rest)

end System

/-- The same instructions from one place up to another. -/
def Code.Agrees (code other : Code) (start stop : Nat) : Prop :=
  ∀ place, start ≤ place → place < stop → code[place]? = other[place]?

/-! ### What simple instructions do -/

theorem Opcode.EvalError.kind_report (cause : Opcode.EvalError) : cause.report.kind = .runtime := by
  cases cause <;> rfl

namespace Workspace

variable {workspace : Workspace} {after : Memory} {address condition : Address} {value : Value}
  {callers : Nat}

theorem effect_load
    (stored : workspace.memory.store address.plain (value.coerce address.type) = .ok after) :
    workspace.effect callers ⟨.load, .literal value, .none, .address address⟩ =
      .flow .next { workspace with memory := after } := by
  have done : workspace.idle.loadLiteral ⟨.load, .literal value, .none, .address address⟩ =
      .ok { workspace.idle with memory := after } :=
    Machine.loadLiteral_eq_ok.2 ⟨value, rfl, Machine.write_eq_ok.2 ⟨address, after, rfl, stored, rfl⟩⟩
  simp only [effect, done]
  rfl

theorem effect_store {source : Address} (isRead : workspace.memory.load source.plain = .ok value)
    (stored : workspace.memory.store address.plain (value.coerce address.type) = .ok after) :
    workspace.effect callers ⟨.store, .address source, .none, .address address⟩ =
      .flow .next { workspace with memory := after } := by
  have done : workspace.idle.copy ⟨.store, .address source, .none, .address address⟩ =
      .ok { workspace.idle with memory := after } := by
    refine Machine.copy_eq_ok.2 ⟨value, ?_, Machine.write_eq_ok.2 ⟨address, after, rfl, stored, rfl⟩⟩
    exact mapError_eq_ok.2 isRead
  simp only [effect, done]
  rfl

section

variable {opcode : Opcode} {left right : Operand} {first second : Value}
  (pure : opcode.isPure = true) (readLeft : workspace.idle.readIfAny left = .ok first)
  (readRight : workspace.idle.readIfAny right = .ok second)
include pure readLeft readRight

theorem effect_operate (computed : opcode.eval first second = .ok value)
    (stored : workspace.memory.store address.plain (value.coerce address.type) = .ok after) :
    workspace.effect callers ⟨opcode, left, right, .address address⟩ =
      .flow .next { workspace with memory := after } := by
  have done : workspace.idle.operate ⟨opcode, left, right, .address address⟩ =
      .ok { workspace.idle with memory := after } :=
    Machine.operate_eq_ok.2 ⟨first, second, value, readLeft, readRight, computed,
      Machine.write_eq_ok.2 ⟨address, after, rfl, stored, rfl⟩⟩
  rw [effect_pure pure, done]
  rfl

variable {cause : Opcode.EvalError}

theorem effect_operate_error {result : Operand} (failed : opcode.eval first second = .error cause) :
    workspace.effect callers ⟨opcode, left, right, result⟩ = .fault (.evaluation cause) workspace := by
  have done : workspace.idle.operate ⟨opcode, left, right, result⟩ = .error (.evaluation cause) := by
    have mapped : (opcode.eval first second).mapError Machine.Fault.evaluation =
        .error (.evaluation cause) := by
      rw [failed]
      rfl
    simp only [Machine.operate, readLeft, readRight, mapped, bind, Except.bind]
  rw [effect_pure pure, done]
  rfl

end

theorem effect_gotoFalse {target : Int}
    (isRead : workspace.memory.load condition.plain = .ok value) :
    workspace.effect callers ⟨.gotoFalse, .address condition, .none, .target target⟩ =
      .flow (if value.holds = false then .target else .next) workspace := by
  have found : workspace.idle.read (.address condition) = .ok value := mapError_eq_ok.2 isRead
  simp only [effect, branch, found]

theorem effect_exit {instr : Instruction} (exits : instr.opcode = .exit)
    (closed : workspace.memory.frames = []) :
    workspace.effect 0 instr = .flow .halt workspace := by
  simp only [effect, exits, exit, Memory.depth, closed, List.length_nil, Nat.lt_irrefl, decide_false,
    Bool.or_false, Bool.false_eq_true, if_false]

end Workspace

namespace Code

variable {code : Code} {place : Nat} {instr : Instruction} {workspace result : Workspace}

section

variable (found : code[place]? = some instr)
include found

theorem chart_eq :
    Code.chart code place = some ⟨instr, place + 1, instr.targetIndex⟩ := by
  simp only [Code.chart, found, Option.map_some]

theorem step_next (flows : workspace.effect 0 instr = .flow .next result) :
    (Code.chart code).walk.step ⟨workspace, place, []⟩ = .inl ⟨result, place + 1, []⟩ :=
  @Chart.step_of_flow _ ⟨workspace, place, []⟩ _ _ _ (chart_eq found) flows

theorem step_target (flows : workspace.effect 0 instr = .flow .target result) :
    (Code.chart code).walk.step ⟨workspace, place, []⟩ =
      .inl ⟨result, instr.targetIndex, []⟩ :=
  @Chart.step_of_flow _ ⟨workspace, place, []⟩ _ _ _ (chart_eq found) flows

theorem step_halt (flows : workspace.effect 0 instr = .flow .halt result) :
    (Code.chart code).walk.step ⟨workspace, place, []⟩ = .inr (.halted, result) :=
  @Chart.step_of_flow _ ⟨workspace, place, []⟩ _ _ _ (chart_eq found) flows

theorem step_evaluation_fault
    (fails : workspace.effect 0 instr = .fault (.evaluation cause) result) :
    (Code.chart code).walk.step ⟨workspace, place, []⟩ = .inr (.failed .runtime, result) := by
  rw [@Chart.step_of_fault _ ⟨workspace, place, []⟩ _ _ _ (chart_eq found) fails]
  exact congrArg (fun kind => Sum.inr (Ending.failed kind, result)) cause.kind_report

end

end Code

end Quadruple
