import Quadruple.Proofs.Confinement
import Quadruple.Proofs.Optimized
import Quadruple.Proofs.ProgramBounds
import Quadruple.Proofs.Regularity
import Quadruple.Proofs.Targets

/-!
Compiled programs meet what the optimizer asks of its input, apart from two things: that no
instruction belongs to two bodies, and that an intermediate result is written on every path to its
use. Operands and waiting jumps can be carried across branches and bodies, so neither follows from
the program's being compiled. Where they hold, or constants are not folded, the optimized program
does what the compiled one does.
-/

namespace Quadruple

/-! ### The flow graph of a compiled program -/

namespace FlowGraph

variable {code : Code} {graph : FlowGraph}

theorem calling_of_stage (accepted : ofCode code = .ok graph) (orderly : code.Orderly)
    (closed : code.Sealed) (left : Nat) {place : Nat} (enough : code.size ≤ place + left)
    (record : code.stage place = .record) : graph.Calling place := by
  have inside := closed.lt_of_stage record
  induction left generalizing place with
  | zero => omega
  | succ left ih =>
    have here : code[place]? = some code[place] := Array.getElem?_eq_getElem inside
    obtain ⟨node, found, represents⟩ := node_ofCode accepted here
    have accepts := orderly.accepts place _ here
    rw [record] at accepts
    rcases accepts.of_record with passes | calls
    · have onward : code.stage (place + 1) = .record := by
        rw [Code.stage_succ here, Instruction.stage, passes]
      refine .param found (by rw [represents.same, passes]) ?_
        (ih (by omega) onward (closed.lt_of_stage onward))
      rw [represents.next, passes]
      rfl
    · exact .call found (by rw [represents.same, calls])

theorem opensForCalls_ofCode (accepted : ofCode code = .ok graph) (orderly : code.Orderly)
    (closed : code.Sealed) : graph.OpensForCalls := by
  intro place node found _ opens
  obtain ⟨instr, here, represents⟩ := represents_ofCode accepted found
  rw [represents.same] at opens
  refine ⟨place + 1, by rw [represents.next, opens]; rfl, ?_⟩
  refine calling_of_stage accepted orderly closed code.size (by omega) ?_
  rw [Code.stage_succ here, Instruction.stage, opens]

end FlowGraph

/-! ### Optimized programs -/

namespace Machine

variable {machine : Machine} {text text' : String}

/-- What has been printed, if the machine halts within a number of steps. -/
def haltedOutput? (count : Nat) (machine : Machine) : Option String :=
  match machine.run count with
  | (.halted, final) => some final.console.output
  | _ => none

def HaltsPrinting (machine : Machine) (text : String) : Prop :=
  ∃ final, machine.HaltsWith final ∧ final.console.output = text

theorem haltsPrinting_of_haltedOutput? {count : Nat}
    (printed : haltedOutput? count machine = some text) : machine.HaltsPrinting text := by
  unfold haltedOutput? at printed
  split at printed
  · rename_i final ran
    exact ⟨final, ⟨count, ran⟩, Option.some.inj printed⟩
  · cases printed

theorem HaltsPrinting.not_sameBehaviour {View : Type} {view : Memory → View} {other : Machine}
    (halts : machine.HaltsPrinting text) (halts' : other.HaltsPrinting text')
    (different : text ≠ text') : ¬ SameBehaviour view machine other := by
  intro same
  obtain ⟨final, halts, rfl⟩ := halts
  obtain ⟨final', halts', rfl⟩ := halts'
  obtain ⟨final'', halts'', printed, _⟩ := (same.halts _ _).2 ⟨final', halts', rfl, rfl⟩
  rw [halts.unique halts''] at different
  exact different printed

end Machine

namespace Transcript

variable {transcript : Transcript} {capacities : Capacities} {code : Code}

/-- The optimizer accepts a finished program in which every jump back takes the head of a loop, and
the optimized program prints the same, ends in the same way or not at all, and leaves the same memory
apart from intermediate results. If constants are folded, this asks that no instruction belongs to
two bodies and that intermediate results are written before they are read. -/
theorem compiled_optimizes (finished : transcript.Finished) (loops : transcript.closesLoops = true)
    (compiled : transcript.compile capacities = .ok code) :
    ∃ graph, FlowGraph.ofCode code = .ok graph ∧
      ∀ (options : Optimization.Options) (run : Machine.Options), run.capacities = capacities →
        run.limit = 0 →
        (options.constantFolding = true → graph.BodiesApart ∧ graph.WritesFirst) →
        ∃ optimized stats, Optimization.optimize code options = .ok (optimized, stats) ∧
          Machine.SameBehaviour Memory.lasting (Machine.ofProgram code run)
            (Machine.ofProgram optimized run) := by
  obtain ⟨commands, generator, asks, performs, rfl⟩ := compile_performs compiled
  obtain ⟨earlier, rfl, closes⟩ := asks.finished finished loops
  have closed := performs.sealed
  have orderly := (performs.inOrder (Generator.admits_lax capacities _)).orderly
  obtain ⟨root, starts, start⟩ := performs.startsAt performs.started_of_ended
  obtain ⟨graph, accepted, rfl⟩ := FlowGraph.exists_ofCode (performs.targetsInside closes) start
  refine ⟨graph, accepted, fun options run capacity unlimited disciplined => ?_⟩
  have sound : options.constantFolding = true → graph.Sound (.spacious capacities) := by
    intro folds
    obtain ⟨apart, writesFirst⟩ := disciplined folds
    refine Optimization.sound_ofCode accepted ⟨apart, writesFirst,
      FlowGraph.opensForCalls_ofCode accepted orderly closed, fun place node found _ => ?_⟩
    obtain ⟨instruction, here, represents⟩ := FlowGraph.represents_ofCode accepted found
    rw [represents.same]
    exact performs.regular place instruction here
  have fresh : FlowGraph.Fresh (.spacious capacities)
      (Machine.ofProgram generator.buffer.code run).workspace := by
    rw [← capacity]
    exact ⟨rfl, rfl, rfl⟩
  exact Optimization.optimize_keeps_lasting accepted starts unlimited
    (Machine.endsClosed_ofProgram closed performs.opens.size_pos run) fresh sound

/-- A function that doubles its argument, and a line for the host to write. -/
def doubling : Transcript where
  natives := true
  events :=
    [{ kind := "declare_function", name := "double", type := "int" },
      { kind := "declare_argument", name := "n", type := "int" },
      { kind := "identifier", name := "n" }, { kind := "variable" },
      { kind := "constant", value := some (.int 2) }, { kind := "operator", operator := "*" },
      { kind := "return" }, { kind := "close_function" }, { kind := "init" },
      { kind := "identifier", name := "write" }, { kind := "identifier", name := "double" },
      { kind := "constant", value := some (.int 3) },
      { kind := "constant", value := some (.int 4) }, { kind := "operator", operator := "+" },
      { kind := "call" }, { kind := "call" }, { kind := "exit" }]

theorem doubling_optimizes : ∃ code, doubling.compile {} = .ok code ∧
    ∃ optimized stats, Optimization.optimize code {} = .ok (optimized, stats) ∧
      Machine.SameBehaviour Memory.lasting (Machine.ofProgram code {})
        (Machine.ofProgram optimized {}) := by
  obtain ⟨code, compiled, confined, prepared⟩ : ∃ code, doubling.compile {} = .ok code ∧
      code.Confined ∧ code.Prepared :=
    exists_ok_of_any (by decide +kernel)
  have finished : doubling.Finished := ⟨doubling.events.dropLast, { kind := "exit" }, rfl, rfl⟩
  obtain ⟨graph, accepted, optimizes⟩ := compiled_optimizes finished (by decide +kernel) compiled
  exact ⟨code, compiled, optimizes {} {} rfl rfl fun _ =>
    ⟨confined.bodiesApart accepted, prepared.writesFirst accepted⟩⟩

/-- A value that is left out on one of two paths to its use. -/
def leap : Transcript where
  natives := true
  events :=
    [{ kind := "init" }, { kind := "identifier", name := "write" }, { kind := "push_delimiter" },
      { kind := "constant", value := some (.bool false) }, { kind := "conditional_jump" },
      { kind := "constant", value := some (.int 5) }, { kind := "patch_pending" },
      { kind := "call" }, { kind := "exit" }]

/-- The compiled program writes the zero of a cell that it has not written, the optimized one the value
that was left out. -/
theorem leap_changed_by_folding : ∃ code optimized stats, leap.compile {} = .ok code ∧
    Optimization.optimize code {} = .ok (optimized, stats) ∧
    (Machine.ofProgram code {}).HaltsPrinting "0\n" ∧
    (Machine.ofProgram optimized {}).HaltsPrinting "5\n" ∧
    ¬ Machine.SameBehaviour Memory.lasting (Machine.ofProgram code {})
      (Machine.ofProgram optimized {}) := by
  obtain ⟨code, compiled, printed, checked⟩ : ∃ code, leap.compile {} = .ok code ∧
      Machine.haltedOutput? 8 (.ofProgram code {}) = some "0\n" ∧
      ((Optimization.optimize code {}).toOption.any fun made =>
        Machine.haltedOutput? 8 (.ofProgram made.1 {}) = some "5\n") = true :=
    exists_ok_of_any (by decide +kernel)
  obtain ⟨⟨optimized, stats⟩, made, printed'⟩ := exists_ok_of_any checked
  have printed := Machine.haltsPrinting_of_haltedOutput? printed
  have printed' := Machine.haltsPrinting_of_haltedOutput? printed'
  exact ⟨code, optimized, stats, compiled, made, printed, printed',
    printed.not_sameBehaviour printed' (by decide)⟩

end Transcript

end Quadruple
