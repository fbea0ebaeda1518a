import Quadruple.Optimization
import Quadruple.Proofs.Confinement
import Quadruple.Proofs.Folding
import Quadruple.Proofs.Layout

/-!
Optimized programs do what the programs they come from do. The passes that move control, which take
jumps out and lay the instructions out anew, leave everything that is seen of a run as it was.
Constant folding leaves a disciplined program everything but its intermediate results.
-/

namespace Quadruple.Optimization

open FlowGraph (StartsAt)

variable {code : Code} {graph : FlowGraph} {options : Options}

theorem iterate_induction {motive : FlowGraph → Prop}
    (thread : ∀ graph, motive graph → motive graph.threadJumps.1)
    (fold : options.constantFolding = true → ∀ graph, motive graph → motive graph.foldConstants.1)
    (rounds : Nat) (stats : Stats) (holds : motive graph) :
    motive (iterate options rounds graph stats).1 := by
  induction rounds generalizing graph stats with
  | zero => exact holds
  | succ rounds ih =>
    have threaded : motive (passIf options.jumpThreading FlowGraph.threadJumps graph).1 := by
      unfold passIf
      split
      · exact thread graph holds
      · exact holds
    have folded : motive (passIf options.constantFolding FlowGraph.foldConstants
        (passIf options.jumpThreading FlowGraph.threadJumps graph).1).1 := by
      unfold passIf
      split
      · rename_i wanted
        exact fold wanted _ threaded
      · exact threaded
    simp only [iterate]
    split
    · exact folded
    · exact ih _ folded

section

variable (accepted : FlowGraph.ofCode code = .ok graph)
include accepted

theorem optimize_eq (options : Options) : optimize code options =
      let made := iterate options options.rounds graph
        { before := code.size, unreachable := code.size - graph.liveCount }
      .ok (made.1.toCode, { made.2 with after := made.1.toCode.size }) := by
  unfold optimize reduce
  rw [accepted]
  rfl

theorem optimize_of_ofCode (options : Options) : ∃ stats stats', optimize code options =
      .ok ((iterate options options.rounds graph stats).1.toCode, stats') :=
  ⟨_, _, optimize_eq accepted options⟩

theorem agree_graph
    (starts : StartsAt code graph.root) {run : Machine.Options} (unlimited : run.limit = 0)
    (closed : (Machine.ofProgram code run).EndsClosed) :
    System.Agree (fun final => final) Machine.system graph.chart.walk (Machine.ofProgram code run)
      ⟨(Machine.ofProgram code run).workspace, graph.root, []⟩ :=
  (Machine.agree_close (FlowGraph.targetsInside_ofCode accepted) unlimited closed).trans
    ((Chart.reroutes_simulation (FlowGraph.meets_ofCode accepted starts)).agree
      ⟨rfl, .inr ⟨rfl, rfl⟩, .nil⟩)

end

theorem agree_program (coherent : graph.Coherent) (code : Code) {run : Machine.Options}
    (unlimited : run.limit = 0) :
    System.Agree (fun final => final) graph.chart.walk Machine.system
      ⟨(Machine.ofProgram code run).workspace, graph.root, []⟩
      (Machine.ofProgram graph.toCode run) := by
  have inside := FlowGraph.targetsInside_toCode coherent
  exact (FlowGraph.agree_toCode coherent _).trans
    ((Machine.walks_simulation inside).symm.agree (Machine.walks_ofProgram _ run unlimited))

/-- Without constant folding, the optimized program prints the same, ends in the same way or not at
all, and leaves the same memory. -/
theorem optimize_keeps_behaviour (accepted : FlowGraph.ofCode code = .ok graph)
    (starts : StartsAt code graph.root) (noFolding : options.constantFolding = false)
    (run : Machine.Options) (unlimited : run.limit = 0)
    (closed : (Machine.ofProgram code run).EndsClosed) :
    ∃ optimized stats, optimize code options = .ok (optimized, stats) ∧
      Machine.SameBehaviour (fun memory => memory) (Machine.ofProgram code run)
        (Machine.ofProgram optimized run) := by
  obtain ⟨stats, stats', made⟩ := optimize_of_ofCode accepted options
  obtain ⟨coherent, same⟩ := iterate_induction
    (motive := fun after => after.Coherent ∧ graph.SameWalks after)
    (fun after holds => ⟨holds.1.threadJumps.1, fun workspace =>
      (holds.2 workspace).trans (holds.1.threadJumps.2 workspace)⟩)
    (fun wanted => absurd wanted (by rw [noFolding]; exact Bool.false_ne_true))
    options.rounds stats ⟨FlowGraph.coherent_ofCode accepted, fun _ => .refl _ _ _⟩
  refine ⟨_, stats', made, Machine.sameBehaviour_of_agree ?_⟩
  exact ((agree_graph accepted starts unlimited closed).trans
    ((same _).trans (agree_program coherent code unlimited))).coarsen (Machine.seen fun memory => memory)

/-- A program that starts with a jump and has a jump to a jump. -/
def detour : Code :=
  #[{ opcode := .goto, result := .target 1 },
    { opcode := .init },
    { opcode := .gotoFalse, left := .literal (.bool false), result := .target 4 },
    { opcode := .exit },
    { opcode := .goto, result := .target 3 }]

theorem detour_accepted : ∃ graph, FlowGraph.ofCode detour = .ok graph ∧ graph.root = 1 :=
  exists_ok_of_any (by decide +kernel)

theorem detour_endsClosed : (Machine.ofProgram detour {}).EndsClosed := by
  intro count beyond
  match count with
  | 0 | 1 | 2 | 3 | 4 | 5 => exact absurd beyond (by decide)
  | count + 6 =>
    have halted : (Machine.run (count + 6) (Machine.ofProgram detour {})).2.position = 3 := by
      cases count <;> rfl
    rw [halted] at beyond
    exact absurd beyond (by decide)

theorem detour_keeps_behaviour :
    ∃ optimized stats, optimize detour { constantFolding := false } = .ok (optimized, stats) ∧
      Machine.SameBehaviour (fun memory => memory) (Machine.ofProgram detour {})
        (Machine.ofProgram optimized {}) := by
  obtain ⟨graph, accepted, root⟩ := detour_accepted
  exact optimize_keeps_behaviour accepted (.inr ⟨_, rfl, rfl, by rw [root]; rfl⟩) rfl {} rfl
    detour_endsClosed

/-! ### With constant folding -/

/-- What passes have made of a flow graph: walks through it do the same apart from intermediate
results, and it is as sound as the next pass needs it. -/
structure Yields (graph : FlowGraph) (memory : Memory) (folding : Bool) (workspace : Workspace)
    (after : FlowGraph) : Prop where
  coherent : after.Coherent
  sound : folding = true → after.Sound memory
  alike : System.Agree (Machine.seen Memory.lasting) graph.chart.walk after.chart.walk
    ⟨workspace, graph.root, []⟩ ⟨workspace, after.root, []⟩

section

variable {after : FlowGraph} {memory : Memory} {folding : Bool} {workspace : Workspace}
  (yields : Yields graph memory folding workspace after)
include yields

theorem Yields.threadJumps : Yields graph memory folding workspace after.threadJumps.1 where
  coherent := yields.coherent.threadJumps.1
  sound := fun folds => (yields.sound folds).threadJumps
  alike := yields.alike.trans
    ((yields.coherent.threadJumps.2 workspace).coarsen (Machine.seen Memory.lasting))

theorem Yields.foldConstants (folds : folding = true) (fresh : FlowGraph.Fresh memory workspace) :
    Yields graph memory folding workspace after.foldConstants.1 := by
  obtain ⟨sound, alike⟩ := (yields.sound folds).foldConstants
  exact ⟨sound.coherent, fun _ => sound, yields.alike.trans (alike workspace fresh)⟩

end

/-- The optimizer keeps what lasts of a program, if its flow graph is sound in case constants are
folded. -/
theorem optimize_keeps_lasting {memory : Memory} (accepted : FlowGraph.ofCode code = .ok graph)
    (starts : StartsAt code graph.root) {run : Machine.Options} (unlimited : run.limit = 0)
    (closed : (Machine.ofProgram code run).EndsClosed)
    (fresh : FlowGraph.Fresh memory (Machine.ofProgram code run).workspace)
    (sound : options.constantFolding = true → graph.Sound memory) :
    ∃ optimized stats, optimize code options = .ok (optimized, stats) ∧
      Machine.SameBehaviour Memory.lasting (Machine.ofProgram code run)
        (Machine.ofProgram optimized run) := by
  obtain ⟨stats, stats', made⟩ := optimize_of_ofCode accepted options
  have yields := iterate_induction
    (motive := Yields graph memory options.constantFolding (Machine.ofProgram code run).workspace)
    (fun _ yields => yields.threadJumps) (fun folds _ yields => yields.foldConstants folds fresh)
    options.rounds stats ⟨FlowGraph.coherent_ofCode accepted, sound, .refl _ _ _⟩
  have before := (agree_graph accepted starts unlimited closed).coarsen
    (Machine.seen Memory.lasting)
  have after := (agree_program yields.coherent code unlimited).coarsen (Machine.seen Memory.lasting)
  exact ⟨_, stats', made, Machine.sameBehaviour_of_agree (before.trans (yields.alike.trans after))⟩

theorem sound_ofCode (accepted : FlowGraph.ofCode code = .ok graph) {memory : Memory}
    (disciplined : graph.Disciplined memory) : graph.Sound memory :=
  ⟨FlowGraph.coherent_ofCode accepted, (FlowGraph.ascending_ofCode accepted).rising, disciplined⟩

theorem fresh_ofProgram (code : Code) (run : Machine.Options) :
    FlowGraph.Fresh (.ofCapacities run.capacities) (Machine.ofProgram code run).workspace :=
  ⟨rfl, rfl, rfl⟩

/-- The optimized form of a disciplined program prints the same, ends in the same way or not at all,
and leaves the same memory apart from intermediate results. -/
theorem optimize_disciplined_keeps_behaviour (accepted : FlowGraph.ofCode code = .ok graph)
    (starts : StartsAt code graph.root) (options : Options) (run : Machine.Options)
    (unlimited : run.limit = 0) (disciplined : graph.Disciplined (.ofCapacities run.capacities))
    (closed : (Machine.ofProgram code run).EndsClosed) :
    ∃ optimized stats, optimize code options = .ok (optimized, stats) ∧
      Machine.SameBehaviour Memory.lasting (Machine.ofProgram code run)
        (Machine.ofProgram optimized run) :=
  optimize_keeps_lasting accepted starts unlimited closed (fresh_ofProgram code run) fun _ =>
    sound_ofCode accepted disciplined

/-- The cell of an intermediate result that two bodies use for different things. -/
def scratch : Address := ⟨.temps, .int, false, 0⟩

/-- A program that keeps a constant across a call of a function that uses the same cell. -/
def reuse : Code :=
  #[{ opcode := .goto, result := .target 3 },
    { opcode := .load, left := .literal (.int 7), result := .address scratch },
    { opcode := .ret },
    { opcode := .init },
    { opcode := .load, left := .literal (.int 2), result := .address scratch },
    { opcode := .openRecord },
    { opcode := .call, result := .target 1 },
    { opcode := .store, left := .address scratch, result := .address .origin },
    { opcode := .exit }]

theorem reuse_accepted : ∃ graph, FlowGraph.ofCode reuse = .ok graph ∧ graph.root = 3 :=
  exists_ok_of_any (by decide +kernel)

theorem reuse_regular (instr : Instruction) (listed : instr ∈ reuse) :
    instr.Regular (.ofCapacities {}) := by
  have has : ∀ address ∈ [scratch, .origin], (Memory.ofCapacities {}).Has address := by
    intro address among
    rcases List.mem_pair.1 among with rfl | rfl <;> exact ⟨_, rfl, by decide⟩
  simp only [reuse, List.mem_toArray, List.mem_cons, List.not_mem_nil, or_false] at listed
  rcases listed with rfl | rfl | rfl | rfl | rfl | rfl | rfl | rfl | rfl
  all_goals
    refine ⟨fun address among => has address ?_, fun value among => ?_, ?_, ?_, ?_⟩
    · simp [Instruction.operands] at among ⊢ <;> tauto
    · simp [Instruction.operands] at among <;> simp [among, Value.type]
    · simp [Opcode.arity]
    · simp
    · simp [Instruction.BaseAside]

theorem reuse_disciplined (accepted : FlowGraph.ofCode reuse = .ok graph) :
    graph.Disciplined (.ofCapacities {}) := by
  have confined : reuse.Confined := by decide +kernel
  have prepared : reuse.Prepared := by decide +kernel
  refine ⟨confined.bodiesApart accepted, prepared.writesFirst accepted, ?_, ?_⟩
  · intro place node found _ opens
    obtain ⟨instr, here, represents⟩ := FlowGraph.represents_ofCode accepted found
    rw [represents.same] at opens
    match place with
    | 5 =>
      obtain ⟨call, found', represents'⟩ := FlowGraph.node_ofCode accepted
        (show reuse[6]? = some { opcode := .call, result := .target 1 } from rfl)
      exact ⟨6, by rw [represents.next, opens]; rfl, .call found' (by rw [represents'.same])⟩
    | 0 | 1 | 2 | 3 | 4 | 6 | 7 | 8 =>
      cases here
      cases opens
    | place + 9 => cases here
  · intro place node found _
    obtain ⟨instr, here, represents⟩ := FlowGraph.represents_ofCode accepted found
    rw [represents.same]
    exact reuse_regular instr (Array.mem_of_getElem? here)

theorem reuse_endsClosed : (Machine.ofProgram reuse {}).EndsClosed := by
  intro count beyond
  match count with
  | 0 | 1 | 2 | 3 | 4 | 5 | 6 | 7 | 8 => exact absurd beyond (by decide)
  | count + 9 =>
    have halted : (Machine.run (count + 9) (Machine.ofProgram reuse {})).2.position = 8 := by
      cases count <;> rfl
    rw [halted] at beyond
    exact absurd beyond (by decide)

theorem reuse_keeps_behaviour :
    ∃ optimized stats, optimize reuse {} = .ok (optimized, stats) ∧
      Machine.SameBehaviour Memory.lasting (Machine.ofProgram reuse {})
        (Machine.ofProgram optimized {}) := by
  obtain ⟨graph, accepted, root⟩ := reuse_accepted
  exact optimize_disciplined_keeps_behaviour accepted (.inr ⟨_, rfl, rfl, by rw [root]; rfl⟩)
    {} {} rfl (reuse_disciplined accepted) reuse_endsClosed

end Quadruple.Optimization
