import Quadruple.Proofs.Sequences
import Quadruple.Proofs.Steps

/-!
The calling convention. The arguments of a call wait in one place for the whole machine, not in the
record of the call. They are still those of the call that is under way: since no jump leads into or out
of the sequence of a call, what waits at a place is what the instructions right before it have passed.
-/

namespace Quadruple

open Generator (CompiledFor)

namespace Machine

variable {code : Code} {machine after left : Machine} {instr : Instruction} {target : Nat} {value : Value}
  {memory : Memory}

/-- An argument waits for a function with the value that its operand still has, for its cell. -/
structure Binds (machine : Machine) (binding : Operand × Operand) (waiting : Passed) : Prop where
  value : machine.read binding.1 = .ok waiting.value
  cell : binding.2 = .address waiting.destination

/-- What waits at a place is what the instructions right before it have passed. -/
structure Keeps (code : Code) (machine : Machine) : Prop where
  program : machine.program = code
  records : machine.openRecords = if code.stage machine.position = .record then 1 else 0
  passed : List.Forall₂ machine.Binds (code.gather Instruction.binding? machine.position)
    machine.passed
  hosts : List.Forall₂ (fun operand value => machine.read operand = .ok value)
    (code.gather Instruction.hostArgument? machine.position) machine.nativeArguments
  returns : ∀ caller ∈ machine.returns, code.stage caller = .clear

/-- At most one record is open, and nothing waits without one. -/
structure Tidy (machine : Machine) : Prop where
  records : machine.openRecords ≤ 1
  passed : machine.openRecords = 0 → machine.passed = []

section

variable (keeps : Keeps code machine)
include keeps

theorem Keeps.passed_eq_nil (stage : code.stage machine.position ≠ .record) :
    machine.openRecords = 0 ∧ machine.passed = [] := by
  have passed := keeps.passed
  rw [Code.gather_binding? stage, List.forall₂_nil_left_iff] at passed
  exact ⟨keeps.records.trans (if_neg stage), passed⟩

theorem Keeps.hosts_eq_nil
    (stage : code.stage machine.position ≠ .host) : machine.nativeArguments = [] := by
  have hosts := keeps.hosts
  rwa [Code.gather_hostArgument? stage, List.forall₂_nil_left_iff] at hosts

theorem Keeps.tidy : machine.Tidy := by
  have records := keeps.records
  by_cases stage : code.stage machine.position = .record
  · rw [if_pos stage] at records
    exact ⟨by omega, fun none => by omega⟩
  · exact ⟨by rw [records, if_neg stage]; omega, fun _ => (keeps.passed_eq_nil stage).2⟩

end

theorem keeps_of_clear (program : machine.program = code)
    (stage : code.stage machine.position = .clear) (records : machine.openRecords = 0)
    (passed : machine.passed = []) (hosts : machine.nativeArguments = [])
    (returns : ∀ caller ∈ machine.returns, code.stage caller = .clear) : Keeps code machine where
  program := program
  records := by rw [records, stage]; rfl
  passed := by
    rw [passed, Code.gather_binding? (by rw [stage]; simp)]
    exact .nil
  hosts := by
    rw [hosts, Code.gather_hostArgument? (by rw [stage]; simp)]
    exact .nil
  returns := returns

theorem read_of_memory {other : Machine} (same : other.memory = machine.memory) (operand : Operand) :
    other.read operand = machine.read operand := by
  cases operand with
  | address cell =>
    unfold read
    rw [same]
  | _ => rfl

theorem result_of_targetOf (found : machine.targetOf instr = .ok target) :
    ∃ index : Int, instr.result = .target index ∧ target = index.toNat := by
  unfold targetOf at found
  split at found
  · cases found
  · rename_i index named
    unfold Instruction.target? at named
    split at named
    · rename_i index' result
      split at named
      · cases named
        split at found
        · cases found
        · cases found
          exact ⟨index, result, rfl⟩
      · cases named
    · cases named

theorem stage_of_target (orderly : code.Orderly) {place : Nat} (here : code[place]? = some instr)
    (found : machine.targetOf instr = .ok target) : code.stage target = .clear := by
  obtain ⟨index, result, rfl⟩ := result_of_targetOf found
  obtain ⟨inside, rfl, _, clear⟩ := orderly.aims place instr index here result
  exact clear

theorem apart_of_opcode (other : instr.opcode ∉ [Opcode.openRecord, .param, .call, .nativeParam, .nativeCall]) :
    instr.Apart := by
  simp only [List.mem_cons, List.not_mem_nil, or_false, not_or] at other
  exact ⟨other.1, other.2.1, other.2.2.1, other.2.2.2.1, other.2.2.2.2⟩

theorem Writes.apart {cell : Address} (writes : machine.Writes instr cell value) : instr.Apart := by
  refine apart_of_opcode ?_
  cases writes with
  | literal opcode | copy opcode | fetch opcode | place opcode =>
    rw [opcode]
    decide
  | operate operates =>
    intro listed
    simp only [List.mem_cons, List.not_mem_nil, or_false] at listed
    rcases listed with same | same | same | same | same <;> rw [same] at operates <;> cases operates

theorem Keeps.elsewhere (keeps : Keeps code machine) (orderly : code.Orderly)
    (here : code[machine.position]? = some instr) (apart : instr.Apart)
    (program : after.program = machine.program) (records : after.openRecords = machine.openRecords)
    (passed : after.passed = machine.passed)
    (hosts : after.nativeArguments = machine.nativeArguments)
    (returns : ∀ caller ∈ after.returns, caller ∈ machine.returns)
    (stage : code.stage after.position = .clear) : Keeps code after := by
  have clear := apart.accepts.1 (orderly.accepts _ _ here)
  obtain ⟨none, empty⟩ := keeps.passed_eq_nil (by rw [clear]; simp)
  refine keeps_of_clear (program.trans keeps.program) stage (records.trans none)
    (passed.trans empty) (hosts.trans (keeps.hosts_eq_nil (by rw [clear]; simp)))
    fun caller listed => keeps.returns caller (returns caller listed)

/-! ### The instructions of calls -/

section

variable (keeps : Keeps code machine) (orderly : code.Orderly)
  (here : code[machine.position]? = some instr) (opcode : Opcode)

include keeps orderly here

theorem Keeps.opens (opens : instr.opcode = .openRecord) :
    Keeps code (advance ⟨machine.openRecord, machine.position + 1⟩ opcode) := by
  have accepted := orderly.accepts _ _ here
  rw [Instruction.Accepts, opens] at accepted
  have behind : code.stage (machine.position + 1) = .record := by
    rw [Code.stage_succ here, Instruction.stage, opens]
  obtain ⟨none, empty⟩ := keeps.passed_eq_nil (by rw [accepted]; simp)
  refine ⟨keeps.program, ?_, ?_, ?_, keeps.returns⟩
  · show machine.openRecords + 1 = if code.stage (machine.position + 1) = .record then 1 else 0
    rw [none, behind, if_pos rfl]
  · show List.Forall₂ _ (code.gather Instruction.binding? (machine.position + 1)) machine.passed
    rw [Code.gather_none here (by rw [Instruction.binding?, opens]; rfl), empty]
    exact .nil
  · show List.Forall₂ _ (code.gather Instruction.hostArgument? (machine.position + 1))
      machine.nativeArguments
    rw [Code.gather_none here (by rw [Instruction.hostArgument?, opens]; rfl),
      keeps.hosts_eq_nil (by rw [accepted]; simp)]
    exact .nil

theorem Keeps.pass (passes : instr.opcode = .param) {destination : Address}
    (source : machine.read instr.left = .ok value) (result : instr.result = .address destination) :
    Keeps code (advance ⟨{ machine with passed := machine.passed ++ [⟨value, destination⟩] },
      machine.position + 1⟩ opcode) := by
  have accepted := orderly.accepts _ _ here
  rw [Instruction.Accepts, passes] at accepted
  have behind : code.stage (machine.position + 1) = .record := by
    rw [Code.stage_succ here, Instruction.stage, passes]
  have records := keeps.records
  rw [if_pos accepted] at records
  refine ⟨keeps.program, ?_, ?_, ?_, keeps.returns⟩
  · show machine.openRecords = if code.stage (machine.position + 1) = .record then 1 else 0
    rw [records, behind, if_pos rfl]
  · show List.Forall₂ _ (code.gather Instruction.binding? (machine.position + 1))
      (machine.passed ++ [⟨value, destination⟩])
    rw [Code.gather_some here (by rw [Instruction.binding?, if_pos passes])]
    refine List.rel_append (keeps.passed.imp fun _ _ binds => ?_) (.cons ?_ .nil)
    · exact ⟨(read_of_memory rfl _).trans binds.value, binds.cell⟩
    · exact ⟨(read_of_memory rfl _).trans source, result⟩
  · show List.Forall₂ _ (code.gather Instruction.hostArgument? (machine.position + 1))
      machine.nativeArguments
    rw [Code.gather_none here (by rw [Instruction.hostArgument?, passes]; rfl),
      keeps.hosts_eq_nil (by rw [accepted]; simp)]
    exact .nil

theorem Keeps.enter (calls : instr.opcode = .call) {profile : Option Profile}
    (found : machine.targetOf instr = .ok target) :
    Keeps code (advance ⟨{ machine with
      memory
      passed := []
      openRecords := machine.openRecords - 1
      returns := (machine.position + 1) :: machine.returns
      profile }, target⟩ opcode) := by
  have accepted := orderly.accepts _ _ here
  rw [Instruction.Accepts, calls] at accepted
  have records := keeps.records
  rw [if_pos accepted] at records
  have hosts := keeps.hosts_eq_nil (by rw [accepted]; simp)
  refine keeps_of_clear keeps.program (stage_of_target orderly here found) ?_ rfl hosts
    fun caller listed => ?_
  · show machine.openRecords - 1 = 0
    omega
  · rcases List.mem_cons.1 listed with rfl | listed
    · rw [Code.stage_succ here, Instruction.stage, calls]
    · exact keeps.returns caller listed

theorem Keeps.passHost (passes : instr.opcode = .nativeParam) (source : machine.read instr.left = .ok value) :
    Keeps code (advance ⟨{ machine with nativeArguments := machine.nativeArguments ++ [value] },
      machine.position + 1⟩ opcode) := by
  have accepted := orderly.accepts _ _ here
  rw [Instruction.Accepts, passes] at accepted
  have behind : code.stage (machine.position + 1) = .host := by
    rw [Code.stage_succ here, Instruction.stage, passes]
  obtain ⟨none, empty⟩ := keeps.passed_eq_nil accepted
  refine ⟨keeps.program, ?_, ?_, ?_, keeps.returns⟩
  · show machine.openRecords = if code.stage (machine.position + 1) = .record then 1 else 0
    rw [none, behind]
    rfl
  · show List.Forall₂ _ (code.gather Instruction.binding? (machine.position + 1)) machine.passed
    rw [Code.gather_none here (by rw [Instruction.binding?, passes]; rfl), empty]
    exact .nil
  · show List.Forall₂ _ (code.gather Instruction.hostArgument? (machine.position + 1))
      (machine.nativeArguments ++ [value])
    rw [Code.gather_some here (by rw [Instruction.hostArgument?, if_pos passes])]
    refine List.rel_append (keeps.hosts.imp fun _ _ given => ?_) (.cons ?_ .nil)
    · exact (read_of_memory rfl _).trans given
    · exact (read_of_memory rfl _).trans source

theorem Keeps.callHost (calls : instr.opcode = .nativeCall) {console : Console} :
    Keeps code (advance ⟨{ machine with nativeArguments := [], console, memory },
      machine.position + 1⟩ opcode) := by
  have accepted := orderly.accepts _ _ here
  rw [Instruction.Accepts, calls] at accepted
  obtain ⟨none, empty⟩ := keeps.passed_eq_nil accepted
  refine keeps_of_clear keeps.program ?_ none empty rfl keeps.returns
  show code.stage (machine.position + 1) = .clear
  rw [Code.stage_succ here, Instruction.stage, calls]

end

/-! ### Steps and runs -/

section

variable (keeps : Keeps code machine)
include keeps

theorem Keeps.does (orderly : code.Orderly)
    (here : code[machine.position]? = some instr) {position : Nat}
    (does : machine.Does instr after position) (opcode : Opcode) :
    Keeps code (advance ⟨after, position⟩ opcode) := by
  have accepted := orderly.accepts _ _ here
  have behind := Code.stage_succ here
  have followed : instr.Apart → ∀ memory : Memory,
      Keeps code (advance ⟨{ machine with memory }, machine.position + 1⟩ opcode) :=
    fun apart _ => keeps.elsewhere orderly here apart rfl rfl rfl rfl (fun _ listed => listed)
      (behind.trans apart.stage)
  cases does with
  | idle idles =>
    refine followed (apart_of_opcode ?_) machine.memory
    rcases idles with idles | idles <;> rw [idles] <;> decide
  | fall branches =>
    refine followed (apart_of_opcode ?_) machine.memory
    rcases branches with branches | branches <;> rw [branches] <;> decide
  | write writes => exact followed writes.apart _
  | make makes =>
    refine followed (apart_of_opcode ?_) _
    rw [makes]
    decide
  | halt exits =>
    have apart : instr.Apart := apart_of_opcode (by rw [exits]; decide)
    exact keeps.elsewhere orderly here apart rfl rfl rfl rfl (fun _ listed => listed)
      (apart.accepts.1 accepted)
  | jump jumps found =>
    refine keeps.elsewhere orderly here (apart_of_opcode fun listed => ?_) rfl rfl rfl rfl
      (fun _ listed => listed) (stage_of_target orderly here found)
    simp only [List.mem_cons, List.not_mem_nil, or_false] at listed
    rcases listed with same | same | same | same | same <;> rw [same] at jumps <;> cases jumps
  | leave leaves callers =>
    refine keeps.elsewhere orderly here (apart_of_opcode (by rw [leaves]; decide)) rfl rfl rfl rfl
      (fun caller listed => ?_) (keeps.returns _ ?_)
    · rw [callers]
      exact List.mem_cons_of_mem _ listed
    · rw [callers]
      exact List.mem_cons_self
  | openRecord opens => exact keeps.opens orderly here opcode opens
  | pass passes source result => exact keeps.pass orderly here opcode passes source result
  | enter calls _ _ found => exact keeps.enter orderly here opcode calls found
  | passHost passes source => exact keeps.passHost orderly here opcode passes source
  | callHost calls | askHost calls => exact keeps.callHost orderly here opcode calls

theorem Keeps.leaves (leaves : machine.Leaves instr left) : left.Tidy := by
  have tidy := keeps.tidy
  cases leaves with
  | same | made | bound | called => exact ⟨tidy.records, tidy.passed⟩
  | entered =>
    refine ⟨?_, fun _ => rfl⟩
    have records := tidy.records
    show machine.openRecords - 1 ≤ 1
    omega

theorem Keeps.step (orderly : code.Orderly)
    (stepped : machine.step = (.ok (), after)) : Keeps code after := by
  rcases step_eq_ok stepped with
    ⟨rfl, _⟩ | ⟨_, rfl⟩ | ⟨instr, result, position, found, does, rfl⟩
  · exact keeps
  · refine ⟨keeps.program, keeps.records, keeps.passed.imp fun _ _ binds => ?_,
      keeps.hosts.imp fun _ _ given => ?_, keeps.returns⟩
    · exact ⟨(read_of_memory rfl _).trans binds.value, binds.cell⟩
    · exact (read_of_memory rfl _).trans given
  · rw [keeps.program] at found
    exact keeps.does orderly found does _

/-- While a program runs, what waits is what has been passed; where it fails, things are still tidy. -/
theorem Keeps.run (orderly : code.Orderly) {count : Nat}
    {outcome : Outcome} (ran : Machine.run count machine = (outcome, after)) :
    after.Tidy ∧ (outcome = .unfinished → Keeps code after) := by
  induction count generalizing machine with
  | zero =>
    cases ran
    exact ⟨keeps.tidy, fun _ => keeps⟩
  | succ count ih =>
    unfold Machine.run at ran
    split at ran
    · cases ran
      exact ⟨keeps.tidy, fun same => by cases same⟩
    · split at ran
      · rename_i stepped
        exact ih (keeps.step orderly stepped) ran
      · rename_i stepped
        cases ran
        obtain ⟨instr, _, leaves⟩ := step_eq_error stepped
        exact ⟨keeps.leaves leaves, fun same => by cases same⟩

end

theorem keeps_ofProgram (code : Code) (options : Options) :
    Keeps code (ofProgram code options) :=
  keeps_of_clear rfl rfl rfl rfl rfl nofun

/-- The call at which a machine stands was compiled for a function, and what waits for it is one value
for each argument that was declared then, in their order, the object of a method first. Each value is
that of the operand that was passed. -/
structure ReadyToCall (machine : Machine) (instr : Instruction) (function : Scope.Function) :
    Prop where
  receiver : function.isMethod = true → ∃ this others, function.arguments = this :: others ∧
    this.name = Scope.receiverName
  ours : instr.opcode = .call → function.native = false ∧ machine.openRecords = 1 ∧
    machine.passed.map Passed.destination = function.arguments.map Scope.Variable.address ∧
    List.Forall₂ machine.Binds (machine.program.gather Instruction.binding? machine.position)
      machine.passed
  host : instr.opcode = .nativeCall → function.native = true ∧
    machine.nativeArguments.length = function.arguments.length ∧
    List.Forall₂ (fun operand value => machine.read operand = .ok value)
      (machine.program.gather Instruction.hostArgument? machine.position) machine.nativeArguments

theorem cells_of_binds {bindings : List (Operand × Operand)} {waiting : List Passed}
    (binds : List.Forall₂ machine.Binds bindings waiting) :
    (waiting.map Passed.destination).map Operand.address = bindings.map Prod.snd := by
  induction binds with
  | nil => rfl
  | cons here _ ih =>
    rw [List.map_cons, List.map_cons, List.map_cons, ih, here.cell]

theorem Keeps.readyToCall (keeps : Keeps code machine) (orderly : code.Orderly)
    (here : code[machine.position]? = some instr) {function : Scope.Function}
    (receiver : function.isMethod = true → ∃ this others, function.arguments = this :: others ∧
      this.name = Scope.receiverName)
    (calls : code.Calls machine.position instr function) :
    machine.ReadyToCall instr function := by
  refine ⟨receiver, fun opcode => ?_, fun opcode => ?_⟩
  · have accepted := orderly.accepts _ _ here
    rw [Instruction.Accepts, opcode] at accepted
    have records := keeps.records
    rw [if_pos accepted] at records
    obtain ⟨ours, complete⟩ := calls.ours opcode
    rw [keeps.program]
    refine ⟨ours, records, ?_, keeps.passed⟩
    have cells : (machine.passed.map Passed.destination).map Operand.address =
        (function.arguments.map Scope.Variable.address).map Operand.address := by
      rw [cells_of_binds keeps.passed, complete, List.map_map]
      rfl
    exact List.map_injective_iff.2 (fun _ _ same => Operand.address.inj same) cells
  · obtain ⟨native, complete⟩ := calls.host opcode
    rw [keeps.program]
    exact ⟨native, keeps.hosts.length_eq.symm.trans complete, keeps.hosts⟩

end Machine

/-- The calling convention: as long as a compiled program runs, at most one record is open, and no
argument waits without one; and every call that is executed finds the arguments that it was compiled
with, complete and in order. -/
theorem Transcript.compiled_keeps_convention {transcript : Transcript} {capacities : Capacities}
    {code : Code} (compiled : transcript.compile capacities = .ok code) :
    ∃ commands, transcript.Asks commands ∧
      ∀ (options : Machine.Options) (count : Nat) (outcome : Machine.Outcome) (machine : Machine),
        Machine.run count (.ofProgram code options) = (outcome, machine) →
        machine.openRecords ≤ 1 ∧ (machine.openRecords = 0 → machine.passed = []) ∧
        ∀ instruction, outcome = .unfinished → code[machine.position]? = some instruction →
          instruction.opcode = .call ∨ instruction.opcode = .nativeCall →
          ∃ function, CompiledFor capacities commands machine.position function ∧
            machine.ReadyToCall instruction function := by
  obtain ⟨commands, generator, asks, performs, rfl⟩ := Transcript.compile_performs compiled
  have inOrder : generator.InOrder capacities commands :=
    performs.inOrder (Generator.admits_lax capacities commands)
  refine ⟨commands, asks, fun options count outcome machine ran => ?_⟩
  obtain ⟨tidy, keeps⟩ := (Machine.keeps_ofProgram _ options).run inOrder.orderly ran
  refine ⟨tidy.records, tidy.passed, fun instruction unfinished here opcode => ?_⟩
  obtain ⟨function, compiledFor, receiver, calls⟩ := inOrder.calls _ instruction here opcode
  exact ⟨function, compiledFor, (keeps unfinished).readyToCall inOrder.orderly here receiver calls⟩

/-- A counter with a method that adds to it, called once, and a line for the host to write. -/
def Transcript.counting : Transcript where
  natives := true
  events :=
    [{ kind := "declare_class", name := "Counter" },
      { kind := "declare_variable", name := "total", type := "int" },
      { kind := "declare_function", name := "add" },
      { kind := "declare_argument", name := "amount", type := "int" },
      { kind := "identifier", name := "total" }, { kind := "variable" },
      { kind := "identifier", name := "amount" }, { kind := "variable" },
      { kind := "assign", operator := "+=" }, { kind := "close_function" },
      { kind := "close_class" },
      { kind := "declare_variable", name := "counter", className := "Counter" },
      { kind := "init" }, { kind := "identifier", name := "counter" }, { kind := "variable" },
      { kind := "identifier", name := "Counter" }, { kind := "new" }, { kind := "assign" },
      { kind := "member", name := "counter" }, { kind := "identifier", name := "add" },
      { kind := "constant", value := some (.int 3) }, { kind := "call" },
      { kind := "identifier", name := "write" },
      { kind := "constant", value := some (.string "done") }, { kind := "call" },
      { kind := "exit" }]

theorem Transcript.counting_keeps_convention : ∃ code, counting.compile {} = .ok code ∧
    ∃ commands, counting.Asks commands ∧
      ∀ count machine, Machine.run count (.ofProgram code {}) = (.unfinished, machine) →
        ∀ instruction, code[machine.position]? = some instruction → instruction.opcode = .call →
          ∃ function, CompiledFor {} commands machine.position function ∧
            machine.ReadyToCall instruction function := by
  obtain ⟨code, compiled⟩ := exists_ok (counting.compile {}) (by decide +kernel)
  obtain ⟨commands, asks, keeps⟩ := Transcript.compiled_keeps_convention compiled
  refine ⟨code, compiled, commands, asks, fun count machine ran instruction here opcode => ?_⟩
  obtain ⟨_, _, calls⟩ := keeps {} count .unfinished machine ran
  exact calls instruction rfl here (.inl opcode)

end Quadruple
