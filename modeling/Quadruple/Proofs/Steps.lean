import Quadruple.Proofs.Instructions
import Quadruple.Proofs.Walk

/-!
What a step can do, said once. A step that succeeds executes the instruction at the position, or halts
behind the last one; a step that fails leaves the machine as it is, but for what three of the
instructions change before they fail.
-/

namespace Quadruple.Machine

variable {machine after left : Machine} {instr : Instruction} {cell : Address} {value : Value} {next : Next}
  {fault : Fault}

/-- An instruction that computes a value, and the cell that it writes it to. -/
inductive Writes (machine : Machine) (instr : Instruction) : Address → Value → Prop where
  | literal {value : Value} {cell : Address} (loads : instr.opcode = .load)
      (source : instr.left = .literal value) (result : instr.result = .address cell) :
      Writes machine instr cell value
  | copy {value : Value} {cell : Address} (copies : instr.opcode = .store)
      (source : machine.read instr.left = .ok value)
      (result : instr.result = .address cell) : Writes machine instr cell value
  | fetch {value : Value} {place cell : Address} (loads : instr.opcode = .loadElement)
      (found : machine.element instr.left instr.right cell.type = .ok place)
      (source : machine.memory.load place = .ok value)
      (result : instr.result = .address cell) : Writes machine instr cell value
  | place {value : Value} {place : Address} (stores : instr.opcode = .storeElement)
      (source : machine.read instr.result = .ok value)
      (found : machine.element instr.left instr.right instr.result.type =
        .ok place) : Writes machine instr place value
  | operate {first second value : Value} {cell : Address}
      (operates : instr.opcode.isPure = true)
      (readLeft : machine.readIfAny instr.left = .ok first)
      (readRight : machine.readIfAny instr.right = .ok second)
      (evaluated : instr.opcode.eval first second = .ok value)
      (result : instr.result = .address cell) : Writes machine instr cell value

/-- The machine that a successful instruction leaves, and the position at which it goes on. -/
inductive Does (machine : Machine) (instr : Instruction) : Machine → Nat → Prop where
  | idle (idles : instr.opcode = .nop ∨ instr.opcode = .init) :
      Does machine instr machine (machine.position + 1)
  | halt (exits : instr.opcode = .exit) :
      Does machine instr { machine with halted := true } machine.position
  | jump {target : Nat} (jumps : instr.opcode.isJump = true)
      (found : machine.targetOf instr = .ok target) :
      Does machine instr machine target
  | fall (branches : instr.opcode = .gotoTrue ∨ instr.opcode = .gotoFalse) :
      Does machine instr machine (machine.position + 1)
  | write {cell : Address} {value : Value} {memory : Memory}
      (writes : machine.Writes instr cell value)
      (stored : machine.memory.store cell.plain (value.coerce cell.type) = .ok memory) :
      Does machine instr { machine with memory } (machine.position + 1)
  | make {size : Value} {pointer cell : Address} {allocated memory : Memory}
      (makes : instr.opcode = .malloc) (source : machine.read instr.left = .ok size)
      (found : machine.memory.allocate .stack .object size.toInt.toInt false =
        .ok (pointer, allocated))
      (result : instr.result = .address cell)
      (stored : allocated.store cell.plain ((Value.object pointer).coerce cell.type) =
        .ok memory) :
      Does machine instr { machine with memory } (machine.position + 1)
  | openRecord (opens : instr.opcode = .openRecord) :
      Does machine instr machine.openRecord (machine.position + 1)
  | pass {value : Value} {destination : Address} (passes : instr.opcode = .param)
      (source : machine.read instr.left = .ok value)
      (result : instr.result = .address destination) :
      Does machine instr { machine with passed := machine.passed ++ [⟨value, destination⟩] }
        (machine.position + 1)
  | enter {memory : Memory} {target : Nat}
      (calls : instr.opcode = .call) (opened : machine.openRecords ≠ 0)
      (bound : bindAll machine.memory machine.passed = (.ok (), memory))
      (found : machine.targetOf instr = .ok target) :
      Does machine instr
        { machine with
          memory
          passed := []
          openRecords := machine.openRecords - 1
          returns := (machine.position + 1) :: machine.returns
          profile := machine.profile.map fun profile => profile.recordCall target } target
  | leave {caller : Nat} {returns : List Nat} {memory : Memory} (leaves : instr.opcode = .ret)
      (callers : machine.returns = caller :: returns)
      (restored : machine.memory.restore = .ok memory) :
      Does machine instr { machine with memory, returns } caller
  | passHost {value : Value} (passes : instr.opcode = .nativeParam)
      (source : machine.read instr.left = .ok value) :
      Does machine instr
        { machine with nativeArguments := machine.nativeArguments ++ [value] }
        (machine.position + 1)
  | callHost {native : Native} {value : Value} {console : Console}
      (calls : instr.opcode = .nativeCall)
      (found : Native.ofName? (nativeName instr.left) = some native)
      (executed : native.execute machine.nativeArguments machine.console = (.ok value, console))
      (result : ∀ cell, instr.result ≠ .address cell) :
      Does machine instr { machine with nativeArguments := [], console }
        (machine.position + 1)
  | askHost {native : Native} {value : Value} {console : Console} {cell : Address} {memory : Memory}
      (calls : instr.opcode = .nativeCall)
      (found : Native.ofName? (nativeName instr.left) = some native)
      (executed : native.execute machine.nativeArguments machine.console = (.ok value, console))
      (result : instr.result = .address cell)
      (stored : machine.memory.store cell.plain (value.coerce cell.type) = .ok memory) :
      Does machine instr { machine with nativeArguments := [], console, memory }
        (machine.position + 1)

/-- The machine that a failing instruction leaves. -/
inductive Leaves (machine : Machine) (instr : Instruction) : Machine → Prop where
  | same : Leaves machine instr machine
  | made {size : Value} {pointer : Address} {memory : Memory} (makes : instr.opcode = .malloc)
      (found : machine.memory.allocate .stack .object size.toInt.toInt false =
        .ok (pointer, memory)) :
      Leaves machine instr { machine with memory }
  | bound {outcome : Except Fault Unit} {memory : Memory} (calls : instr.opcode = .call)
      (bound : bindAll machine.memory machine.passed = (outcome, memory)) :
      Leaves machine instr { machine with memory }
  | entered {outcome : Except Fault Unit} {memory : Memory} (calls : instr.opcode = .call)
      (opened : machine.openRecords ≠ 0)
      (bound : bindAll machine.memory machine.passed = (outcome, memory)) :
      Leaves machine instr
        { machine with
          memory
          passed := []
          openRecords := machine.openRecords - 1
          returns := (machine.position + 1) :: machine.returns }
  | called {console : Console} (calls : instr.opcode = .nativeCall) :
      Leaves machine instr { machine with nativeArguments := [], console }

/-! ### The instructions one by one -/

theorem does_write {operand : Operand} (written : machine.write operand value = .ok after)
    (writes : ∀ cell, operand = .address cell → machine.Writes instr cell value) :
    machine.Does instr after (after.position + 1) := by
  obtain ⟨cell, memory, same, stored, rfl⟩ := write_eq_ok.1 written
  exact .write (writes cell same) stored

theorem does_loadLiteral (loads : instr.opcode = .load)
    (done : machine.loadLiteral instr = .ok after) :
    machine.Does instr after (after.position + 1) := by
  obtain ⟨value, source, written⟩ := loadLiteral_eq_ok.1 done
  exact does_write written fun cell result => .literal loads source result

theorem does_copy (copies : instr.opcode = .store)
    (done : machine.copy instr = .ok after) :
    machine.Does instr after (after.position + 1) := by
  obtain ⟨value, source, written⟩ := copy_eq_ok.1 done
  exact does_write written fun cell result => .copy copies source result

theorem does_loadElement (loads : instr.opcode = .loadElement)
    (done : machine.loadElement instr = .ok after) :
    machine.Does instr after (after.position + 1) := by
  obtain ⟨destination, place, value, result, found, source, written⟩ := loadElement_eq_ok.1 done
  refine does_write written fun cell result' => ?_
  cases result.symm.trans result'
  exact .fetch loads found source result

theorem does_storeElement (stores : instr.opcode = .storeElement)
    (done : machine.storeElement instr = .ok after) :
    machine.Does instr after (after.position + 1) := by
  obtain ⟨value, place, memory, source, found, stored, rfl⟩ := storeElement_eq_ok done
  exact .write (.place stores source found) stored

theorem does_operate (operates : instr.opcode.isPure = true)
    (done : machine.operate instr = .ok after) :
    machine.Does instr after (after.position + 1) := by
  obtain ⟨first, second, value, readLeft, readRight, evaluated, written⟩ := operate_eq_ok.1 done
  exact does_write written fun cell result => .operate operates readLeft readRight evaluated result

theorem does_allocateObject (makes : instr.opcode = .malloc)
    (done : (machine.allocateObject instr).1 = .ok after) :
    machine.Does instr after (after.position + 1) := by
  obtain ⟨size, pointer, allocated, source, found, written⟩ := allocateObject_eq_ok done
  obtain ⟨cell, memory, result, stored, rfl⟩ := write_eq_ok.1 written
  exact .make makes source found result stored

theorem does_passParam (passes : instr.opcode = .param)
    (done : machine.passParam instr = .ok after) :
    machine.Does instr after (after.position + 1) := by
  obtain ⟨value, destination, source, result, rfl⟩ := passParam_eq_ok.1 done
  exact .pass passes source result

theorem does_callNative (calls : instr.opcode = .nativeCall)
    (done : (machine.callNative instr).1 = .ok after) :
    machine.Does instr after (after.position + 1) := by
  obtain ⟨native, value, console, found, executed, finished⟩ := callNative_eq_ok done
  rcases finished with ⟨cell, result, written⟩ | ⟨none, rfl⟩
  · obtain ⟨_, memory, same, stored, rfl⟩ := write_eq_ok.1 written
    cases result.symm.trans same
    exact .askHost calls found executed result stored
  · exact .callHost calls found executed none

theorem does_jump (jumps : instr.opcode.isJump = true) (done : machine.jump instr = .ok next) :
    machine.Does instr next.machine next.position := by
  obtain ⟨target, found, rfl⟩ := map_eq_ok.1 done
  exact .jump jumps found

theorem does_branch {sense : Bool} (branches : instr.opcode = .gotoTrue ∨ instr.opcode = .gotoFalse)
    (done : machine.branch instr sense = .ok next) : machine.Does instr next.machine next.position := by
  obtain ⟨condition, _, rest⟩ := bind_eq_ok.1 done
  split at rest
  · refine does_jump ?_ rest
    rcases branches with branches | branches <;> rw [branches] <;> rfl
  · cases rest
    exact .fall branches

theorem does_exit (exits : instr.opcode = .exit) (done : machine.exit = .ok next) :
    machine.Does instr next.machine next.position := by
  unfold exit at done
  simp only at done
  split at done
  · cases done
  · cases done
    exact .halt exits

theorem does_ret (leaves : instr.opcode = .ret) (done : machine.ret instr = .ok next) :
    machine.Does instr next.machine next.position := by
  unfold ret at done
  split at done
  · cases done
  · rename_i callers
    obtain ⟨memory, restored, ⟨⟩⟩ := bind_eq_ok.1 done
    exact .leave leaves callers (mapError_eq_ok.1 restored)

theorem call_eq_ok (done : machine.call instr = (.ok next, left)) :
    machine.openRecords ≠ 0 ∧ ∃ memory target,
      bindAll machine.memory machine.passed = (.ok (), memory) ∧
      machine.targetOf instr = .ok target ∧
      next = ⟨{ machine with
        memory
        passed := []
        openRecords := machine.openRecords - 1
        returns := (machine.position + 1) :: machine.returns
        profile := machine.profile.map fun profile => profile.recordCall target }, target⟩ := by
  unfold call at done
  split at done
  · cases done
  · rename_i opened
    split at done
    · cases done
    · rename_i bound
      simp only at done
      split at done
      · cases done
      · rename_i found
        cases done
        exact ⟨opened, _, _, bound, found, rfl⟩

theorem does_call (calls : instr.opcode = .call) (done : machine.call instr = (.ok next, left)) :
    machine.Does instr next.machine next.position := by
  obtain ⟨opened, memory, target, bound, found, rfl⟩ := call_eq_ok done
  exact .enter calls opened bound found

theorem leaves_call (calls : instr.opcode = .call) (done : machine.call instr = (.error fault, left)) :
    machine.Leaves instr left := by
  unfold call at done
  split at done
  · cases done
    exact .same
  · rename_i opened
    split at done
    · rename_i bound
      cases done
      exact .bound calls bound
    · rename_i bound
      simp only at done
      split at done
      · cases done
        exact .entered calls opened bound
      · cases done

theorem leaves_allocateObject (makes : instr.opcode = .malloc) :
    machine.Leaves instr (machine.allocateObject instr).2 := by
  unfold allocateObject
  split
  · exact .same
  · split
    · exact .same
    · rename_i found
      exact .made makes found

theorem leaves_callNative (calls : instr.opcode = .nativeCall) :
    machine.Leaves instr (machine.callNative instr).2 := by
  unfold callNative
  simp only
  split
  · exact .same
  · split
    · exact .called calls
    · split <;> exact .called calls

/-! ### Steps -/

theorem does_execute (executed : machine.execute? instr = some (.ok next, left)) :
    machine.Does instr next.machine next.position := by
  have first : ∀ {outcome : Except Fault Next × Machine}, some outcome = some (.ok next, left) →
      outcome.1 = .ok next := fun same => congrArg Prod.fst (Option.some.inj same)
  have followed : ∀ {outcome : Except Fault Machine}, outcome.map follow = .ok next →
      (∀ after, outcome = .ok after → machine.Does instr after (after.position + 1)) →
      machine.Does instr next.machine next.position := by
    intro outcome done does
    obtain ⟨after, same, rfl⟩ := map_eq_ok.1 done
    exact does after same
  unfold execute? at executed
  cases named : instr.opcode <;> rw [named] at executed
  case nop | init =>
    cases executed
    exact .idle (by rw [named]; simp)
  case exit => exact does_exit named (first executed)
  case goto => exact does_jump (by rw [named]; rfl) (first executed)
  case gotoTrue => exact does_branch (.inl named) (first executed)
  case gotoFalse => exact does_branch (.inr named) (first executed)
  case load => exact followed (first executed) fun _ => does_loadLiteral named
  case store => exact followed (first executed) fun _ => does_copy named
  case loadElement => exact followed (first executed) fun _ => does_loadElement named
  case storeElement => exact followed (first executed) fun _ => does_storeElement named
  case malloc => exact followed (first executed) fun _ => does_allocateObject named
  case openRecord =>
    cases executed
    exact .openRecord named
  case param => exact followed (first executed) fun _ => does_passParam named
  case call => exact does_call named (Option.some.inj executed)
  case ret => exact does_ret named (first executed)
  case nativeParam =>
    refine followed (first executed) fun _ done => ?_
    obtain ⟨value, source, rfl⟩ := passNative_eq_ok done
    exact .passHost named source
  case nativeCall => exact followed (first executed) fun _ => does_callNative named
  case assign | reserved => cases executed
  all_goals exact followed (first executed) fun _ => does_operate (by rw [named]; rfl)

theorem leaves_execute (executed : machine.execute? instr = some (.error fault, left)) :
    machine.Leaves instr left := by
  have second : ∀ {outcome : Except Fault Next × Machine},
      some outcome = some (.error fault, left) → outcome.2 = left :=
    fun same => congrArg Prod.snd (Option.some.inj same)
  unfold execute? at executed
  cases named : instr.opcode <;> rw [named] at executed
  case malloc => exact second executed ▸ leaves_allocateObject named
  case call => exact leaves_call named (Option.some.inj executed)
  case nativeCall => exact second executed ▸ leaves_callNative named
  case nop | init | openRecord | assign | reserved => cases executed
  all_goals exact second executed ▸ .same

theorem step_eq_ok (stepped : machine.step = (.ok (), after)) :
    after = machine ∧ machine.halted = true ∨
    machine.program[machine.position]? = none ∧ after = { machine with halted := true } ∨
    ∃ instr result position, machine.program[machine.position]? = some instr ∧
      machine.Does instr result position ∧
      after = advance ⟨result, position⟩ instr.opcode := by
  unfold step at stepped
  split at stepped
  · rename_i halted
    cases stepped
    exact .inl ⟨rfl, halted⟩
  · split at stepped
    · rename_i beyond
      cases stepped
      exact .inr (.inl ⟨beyond, rfl⟩)
    · rename_i instr found
      split at stepped
      · cases stepped
      · split at stepped
        · cases stepped
        · rename_i executed
          cases stepped
          exact .inr (.inr ⟨instr, _, _, found, does_execute executed, rfl⟩)
        · cases stepped

theorem step_eq_error {error : Error} (stepped : machine.step = (.error error, after)) :
    ∃ instr, machine.program[machine.position]? = some instr ∧
      machine.Leaves instr after := by
  unfold step at stepped
  split at stepped
  · cases stepped
  · split at stepped
    · cases stepped
    · rename_i instr found
      split at stepped
      · cases stepped
        exact ⟨instr, found, .same⟩
      · split at stepped
        · cases stepped
          exact ⟨instr, found, .same⟩
        · cases stepped
        · rename_i executed
          cases stepped
          exact ⟨instr, found, leaves_execute executed⟩

theorem Does.program {position : Nat} (does : machine.Does instr after position) :
    after.program = machine.program := by
  cases does <;> rfl

theorem Leaves.program (leaves : machine.Leaves instr left) :
    left.program = machine.program := by
  cases leaves <;> rfl

/-- What holds after every instruction, whether it succeeds or fails, holds after a step. -/
theorem step_keeps (Holds : Machine → Prop) (same : Holds machine)
    (halts : Holds { machine with halted := true })
    (does : ∀ {instr result position}, machine.program[machine.position]? = some instr →
      machine.Does instr result position → Holds (advance ⟨result, position⟩ instr.opcode))
    (leaves : ∀ {instr left}, machine.program[machine.position]? = some instr →
      machine.Leaves instr left → Holds left) : Holds machine.step.2 := by
  rcases stepped : machine.step with ⟨outcome, after⟩
  cases outcome with
  | ok =>
    rcases step_eq_ok stepped with ⟨rfl, _⟩ | ⟨_, rfl⟩ | ⟨_, _, _, found, done, rfl⟩
    · exact same
    · exact halts
    · exact does found done
  | error =>
    obtain ⟨_, found, left⟩ := step_eq_error stepped
    exact leaves found left

theorem program_step (machine : Machine) : machine.step.2.program = machine.program :=
  step_keeps (fun after => after.program = machine.program) rfl rfl
    (fun _ does => does.program) fun _ leaves => leaves.program

theorem run_add {steps : Nat} (ran : machine.run steps = (.unfinished, after))
    (more : Nat) : machine.run (steps + more) = after.run more := by
  induction steps generalizing machine with
  | zero =>
    cases congrArg Prod.snd ran
    rw [Nat.zero_add]
  | succ steps ih =>
    rw [Nat.add_right_comm, run]
    unfold run at ran
    split at ran
    · cases ran
    · rename_i running
      rw [if_neg running]
      split at ran
      · exact ih ran
      · cases ran

end Quadruple.Machine

namespace Quadruple.Workspace

variable {workspace result : Workspace} {callers : Nat} {instr : Instruction}

/-- A machine with a workspace and a number of callers. -/
def called (workspace : Workspace) (callers : Nat) : Machine :=
  { workspace.idle with returns := List.replicate callers 0 }

theorem settle_called (workspace : Workspace) (callers : Nat) (instr : Instruction) :
    ((workspace.called callers).execute? instr).map Machine.settle =
      (workspace.called callers).conclude instr (workspace.effect callers instr) := by
  have settled := (workspace.called callers).settle_execute? instr
  rwa [show (workspace.called callers).returns.length = callers from List.length_replicate] at settled

/-- What an instruction does to a workspace from which control goes on, it does to a machine. -/
theorem does_of_next (flows : workspace.effect callers instr = .flow .next result) :
    ∃ after position, (workspace.called callers).Does instr after position ∧
      after.workspace = result := by
  have settled := workspace.settle_called callers instr
  rw [flows] at settled
  obtain ⟨⟨_ | next, left⟩, executed, ⟨⟩⟩ := Option.map_eq_some_iff.1 settled
  exact ⟨_, _, Machine.does_execute executed, rfl⟩

theorem leaves_of_fault {cause : Machine.Fault}
    (fails : workspace.effect callers instr = .fault cause result) :
    ∃ left, (workspace.called callers).Leaves instr left ∧ left.workspace = result := by
  have settled := workspace.settle_called callers instr
  rw [fails] at settled
  obtain ⟨⟨_ | next, left⟩, executed, ⟨⟩⟩ := Option.map_eq_some_iff.1 settled
  exact ⟨_, Machine.leaves_execute executed, rfl⟩

end Quadruple.Workspace
