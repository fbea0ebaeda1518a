import Quadruple.Proofs.Activations
import Quadruple.Proofs.Cells

/-!
Calls and the storage of their callers. The arguments of a call are all read before the first of them
is stored, and reach the function in the cells that they are meant for. Whatever the function does,
and whatever it calls, the return from it gives the caller its variables and intermediate results
back.
-/

namespace Quadruple.Machine

variable {base machine after entered : Machine} {call : Instruction} {memory bound : Memory} {cell : Address}
  {passed : List Passed} {instr : Instruction}

/-! ### Arguments that are bound -/

theorem bindAll_cons {argument : Passed} {rest : List Passed}
    (done : bindAll memory (argument :: rest) = (.ok (), bound)) :
    ∃ between, memory.store argument.destination.plain
        (argument.value.coerce argument.destination.type) = .ok between ∧
      bindAll between rest = (.ok (), bound) := by
  unfold bindAll at done
  cases stored : storeAt memory argument.destination argument.value with
  | error fault =>
    rw [stored] at done
    cases done
  | ok between =>
    rw [stored] at done
    exact ⟨between, storeAt_eq_ok.1 stored, done⟩

section

variable (done : bindAll memory passed = (.ok (), bound))
include done

theorem load_bindAll_of_ne (apart : ∀ argument ∈ passed, argument.destination.plain ≠ cell.plain) :
    bound.load cell.plain = memory.load cell.plain := by
  have kept := bindAll_keeps (fun after => after.load cell.plain = memory.load cell.plain)
    (fun argument listed before after same stored => by
      rw [Memory.load_store stored rfl rfl, if_neg (Ne.symm (apart argument listed)), same]) rfl
  rwa [done] at kept

theorem load_bindAll (distinct : (passed.map fun argument => argument.destination.plain).Nodup) :
    ∀ argument ∈ passed, bound.load argument.destination.plain =
      .ok (argument.value.coerce argument.destination.type) := by
  induction passed generalizing memory with
  | nil =>
    intro argument listed
    cases listed
  | cons first rest ih =>
    obtain ⟨between, stored, more⟩ := bindAll_cons done
    rw [List.map_cons, List.nodup_cons] at distinct
    obtain ⟨fresh, others⟩ := distinct
    intro argument listed
    rcases List.mem_cons.1 listed with rfl | later
    · -- what is bound later goes to other cells
      have kept : bound.load argument.destination.plain = between.load argument.destination.plain :=
        load_bindAll_of_ne more fun other listed same =>
          fresh (List.mem_map.2 ⟨other, listed, same⟩)
      rw [kept, Memory.load_store stored rfl rfl, if_pos rfl]
    · exact ih more others argument later

theorem cursor_bindAll : bound.cursor = memory.cursor := by
  have kept := @bindAll_keeps (fun after => after.cursor = memory.cursor) memory passed
    (fun _ _ _ _ same stored => (Memory.cursor_store stored).trans same) rfl
  rwa [done] at kept

end

/-! ### The way into a function -/

/-- An argument as a call passes it: what is read, and the cell that the value is for. -/
structure Argument where
  source : Operand
  destination : Address

/-- The machine stands at a call with its arguments: a record is opened, the arguments are passed one
by one, and the function is called. -/
structure CallSequence (machine : Machine) (arguments : List Argument) (call : Instruction) :
    Prop where
  opens : ∃ opening, machine.program[machine.position]? = some opening ∧
    opening.opcode = .openRecord
  passes : ∀ index argument, arguments[index]? = some argument →
    ∃ passing, machine.program[machine.position + 1 + index]? = some passing ∧
      passing.opcode = .param ∧ passing.left = argument.source ∧
      passing.result = .address argument.destination
  calls : machine.program[machine.position + 1 + arguments.length]? = some call
  opcode : call.opcode = .call

/-- The machine after the first arguments of a call. -/
structure Passing (base : Machine) (arguments : List Argument) (count : Nat) (machine : Machine) :
    Prop where
  program : machine.program = base.program
  memory : machine.memory = base.memory.snapshot
  position : machine.position = base.position + 1 + count
  records : machine.openRecords = 1
  returns : machine.returns = base.returns
  destinations : machine.passed.map Passed.destination =
    (arguments.take count).map Argument.destination
  values : ∀ argument ∈ arguments.take count, ∃ value, base.read argument.source = .ok value ∧
    ⟨value, argument.destination⟩ ∈ machine.passed

structure Entered (base : Machine) (arguments : List Argument) (call : Instruction)
    (machine : Machine) : Prop where
  target : call.target? = some (machine.position : Int)
  arrived : ∀ argument ∈ arguments, ∃ value, base.read argument.source = .ok value ∧
    machine.memory.load argument.destination.plain =
      .ok (value.coerce argument.destination.type)
  others : ∀ cell : Address,
    (∀ argument ∈ arguments, argument.destination.plain ≠ cell.plain) →
      machine.memory.load cell.plain = base.memory.load cell.plain
  cursors : machine.memory.cursor = base.memory.cursor

theorem executed_of_run {count : Nat} {outcome : Except Fault Next} {left : Machine}
    (ran : run (count + 1) machine = (.unfinished, entered))
    (found : machine.program[machine.position]? = some instr)
    (executed : machine.execute? instr = some (outcome, left)) :
    ∃ next, outcome = .ok next ∧
      run count (advance next instr.opcode) = (.unfinished, entered) := by
  unfold run at ran
  split at ran
  · cases ran
  · rename_i running
    unfold step at ran
    simp only [if_neg running, found, executed] at ran
    by_cases spent : (decide (0 < machine.limit) && decide (machine.limit ≤ machine.steps)) = true
    · rw [if_pos spent] at ran
      cases ran
    · rw [if_neg spent] at ran
      cases outcome with
      | error => cases ran
      | ok next => exact ⟨next, rfl, ran⟩

theorem read_of_snapshot (saved : machine.memory = base.memory.snapshot) (operand : Operand) :
    machine.read operand = base.read operand := by
  cases operand with
  | address cell =>
    unfold read
    rw [saved]
    rfl
  | _ => rfl

namespace Passing

variable {arguments : List Argument} {count : Nat} {rest : Nat}

theorem start (sequence : base.CallSequence arguments call) (closed : base.openRecords = 0)
    (none : base.passed = []) {more : Nat} (ran : run (more + 1) base = (.unfinished, entered)) :
    ∃ machine, base.Passing arguments 0 machine ∧ run more machine = (.unfinished, entered) := by
  obtain ⟨opening, found, opens⟩ := sequence.opens
  have executed : base.execute? opening = some (.ok base.openRecord.follow, base) := by
    rw [execute?, opens]
  obtain ⟨next, same, ran⟩ := executed_of_run ran found executed
  cases same
  refine ⟨_, ?_, ran⟩
  refine ⟨rfl, rfl, rfl, ?_, rfl, ?_, ?_⟩
  · show base.openRecords + 1 = 1
    rw [closed]
  · show base.passed.map Passed.destination = _
    rw [none, List.take_zero]
    rfl
  · intro argument listed
    rw [List.take_zero] at listed
    cases listed

theorem pass (passing : base.Passing arguments count machine) (sequence : base.CallSequence arguments call)
    (more : count < arguments.length) (ran : run (rest + 1) machine = (.unfinished, entered)) :
    ∃ after, base.Passing arguments (count + 1) after ∧ run rest after = (.unfinished, entered) := by
  have listed : arguments[count]? = some arguments[count] := List.getElem?_eq_getElem more
  obtain ⟨instr, found, opcode, source, result⟩ := sequence.passes count _ listed
  rw [← passing.program, ← passing.position] at found
  have executed : machine.execute? instr =
      some (machine.orUnchanged (machine.passParam instr)) := by
    rw [execute?, opcode]
  obtain ⟨next, done, ran⟩ := executed_of_run ran found executed
  obtain ⟨after, passed, rfl⟩ := map_eq_ok.1 done
  obtain ⟨value, destination, isRead, result', rfl⟩ := passParam_eq_ok.1 passed
  rw [source, read_of_snapshot passing.memory] at isRead
  cases result.symm.trans result'
  have longer : arguments.take (count + 1) = arguments.take count ++ [arguments[count]] :=
    List.take_succ_eq_append_getElem more
  refine ⟨_, ?_, ran⟩
  refine ⟨passing.program, passing.memory, ?_, passing.records, passing.returns, ?_, ?_⟩
  · show machine.position + 1 = base.position + 1 + (count + 1)
    rw [passing.position]
    omega
  · show (machine.passed ++ [_]).map Passed.destination = _
    rw [longer, List.map_append, List.map_append, passing.destinations]
    rfl
  · intro argument among
    rw [longer] at among
    rcases List.mem_append.1 among with earlier | last
    · obtain ⟨value', isRead', waits⟩ := passing.values argument earlier
      exact ⟨value', isRead', List.mem_append_left _ waits⟩
    · cases List.mem_singleton.1 last
      exact ⟨value, isRead, List.mem_append_right _ List.mem_cons_self⟩

theorem passAll (sequence : base.CallSequence arguments call) {left : Nat}
    (passing : base.Passing arguments count machine) (counts : count + left = arguments.length)
    (ran : run (left + rest) machine = (.unfinished, entered)) :
    ∃ after, base.Passing arguments arguments.length after ∧
      run rest after = (.unfinished, entered) := by
  induction left generalizing count machine with
  | zero =>
    rw [Nat.zero_add] at ran
    cases counts
    exact ⟨machine, passing, ran⟩
  | succ left ih =>
    rw [Nat.add_right_comm] at ran
    obtain ⟨after, passing, ran⟩ := passing.pass sequence (by omega) ran
    exact ih passing (by omega) ran

end Passing

/-! ### Records below a call -/

/-- A record was saved for the caller, and the caller waits below all calls that are active. -/
def Inside (base : Machine) (caller : Nat) (machine : Machine) : Prop :=
  ∃ upper inner,
    machine.memory.frames =
      upper ++ ⟨base.memory.locals, base.memory.temps⟩ :: base.memory.frames ∧
    machine.returns = inner ++ caller :: base.returns ∧
    upper.length = inner.length + machine.openRecords

/-- The machine after the return from a function, which was executed in another state. -/
structure BackIn (base : Machine) (caller : Nat) (last machine : Machine) : Prop where
  position : machine.position = caller
  locals : machine.memory.locals = base.memory.locals
  temps : machine.memory.temps = base.memory.temps
  frames : machine.memory.frames = base.memory.frames
  returns : machine.returns = base.returns
  global : machine.memory.global = last.memory.global
  stack : machine.memory.stack = last.memory.stack

namespace Inside

variable {caller : Nat}

section

variable (inside : base.Inside caller machine)
include inside

theorem height : base.returns.length < machine.returns.length := by
  obtain ⟨upper, inner, _, returns, _⟩ := inside
  rw [returns, List.length_append, List.length_cons]
  omega

theorem turn (turn : machine.Turn after) (deeper : after.returns.length ≠ base.returns.length) :
    base.Inside caller after := by
  obtain ⟨upper, inner, frames, returns, counts⟩ := inside
  cases turn with
  | keep frames' returns' records' =>
    exact ⟨upper, inner, frames'.trans frames, returns'.trans returns, by rw [records', counts]⟩
  | opens frames' returns' records' =>
    refine ⟨⟨machine.memory.locals, machine.memory.temps⟩ :: upper, inner, ?_,
      returns'.trans returns, ?_⟩
    · rw [frames', frames, List.cons_append]
    · rw [List.length_cons, counts, records']
      omega
  | enters frames' returns' records' =>
    refine ⟨upper, (machine.position + 1) :: inner, frames'.trans frames, ?_, ?_⟩
    · rw [returns', returns, List.cons_append]
    · rw [List.length_cons, counts, records']
      omega
  | leaves saved memory returns' records' =>
    rw [returns] at returns'
    rw [frames] at saved
    cases inner with
    | nil =>
      -- the record of the caller itself would be given back
      rw [List.nil_append, List.cons.injEq] at returns'
      exact absurd (congrArg List.length returns'.2).symm deeper
    | cons first inner =>
      cases upper with
      | nil =>
        simp only [List.length_nil, List.length_cons] at counts
        omega
      | cons top upper =>
        rw [List.cons_append, List.cons.injEq] at saved returns'
        refine ⟨upper, inner, ?_, returns'.2.symm, ?_⟩
        · rw [memory]
          exact saved.2.symm
        · simp only [List.length_cons] at counts
          omega

theorem afterSteps (count : Nat)
    (deeper : ∀ earlier ≤ count, (machine.afterSteps earlier).returns.length ≠ base.returns.length) :
    base.Inside caller (machine.afterSteps count) := by
  induction count with
  | zero => exact inside
  | succ count ih =>
    have before := ih fun earlier le => deeper earlier (Nat.le_succ_of_le le)
    have last := deeper (count + 1) (Nat.le_refl _)
    rw [afterSteps_succ] at last ⊢
    exact before.turn (turn_step _) last

theorem leave (turn : machine.Turn after) (reached : after.returns.length = base.returns.length)
    (closed : machine.openRecords = 0) : base.BackIn caller machine after := by
  have deep := inside.height
  obtain ⟨upper, inner, frames, returns, counts⟩ := inside
  cases turn with
  | keep _ returns' _ | opens _ returns' _ =>
    rw [returns'] at reached
    omega
  | enters _ returns' _ =>
    rw [returns', List.length_cons] at reached
    omega
  | leaves saved memory returns' _ =>
    have depth := congrArg List.length returns'
    rw [returns, List.length_append, List.length_cons, List.length_cons, reached] at depth
    have outermost : inner = [] := List.eq_nil_of_length_eq_zero (by omega)
    have uppermost : upper = [] := by
      apply List.eq_nil_of_length_eq_zero
      rw [counts, closed, outermost]
      rfl
    subst outermost uppermost
    rw [returns, List.nil_append, List.cons.injEq] at returns'
    rw [frames, List.nil_append, List.cons.injEq] at saved
    obtain ⟨rfl, rfl⟩ := saved
    refine ⟨returns'.1.symm, ?_, ?_, ?_, returns'.2.symm, ?_, ?_⟩ <;> rw [memory]

end

end Inside

/-! ### Calls -/

theorem targetOf_eq_ok {target : Nat} (found : machine.targetOf instr = .ok target) :
    instr.target? = some (target : Int) := by
  unfold targetOf at found
  cases named : instr.target? with
  | none =>
    rw [named] at found
    cases found
  | some index =>
    simp only [named, Bool.or_eq_true, decide_eq_true_eq] at found
    split at found
    · cases found
    · rename_i inside
      cases found
      rw [Int.toNat_of_nonneg (by omega)]

theorem Passing.enter {arguments : List Argument}
    (passing : base.Passing arguments arguments.length machine)
    (sequence : base.CallSequence arguments call)
    (distinct : (arguments.map fun argument => argument.destination.plain).Nodup)
    (ran : run 1 machine = (.unfinished, entered)) :
    base.Entered arguments call entered ∧
      base.Inside (base.position + arguments.length + 2) entered := by
  have found := sequence.calls
  rw [← passing.program, ← passing.position] at found
  have executed : machine.execute? call = some (machine.call call) := by
    rw [execute?, sequence.opcode]
  obtain ⟨next, done, ran⟩ := executed_of_run ran found executed
  obtain ⟨opened, memory, target, bound, aimed, rfl⟩ :=
    call_eq_ok (show machine.call call = (.ok next, _) from Prod.ext done rfl)
  cases congrArg Prod.snd ran
  have destinations := passing.destinations
  rw [List.take_length] at destinations
  have loaded : ∀ cell, machine.memory.load cell = base.memory.load cell := by
    intro cell
    rw [passing.memory]
    rfl
  refine ⟨⟨targetOf_eq_ok aimed, ?_, ?_, ?_⟩, [], [], ?_, ?_, ?_⟩
  · have distinct' : (machine.passed.map fun argument => argument.destination.plain).Nodup := by
      have same := congrArg (List.map Address.plain) destinations
      rw [List.map_map, List.map_map] at same
      exact same ▸ distinct
    intro argument listed
    rw [← arguments.take_length] at listed
    obtain ⟨value, isRead, waits⟩ := passing.values argument listed
    exact ⟨value, isRead, load_bindAll bound distinct' _ waits⟩
  · intro cell apart
    rw [← loaded]
    refine load_bindAll_of_ne bound fun argument waits => ?_
    have among := List.mem_map_of_mem (f := Passed.destination) waits
    rw [destinations] at among
    obtain ⟨other, listed, same⟩ := List.mem_map.1 among
    rw [← same]
    exact apart other listed
  · calc memory.cursor = machine.memory.cursor := cursor_bindAll bound
      _ = base.memory.cursor := by rw [passing.memory]; rfl
  · have kept := frames_bindAll machine.passed machine.memory
    rw [bound, passing.memory] at kept
    exact kept
  · show (machine.position + 1) :: machine.returns = _
    rw [passing.position, passing.returns, List.nil_append]
    congr 1
    omega
  · show 0 = 0 + (machine.openRecords - 1)
    rw [passing.records]

/-- A call that passes its arguments to different cells finds each of them in the function as it was
before the call, and changes nothing else. When the function returns for good and no record is open,
the caller goes on with its own variables and intermediate results, and with what the function left
in the rest of the storage. -/
theorem call_keeps_caller {arguments : List Argument}
    (sequence : machine.CallSequence arguments call) (closed : machine.openRecords = 0)
    (none : machine.passed = [])
    (distinct : (arguments.map fun argument => argument.destination.plain).Nodup)
    (ran : machine.run (arguments.length + 2) = (.unfinished, entered)) :
    machine.Entered arguments call entered ∧
      ∀ count,
        (∀ earlier ≤ count,
          (entered.afterSteps earlier).returns.length ≠ machine.returns.length) →
        (entered.afterSteps count).openRecords = 0 →
        (entered.afterSteps (count + 1)).returns.length = machine.returns.length →
        machine.BackIn (machine.position + arguments.length + 2) (entered.afterSteps count)
          (entered.afterSteps (count + 1)) := by
  obtain ⟨opened, start, ran⟩ := Passing.start sequence closed none ran
  obtain ⟨ready, passing, ran⟩ := start.passAll sequence (Nat.zero_add _) ran
  obtain ⟨arrived, inside⟩ := passing.enter sequence distinct ran
  refine ⟨arrived, fun count deeper closed' reached => ?_⟩
  rw [afterSteps_succ] at reached ⊢
  exact (inside.afterSteps count deeper).leave (turn_step _) reached closed'

/-- Passes two variables of one function to the same two of another, in exchange. -/
def exchange : Code :=
  #[{ opcode := .init },
    { opcode := .load, left := .literal (.int 3), result := .address ⟨.locals, .int, false, 0⟩ },
    { opcode := .load, left := .literal (.int 4), result := .address ⟨.locals, .int, false, 1⟩ },
    { opcode := .openRecord },
    { opcode := .param, left := .address ⟨.locals, .int, false, 0⟩
      result := .address ⟨.locals, .int, false, 1⟩ },
    { opcode := .param, left := .address ⟨.locals, .int, false, 1⟩
      result := .address ⟨.locals, .int, false, 0⟩ },
    { opcode := .call, result := .target 8 },
    { opcode := .exit },
    { opcode := .store, left := .address ⟨.locals, .int, false, 0⟩
      result := .address ⟨.global, .int, false, 0⟩ },
    { opcode := .load, left := .literal (.int 5), result := .address ⟨.locals, .int, false, 0⟩ },
    { opcode := .ret }]

def exchanging : Machine :=
  (ofProgram exchange {}).afterSteps 3

theorem exchange_keeps_caller :
    exchanging.Entered
      [⟨.address ⟨.locals, .int, false, 0⟩, ⟨.locals, .int, false, 1⟩⟩,
        ⟨.address ⟨.locals, .int, false, 1⟩, ⟨.locals, .int, false, 0⟩⟩]
      { opcode := .call, result := .target 8 } (exchanging.afterSteps 4) ∧
    exchanging.BackIn 7 (exchanging.afterSteps 6) (exchanging.afterSteps 7) := by
  have sequence : exchanging.CallSequence
      [⟨.address ⟨.locals, .int, false, 0⟩, ⟨.locals, .int, false, 1⟩⟩,
        ⟨.address ⟨.locals, .int, false, 1⟩, ⟨.locals, .int, false, 0⟩⟩]
      { opcode := .call, result := .target 8 } := by
    refine ⟨⟨_, rfl, rfl⟩, fun index argument listed => ?_, rfl, rfl⟩
    have within : index < 2 := (List.getElem?_eq_some_iff.1 listed).1
    rcases (by omega : index = 0 ∨ index = 1) with rfl | rfl
    · cases listed
      exact ⟨_, rfl, rfl, rfl, rfl⟩
    · cases listed
      exact ⟨_, rfl, rfl, rfl, rfl⟩
  have ran : exchanging.run 4 = (.unfinished, exchanging.afterSteps 4) := rfl
  obtain ⟨entered, back⟩ := call_keeps_caller sequence rfl rfl (by decide) ran
  exact ⟨entered, back 2 (by decide +kernel) rfl rfl⟩

end Quadruple.Machine
