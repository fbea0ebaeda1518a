import Quadruple.Proofs.CallFrames
import Quadruple.Proofs.CallingConvention
import Quadruple.Proofs.Coherence

/-!
Where compiled programs start and end. The first instruction jumps to the only start instruction, and
no waiting jump is mistaken for it. The last instruction ends the program, and control does not come
behind it.
-/

namespace Quadruple

variable {code : Code} {place : Nat} {instr : Instruction}

/-! ### The end of the program -/

/-- Control does not come to the end of the code: no instruction falls off it, and no target lies
there. -/
structure Code.Sealed (code : Code) : Prop where
  goesOn : ∀ (place : Nat) (instr : Instruction), code[place]? = some instr →
    instr.opcode ≠ .exit → place + 1 < code.size
  aims : ∀ (place : Nat) (instr : Instruction) (target : Int),
    code[place]? = some instr → instr.result = .target target →
    ∃ index : Nat, target = index ∧ index < code.size

theorem Code.Orderly.sealed_push (orderly : code.Orderly) :
    Sealed (code.push { opcode := .exit }) where
  goesOn := by
    intro place instr found other
    rw [Array.getElem?_push] at found
    split at found
    · cases found
      exact absurd rfl other
    · have inside := (Array.getElem?_eq_some_iff.1 found).1
      rw [Array.size_push]
      omega
  aims := by
    intro place instr target found result
    rw [Array.getElem?_push] at found
    split at found
    · cases found
      cases result
    · obtain ⟨index, rfl, inside, _⟩ := orderly.aims place instr target found result
      refine ⟨index, rfl, ?_⟩
      rw [Array.size_push]
      omega

/-- Control stays at instructions: what goes on to the following one has one, and targets are
instructions. -/
structure Code.Inward (code : Code) : Prop where
  falls : ∀ (place : Nat) (instr : Instruction), code[place]? = some instr →
    FlowGraph.fallsThrough instr.opcode = true → place + 1 < code.size
  aims : ∀ (place : Nat) (instr : Instruction) (target : Nat),
    code[place]? = some instr → instr.target? = some (target : Int) → target < code.size

theorem Code.Sealed.inward (closed : code.Sealed) : code.Inward := by
  refine ⟨fun place instr found falls => closed.goesOn place instr found ?_, ?_⟩
  · intro exits
    rw [exits] at falls
    cases falls
  · intro place instr target found names
    have result : instr.result = .target target := by
      unfold Instruction.target? at names
      split at names
      · rename_i index same
        rw [same, Option.some.inj (Option.ite_none_right_eq_some.1 names).2]
      · cases names
    obtain ⟨index, same, bounded⟩ := closed.aims place instr target found result
    omega

theorem Code.Sealed.lt_of_stage (closed : code.Sealed) (record : code.stage place = .record) :
    place < code.size := by
  cases place with
  | zero => cases record
  | succ before =>
    cases found : code[before]? with
    | none =>
      rw [Code.stage, found] at record
      cases record
    | some instr =>
      rw [Code.stage_succ found] at record
      refine closed.goesOn before instr found fun exits => ?_
      rw [Instruction.stage, exits] at record
      cases record

theorem Instruction.Accepts.of_record (accepts : instr.Accepts .record) :
    instr.opcode = .param ∨ instr.opcode = .call := by
  unfold Instruction.Accepts at accepts
  split at accepts
  · rename_i same
    exact .inl same
  · rename_i same
    exact .inr same
  · exact absurd rfl accepts
  · exact absurd rfl accepts
  · cases accepts

namespace Machine

variable {code : Code} {machine after : Machine} {instr : Instruction}

/-- A machine stands at an instruction, and will return to instructions. -/
structure Within (code : Code) (machine : Machine) : Prop where
  program : machine.program = code
  position : machine.position < code.size
  returns : ∀ caller ∈ machine.returns, caller < code.size

theorem Writes.falls {cell : Address} {value : Value} (writes : machine.Writes instr cell value) :
    FlowGraph.fallsThrough instr.opcode = true := by
  cases writes with
  | literal same | copy same | fetch same | place same => rw [same]; rfl
  | operate pure =>
    cases named : instr.opcode <;> first | rfl | (rw [named] at pure; cases pure)

section

variable (within : Within code machine)
  (inward : code.Inward)
include within inward

theorem Within.does (here : code[machine.position]? = some instr)
    {position : Nat} (does : machine.Does instr after position) (opcode : Opcode) :
    Within code (advance ⟨after, position⟩ opcode) := by
  have onward := inward.falls _ _ here
  cases does with
  | idle idles =>
    exact ⟨within.program, onward (by rcases idles with same | same <;> rw [same] <;> rfl),
      within.returns⟩
  | fall branches =>
    exact ⟨within.program, onward (by rcases branches with same | same <;> rw [same] <;> rfl),
      within.returns⟩
  | halt => exact ⟨within.program, within.position, within.returns⟩
  | jump _ found =>
    exact ⟨within.program, inward.aims _ _ _ here (targetOf_eq_ok found), within.returns⟩
  | write writes => exact ⟨within.program, onward writes.falls, within.returns⟩
  | make same | openRecord same | pass same | passHost same | callHost same | askHost same =>
    exact ⟨within.program, onward (by rw [same]; rfl), within.returns⟩
  | enter calls _ _ found =>
    refine ⟨within.program, inward.aims _ _ _ here (targetOf_eq_ok found), fun caller listed => ?_⟩
    rcases List.mem_cons.1 listed with rfl | listed
    · exact onward (by rw [calls]; rfl)
    · exact within.returns caller listed
  | leave _ callers =>
    refine ⟨within.program, within.returns _ ?_, fun caller listed => within.returns caller ?_⟩
    · rw [callers]
      exact List.mem_cons_self
    · rw [callers]
      exact List.mem_cons_of_mem _ listed

theorem Within.leaves (here : code[machine.position]? = some instr)
    (leaves : machine.Leaves instr after) : Within code after := by
  cases leaves with
  | same | made | bound | called => exact ⟨within.program, within.position, within.returns⟩
  | entered calls =>
    refine ⟨within.program, within.position, fun caller listed => ?_⟩
    rcases List.mem_cons.1 listed with rfl | listed
    · exact inward.falls _ _ here (by rw [calls]; rfl)
    · exact within.returns caller listed

theorem Within.step : Within code machine.step.2 :=
  step_keeps (Within code) within ⟨within.program, within.position, within.returns⟩
    (fun found does => within.does inward (within.program ▸ found) does _)
    fun found leaves => within.leaves inward (within.program ▸ found) leaves

theorem Within.run (count : Nat) : (Machine.run count machine).2.position < code.size := by
  induction count generalizing machine with
  | zero => exact within.position
  | succ count ih =>
    have next := within.step inward
    unfold Machine.run
    split
    · exact within.position
    · split
      · rename_i stepped
        rw [stepped] at next
        exact ih next
      · rename_i stepped
        rw [stepped] at next
        exact next.position

theorem Within.afterSteps (count : Nat) : Within code (machine.afterSteps count) :=
  Function.Iterate.rec (Within code) within (fun _ within => within.step inward) count

end

theorem within_ofProgram (starts : 0 < code.size) (options : Options) :
    Within code (ofProgram code options) :=
  ⟨rfl, starts, nofun⟩

theorem endsClosed_ofProgram (closed : code.Sealed) (starts : 0 < code.size) (options : Options) :
    (ofProgram code options).EndsClosed := by
  intro count beyond
  exact absurd ((within_ofProgram starts options).run closed.inward count) (Nat.not_lt.2 beyond)

end Machine

/-! ### The start of the program -/

def Code.opcodeAt (code : Code) (place : Nat) : Option Opcode :=
  (code[place]?).map Instruction.opcode

theorem Code.opcodeAt_push (code : Code) (instr : Instruction) (place : Nat) :
    opcodeAt (code.push instr) place =
      if place = code.size then some instr.opcode else code.opcodeAt place := by
  unfold opcodeAt
  rw [Array.getElem?_push]
  split <;> rfl

theorem Code.opcodeAt_aim (found : code[place]? = some instr) (target : Int) (other : Nat) :
    opcodeAt (code.setIfInBounds place (instr.aimed target)) other = code.opcodeAt other := by
  unfold opcodeAt
  by_cases same : place = other
  · subst same
    have inside : place < code.size := (Array.getElem?_eq_some_iff.1 found).1
    rw [Array.getElem?_setIfInBounds_self_of_lt inside, found]
    rfl
  · rw [Array.getElem?_setIfInBounds_ne same]

namespace CodeBuffer

/-- The code starts with a jump, which leads to the start instruction once there is one. -/
structure Opens (started : Bool) (buffer : CodeBuffer) : Prop where
  first : ∃ first, buffer.code[0]? = some first ∧ first.opcode = .goto
  waiting : .jump 0 ∉ buffer.pending
  present : started = true → ∃ place, buffer.code.opcodeAt place = some .init
  leads : ∀ place : Nat, buffer.code.opcodeAt place = some .init →
    started = true ∧ ∃ first, buffer.code[0]? = some first ∧ first.result = .target place

variable {started started' : Bool} {buffer after : CodeBuffer} {instr : Instruction}
  {rules : Rules}

namespace Opens

variable {pending : List Pending} {place : Nat}

section

variable (opens : buffer.Opens started)
include opens

theorem size_pos : 0 < buffer.code.size := by
  obtain ⟨first, found, _⟩ := opens.first
  exact (Array.getElem?_eq_some_iff.1 found).1

theorem first_push (instr : Instruction) : (buffer.code.push instr)[0]? = buffer.code[0]? := by
  rw [Array.getElem?_push, if_neg (Nat.ne_of_lt opens.size_pos)]

theorem emit (other : instr.opcode ≠ .init) : (buffer.emit instr).Opens started where
  first := by
    rw [CodeBuffer.emit, opens.first_push]
    exact opens.first
  waiting := opens.waiting
  present := by
    intro isStarted
    obtain ⟨place, here⟩ := opens.present isStarted
    refine ⟨place, ?_⟩
    have inside : place < buffer.code.size := by
      obtain ⟨_, found, _⟩ := Option.map_eq_some_iff.1 here
      exact (Array.getElem?_eq_some_iff.1 found).1
    rw [CodeBuffer.emit, Code.opcodeAt_push, if_neg (Nat.ne_of_lt inside)]
    exact here
  leads := by
    intro place here
    rw [CodeBuffer.emit, Code.opcodeAt_push] at here
    rw [CodeBuffer.emit, opens.first_push]
    split at here
    · exact absurd (Option.some.inj here) other
    · exact opens.leads place here

theorem emitAll {instructions : List Instruction}
    (others : ∀ instr ∈ instructions, instr.opcode ≠ .init) :
    (buffer.emitAll instructions).Opens started := by
  induction instructions generalizing buffer with
  | nil =>
    rw [emitAll_nil]
    exact opens
  | cons instr rest ih =>
    rw [emitAll_cons]
    exact ih (opens.emit (others instr List.mem_cons_self)) fun other listed =>
      others other (List.mem_cons_of_mem _ listed)

theorem wait (waiting : .jump 0 ∉ pending) : (CodeBuffer.mk buffer.code pending).Opens started :=
  ⟨opens.first, waiting, opens.present, opens.leads⟩

theorem push (later : 0 < place) : (buffer.pushPending place).Opens started := by
  unfold pushPending
  rw [Pending.ofIndex_natCast]
  refine opens.wait fun listed => ?_
  rcases List.mem_cons.1 listed with same | listed
  · cases same
    exact Nat.lt_irrefl 0 later
  · exact opens.waiting listed

theorem aim (later : place ≠ 0) (found : buffer.code[place]? = some instr) (target : Int)
    (waiting : .jump 0 ∉ pending) :
    (CodeBuffer.mk (buffer.code.setIfInBounds place (instr.aimed target)) pending).Opens
      started where
  first := by
    rw [Array.getElem?_setIfInBounds_ne later]
    exact opens.first
  waiting := waiting
  present := by
    simp only [Code.opcodeAt_aim found]
    exact opens.present
  leads := by
    simp only [Code.opcodeAt_aim found, Array.getElem?_setIfInBounds_ne later]
    exact opens.leads

end

theorem start (opens : buffer.Opens false) {code : Code}
    (patched : Code.setTarget buffer.code 0 buffer.code.size = .ok code) :
    (CodeBuffer.emit { buffer with code } { opcode := .init }).Opens true := by
  obtain ⟨place, instr, same, found, rfl⟩ := Code.setTarget_eq_ok patched
  cases Int.ofNat_inj.1 same
  have inside := opens.size_pos
  have size : (buffer.code.setIfInBounds 0 (instr.aimed buffer.code.size)).size =
      buffer.code.size := Array.size_setIfInBounds
  have first : ((buffer.code.setIfInBounds 0 (instr.aimed buffer.code.size)).push
      { opcode := .init })[0]? = some (instr.aimed buffer.code.size) := by
    rw [Array.getElem?_push, size, if_neg (Nat.ne_of_lt inside),
      Array.getElem?_setIfInBounds_self_of_lt inside]
  refine ⟨⟨_, first, ?_⟩, opens.waiting, fun _ => ⟨buffer.code.size, ?_⟩, fun place here => ?_⟩
  · obtain ⟨other, found', isGoto⟩ := opens.first
    cases found.symm.trans found'
    exact isGoto
  · rw [CodeBuffer.emit, Code.opcodeAt_push, if_pos size.symm]
  · rw [CodeBuffer.emit, Code.opcodeAt_push, size, Code.opcodeAt_aim found] at here
    split at here
    · rename_i last
      exact ⟨rfl, _, first, by rw [last]; rfl⟩
    · cases (opens.leads place here).1

theorem patchPending (opens : buffer.Opens started)
    (patched : buffer.patchPending = (.ok (), after)) : after.Opens started := by
  refine patchPending_keeps (motive := fun code pending => Opens started ⟨code, pending⟩)
    (fun code place instr rest opens found => ?_) (fun code rest opens => ?_) patched opens
  · refine opens.aim (fun isFirst => opens.waiting ?_) found _ fun listed =>
      opens.waiting (List.mem_cons_of_mem _ listed)
    rw [isFirst]
    exact List.mem_cons_self
  · exact opens.wait fun listed => opens.waiting (List.mem_cons_of_mem _ listed)

theorem steer {command : Event.Command} (opens : buffer.Opens started)
    (steers : command.Steers rules buffer after)
    (state : command = .start ∧ started = false ∧ started' = true ∨ command ≠ .start ∧ started' = started) :
    after.Opens started' := by
  have same : command ≠ .start → started' = started := fun other =>
    (state.resolve_left fun starts => other starts.1).2
  have erased : ∀ place : Nat, .jump 0 ∉ buffer.pending.eraseIdx place := fun _ listed =>
    opens.waiting (List.mem_of_mem_eraseIdx listed)
  cases steers with
  | other other =>
    rw [same (Generator.ne_start other)]
    exact opens
  | delimiter =>
    rw [same nofun]
    exact opens.wait fun listed => opens.waiting ((List.mem_cons.1 listed).resolve_left nofun)
  | branch | jump =>
    rw [same nofun]
    refine Opens.push (opens.emit ?_) opens.size_pos
    nofun
  | head =>
    rw [same nofun]
    exact opens.push opens.size_pos
  | patchAll patched =>
    rw [same nofun]
    exact opens.patchPending patched
  | patchOne patched =>
    obtain ⟨depth, place, instr, _, found, here, rfl⟩ := patchOne_eq_ok patched
    rw [same nofun]
    refine opens.aim (fun isFirst => opens.waiting ?_) here _ (erased depth)
    rw [isFirst] at found
    exact List.mem_of_getElem? found
  | loop taken =>
    obtain ⟨depth, _, _, rfl⟩ := take_eq_ok taken
    rw [same nofun]
    exact (opens.wait (erased depth)).emit nofun
  | start patched =>
    rcases state with ⟨_, rfl, rfl⟩ | ⟨other, _⟩
    · exact opens.start patched
    · exact absurd rfl other
  | exit =>
    rw [same nofun]
    exact opens.emit nofun

end Opens

end CodeBuffer

theorem Rules.Appends.ne_init {rules : Rules} {made : Option Scope.Class} (appends : rules.Appends made instr) :
    instr.opcode ≠ .init := by
  intro same
  cases appends with
  | plain plain =>
    have isPlain := plain.isPlain
    rw [same] at isPlain
    cases isPlain
  | _ => cases same

namespace Generator

variable {capacities : Capacities} {commands : List Event.Command} {generator : Generator}

section

variable (performs : Performs commands (.ofCapacities capacities) generator)
include performs

theorem Performs.opens : generator.buffer.Opens generator.started := by
  refine (Performs.invariant (motive := fun _ generator =>
    generator.buffer.Opens generator.started) performs (admits_lax capacities commands) ?_ ?_).2
  · refine ⟨⟨_, rfl, rfl⟩, nofun, nofun, fun place here => ?_⟩
    obtain ⟨instr, found, isInit⟩ := Option.map_eq_some_iff.1 here
    cases Nat.lt_one_iff.1 (Array.getElem?_eq_some_iff.1 found).1
    cases found
    cases isInit
  · intro _ command before after _ opens _ _ advances
    obtain ⟨middle, appends, steers⟩ := advances.code
    obtain ⟨instructions, rfl, listed⟩ := CodeBuffer.exists_emitAll appends
    exact (opens.emitAll fun instr present => (listed instr present).ne_init).steer
      steers advances.started

/-- A program that has been started begins with a jump to its only start instruction. -/
theorem Performs.startsAt (started : generator.started = true) : ∃ root : Nat,
      FlowGraph.StartsAt generator.buffer.code root ∧
      generator.buffer.code.findIdx? (fun instr => instr.opcode = .init) = some root := by
  have opens := performs.opens
  obtain ⟨first, found, isGoto⟩ := opens.first
  have isInit : (generator.buffer.code.findIdx? fun instr =>
      instr.opcode = .init).isSome := by
    obtain ⟨place, here⟩ := opens.present started
    obtain ⟨instr, found, isInit⟩ := Option.map_eq_some_iff.1 here
    rw [Array.findIdx?_isSome, Array.any_eq_true']
    exact ⟨instr, Array.mem_of_getElem? found, decide_eq_true isInit⟩
  obtain ⟨root, start⟩ := Option.isSome_iff_exists.1 isInit
  refine ⟨root, .inr ⟨first, found, isGoto, ?_⟩, start⟩
  obtain ⟨inside, isInit, _⟩ := Array.findIdx?_eq_some_iff_getElem.1 start
  have here : generator.buffer.code.opcodeAt root = some .init := by
    rw [Code.opcodeAt, Array.getElem?_eq_getElem inside, Option.map_some,
      of_decide_eq_true isInit]
  obtain ⟨_, _, found', result⟩ := opens.leads root here
  cases found.symm.trans found'
  rw [Instruction.target?, result, isGoto]
  rfl

end

section

variable (performs : Performs (commands ++ [.exit]) (.ofCapacities capacities) generator)
include performs

theorem Performs.started_of_ended : generator.started = true := by
  obtain ⟨before, _, last⟩ := performs_append.1 performs
  cases last with
  | cons performed rest =>
    cases rest
    obtain ⟨started, _, rfl⟩ := gives_exit performed
    exact started

/-- Control does not come to the end of a program whose last event ends it. -/
theorem Performs.sealed : generator.buffer.code.Sealed := by
  obtain ⟨before, front, last⟩ := performs_append.1 performs
  have orderly := (front.inOrder (admits_lax capacities _)).orderly
  cases last with
  | cons performed rest =>
    cases rest
    obtain ⟨_, _, rfl⟩ := gives_exit performed
    exact orderly.sealed_push

end

end Generator

end Quadruple
