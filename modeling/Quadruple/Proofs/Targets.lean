import Quadruple.Proofs.Sequences
import Quadruple.Proofs.Walk

/-!
The targets of jumps. The stack of what waits holds jumps that have no target yet, but also the heads
of loops, and nothing in an entry tells the two apart. If every jump back takes the head of a loop, no
jump is forgotten: it has a target or it waits. So when the program ends, and nothing waits, every
jump has a target.
-/

namespace Quadruple

/-- What an entry of the stack was put there for. -/
inductive Mark where
  | delimiter
  | jump
  | head
deriving DecidableEq

namespace Event.Command

/-- What waits after a command, if the marks say what waits before it. -/
def leaves (marks : List Mark) : Event.Command → List Mark
  | pushDelimiter => .delimiter :: marks
  | conditionalJump | jump => .jump :: marks
  | loopStart => .head :: marks
  | patchPending => (marks.dropWhile (· ≠ .delimiter)).tail
  | patchJump depth | loopJump depth => marks.eraseIdx depth.toNat
  | _ => marks

def closes (marks : List Mark) : Event.Command → Bool
  | loopJump depth => marks[depth.toNat]? = some .head
  | _ => true

def leavesAll (marks : List Mark) : List Event.Command → List Mark
  | [] => marks
  | command :: rest => leavesAll (command.leaves marks) rest

/-- Every jump back takes the head of a loop. -/
def closesLoops (marks : List Mark) : List Event.Command → Bool
  | [] => true
  | command :: rest => command.closes marks && closesLoops (command.leaves marks) rest

theorem leavesAll_append (marks : List Mark) (first second : List Event.Command) :
    leavesAll marks (first ++ second) = leavesAll (leavesAll marks first) second := by
  induction first generalizing marks with
  | nil => rfl
  | cons command rest ih => exact ih (command.leaves marks)

theorem closesLoops_append (marks : List Mark) (first second : List Event.Command) :
    closesLoops marks (first ++ second) =
      (closesLoops marks first && closesLoops (leavesAll marks first) second) := by
  induction first generalizing marks with
  | nil => rfl
  | cons command rest ih =>
    rw [List.cons_append, closesLoops, ih, closesLoops, leavesAll, Bool.and_assoc]

theorem leaves_of_other {command : Event.Command} (other : command.steers = false)
    (marks : List Mark) : command.leaves marks = marks ∧ command.closes marks = true := by
  cases command with
  | pushDelimiter | conditionalJump | jump | loopStart | patchPending | patchJump | loopJump =>
    cases other
  | _ => exact ⟨rfl, rfl⟩

theorem leavesAll_of_others {commands : List Event.Command}
    (others : ∀ command ∈ commands, command.steers = false) (marks : List Mark) :
    leavesAll marks commands = marks ∧ closesLoops marks commands = true := by
  induction commands with
  | nil => exact ⟨rfl, rfl⟩
  | cons command rest ih =>
    obtain ⟨same, closes⟩ := leaves_of_other (others command List.mem_cons_self) marks
    obtain ⟨same', closes'⟩ := ih fun other listed => others other (List.mem_cons_of_mem _ listed)
    rw [leavesAll, closesLoops, same, closes, Bool.true_and]
    exact ⟨same', closes'⟩

end Event.Command

/-- A mark says what an entry is. -/
inductive Mark.Fits : Pending → Mark → Prop where
  | delimiter : Fits .delimiter .delimiter
  | jump (index : Int) : Fits (.jump index) .jump
  | head (index : Int) : Fits (.jump index) .head

def Mark.Waits (pending : List Pending) (marks : List Mark) (place : Nat) : Prop :=
  ∃ depth : Nat, pending[depth]? = some (.jump place) ∧ marks[depth]? = some .jump

namespace Mark.Waits

variable {pending : List Pending} {marks : List Mark} {place : Nat} {entry : Pending} {mark : Mark}

theorem cons (waits : Waits pending marks place) :
    Waits (entry :: pending) (mark :: marks) place := by
  obtain ⟨depth, found, marked⟩ := waits
  exact ⟨depth + 1, found, marked⟩

theorem cases_cons (waits : Waits (entry :: pending) (mark :: marks) place) :
    entry = .jump place ∨ Waits pending marks place := by
  obtain ⟨depth, found, marked⟩ := waits
  cases depth with
  | zero => exact .inl (Option.some.inj found)
  | succ depth => exact .inr ⟨depth, found, marked⟩

theorem eraseIdx (waits : Waits pending marks place) (taken : Nat) :
    pending[taken]? = some (.jump place) ∧ marks[taken]? = some .jump ∨
      Waits (pending.eraseIdx taken) (marks.eraseIdx taken) place := by
  obtain ⟨depth, found, marked⟩ := waits
  rcases Nat.lt_trichotomy depth taken with above | rfl | below
  · refine .inr ⟨depth, ?_, ?_⟩
    · rw [List.getElem?_eraseIdx_of_lt above, found]
    · rw [List.getElem?_eraseIdx_of_lt above, marked]
  · exact .inl ⟨found, marked⟩
  · obtain ⟨depth, rfl⟩ : ∃ before, depth = before + 1 := ⟨depth - 1, by omega⟩
    refine .inr ⟨depth, ?_, ?_⟩
    · rw [List.getElem?_eraseIdx_of_ge (by omega), found]
    · rw [List.getElem?_eraseIdx_of_ge (by omega), marked]

end Mark.Waits

theorem Mark.fits_eraseIdx {pending : List Pending} {marks : List Mark}
    (marked : List.Forall₂ Fits pending marks) (taken : Nat) :
    List.Forall₂ Fits (pending.eraseIdx taken) (marks.eraseIdx taken) := by
  induction marked generalizing taken with
  | nil => exact .nil
  | cons fits rest ih =>
    cases taken with
    | zero => exact rest
    | succ taken => exact .cons fits (ih taken)

def Instruction.Directed (instr : Instruction) : Prop :=
  instr.opcode.hasTarget = true → ∃ target, instr.result = .target target

theorem Instruction.directed_aimed (instr : Instruction) (target : Int) :
    (instr.aimed target).Directed :=
  fun _ => ⟨target, rfl⟩

theorem Opcode.hasTarget_of_isPlain {opcode : Opcode} (plain : opcode.isPlain = true) :
    opcode.hasTarget = false := by
  cases opcode <;> first | rfl | cases plain

theorem Rules.Appends.directed {rules : Rules} {made : Option Scope.Class}
    {instr : Instruction} (appends : rules.Appends made instr) :
    instr.Directed := by
  intro jumps
  cases appends with
  | plain plain =>
    rw [Opcode.hasTarget_of_isPlain plain.isPlain] at jumps
    cases jumps
  | call _ start => exact ⟨start, rfl⟩
  | _ => cases jumps

namespace CodeBuffer

variable {rules : Rules} {free : Prop} {marks : List Mark} {buffer after : CodeBuffer}
  {instr : Instruction}

/-- Every jump has a target or waits for it, but for the first one as long as the program has not
started. -/
structure Awaits (free : Prop) (marks : List Mark) (buffer : CodeBuffer) : Prop where
  marked : List.Forall₂ Mark.Fits buffer.pending marks
  directed : Code.Each (fun place instr => instr.Directed ∨
    place = 0 ∧ free ∨ Mark.Waits buffer.pending marks place) buffer.code

section

variable (awaits : Awaits free marks buffer)
include awaits

theorem Awaits.emitAll {instructions : List Instruction}
    (directed : ∀ instr ∈ instructions, instr.Directed) :
    Awaits free marks (buffer.emitAll instructions) :=
  ⟨awaits.marked, awaits.directed.emitAll fun _ _ instr listed =>
    .inl (directed instr listed)⟩

theorem Awaits.emit (directed : instr.Directed) : Awaits free marks (buffer.emit instr) :=
  ⟨awaits.marked, awaits.directed.push (.inl directed)⟩

theorem Awaits.push (fits : mark.Fits entry) :
    Awaits free (mark :: marks) { buffer with pending := entry :: buffer.pending } :=
  ⟨.cons fits awaits.marked, fun place other found =>
    (awaits.directed place other found).imp_right fun held => held.imp_right .cons⟩

theorem Awaits.wait (instr : Instruction) :
    Awaits free (.jump :: marks) ((buffer.emit instr).pushPending buffer.code.size) := by
  unfold pushPending
  rw [Pending.ofIndex_natCast]
  have pushed := awaits.push (.jump (buffer.code.size : Int))
  exact ⟨pushed.marked, pushed.directed.push (.inr (.inr ⟨0, rfl, rfl⟩))⟩

/-- When an entry is taken, nothing but the instruction at its place is left without a target. -/
theorem Awaits.take {taken place : Nat} (found : buffer.pending[taken]? = some (.jump place))
    (instr : Instruction) (target : Int) :
    Awaits free (marks.eraseIdx taken)
      ⟨buffer.code.setIfInBounds place (instr.aimed target), buffer.pending.eraseIdx taken⟩ := by
  refine ⟨Mark.fits_eraseIdx awaits.marked taken, fun other changed found' => ?_⟩
  rw [Array.getElem?_setIfInBounds] at found'
  split at found'
  · split at found'
    · cases found'
      exact .inl (instr.directed_aimed target)
    · cases found'
  · rename_i different
    refine (awaits.directed other changed found').imp_right fun held => held.imp_right fun waits => ?_
    rcases waits.eraseIdx taken with ⟨same, _⟩ | waits
    · cases found.symm.trans same
      exact absurd rfl different
    · exact waits

theorem Awaits.patchPending (patched : buffer.patchPending = (.ok (), after)) :
    Awaits free (Event.Command.patchPending.leaves marks) after := by
  refine patchPending_closes
    (fun code pending => ∃ others, Awaits free others ⟨code, pending⟩ ∧
      Event.Command.patchPending.leaves others = Event.Command.patchPending.leaves marks)
    (fun code pending => Awaits free (Event.Command.patchPending.leaves marks) ⟨code, pending⟩)
    ?_ ?_ patched ⟨marks, awaits, rfl⟩
  · rintro code place instr rest ⟨others, awaits, same⟩ found
    have top : (CodeBuffer.mk code (.jump place :: rest)).pending[0]? = some (.jump place) := rfl
    have taken := awaits.take top instr code.size
    cases awaits.marked with
    | cons fits _ =>
      refine ⟨_, taken, same ▸ ?_⟩
      cases fits with
      | jump | head => rfl
  · rintro code rest ⟨others, awaits, same⟩
    rw [← same]
    cases awaits.marked with
    | cons fits marked =>
      cases fits
      refine ⟨marked, fun place instr found => ?_⟩
      refine (awaits.directed place instr found).imp_right fun held =>
        held.imp_right fun waits => ?_
      rcases waits.cases_cons with same | waits
      · cases same
      · exact waits

/-- Steering forgets no jump, if a jump back takes the head of a loop. -/
theorem Awaits.steer {command : Event.Command} (steers : command.Steers rules buffer after)
    (closes : command.closes marks = true) :
    Awaits (free ∧ command ≠ .start) (command.leaves marks) after := by
  have kept : command ≠ .start → (free ∧ command ≠ .start) = free := by
    intro other
    simp [other]
  cases steers with
  | other other =>
    rw [kept (Generator.ne_start other), (Event.Command.leaves_of_other other marks).1]
    exact awaits
  | delimiter =>
    rw [kept nofun]
    exact awaits.push .delimiter
  | branch | jump =>
    rw [kept nofun]
    exact awaits.wait _
  | head =>
    rw [kept nofun]
    unfold pushPending
    rw [Pending.ofIndex_natCast]
    exact awaits.push (.head _)
  | patchAll patched =>
    rw [kept nofun]
    exact awaits.patchPending patched
  | patchOne patched =>
    obtain ⟨taken, place, instr, rfl, found, here, rfl⟩ := patchOne_eq_ok patched
    rw [kept nofun]
    exact awaits.take found _ _
  | loop taken =>
    obtain ⟨depth, rfl, found, rfl⟩ := take_eq_ok taken
    rw [kept nofun]
    refine Awaits.emit ⟨Mark.fits_eraseIdx awaits.marked depth, fun place instr found' => ?_⟩
      fun _ => ⟨_, rfl⟩
    refine (awaits.directed place instr found').imp_right fun held =>
      held.imp_right fun waits => ?_
    -- What is taken here is marked as the head of a loop, so it is not the jump that waits.
    rcases waits.eraseIdx depth with ⟨_, marked⟩ | waits
    · cases marked.symm.trans (of_decide_eq_true closes)
    · exact waits
  | start patched =>
    obtain ⟨place, instr, same, here, rfl⟩ := Code.setTarget_eq_ok patched
    cases Int.ofNat_inj.1 same
    refine Awaits.emit ⟨awaits.marked, fun other changed found => ?_⟩ nofun
    rw [Array.getElem?_setIfInBounds] at found
    split at found
    · split at found
      · cases found
        exact .inl (instr.directed_aimed _)
      · cases found
    · rename_i different
      rcases awaits.directed other changed found with directed | ⟨rfl, _⟩ | waits
      · exact .inl directed
      · exact absurd rfl different
      · exact .inr (.inr waits)
  | exit =>
    rw [kept nofun]
    exact awaits.emit nofun

end

end CodeBuffer

namespace Generator

variable {capacities : Capacities} {commands : List Event.Command} {generator : Generator}

theorem Performs.awaits (performs : Performs commands (.ofCapacities capacities) generator)
    (closes : Event.Command.closesLoops [] commands = true) :
    generator.buffer.Awaits (generator.started = false) (Event.Command.leavesAll [] commands) := by
  refine (Performs.invariant (motive := fun commands generator =>
    Event.Command.closesLoops [] commands = true → generator.buffer.Awaits
      (generator.started = false) (Event.Command.leavesAll [] commands)) performs
    (admits_lax capacities commands) ?_ ?_).2 closes
  · intro _
    refine ⟨.nil, fun place instr found => .inr (.inl ⟨?_, rfl⟩)⟩
    have inside := (Array.getElem?_eq_some_iff.1 found).1
    exact Nat.lt_one_iff.1 inside
  · intro earlier command before after _ awaits _ _ advances closes
    rw [Event.Command.closesLoops_append, Bool.and_eq_true] at closes
    rw [Event.Command.leavesAll_append]
    obtain ⟨closed, here⟩ := closes
    obtain ⟨middle, appends, steers⟩ := advances.code
    obtain ⟨instructions, rfl, listed⟩ := CodeBuffer.exists_emitAll appends
    have appended := (awaits closed).emitAll fun instr present =>
      (listed instr present).directed
    have steered := appended.steer steers ((Bool.and_eq_true _ _).mp here).1
    refine ⟨steered.marked, fun place instr found => ?_⟩
    refine (steered.directed place instr found).imp_right fun held =>
      held.imp_left fun first => ⟨first.1, ?_⟩
    rcases advances.started with ⟨rfl, _⟩ | ⟨_, same⟩
    · exact absurd rfl first.2.2
    · rw [same]
      exact first.2.1

/-- When the program ends, every jump and every call has a target in it. -/
theorem Performs.targetsInside
    (performs : Performs (commands ++ [.exit]) (.ofCapacities capacities) generator)
    (closes : Event.Command.closesLoops [] commands = true) :
    generator.buffer.code.TargetsInside := by
  have aims := (performs.inOrder (admits_lax capacities _)).orderly.aims
  obtain ⟨before, front, last⟩ := performs_append.1 performs
  cases last with
  | cons performed rest =>
    cases rest
    obtain ⟨started, closed, rfl⟩ := gives_exit performed
    have awaits := front.awaits closes
    have directed : Code.Each (fun _ => Instruction.Directed) before.buffer.code := by
      intro place instr found
      rcases awaits.directed place instr found with directed | ⟨_, early⟩ | ⟨depth, waits, _⟩
      · exact directed
      · rw [started] at early
        cases early
      · rw [closed] at waits
        cases waits
    have whole : Code.Each (fun _ => Instruction.Directed)
        (before.buffer.code.push { opcode := .exit }) := directed.push nofun
    intro place instr found jumps
    obtain ⟨target, result⟩ := whole place instr found jumps
    obtain ⟨index, rfl, inside, _⟩ := aims place instr target found result
    refine ⟨index, ?_, inside⟩
    rw [Instruction.target?, result]
    exact if_pos jumps

end Generator

/-! ### Transcripts -/

theorem NativeSignature.steers_commands {signature : Generator.NativeSignature}
    {command : Event.Command} (listed : command ∈ signature.commands) : command.steers = false := by
  rcases List.mem_append.1 listed with listed | listed
  · rcases List.mem_cons.1 listed with rfl | listed
    · rfl
    · obtain ⟨_, _, rfl⟩ := List.mem_map.1 listed
      rfl
  · cases List.mem_singleton.1 listed
    rfl

def Event.Command.declares (name : String) : Event.Command → Bool
  | declareVariable declared _ _ | declareObject declared _ => declared == name
  | _ => false

def Event.Command.isWellNamed : Event.Command → Bool
  | declareClass name => name ≠ ""
  | command => !command.declares Scope.receiverName

namespace Transcript

variable {transcript : Transcript} {commands : List Event.Command}

def closesLoops (transcript : Transcript) : Bool :=
  Event.Command.closesLoops [] transcript.told

/-- No class is nameless, and no field has the name under which methods know their object. -/
structure WellNamed (transcript : Transcript) (capacities : Capacities) : Prop where
  classes : ∀ name, .declareClass name ∈ transcript.told → name ≠ ""
  fields : ∀ earlier command later before, transcript.Asks (earlier ++ command :: later) →
    Generator.Performs earlier (.ofCapacities capacities) before →
    command.declares Scope.receiverName = true → before.tree.memberClass? = none

/-- The last event ends the program. -/
def Finished (transcript : Transcript) : Prop :=
  ∃ earlier last, transcript.events = earlier ++ [last] ∧ Event.command last = .ok .exit

theorem Asks.told_others (asks : transcript.Asks commands) : ∃ declared,
    commands = declared ++ transcript.told ∧ ∀ command ∈ declared, command.steers = false := by
  refine ⟨_, asks.told, fun command listed => ?_⟩
  split at listed
  · obtain ⟨signature, _, listed⟩ := List.mem_flatMap.1 listed
    exact NativeSignature.steers_commands listed
  · cases listed

/-- A finished transcript asks for the end of the program last. -/
theorem Asks.finished (asks : transcript.Asks commands) (finished : transcript.Finished)
    (loops : transcript.closesLoops = true) : ∃ earlier, commands = earlier ++ [.exit] ∧
      Event.Command.closesLoops [] earlier = true := by
  obtain ⟨declared, rfl, others⟩ := asks.told_others
  obtain ⟨earlier, last, events, ends⟩ := finished
  have told : transcript.told = earlier.filterMap (fun event => (Event.command event).toOption) ++
      [.exit] := by
    rw [Transcript.told, events, List.filterMap_append, List.filterMap_cons, ends]
    rfl
  obtain ⟨none, closed⟩ := Event.Command.leavesAll_of_others others []
  unfold closesLoops at loops
  rw [told, Event.Command.closesLoops_append, Bool.and_eq_true] at loops
  refine ⟨declared ++ earlier.filterMap fun event => (Event.command event).toOption, ?_, ?_⟩
  · rw [told, List.append_assoc]
  · rw [Event.Command.closesLoops_append, none, closed, loops.1]
    rfl

theorem targetsInside_of_compile {capacities : Capacities} {code : Code} (finished : transcript.Finished)
    (loops : transcript.closesLoops = true) (compiled : transcript.compile capacities = .ok code) :
    code.TargetsInside := by
  obtain ⟨commands, generator, asks, performs, rfl⟩ := compile_performs compiled
  obtain ⟨earlier, rfl, closes⟩ := asks.finished finished loops
  exact performs.targetsInside closes

theorem WellNamed.admits {rules : Rules} (named : transcript.WellNamed rules.capacities)
    (asks : transcript.Asks commands) (hosts : ∀ name returns, rules.hosts name returns) :
    Generator.Admits rules commands := by
  refine asks.admits (fun _ _ => hosts _ _) fun earlier command later before whole reached told => ?_
  subst whole
  have outside := named.fields earlier command later before asks reached
  cases command with
  | declareVariable name | declareObject name =>
    by_cases same : name = Scope.receiverName
    · exact .inl (outside (beq_iff_eq.2 same))
    · exact .inr (.inr same)
  | declareClass name => exact .inr (named.classes name told)
  | declareNative name returns => exact hosts name returns
  | _ => exact trivial

theorem Asks.told_of_declares {command : Event.Command} {name : String}
    (asks : transcript.Asks commands) (listed : command ∈ commands)
    (declares : command.declares name = true) : command ∈ transcript.told := by
  rw [asks.told] at listed
  refine (List.mem_append.1 listed).resolve_left fun declared => ?_
  split at declared
  · obtain ⟨signature, _, listed⟩ := List.mem_flatMap.1 declared
    rcases List.mem_append.1 listed with listed | listed
    · rcases List.mem_cons.1 listed with rfl | listed
      · cases declares
      · obtain ⟨_, _, rfl⟩ := List.mem_map.1 listed
        cases declares
    · cases List.mem_singleton.1 listed
      cases declares
  · cases declared

theorem wellNamed_of_isWellNamed (capacities : Capacities)
    (named : transcript.told.all Event.Command.isWellNamed = true) :
    transcript.WellNamed capacities := by
  rw [List.all_eq_true] at named
  constructor
  · exact fun name listed => of_decide_eq_true (named _ listed)
  · intro earlier command later before asks _ declares
    have well := named command (asks.told_of_declares
      (List.mem_append_right _ List.mem_cons_self) declares)
    cases command with
    | declareVariable | declareObject =>
      have hides : (!true) = true := declares ▸ well
      cases hides
    | _ => cases declares

end Transcript

end Quadruple
