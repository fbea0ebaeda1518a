import Quadruple.Proofs.Patching

/-!
What happens to an instruction once it has been emitted. Its opcode and its operands stay. Its result can
only become a target, where a patch aims: at the first instruction, at a jump that waits, or at the head
of a loop, which waits on the same stack as the jumps do. Whatever stands at such a head is aimed as if
it were a jump.
-/

namespace Quadruple

/-! ### Aiming waiting jumps -/

namespace CodeBuffer

variable {code : Code} {place : Nat}

/-- The places of the entries down to the nearest delimiter or the first one without an instruction. -/
def aimedAll (size : Nat) : List Pending → List Nat
  | .jump index :: rest =>
    if 0 ≤ index ∧ index < size then index.toNat :: aimedAll size rest else []
  | _ => []

theorem aimedAll_cons {size : Nat} (inside : place < size) (rest : List Pending) :
    aimedAll size (.jump place :: rest) = place :: aimedAll size rest := by
  rw [aimedAll, if_pos (by omega), Int.toNat_natCast]

theorem mem_of_aimedAll {size : Nat} {pending : List Pending} (aimed : place ∈ aimedAll size pending) :
    .jump place ∈ pending := by
  induction pending with
  | nil => cases aimed
  | cons entry rest ih =>
    cases entry with
    | delimiter => cases aimed
    | jump index =>
      rw [aimedAll] at aimed
      split at aimed
      · rcases List.mem_cons.1 aimed with rfl | further
        · rw [Int.toNat_of_nonneg (by omega)]
          exact List.mem_cons_self
        · exact List.mem_cons_of_mem _ (ih further)
      · cases aimed

/-- Entries get their target down to the nearest delimiter, or down to the end for want of one, unless there
is no instruction for one of them. -/
theorem patchAll_aims (code : Code) (pending : List Pending) : ∃ patched rest,
    code.Aims (aimedAll code.size pending) code.size patched ∧ rest <:+ pending ∧
    (patchAll code pending).2 = ⟨patched, rest⟩ ∧
    ((∀ index : Int, .jump index ∈ pending → 0 ≤ index ∧ index < code.size) →
      pending = (aimedAll code.size pending).map (fun place => .jump place) ∧
          (patchAll code pending).1 = .error .noDelimiter ∨
        pending = (aimedAll code.size pending).map (fun place => .jump place) ++ .delimiter :: rest ∧
          (patchAll code pending).1 = .ok ()) := by
  induction pending generalizing code with
  | nil => exact ⟨code, [], code.aims_nil _, List.suffix_rfl, rfl, fun _ => .inl ⟨rfl, rfl⟩⟩
  | cons entry rest ih =>
    cases entry with
    | delimiter => exact ⟨code, rest, code.aims_nil _, List.suffix_cons .., rfl, fun _ => .inr ⟨rfl, rfl⟩⟩
    | jump index =>
      simp only [patchAll]
      split
      · rename_i set
        obtain ⟨place, instr, rfl, found, rfl⟩ := Code.setTarget_eq_ok set
        obtain ⟨patched, left, aims, fewer, done, further⟩ :=
          ih (code.setIfInBounds place (instr.aimed code.size))
        rw [Array.size_setIfInBounds] at aims further
        rw [aimedAll_cons (Array.getElem?_eq_some_iff.1 found).1]
        refine ⟨patched, left, (Code.aims_set found _).cons aims, fewer.trans (List.suffix_cons ..), done,
          fun covers => ?_⟩
        rcases further fun other listed => covers other (List.mem_cons_of_mem _ listed) with
          ⟨waits, failed⟩ | ⟨waits, closed⟩
        · exact .inl ⟨congrArg (.jump place :: ·) waits, failed⟩
        · exact .inr ⟨congrArg (.jump place :: ·) waits, closed⟩
      · rename_i failed
        have outside : ¬(0 ≤ index ∧ index < code.size) := by
          rintro ⟨least, inside⟩
          obtain ⟨place, rfl⟩ := Int.eq_ofNat_of_zero_le least
          have found := Array.getElem?_eq_getElem (Int.ofNat_lt.1 inside)
          cases (Code.setTarget_found found _).symm.trans failed
        rw [aimedAll, if_neg outside]
        exact ⟨code, rest, code.aims_nil _, List.suffix_cons .., rfl,
          fun covers => absurd (covers index List.mem_cons_self) outside⟩

end CodeBuffer

namespace Event.Command

open CodeBuffer

/-- The places whose instructions a command lets continue elsewhere. -/
def aims (buffer : CodeBuffer) : Event.Command → List Nat
  | patchPending => aimedAll buffer.code.size buffer.pending
  | patchJump depth =>
    match buffer.take depth with
    | .ok (index, _) => aimedAll buffer.code.size [.jump index]
    | .error _ => []
  | start => [0]
  | _ => []

def marks (buffer : CodeBuffer) : Event.Command → List Nat
  | loopStart => [buffer.code.size]
  | _ => []

/-- What a command can do to the code, whether it succeeds or not: instructions stay, up to the target
that those get at which it aims, and what waits afterwards is a jump or the head of a loop. -/
structure Completes (command : Event.Command) (before after : CodeBuffer) : Prop where
  code : ∀ (place : Nat) (instr : Instruction), before.code[place]? = some instr →
    ∃ kept, after.code[place]? = some kept ∧ (kept = instr ∨
      place ∈ command.aims before ∧ kept = instr.aimed before.code.size)
  pending : ∀ index, .jump index ∈ after.pending → .jump index ∈ before.pending ∨
    ∃ place : Nat, index = place ∧ (place ∈ command.marks before ∨
      ∃ instr, after.code[place]? = some instr ∧ instr.opcode.isJump = true)

variable {command : Event.Command} {before after : CodeBuffer}

theorem Completes.refl (command : Event.Command) (buffer : CodeBuffer) :
    command.Completes buffer buffer :=
  ⟨fun _ instr found => ⟨instr, found, .inl rfl⟩, fun _ waits => .inl waits⟩

theorem Completes.of_aims (aims : before.code.Aims (command.aims before) before.code.size after.code)
    (fewer : ∀ entry ∈ after.pending, entry ∈ before.pending) : command.Completes before after := by
  refine ⟨fun place instr found => ?_, fun index waits => .inl (fewer _ waits)⟩
  have present := aims place
  rw [found, Option.map_some] at present
  refine ⟨_, present, ?_⟩
  split
  · rename_i aimed
    exact .inr ⟨aimed, rfl⟩
  · exact .inl rfl

section

variable (completes : command.Completes before after)
include completes

theorem Completes.emit (instr : Instruction) : command.Completes before (after.emit instr) := by
  have stays {place : Nat} {other : Instruction} (found : after.code[place]? = some other) :
      (after.code.push instr)[place]? = some other := by
    have inside := (Array.getElem?_eq_some_iff.1 found).1
    rw [Array.getElem?_push, if_neg (Nat.ne_of_lt inside), found]
  refine ⟨fun place other found => ?_, fun index waits => ?_⟩
  · obtain ⟨kept, present, changed⟩ := completes.code place other found
    exact ⟨kept, stays present, changed⟩
  · rcases completes.pending index waits with old | ⟨place, same, marked | ⟨jump, present, jumps⟩⟩
    · exact .inl old
    · exact .inr ⟨place, same, .inl marked⟩
    · exact .inr ⟨place, same, .inr ⟨jump, stays present, jumps⟩⟩

theorem Completes.emitWaiting {jump : Instruction} (jumps : jump.opcode.isJump = true) :
    command.Completes before ((after.emit jump).pushPending after.code.size) := by
  have emitted := completes.emit jump
  refine ⟨emitted.code, fun index waits => ?_⟩
  rcases List.mem_cons.1 waits with new | old
  · rw [Pending.ofIndex_natCast] at new
    cases new
    refine .inr ⟨after.code.size, rfl, .inr ⟨jump, ?_, jumps⟩⟩
    exact Array.getElem?_push_size
  · exact emitted.pending index old

theorem Completes.size_le : before.code.size ≤ after.code.size := by
  by_cases none_ : before.code.size = 0
  · omega
  · have last : before.code.size - 1 < before.code.size := by omega
    obtain ⟨_, present, _⟩ := completes.code _ _ (Array.getElem?_eq_getElem last)
    have inside := (Array.getElem?_eq_some_iff.1 present).1
    omega

end

end Event.Command

namespace Generator

open Event (Command)

/-- To complete the code, also by an operation that fails. -/
def completing (command : Command) (base : CodeBuffer) : Terms :=
  .keeping (fun generator => command.Completes base generator.buffer) True

theorem steady_completing (command : Command) (base : CodeBuffer) :
    Steady (completing command base) False (.lax {}) none none :=
  steady_untouched (fun _ instr completes => completes.emit instr) (fun _ _ _ _ _ completes _ => completes)
    (fun _ _ completes => completes) (fun _ _ _ completes => completes)
    (.inl fun _ completes => ⟨fun _ => trivial, completes⟩)
    (.inl fun _ completes => ⟨fun _ => trivial, completes⟩)

def Conforms {α : Type} (command : Command) (base : CodeBuffer) (action : Action α) : Prop :=
  Survives (completing command base) action

section

variable {command : Command} {base : CodeBuffer}

theorem conforms_onTree {α : Type} (operation : Scope.Tree → Except Scope.Error (α × Scope.Tree)) :
    Conforms command base (onTree operation) :=
  keeps_onTree fun _ _ _ completes _ => ⟨trivial, completes⟩

theorem conforms_setTree (change : Scope.Tree → Scope.Tree) :
    Conforms command base (setTree change) :=
  keeps_modify fun _ completes => completes

theorem conforms_openFunction (name : String) (returns : DataType) (start : Int) :
    Conforms command base (openFunction name returns start) :=
  keeps_openFunction fun _ completes => completes

theorem conforms_declareNative (name : String) (returns : DataType) :
    Conforms command base (declareNative name returns) := by
  refine keeps_bind keeps_get fun _ _ => ?_
  split
  · exact keeps_fail
  · exact keeps_bind (conforms_openFunction _ _ _) fun _ _ => conforms_setTree _

theorem conforms_declareArgument (name : String) (type : DataType) (dimensions : List Int) :
    Conforms command base (declareArgument name type dimensions) :=
  keeps_declareArgument (conforms_onTree _)

theorem conforms_closeFunction : Conforms command base closeFunction :=
  (steady_completing command base).keeps_closeFunction
    (keeps_bind (conforms_onTree _) fun _ _ => conforms_setTree _)

theorem conforms_declareStandardNatives : Conforms command base declareStandardNatives :=
  keeps_declareStandardNatives conforms_declareNative
    (fun name type => conforms_declareArgument name type []) conforms_closeFunction

theorem conforms_waiting {jump : Instruction} (jumps : jump.opcode.isJump = true) :
    Conforms command base (do pushPending (← emit jump)) :=
  fun _ completes => ⟨trivial, completes.emitWaiting jumps⟩

end

/-! ### Commands that aim -/

theorem completes_patchPending (buffer : CodeBuffer) :
    Command.patchPending.Completes buffer buffer.patchPending.2 := by
  obtain ⟨patched, rest, aims, fewer, done, _⟩ := CodeBuffer.patchAll_aims buffer.code buffer.pending
  rw [CodeBuffer.patchPending, done]
  exact .of_aims aims fun _ waits => fewer.subset waits

theorem completes_patchOne (buffer : CodeBuffer) (depth : Int) :
    (Command.patchJump depth).Completes buffer (buffer.patchOne depth).2 := by
  unfold CodeBuffer.patchOne
  split
  · exact .refl _ buffer
  · rename_i index rest taken
    obtain ⟨below, rfl, waits, rfl⟩ := CodeBuffer.take_eq_ok taken
    split
    · rename_i aimed
      obtain ⟨there, other, rfl, here, rfl⟩ := Code.setTarget_eq_ok aimed
      refine .of_aims ?_ fun _ => List.mem_of_mem_eraseIdx
      simp only [Command.aims, taken, CodeBuffer.aimedAll_cons (Array.getElem?_eq_some_iff.1 here).1]
      exact Code.aims_set here _
    · exact ⟨fun _ instr found => ⟨instr, found, .inl rfl⟩,
        fun index waits => .inl (List.mem_of_mem_eraseIdx waits)⟩

theorem completes_loopJump (generator : Generator) (depth : Int) :
    (Command.loopJump depth).Completes generator.buffer
      (generator.attempt (loopJump depth)).2.buffer := by
  unfold attempt loopJump
  rw [run_get_bind]
  split
  · exact .refl _ _
  · rename_i head rest taken
    obtain ⟨below, rfl, _, rfl⟩ := CodeBuffer.take_eq_ok taken
    have left : (Command.loopJump below).Completes generator.buffer
        { generator.buffer with pending := generator.buffer.pending.eraseIdx below } :=
      ⟨fun _ instr found => ⟨instr, found, .inl rfl⟩,
        fun _ waits => .inl (List.mem_of_mem_eraseIdx waits)⟩
    exact left.emit _

theorem completes_start (generator : Generator) :
    Command.start.Completes generator.buffer (generator.attempt start).2.buffer := by
  unfold attempt start
  rw [run_get_bind]
  simp only
  split
  · exact .refl _ _
  split
  · exact .refl _ _
  rw [run_modify_bind, run_bind, run_onBuffer]
  cases aimed : Code.setTarget generator.buffer.code 0 generator.buffer.code.size with
  | error => exact .refl _ _
  | ok code =>
    obtain ⟨there, other, zero, here, rfl⟩ := Code.setTarget_eq_ok aimed
    have first : there = 0 := by omega
    subst first
    have leads : Command.start.Completes generator.buffer { generator.buffer with
        code := generator.buffer.code.setIfInBounds 0 (other.aimed generator.buffer.code.size) } :=
      .of_aims (Code.aims_set here _) fun _ waits => waits
    exact leads.emit _

theorem completes_pushDelimiter (buffer : CodeBuffer) :
    Command.pushDelimiter.Completes buffer buffer.pushDelimiter := by
  refine ⟨fun _ instr found => ⟨instr, found, .inl rfl⟩, fun index waits => .inl ?_⟩
  rcases List.mem_cons.1 waits with new | old
  · cases new
  · exact old

theorem completes_loopStart (buffer : CodeBuffer) :
    Command.loopStart.Completes buffer (buffer.pushPending buffer.code.size) := by
  refine ⟨fun _ instr found => ⟨instr, found, .inl rfl⟩, fun index waits => ?_⟩
  rcases List.mem_cons.1 waits with new | old
  · rw [Pending.ofIndex_natCast] at new
    cases new
    exact .inr ⟨buffer.code.size, rfl, .inl List.mem_cons_self⟩
  · exact .inl old

theorem completes_perform (generator : Generator) (command : Command) :
    command.Completes generator.buffer (generator.attempt command.perform).2.buffer := by
  have steady := steady_completing command generator.buffer
  have onward {action : Action Unit} (conforms : Conforms command generator.buffer action) :
      command.Completes generator.buffer (generator.attempt action).2.buffer :=
    Keeps.after conforms (.refl command generator.buffer)
  cases command with
  | constant value => exact onward (steady.keeps_constant value)
  | identifier name => exact onward (steady.keeps_identifier name)
  | member name => exact onward (steady.keeps_memberContext name)
  | clearContext => exact onward steady.keeps_forgetContext
  | «variable» indices => exact onward (steady.keeps_variableOperand indices)
  | call => exact onward steady.keeps_call
  | operator opcode => exact onward (steady.keeps_operator opcode)
  | assign opcode => exact onward (steady.keeps_assign opcode)
  | expression => exact onward steady.keeps_expressionStatement
  | declareVariable | declareObject | declareObjectArgument =>
    exact onward (keeps_bind (conforms_onTree _) fun _ _ => keeps_pure trivial)
  | declareArgument => exact onward (conforms_declareArgument _ _ _)
  | declareFunction =>
    exact onward (keeps_bind keeps_get fun _ _ =>
      keeps_bind (conforms_openFunction _ _ _) fun _ _ => keeps_pure trivial)
  | declareNative => exact onward (conforms_declareNative _ _)
  | closeFunction => exact onward conforms_closeFunction
  | declareClass | closeClass =>
    rw [Command.perform]
    exact onward (conforms_onTree _)
  | newObject => exact onward steady.keeps_newObject
  | returnValue => exact onward (steady.keeps_returnValue fun _ completes => ⟨fun _ => trivial, completes⟩)
  | pushScope | popScope => exact onward (conforms_setTree _)
  | pushDelimiter => exact completes_pushDelimiter generator.buffer
  | patchPending =>
    rw [attempt, Command.perform, patchPending, run_onBuffer]
    exact completes_patchPending generator.buffer
  | conditionalJump => exact onward (steady.keeps_conditionalJump fun _ => conforms_waiting rfl)
  | jump => exact onward (conforms_waiting rfl)
  | patchJump depth =>
    rw [attempt, Command.perform, patchJump, run_onBuffer]
    exact completes_patchOne generator.buffer depth
  | loopStart => exact completes_loopStart generator.buffer
  | loopJump depth => exact completes_loopJump generator depth
  | start => exact completes_start generator
  | exit => exact onward steady.keeps_exit

/-! ### Sequences of commands -/

/-- What commands are read to name, each in the state in which it is performed. -/
def gather (read : CodeBuffer → Command → List Nat) (generator : Generator) : List Command → List Nat
  | [] => []
  | command :: rest =>
    read generator.buffer command ++ gather read (generator.attempt command.perform).2 rest

/-- The places that commands keep as heads of loops. -/
def heads (generator : Generator) (commands : List Command) : List Nat :=
  generator.gather Command.marks commands

def aims (generator : Generator) (commands : List Command) : List Nat :=
  generator.gather Command.aims commands

theorem heads_append (generator : Generator) (earlier later : List Command) :
    generator.heads (earlier ++ later) =
      generator.heads earlier ++ (generator.after earlier).heads later := by
  induction earlier generalizing generator with
  | nil => rfl
  | cons command earlier ih =>
    have further := ih (generator.attempt command.perform).2
    simp only [heads] at further ⊢
    rw [List.cons_append, gather, gather, further, List.append_assoc]
    rfl

/-- Only jumps wait, and what stands at given places. -/
structure Awaits (places : List Nat) (buffer : CodeBuffer) : Prop where
  first : ∃ instr, buffer.code[0]? = some instr ∧ instr.opcode.isJump = true
  pending : ∀ index, .jump index ∈ buffer.pending → ∃ place : Nat, index = place ∧
    (place ∈ places ∨
      ∃ instr, buffer.code[place]? = some instr ∧ instr.opcode.isJump = true)

section

variable {places : List Nat} {command : Command} {before after : CodeBuffer} {place : Nat}
  {instr : Instruction}

theorem jumps_of_completes (completes : command.Completes before after)
    (found : ∃ instr, before.code[place]? = some instr ∧ instr.opcode.isJump = true) :
    ∃ instr, after.code[place]? = some instr ∧ instr.opcode.isJump = true := by
  obtain ⟨instr, present, jumps⟩ := found
  obtain ⟨kept, here, rfl | ⟨_, rfl⟩⟩ := completes.code place instr present <;>
    exact ⟨_, here, jumps⟩

theorem Awaits.step (awaits : Awaits places before) (completes : command.Completes before after) :
    Awaits (places ++ command.marks before) after := by
  refine ⟨jumps_of_completes completes awaits.first, fun index waits => ?_⟩
  rcases completes.pending index waits with old | ⟨place, same, marked | jumps⟩
  · obtain ⟨place, same, listed | jumps⟩ := awaits.pending index old
    · exact ⟨place, same, .inl (List.mem_append_left _ listed)⟩
    · exact ⟨place, same, .inr (jumps_of_completes completes jumps)⟩
  · exact ⟨place, same, .inl (List.mem_append_right _ marked)⟩
  · exact ⟨place, same, .inr jumps⟩

/-- A command aims at nothing but jumps and the places that are awaited. -/
theorem Awaits.aimed (awaits : Awaits places before) (aimed : place ∈ command.aims before)
    (found : before.code[place]? = some instr) :
    instr.opcode.isJump = true ∨ place ∈ places := by
  have waiting (waits : .jump place ∈ before.pending) :
      instr.opcode.isJump = true ∨ place ∈ places := by
    obtain ⟨there, same, listed⟩ := awaits.pending place waits
    have same : place = there := by omega
    subst same
    rcases listed with listed | ⟨other, present, jumps⟩
    · exact .inr listed
    · cases found.symm.trans present
      exact .inl jumps
  cases command with
  | patchPending => exact waiting (CodeBuffer.mem_of_aimedAll aimed)
  | patchJump depth =>
    simp only [Command.aims] at aimed
    split at aimed
    · rename_i index rest taken
      obtain ⟨below, _, waits, _⟩ := CodeBuffer.take_eq_ok taken
      cases List.mem_singleton.1 (CodeBuffer.mem_of_aimedAll aimed)
      exact waiting (List.mem_of_getElem? waits)
    · cases aimed
  | start =>
    cases List.mem_singleton.1 aimed
    obtain ⟨other, present, jumps⟩ := awaits.first
    cases found.symm.trans present
    exact .inl jumps
  | _ => cases aimed

end

theorem awaits_after {places : List Nat} {generator : Generator} (commands : List Command)
    (awaits : Awaits places generator.buffer) :
    Awaits (places ++ generator.heads commands) (generator.after commands).buffer := by
  induction commands generalizing generator places with
  | nil =>
    rw [heads, gather, List.append_nil]
    exact awaits
  | cons command commands ih =>
    have further := ih (awaits.step (completes_perform generator command))
    rw [List.append_assoc] at further
    exact further

theorem size_le_after (generator : Generator) (commands : List Command) :
    generator.buffer.code.size ≤ (generator.after commands).buffer.code.size := by
  induction commands generalizing generator with
  | nil => exact Nat.le_refl _
  | cons command commands ih =>
    exact Nat.le_trans (completes_perform generator command).size_le (ih _)

theorem awaits_fresh (capacities : Capacities) (natives : Bool) :
    Awaits [] (fresh capacities natives).buffer := by
  have start : Awaits [] (ofCapacities capacities).buffer :=
    ⟨⟨_, rfl, rfl⟩, nofun⟩
  unfold fresh
  split
  · exact start.step (Keeps.after conforms_declareStandardNatives (.refl .expression _))
  · exact start

theorem kept_after {places : List Nat} {generator : Generator} (commands : List Command)
    (awaits : Awaits places generator.buffer) {place : Nat} {instr : Instruction}
    (found : generator.buffer.code[place]? = some instr) :
    ∃ kept, (generator.after commands).buffer.code[place]? = some kept ∧
      kept.opcode = instr.opcode ∧ kept.left = instr.left ∧
      kept.right = instr.right ∧
      (kept.result = instr.result ∨ place ∈ generator.aims commands ∧
        (instr.opcode.isJump = true ∨ place ∈ places ++ generator.heads commands) ∧
        ∃ target : Nat, kept.result = .target target ∧
          target ≤ (generator.after commands).buffer.code.size) := by
  induction commands generalizing generator places instr with
  | nil => exact ⟨instr, found, rfl, rfl, rfl, .inl rfl⟩
  | cons command commands ih =>
    have completes := completes_perform generator command
    obtain ⟨once, present, changed⟩ := completes.code place instr found
    have same : once.opcode = instr.opcode ∧ once.left = instr.left ∧
        once.right = instr.right := by
      rcases changed with rfl | ⟨_, rfl⟩ <;> exact ⟨rfl, rfl, rfl⟩
    obtain ⟨kept, here, opcode, left, right, outcome⟩ := ih (awaits.step completes) present
    refine ⟨kept, here, opcode.trans same.1, left.trans same.2.1, right.trans same.2.2, ?_⟩
    rcases outcome with unchanged | ⟨aimed, allowed, target⟩
    · rcases changed with rfl | ⟨aimed, rfl⟩
      · exact .inl unchanged
      · refine .inr ⟨List.mem_append_left _ aimed, ?_, generator.buffer.code.size, unchanged, ?_⟩
        · exact (awaits.aimed aimed found).imp_right (List.mem_append_left _)
        · exact Nat.le_trans completes.size_le (size_le_after _ commands)
    · refine .inr ⟨List.mem_append_right _ aimed, ?_, target⟩
      rw [same.1, List.append_assoc] at allowed
      exact allowed

/-- An emitted instruction keeps its opcode and its operands. Its result changes only where a later
command aims, which is at a jump or at the head of a loop, and only to a target within the code. -/
theorem result_changes_where_aimed (capacities : Capacities) (natives : Bool)
    (earlier later : List Command) (place : Nat) (instruction : Instruction)
    (emitted : ((fresh capacities natives).after earlier).buffer.code[place]? = some instruction) :
    ∃ kept, ((fresh capacities natives).after (earlier ++ later)).buffer.code[place]? = some kept ∧
      kept.opcode = instruction.opcode ∧ kept.left = instruction.left ∧
      kept.right = instruction.right ∧
      (kept.result = instruction.result ∨
        place ∈ ((fresh capacities natives).after earlier).aims later ∧
        (instruction.opcode.isJump = true ∨
          place ∈ (fresh capacities natives).heads (earlier ++ later)) ∧
        ∃ target : Nat, kept.result = .target target ∧
          target ≤ ((fresh capacities natives).after (earlier ++ later)).buffer.code.size) := by
  have awaits := awaits_after earlier (awaits_fresh capacities natives)
  rw [List.nil_append] at awaits
  rw [after_append, heads_append]
  exact kept_after later awaits emitted

/-- A jump over a constant is aimed. -/
theorem jump_over_constant_aimed :
    ((fresh {} false).after [.jump]).buffer.code[1]? = some { opcode := .goto } ∧
      ((fresh {} false).after [.jump, .constant (.int 5), .patchJump 0]).buffer.code[1]? =
        some { opcode := .goto, result := .target 3 } ∧
      1 ∈ ((fresh {} false).after [.jump]).aims [.constant (.int 5), .patchJump 0] := by
  obtain ⟨kept, here, _, _, _, outcome⟩ := result_changes_where_aimed {} false [.jump]
    [.constant (.int 5), .patchJump 0] 1 { opcode := .goto } rfl
  have aimed : ((fresh {} false).after [.jump, .constant (.int 5), .patchJump 0]).buffer.code[1]? =
    some { opcode := .goto, result := .target 3 } := rfl
  cases here.symm.trans aimed
  rcases outcome with unchanged | changed
  · cases unchanged
  · exact ⟨rfl, aimed, changed.1⟩

/-- A literal that is loaded at the head of a loop loses the cell that it is loaded into. -/
theorem load_at_head_aimed :
    ((fresh {} false).after [.loopStart, .constant (.int 5)]).buffer.code[1]? =
        some ⟨.load, .literal (.int 5), .none, .address ⟨.temps, .int, false, 0⟩⟩ ∧
      ((fresh {} false).after [.loopStart, .constant (.int 5), .patchJump 0]).buffer.code[1]? =
        some ⟨.load, .literal (.int 5), .none, .target 2⟩ :=
  ⟨rfl, rfl⟩

end Generator

end Quadruple
