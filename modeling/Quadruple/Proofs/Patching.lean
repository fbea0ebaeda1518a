import Quadruple.Proofs.Commands

/-!
Targets that are filled in later. Whatever an event does, an instruction of the code is one that was
emitted there, up to a target that it may have got since; so a property of single instructions that
does not depend on targets need only be checked where instructions are emitted.
-/

namespace Quadruple

def Instruction.aimed (instr : Instruction) (target : Int) : Instruction :=
  { instr with result := .target target }

theorem Code.setTarget_eq_ok {code after : Code} {index target : Int}
    (patched : Code.setTarget code index target = .ok after) :
    ∃ (place : Nat) (instr : Instruction), index = place ∧ code[place]? = some instr ∧
      after = code.setIfInBounds place (instr.aimed target) := by
  unfold Code.setTarget Code.set Code.at? at patched
  by_cases inside : 0 ≤ index
  · rw [if_pos inside] at patched
    cases found : code[index.toNat]? with
    | none =>
      rw [found] at patched
      cases patched
    | some instr =>
      rw [found] at patched
      cases patched
      exact ⟨index.toNat, instr, (Int.toNat_of_nonneg inside).symm, found, rfl⟩
  · rw [if_neg inside] at patched
    cases patched

namespace Code

variable {code between after : Code} {place : Nat} {places : List Nat} {instr : Instruction} {target : Int}

theorem setTarget_found (found : code[place]? = some instr) (target : Int) :
    Code.setTarget code place target = .ok (code.setIfInBounds place (instr.aimed target)) := by
  simp [Code.setTarget, Code.set, Code.at?, found, Instruction.set?, Instruction.aimed]

/-- The code has got a target at the given places and has not changed elsewhere. -/
def Aims (code : Code) (places : List Nat) (target : Int) (after : Code) : Prop :=
  ∀ place : Nat, after[place]? = code[place]?.map fun instr =>
    if place ∈ places then instr.aimed target else instr

theorem aims_nil (code : Code) (target : Int) : code.Aims [] target code :=
  fun place => by simp

theorem aims_set (found : code[place]? = some instr) (target : Int) :
    code.Aims [place] target (code.setIfInBounds place (instr.aimed target)) := by
  intro other
  rw [Array.getElem?_setIfInBounds]
  by_cases here : place = other
  · subst here
    rw [if_pos rfl, if_pos (Array.getElem?_eq_some_iff.1 found).1, found]
    simp
  · simp [here, Ne.symm here]

theorem Aims.cons (first : code.Aims [place] target between) (rest : between.Aims places target after) :
    code.Aims (place :: places) target after := by
  intro other
  rw [rest other, first other, Option.map_map]
  congr 1
  funext instr
  by_cases here : other = place <;> by_cases further : other ∈ places <;>
    simp [here, further, Instruction.aimed]

end Code

namespace CodeBuffer

variable {buffer after : CodeBuffer}

theorem take_eq_ok {depth index : Int} (taken : buffer.take depth = .ok (index, after)) :
    ∃ place : Nat, depth = place ∧ buffer.pending[place]? = some (.jump index) ∧
      after = { buffer with pending := buffer.pending.eraseIdx place } := by
  unfold take at taken
  split at taken
  · cases taken
  · rename_i inside
    split at taken
    · cases taken
    · cases taken
    · rename_i found
      cases taken
      exact ⟨depth.toNat, by omega, found, rfl⟩

theorem patchOne_eq_ok {depth : Int} (patched : buffer.patchOne depth = (.ok (), after)) :
    ∃ (place index : Nat) (instr : Instruction), depth = place ∧
      buffer.pending[place]? = some (.jump index) ∧ buffer.code[index]? = some instr ∧
      after = ⟨buffer.code.setIfInBounds index (instr.aimed buffer.code.size),
        buffer.pending.eraseIdx place⟩ := by
  unfold patchOne at patched
  split at patched
  · cases patched
  · rename_i found
    obtain ⟨place, rfl, waits, rfl⟩ := take_eq_ok found
    split at patched
    · rename_i aimed
      obtain ⟨index, instr, rfl, here, rfl⟩ := Code.setTarget_eq_ok aimed
      cases patched
      exact ⟨place, index, instr, rfl, waits, here, rfl⟩
    · cases patched

/-- What survives that one waiting jump gets its target is left when all of them have one, up to
what the delimiter below them closes. -/
theorem patchPending_closes (during closed : Code → List Pending → Prop)
    (aims : ∀ (code : Code) (place : Nat) (instr : Instruction) (rest : List Pending),
      during code (.jump place :: rest) → code[place]? = some instr →
      during (code.setIfInBounds place (instr.aimed code.size)) rest)
    (drops : ∀ code rest, during code (.delimiter :: rest) → closed code rest)
    (patched : buffer.patchPending = (.ok (), after)) (holds : during buffer.code buffer.pending) :
    closed after.code after.pending := by
  have onward : ∀ (pending : List Pending) (code : Code), during code pending →
      patchAll code pending = (.ok (), after) → closed after.code after.pending := by
    intro pending
    induction pending with
    | nil =>
      intro code _ patched
      cases patched
    | cons entry rest ih =>
      intro code holds patched
      cases entry with
      | delimiter =>
        cases patched
        exact drops code rest holds
      | jump index =>
        simp only [patchAll] at patched
        split at patched
        · rename_i aimed
          obtain ⟨place, instr, rfl, here, rfl⟩ := Code.setTarget_eq_ok aimed
          exact ih _ (aims code place instr rest holds here) patched
        · cases patched
  exact onward buffer.pending buffer.code holds patched

theorem patchPending_keeps {motive : Code → List Pending → Prop}
    (aims : ∀ (code : Code) (place : Nat) (instr : Instruction) (rest : List Pending),
      motive code (.jump place :: rest) → code[place]? = some instr →
      motive (code.setIfInBounds place (instr.aimed code.size)) rest)
    (drops : ∀ code rest, motive code (.delimiter :: rest) → motive code rest)
    (patched : buffer.patchPending = (.ok (), after)) (holds : motive buffer.code buffer.pending) :
    motive after.code after.pending :=
  patchPending_closes motive motive aims drops patched holds

end CodeBuffer

def Opcode.isPlain : Opcode → Bool
  | .load | .store | .loadElement | .storeElement | .assign | .ret => true
  | opcode => opcode.isPure

theorem Opcode.emitted_binary {opcode : Opcode} {left right type : DataType}
    (typed : opcode.binaryType? left right = some type) :
    (Generator.emitted opcode type).isPlain = true ∧ (Generator.emitted opcode type).arity = 2 := by
  unfold Generator.emitted
  by_cases divides : opcode = .div
  · rw [if_pos divides]
    split <;> exact ⟨rfl, rfl⟩
  · rw [if_neg divides]
    cases opcode <;> first | cases typed | exact ⟨rfl, rfl⟩

variable {instr : Instruction}

theorem Rules.Plain.isPlain {rules : Rules}
    (plain : rules.Plain instr) : instr.opcode.isPlain = true := by
  cases plain with
  | load | store | loadElement | storeElement | ret => rfl
  | convert converts =>
    unfold Generator.conversion? at converts
    split at converts <;> cases converts <;> rfl
  | @unary opcode _ _ typed =>
    simp only [Opcode.emitted_unary typed]
    cases opcode <;> first | cases typed | rfl
  | binary typed => exact (Opcode.emitted_binary typed).1

/-- Every form that an appended instruction can have, if objects are made of at most one class. -/
inductive Rules.Appends (rules : Rules) (made : Option Scope.Class) : Instruction → Prop where
  | plain {instr : Instruction} (plain : rules.Plain instr) :
      Appends rules made instr
  | malloc {class_ : Scope.Class} {cell : Address} (makes : made = some class_)
      (refers : rules.Refers cell) :
      Appends rules made ⟨.malloc, .literal (.int class_.size), .none, .address cell⟩
  | openRecord (name : String) : Appends rules made { opcode := .openRecord, left := .name name }
  | passing {argument : Address × Address} (typed : argument.1.type = argument.2.type)
      (reads : rules.usable argument.1) (usable : rules.usable argument.2) :
      Appends rules made (.passing argument)
  | call (name : String) (start : Int) :
      Appends rules made ⟨.call, .name name, .none, .target start⟩
  | passingHost {argument : Address} (reads : rules.usable argument) :
      Appends rules made (.passingHost argument)
  | callHost {function : Scope.Function} {result : Operand}
      (hosts : rules.hosts function.name function.returns)
      (receives : rules.Receives function result) :
      Appends rules made ⟨.nativeCall, .name function.name, .none, result⟩

/-- Every form that an emitted instruction can have: it is appended, or it steers. -/
inductive Rules.Emits (rules : Rules) (made : Option Scope.Class) : Instruction → Prop where
  | append {instr : Instruction} (appends : rules.Appends made instr) :
      Emits rules made instr
  | branch {condition : Address} (reads : rules.usable condition) :
      Emits rules made { opcode := .gotoFalse, left := .address condition }
  | jump : Emits rules made { opcode := .goto }
  | start : Emits rules made { opcode := .init }
  | exit : Emits rules made { opcode := .exit }

namespace CodeBuffer

variable {rules : Rules} {callee : Option Scope.Function} {made : Option Scope.Class}
  {buffer after : CodeBuffer}

theorem Append.appends (append : Append rules callee made buffer after) : ∃ instructions,
    after = buffer.emitAll instructions ∧
      ∀ instr ∈ instructions, rules.Appends made instr := by
  cases append with
  | @plain instr plain =>
    refine ⟨[instr], (emitAll_singleton _ _).symm, ?_⟩
    rintro _ (_ | ⟨_, ⟨⟩⟩)
    exact .plain plain
  | malloc makes refers =>
    refine ⟨_, (emitAll_singleton _ _).symm, ?_⟩
    rintro _ (_ | ⟨_, ⟨⟩⟩)
    exact .malloc makes refers
  | @call function passed calls ours passes =>
    refine ⟨_, rfl, fun instr listed => ?_⟩
    rcases List.mem_append.1 listed with listed | listed
    · rcases List.mem_cons.1 listed with rfl | listed
      · exact .openRecord function.name
      · obtain ⟨argument, present, rfl⟩ := List.mem_map.1 listed
        exact .passing (passes.typed argument present) (passes.reads argument present)
          (passes.usable argument present)
    · cases List.mem_singleton.1 listed
      exact .call function.name function.start
  | callHost calls native hosts complete reads receives =>
    refine ⟨_, rfl, fun instr listed => ?_⟩
    rcases List.mem_append.1 listed with listed | listed
    · obtain ⟨argument, present, rfl⟩ := List.mem_map.1 listed
      exact .passingHost (reads argument present)
    · cases List.mem_singleton.1 listed
      exact .callHost hosts receives

theorem exists_emitAll (appends : Relation.ReflTransGen (Append rules callee made) buffer after) :
    ∃ instructions, after = buffer.emitAll instructions ∧
      ∀ instr ∈ instructions, rules.Appends made instr := by
  induction appends with
  | refl => exact ⟨[], (emitAll_nil _).symm, fun _ listed => (nomatch listed)⟩
  | tail _ append ih =>
    obtain ⟨first, rfl, listed⟩ := ih
    obtain ⟨second, rfl, listed'⟩ := append.appends
    refine ⟨first ++ second, by simp [emitAll, Array.append_assoc], fun instr present => ?_⟩
    rcases List.mem_append.1 present with present | present
    · exact listed instr present
    · exact listed' instr present

end CodeBuffer

/-! ### Properties of single instructions -/

def Code.Each (holds : Nat → Instruction → Prop) (code : Code) : Prop :=
  ∀ (place : Nat) (instr : Instruction), code[place]? = some instr →
    holds place instr

namespace Code.Each

variable {holds : Nat → Instruction → Prop} {code : Code}

theorem push (each : Code.Each holds code)
    (here : holds code.size instr) : Code.Each holds (code.push instr) := by
  intro place other found
  rw [Array.getElem?_push] at found
  split at found
  · rename_i same
    cases found
    rw [same]
    exact here
  · exact each place other found

theorem emitAll {instructions : List Instruction} {buffer : CodeBuffer} (each : Code.Each holds buffer.code)
    (here : ∀ place, buffer.code.size ≤ place → ∀ instr ∈ instructions, holds place instr) :
    Code.Each holds (buffer.emitAll instructions).code := by
  induction instructions generalizing buffer with
  | nil =>
    rw [CodeBuffer.emitAll_nil]
    exact each
  | cons instr rest ih =>
    rw [CodeBuffer.emitAll_cons]
    refine ih (each.push (here _ (Nat.le_refl _) instr List.mem_cons_self)) ?_
    intro place beyond other listed
    refine here place ?_ other (List.mem_cons_of_mem _ listed)
    have size : (buffer.emit instr).code.size = buffer.code.size + 1 := by
      simp [CodeBuffer.emit]
    omega

theorem aim (each : Code.Each holds code) {place : Nat} {target : Int}
    (found : code[place]? = some instr)
    (here : holds place instr → holds place (instr.aimed target)) :
    Code.Each holds (code.setIfInBounds place (instr.aimed target)) := by
  intro other changed found'
  rw [Array.getElem?_setIfInBounds] at found'
  split at found'
  · rename_i same
    split at found'
    · cases found'
      rw [← same]
      exact here (each place instr found)
    · cases found'
  · exact each other changed found'

end Code.Each

namespace Generator

variable {rules : Rules} {command : Event.Command} {before after : Generator}

/-- A property of emitted instructions that targets do not touch is one of all instructions. -/
theorem Advances.each (advances : Advances rules command before after) {holds : Nat → Instruction → Prop}
    (emits : ∀ place instr, before.buffer.code.size ≤ place →
      rules.Emits (before.made? command) instr → holds place instr)
    (patches : ∀ place instr target, holds place instr → holds place (instr.aimed target))
    (each : Code.Each holds before.buffer.code) : Code.Each holds after.buffer.code := by
  obtain ⟨middle, appends, steers⟩ := advances.code
  obtain ⟨instructions, rfl, listed⟩ := CodeBuffer.exists_emitAll appends
  have appended : Code.Each holds (before.buffer.emitAll instructions).code :=
    each.emitAll fun place beyond instr present =>
      emits place instr beyond (.append (listed instr present))
  have size : before.buffer.code.size ≤ (before.buffer.emitAll instructions).code.size := by
    simp only [CodeBuffer.emitAll, Array.size_append]
    omega
  revert steers
  generalize after.buffer = final
  intro steers
  cases steers with
  | other | delimiter | head => exact appended
  | branch reads => exact appended.push (emits _ _ size (.branch reads))
  | jump => exact appended.push (emits _ _ size .jump)
  | patchAll patched =>
    exact CodeBuffer.patchPending_keeps (motive := fun code _ => Code.Each holds code)
      (fun _ _ _ _ each found => each.aim found (patches _ _ _)) (fun _ _ each => each) patched
      appended
  | patchOne patched =>
    obtain ⟨_, index, instr, _, _, found, same⟩ := CodeBuffer.patchOne_eq_ok patched
    rw [same]
    exact appended.aim found (patches _ _ _)
  | loop taken =>
    obtain ⟨_, _, _, rfl⟩ := CodeBuffer.take_eq_ok taken
    exact appended.push (patches _ _ _ (emits _ _ size .jump))
  | start patched =>
    obtain ⟨place, instr, _, found, rfl⟩ := Code.setTarget_eq_ok patched
    refine (appended.aim found (patches _ _ _)).push (emits _ _ ?_ .start)
    rw [Array.size_setIfInBounds]
    exact size
  | exit => exact appended.push (emits _ _ size .exit)

theorem Performs.all {commands : List Event.Command} {holds : Instruction → Prop}
    (performs : Performs commands (.ofCapacities rules.capacities) after)
    (admits : Admits rules commands)
    (emits : ∀ made instr, rules.Emits made instr → holds instr)
    (patches : ∀ instr target, holds instr → holds (instr.aimed target)) :
    Code.Each (fun _ => holds) after.buffer.code := by
  refine (performs.invariant
    (motive := fun _ generator => Code.Each (fun _ => holds) generator.buffer.code)
    admits ?_ ?_).2
  · have empty : Code.Each (fun _ => holds) #[] := by
      intro place instr found
      simp at found
    exact empty.push (emits none _ .jump)
  · intro _ command before after _ each _ _ advances
    exact advances.each (fun _ instr _ => emits _ instr)
      (fun _ => patches) each

end Generator

end Quadruple
