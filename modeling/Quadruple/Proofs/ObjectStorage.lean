import Quadruple.Proofs.Patching
import Quadruple.Proofs.Steps

/-!
The storage of objects. The cells that an object gets are those of the fields that its class has when
the making of the object is compiled; they are counted in machine words, which is enough as long as
they fit the storage at all. Cells that have been given to an object are never given to another one.
So the fields of objects do not share cells.
-/

namespace Quadruple

open Scope (Variable)

/-! ### Cells of fields -/

namespace Scope

def elements : List Int → Int
  | [] => 1
  | dimension :: dimensions => dimension * elements dimensions

def Variable.span (var : Variable) : Int :=
  elements var.dimensions

def spans : List Variable → Int
  | [] => 0
  | field :: fields => field.span + spans fields

@[simp]
theorem spans_append (front back : List Variable) :
    spans (front ++ back) = spans front + spans back := by
  induction front with
  | nil => exact (Int.zero_add _).symm
  | cons field fields ih => rw [List.cons_append, spans, spans, ih, Int.add_assoc]

/-- The number of elements of an array is right as far as a machine word goes. -/
theorem extent_eq (dimensions : List Int) :
    extent dimensions = Int64.ofInt (elements dimensions) := by
  have folded : ∀ product : Int,
      dimensions.foldl (fun product dimension => product * Int64.ofInt dimension)
        (Int64.ofInt product) = Int64.ofInt (product * elements dimensions) := by
    induction dimensions with
    | nil =>
      intro product
      rw [elements, Int.mul_one, List.foldl_nil]
    | cons dimension dimensions ih =>
      intro product
      rw [List.foldl_cons, ← Int64.ofInt_mul, ih, elements, Int.mul_assoc]
  have whole := folded 1
  rwa [Int.one_mul] at whole

theorem total_eq (fields : List Variable) : total fields = Int64.ofInt (spans fields) := by
  have folded : ∀ sum : Int, fields.foldl (fun cells field => cells + field.size)
      (Int64.ofInt sum) = Int64.ofInt (sum + spans fields) := by
    induction fields with
    | nil =>
      intro sum
      rw [spans, Int.add_zero, List.foldl_nil]
    | cons field fields ih =>
      intro sum
      rw [List.foldl_cons, Variable.size, extent_eq, ← Int64.ofInt_add, ih, spans, ← Int.add_assoc]
      rfl
  have whole := folded 0
  rwa [Int.zero_add] at whole

theorem one_le_span {field : Variable} (extents : ∀ extent ∈ field.dimensions, 1 ≤ extent) :
    1 ≤ field.span := by
  unfold Variable.span
  revert extents
  generalize field.dimensions = dimensions
  intro extents
  induction dimensions with
  | nil => exact Int.le_refl 1
  | cons dimension dimensions ih =>
    rw [elements]
    have first := extents dimension List.mem_cons_self
    have rest := ih fun extent listed => extents extent (List.mem_cons_of_mem _ listed)
    have product : 1 * 1 ≤ dimension * elements dimensions :=
      Int.mul_le_mul first rest (by omega) (by omega)
    omega

theorem spans_nonneg {fields : List Variable}
    (extents : ∀ field ∈ fields, ∀ extent ∈ field.dimensions, 1 ≤ extent) : 0 ≤ spans fields := by
  induction fields with
  | nil => exact Int.le_refl 0
  | cons field fields ih =>
    have first := one_le_span (extents field List.mem_cons_self)
    have rest := ih fun other listed => extents other (List.mem_cons_of_mem _ listed)
    rw [spans]
    omega

end Scope

/-- What the storage has room for at most. -/
def Scope.Class.Fits (class_ : Scope.Class) : Prop :=
  spans class_.fields ≤ Address.defaultCapacity

namespace Scope.Class.Laid

variable {class_ : Scope.Class} {front back : List Variable} {field : Variable}

theorem size_of_lt (laid : class_.Laid) (below : spans class_.fields < 9223372036854775808) :
    class_.size.toInt = max 1 (spans class_.fields) := by
  have least := spans_nonneg laid.extents
  have cells : class_.cells.toInt = spans class_.fields := by
    rw [laid.cells, total_eq, Int64.toInt_ofInt_of_le (by omega) (by omega)]
  unfold Scope.Class.size
  split
  · rename_i none
    rw [none] at cells
    rw [← cells]
    rfl
  · rename_i some
    have different : spans class_.fields ≠ 0 := by
      intro zero
      rw [zero] at cells
      exact some (Int64.toInt_inj.1 cells)
    rw [cells]
    omega

theorem size (laid : class_.Laid) (fits : class_.Fits) :
    class_.size.toInt = max 1 (spans class_.fields) :=
  laid.size_of_lt (Int.lt_of_le_of_lt fits (by decide))

/-- A field starts behind the fields before it, and ends inside the object. -/
theorem slot (laid : class_.Laid) (fits : class_.Fits)
    (here : class_.fields = front ++ field :: back) :
    field.slot.toInt = spans front ∧ 0 ≤ spans front ∧
      spans front + field.span ≤ spans class_.fields := by
  have extents := laid.extents
  rw [here] at extents
  have first := spans_nonneg fun other listed =>
    extents other (List.mem_append_left _ listed)
  have one := one_le_span (extents field (List.mem_append_right _ List.mem_cons_self))
  have last : 0 ≤ spans back := spans_nonneg fun other listed =>
    extents other (List.mem_append_right _ (List.mem_cons_of_mem _ listed))
  have all : spans class_.fields = spans front + (field.span + spans back) := by
    rw [here, spans_append, spans]
  have most : spans class_.fields ≤ 67108864 := fits
  refine ⟨?_, first, by omega⟩
  rw [laid.slots front field back here, total_eq,
    Int64.toInt_ofInt_of_le (by omega) (by omega)]

end Scope.Class.Laid

/-! ### Resolving -/

namespace Machine

variable {machine : Machine} {pointer : Address}

theorem toNat_offset {place : Nat} (small : place < 4294967296) :
    (Int64.ofInt place).toUInt64.toUInt32.toNat = place := by
  rw [Int64.ofInt_eq_ofNat, UInt64.toNat_toUInt32, Int64.toUInt64_ofNat', UInt64.toNat_ofNat']
  omega

/-- A reference to the object at a pointer, with an index inside a field, resolves to a cell. -/
def Resolves (machine : Machine) (pointer : Address) (field : Variable) (cell : Address) : Prop :=
  ∃ (base : Address) (index : Operand) (place : Nat), base.type = .object ∧
    machine.memory.load base.plain = .ok (.object pointer) ∧ (place : Int) < field.span ∧
    machine.read index = .ok (.int (field.slot + Int64.ofInt place)) ∧
    machine.element (.address base) index field.type = .ok cell

theorem Resolves.cell {field : Variable} {cell : Address}
    (resolves : machine.Resolves pointer field cell) (stack : pointer.area = .stack)
    (low : pointer.offset.toNat ≤ Address.maxOffset) {slot : Int} (starts : field.slot.toInt = slot)
    (least : 0 ≤ slot) (most : slot + field.span ≤ Address.defaultCapacity) :
    cell.area = .stack ∧ cell.type = field.type ∧ ∃ place : Int, 0 ≤ place ∧ place < field.span ∧
      (cell.offset.toNat : Int) = pointer.offset.toNat + slot + place := by
  obtain ⟨base, index, place, isObject, loaded, inside, isRead, found⟩ := resolves
  have low' : pointer.offset.toNat ≤ 67108863 := low
  have most' : slot + field.span ≤ 67108864 := most
  obtain ⟨_, _, origin, ⟨⟩, isRead', _, begins, rfl⟩ := element_eq_ok found
  cases isRead.symm.trans isRead'
  cases begins with
  | here direct => exact absurd isObject direct
  | object _ held _ =>
    cases loaded.symm.trans held
    refine ⟨stack, rfl, place, by omega, inside, ?_⟩
    obtain ⟨first, rfl⟩ := Int.eq_ofNat_of_zero_le least
    have word : Int64.ofInt pointer.offset.toNat + (field.slot + Int64.ofInt place) =
        Int64.ofInt (pointer.offset.toNat + first + place : Nat) := by
      rw [← Int64.ofInt_toInt field.slot, starts, ← Int64.ofInt_add, ← Int64.ofInt_add]
      congr 1
      push_cast
      omega
    show (((Int64.ofInt pointer.offset.toNat + (field.slot + Int64.ofInt place)).toUInt64.toUInt32.toNat :
      Nat) : Int) = _
    rw [word, toNat_offset (by omega)]
    push_cast
    rfl

end Machine

/-! ### Cells for objects are given once -/

/-- The storage of objects has only been given away further. -/
structure Memory.Extends (memory after : Memory) : Prop where
  sizes : after.sizes .stack .object = memory.sizes .stack .object
  cursor : memory.cursor .stack .object ≤ after.cursor .stack .object

namespace Memory

variable {memory between after : Memory} {address : Address} {value : Value}

theorem extends_refl (memory : Memory) : memory.Extends memory :=
  ⟨rfl, Nat.le_refl _⟩

theorem Extends.trans (first : memory.Extends between) (second : between.Extends after) :
    memory.Extends after :=
  ⟨second.sizes.trans first.sizes, Nat.le_trans first.cursor second.cursor⟩

theorem extends_store (stored : memory.store address value = .ok after) :
    memory.Extends after := by
  refine ⟨congrFun (congrFun (sizes_store stored) _) _, ?_⟩
  rw [cursor_store stored]

theorem extends_restore (restored : memory.restore = .ok after) : memory.Extends after := by
  obtain ⟨frame, frames, _, rfl⟩ := restore_eq_ok restored
  exact ⟨rfl, Nat.le_refl _⟩

theorem extends_bindAll (memory : Memory) (passed : List Passed) :
    memory.Extends (Machine.bindAll memory passed).2 :=
  Machine.bindAll_keeps memory.Extends (fun _ _ _ _ grown stored => grown.trans (extends_store stored))
    memory.extends_refl

theorem allocate_object {size : Int} {pointer : Address}
    (allocated : memory.allocate .stack .object size false = .ok (pointer, after)) :
    ∃ capacity, memory.sizes .stack .object = some capacity ∧
      pointer = ⟨.stack, .object, false, .ofNat (memory.cursor .stack .object)⟩ ∧
      after.sizes .stack .object = some capacity ∧
      (after.cursor .stack .object : Int) = memory.cursor .stack .object + max 1 size ∧
      after.cursor .stack .object ≤ capacity := by
  obtain ⟨rfl, ⟨capacity, sized, room⟩, sizes, cursors⟩ := allocate_cells allocated
  have grown := cursors .stack .object
  rw [if_pos ⟨rfl, rfl⟩] at grown
  have counts : ((if size < 1 then 1 else size.toNat : Nat) : Int) = max 1 size := by
    split <;> omega
  refine ⟨capacity, sized, rfl, by rw [sizes, sized], ?_, by rw [grown]; exact room⟩
  rw [grown, ← counts]
  push_cast
  rfl

end Memory

namespace Machine

def Outcome.isUnfinished : Outcome → Bool
  | unfinished => true
  | _ => false

theorem Outcome.eq_unfinished {outcome : Outcome} (goes : outcome.isUnfinished = true) :
    outcome = .unfinished := by
  cases outcome with
  | unfinished => rfl
  | halted | failed => cases goes

variable {machine after : Machine} {pointer : Address} {count : Nat}

theorem Does.extends {instr : Instruction} {position : Nat}
    (does : machine.Does instr after position) :
    machine.memory.Extends after.memory := by
  cases does with
  | idle | halt | jump | fall | pass | passHost | callHost => exact machine.memory.extends_refl
  | write _ stored | askHost _ _ _ _ stored => exact Memory.extends_store stored
  | make _ _ found _ stored =>
    obtain ⟨capacity, sizes, _, sizes', cursor, _⟩ := Memory.allocate_object found
    exact Memory.Extends.trans ⟨sizes'.trans sizes.symm, by omega⟩ (Memory.extends_store stored)
  | openRecord => exact ⟨rfl, Nat.le_refl _⟩
  | enter _ _ bound =>
    have kept := machine.memory.extends_bindAll machine.passed
    rw [bound] at kept
    exact kept
  | leave _ _ restored => exact Memory.extends_restore restored

theorem extends_step (stepped : machine.step = (.ok (), after)) :
    machine.memory.Extends after.memory ∧ after.program = machine.program := by
  rcases step_eq_ok stepped with
    ⟨rfl, _⟩ | ⟨_, rfl⟩ | ⟨instr, result, position, _, does, rfl⟩
  · exact ⟨Memory.extends_refl _, rfl⟩
  · exact ⟨Memory.extends_refl _, rfl⟩
  · exact ⟨does.extends, does.program⟩

theorem extends_run {steps : Nat} (ran : Machine.run steps machine = (.unfinished, after)) :
    machine.memory.Extends after.memory ∧ after.program = machine.program := by
  induction steps generalizing machine with
  | zero =>
    cases congrArg Prod.snd ran
    exact ⟨Memory.extends_refl _, rfl⟩
  | succ steps ih =>
    unfold Machine.run at ran
    split at ran
    · cases ran
    · split at ran
      · rename_i stepped
        obtain ⟨first, same⟩ := extends_step stepped
        obtain ⟨rest, same'⟩ := ih ran
        exact ⟨first.trans rest, same'.trans same⟩
      · cases ran

/-- The pointer and the number of cells of the object that the machine makes next, if it makes one. -/
def makes? (machine : Machine) : Option (Address × Nat) :=
  machine.program[machine.position]?.bind fun instr =>
    if instr.opcode = .malloc then
      (machine.read instr.left).toOption.bind fun size =>
        (machine.memory.allocate .stack .object size.toInt.toInt false).toOption.map fun made =>
          (made.1, (max 1 size.toInt.toInt).toNat)
    else none

/-- The machine stands at an instruction that makes an object, and there is room for it. -/
def Makes (machine : Machine) (pointer : Address) (count : Nat) : Prop :=
  machine.makes? = some (pointer, count)

section

variable (makes : machine.Makes pointer count)
include makes

theorem Makes.instruction :
    ∃ instr size memory, machine.program[machine.position]? = some instr ∧
      instr.opcode = .malloc ∧ machine.read instr.left = .ok size ∧
      machine.memory.allocate .stack .object size.toInt.toInt false = .ok (pointer, memory) ∧
      (count : Int) = max 1 size.toInt.toInt := by
  obtain ⟨instr, here, makes⟩ := Option.bind_eq_some_iff.1 makes
  split at makes
  · rename_i opcode
    obtain ⟨size, isRead, makes⟩ := Option.bind_eq_some_iff.1 makes
    obtain ⟨⟨_, memory⟩, allocated, ⟨⟩⟩ := Option.map_eq_some_iff.1 makes
    exact ⟨instr, size, memory, here, opcode, toOption_eq_some.1 isRead,
      toOption_eq_some.1 allocated, by omega⟩
  · cases makes

theorem Makes.step (running : machine.halted = false) (stepped : machine.step = (.ok (), after)) :
    machine.memory.cursor .stack .object + count ≤ after.memory.cursor .stack .object := by
  obtain ⟨instr, size, memory, here, opcode, isRead, allocated, counts⟩ := makes.instruction
  rcases step_eq_ok stepped with
    ⟨_, halted⟩ | ⟨beyond, _⟩ | ⟨other, result, position, found, does, rfl⟩
  · rw [running] at halted
    cases halted
  · rw [here] at beyond
    cases beyond
  · cases here.symm.trans found
    cases does with
    | @make _ _ _ allocated' _ _ isRead' allocates _ stored =>
      cases isRead.symm.trans isRead'
      obtain ⟨_, _, _, _, cursor, _⟩ := Memory.allocate_object allocates
      have given : machine.memory.cursor .stack .object + count ≤
          allocated'.cursor .stack .object := by omega
      exact Nat.le_trans given (Memory.extends_store stored).cursor
    | idle idles => rw [opcode] at idles; rcases idles with same | same <;> cases same
    | fall branches => rw [opcode] at branches; rcases branches with same | same <;> cases same
    | jump jumps => rw [opcode] at jumps; cases jumps
    | write writes =>
      cases writes with
      | literal other | copy other | fetch other | place other =>
        rw [opcode] at other
        cases other
      | operate pure =>
        rw [opcode] at pure
        cases pure
    | halt exits | openRecord exits | pass exits | enter exits | leave exits | passHost exits
    | callHost exits | askHost exits => rw [opcode] at exits; cases exits

theorem Makes.positive : 1 ≤ count := by
  obtain ⟨_, _, _, _, _, _, _, counts⟩ := makes.instruction
  omega

theorem Makes.room :
    ∃ capacity, machine.memory.sizes .stack .object = some capacity ∧
      pointer = ⟨.stack, .object, false, .ofNat (machine.memory.cursor .stack .object)⟩ ∧
      machine.memory.cursor .stack .object + count ≤ capacity := by
  obtain ⟨instr, size, memory, _, _, _, allocated, counts⟩ := makes.instruction
  obtain ⟨capacity, sizes, rfl, _, cursor, room⟩ := Memory.allocate_object allocated
  exact ⟨capacity, sizes, rfl, by omega⟩

end

/-- In a run, objects are where the storage that has been given away ended. -/
theorem Makes.offset {code : Code} {options : Options} {steps : Nat}
    (ran : Machine.run steps (.ofProgram code options) = (.unfinished, machine))
    (makes : machine.Makes pointer count) : pointer.area = .stack ∧
      pointer.offset.toNat = machine.memory.cursor .stack .object ∧
      pointer.offset.toNat + count ≤ Address.defaultCapacity := by
  obtain ⟨capacity, sizes, rfl, room⟩ := makes.room
  have small : capacity ≤ 67108864 := by
    rw [(extends_run ran).1.sizes] at sizes
    exact Memory.sizes_le sizes
  have offset : (UInt32.ofNat (machine.memory.cursor .stack .object)).toNat =
      machine.memory.cursor .stack .object := by
    rw [UInt32.toNat_ofNat']
    omega
  refine ⟨rfl, offset, ?_⟩
  show (UInt32.ofNat _).toNat + count ≤ 67108864
  omega

/-- What is made later in a run is behind what was made before. -/
theorem Makes.behind {code : Code} {options : Options} {steps more : Nat} {later : Machine}
    {other : Address} {count' : Nat}
    (ran : Machine.run steps (.ofProgram code options) = (.unfinished, machine))
    (makes : machine.Makes pointer count)
    (ran' : Machine.run (steps + (more + 1)) (.ofProgram code options) = (.unfinished, later))
    (makes' : later.Makes other count') :
    pointer.offset.toNat + count ≤ other.offset.toNat := by
  rw [(makes.offset ran).2.1, (makes'.offset ran').2.1]
  rw [run_add ran, Machine.run] at ran'
  split at ran'
  · cases ran'
  · rename_i running
    split at ran'
    · rename_i stepped
      exact Nat.le_trans (makes.step (Bool.eq_false_iff.2 running) stepped)
        (extends_run ran').1.cursor
    · cases ran'

end Machine

/-! ### Objects of compiled programs -/

/-- Only the making of an object takes cells for one, as many as its class has. -/
theorem Rules.Emits.malloc {rules : Rules} {made : Option Scope.Class} {instr : Instruction}
    (emits : rules.Emits made instr) (opcode : instr.opcode = .malloc) :
    ∃ class_, made = some class_ ∧ instr.left = .literal (.int class_.size) := by
  cases emits with
  | append appends =>
    cases appends with
    | malloc makes => exact ⟨_, makes, rfl⟩
    | plain plain =>
      have isPlain := plain.isPlain
      rw [opcode] at isPlain
      cases isPlain
    | _ => cases opcode
  | _ => cases opcode

namespace Generator

variable {capacities : Capacities} {commands : List Event.Command} {position : Nat}
  {class_ : Scope.Class} {generator : Generator}

/-- The class of which the instruction at a position makes objects, as it was declared then. -/
def MadeAs (capacities : Capacities) (commands : List Event.Command) (position : Nat)
    (class_ : Scope.Class) : Prop :=
  ∃ command before, Emitted capacities commands position command before ∧
    before.made? command = some class_

theorem MadeAs.laid (made : MadeAs capacities commands position class_) : class_.Laid := by
  obtain ⟨command, before, ⟨earlier, _, _, _, performs, _⟩, makes⟩ := made
  have sound := performs.sound
  unfold made? at makes
  split at makes
  · obtain ⟨pending, _, found⟩ := Option.bind_eq_some_iff.1 makes
    exact sound.tree.laid class_ (List.mem_of_find?_eq_some found)
  · cases makes

def Sized (capacities : Capacities) (commands : List Event.Command) (place : Nat)
    (instr : Instruction) : Prop :=
  instr.opcode = .malloc → ∃ class_, MadeAs capacities commands place class_ ∧
    instr.left = .literal (.int class_.size)

theorem Performs.sized (performs : Performs commands (.ofCapacities capacities) generator) :
    Code.Each (Sized capacities commands) generator.buffer.code := by
  refine (Performs.invariant (motive := fun commands generator =>
    Code.Each (Sized capacities commands) generator.buffer.code) performs
    (admits_lax capacities commands) ?_ ?_).2
  · have empty : Code.Each (Sized capacities []) #[] := by
      intro place instr found
      simp at found
    exact empty.push nofun
  · intro earlier command before after reached former _ gives advances
    -- The place of an instruction is one of the command only if it is in the code behind it.
    have each : Code.Each (fun place instr => place < after.buffer.code.size →
        Sized capacities (earlier ++ [command]) place instr) after.buffer.code := by
      refine advances.each ?_ (fun _ _ _ holds => holds) ?_
      · intro place instr beyond emits inside opcode
        obtain ⟨class_, makes, literal⟩ := emits.malloc opcode
        exact ⟨class_, ⟨command, before,
          ⟨earlier, [], after, rfl, reached, gives, beyond, inside⟩, makes⟩, literal⟩
      · intro place instr found _ opcode
        obtain ⟨class_, ⟨maker, state, emitted, makes⟩, size⟩ :=
          former place instr found opcode
        exact ⟨class_, ⟨maker, state, emitted.append [command], makes⟩, size⟩
    intro place instr found
    exact each place instr found (Array.getElem?_eq_some_iff.1 found).1

end Generator

/-- An object at a pointer has cells for every field of a class, and its fields share none. -/
structure Scope.Class.Housed (class_ : Scope.Class) (pointer : Address) (count : Nat) : Prop where
  covers : ∀ field ∈ class_.fields,
    0 ≤ field.slot.toInt ∧ field.slot.toInt + field.span ≤ count
  apart : ∀ front field middle other back,
    class_.fields = front ++ field :: (middle ++ other :: back) →
    ∀ (machine : Machine) (cell : Address), machine.Resolves pointer field cell →
      ¬ machine.Resolves pointer other cell

namespace Scope.Class.Laid

variable {class_ : Scope.Class} {pointer cell : Address} {count : Nat} {machine : Machine}
  {field : Variable}

theorem housed (laid : class_.Laid) (fits : class_.Fits) (stack : pointer.area = .stack)
    (low : pointer.offset.toNat ≤ Address.maxOffset) (room : spans class_.fields ≤ count) :
    class_.Housed pointer count where
  covers := by
    intro field listed
    obtain ⟨front, back, here⟩ := List.append_of_mem listed
    obtain ⟨slot, first, last⟩ := laid.slot fits here
    omega
  apart := by
    intro front field middle other back here machine cell resolves resolves'
    obtain ⟨slot, first, last⟩ := laid.slot fits here
    have there : class_.fields = (front ++ field :: middle) ++ other :: back := by
      rw [here, List.append_assoc, List.cons_append]
    obtain ⟨slot', first', last'⟩ := laid.slot fits there
    have most : spans class_.fields ≤ Address.defaultCapacity := fits
    obtain ⟨_, _, place, _, inside, offset⟩ :=
      resolves.cell stack low slot first (Int.le_trans last most)
    obtain ⟨_, _, place', _, _, offset'⟩ :=
      resolves'.cell stack low slot' first' (Int.le_trans last' most)
    have between : 0 ≤ spans middle := spans_nonneg fun member listed =>
      laid.extents member (by rw [here]; simp [listed])
    rw [spans_append, spans] at offset'
    omega

theorem inside (laid : class_.Laid) (fits : class_.Fits) (listed : field ∈ class_.fields)
    (stack : pointer.area = .stack) (low : pointer.offset.toNat ≤ Address.maxOffset)
    (resolves : machine.Resolves pointer field cell) :
    pointer.offset.toNat ≤ cell.offset.toNat ∧
      (cell.offset.toNat : Int) < pointer.offset.toNat + spans class_.fields := by
  obtain ⟨front, back, here⟩ := List.append_of_mem listed
  obtain ⟨slot, first, last⟩ := laid.slot fits here
  obtain ⟨_, _, place, _, inside, offset⟩ :=
    resolves.cell stack low slot first (Int.le_trans last fits)
  omega

end Scope.Class.Laid

open Generator (MadeAs)

/-- An object gets cells for all the fields that its class has when the making of the object is
compiled. No two of these fields share a cell, and they share none with those of another object. -/
theorem Transcript.compiled_objects_apart {transcript : Transcript} {capacities : Capacities}
    {code : Code} (compiled : transcript.compile capacities = .ok code) :
    ∃ commands, transcript.Asks commands ∧
      ∀ (options : Machine.Options) (steps : Nat) (machine : Machine) (pointer : Address)
        (count : Nat),
        Machine.run steps (.ofProgram code options) = (.unfinished, machine) →
        machine.Makes pointer count →
        ∃ class_, MadeAs capacities commands machine.position class_ ∧
          (class_.Fits → class_.Housed pointer count ∧
            ∀ (more : Nat) (later : Machine) (pointer' : Address) (count' : Nat)
              (class' : Scope.Class),
              Machine.run (steps + (more + 1)) (.ofProgram code options) = (.unfinished, later) →
              later.Makes pointer' count' → MadeAs capacities commands later.position class' →
              class'.Fits → ∀ field ∈ class_.fields, ∀ field' ∈ class'.fields,
                ∀ (now : Machine) (cell : Address), now.Resolves pointer field cell →
                  ¬ now.Resolves pointer' field' cell) := by
  obtain ⟨commands, generator, asks, performs, rfl⟩ := Transcript.compile_performs compiled
  refine ⟨commands, asks, fun options steps machine pointer count ran makes => ?_⟩
  obtain ⟨stack, _, low⟩ := makes.offset ran
  have low : pointer.offset.toNat + count ≤ 67108864 := low
  obtain ⟨instruction, size, _, here, opcode, isRead, _, counts⟩ := makes.instruction
  rw [(Machine.extends_run ran).2] at here
  obtain ⟨class_, madeAs, literal⟩ := performs.sized _ _ here opcode
  rw [literal] at isRead
  cases isRead
  have counts : (count : Int) = max 1 class_.size.toInt := counts
  refine ⟨class_, madeAs, fun fits => ?_⟩
  rw [madeAs.laid.size fits] at counts
  have below : pointer.offset.toNat ≤ 67108863 := by omega
  refine ⟨madeAs.laid.housed fits stack below (by omega), ?_⟩
  intro more later pointer' count' class' ran' makes' madeAs' fits' field listed field' listed' now
    cell resolves resolves'
  obtain ⟨stack', _, low'⟩ := makes'.offset ran'
  have low' : pointer'.offset.toNat + count' ≤ 67108864 := low'
  have positive : 1 ≤ count' := makes'.positive
  have below' : pointer'.offset.toNat ≤ 67108863 := by omega
  have behind := makes.behind ran ran' makes'
  have inside := madeAs.laid.inside fits listed stack below resolves
  have inside' := madeAs'.laid.inside fits' listed' stack' below' resolves'
  omega

/-- A class that makes an object of its own before its last field is declared. -/
def Transcript.mating : Transcript where
  natives := true
  events :=
    [{ kind := "declare_class", name := "C" },
      { kind := "declare_variable", name := "a", type := "int" },
      { kind := "declare_variable", name := "mate", className := "C" },
      { kind := "declare_function", name := "pair" },
      { kind := "identifier", name := "mate" }, { kind := "variable" },
      { kind := "identifier", name := "C" }, { kind := "new" }, { kind := "assign" },
      { kind := "close_function" },
      { kind := "declare_variable", name := "b", type := "int" }, { kind := "close_class" },
      { kind := "declare_variable", name := "p", className := "C" },
      { kind := "declare_variable", name := "q", className := "C" }, { kind := "init" },
      { kind := "identifier", name := "p" }, { kind := "variable" },
      { kind := "identifier", name := "C" }, { kind := "new" }, { kind := "assign" },
      { kind := "member", name := "p" }, { kind := "identifier", name := "pair" },
      { kind := "call" },
      { kind := "identifier", name := "q" }, { kind := "variable" },
      { kind := "identifier", name := "C" }, { kind := "new" }, { kind := "assign" },
      { kind := "member", name := "p" }, { kind := "member", name := "mate" },
      { kind := "identifier", name := "b" }, { kind := "variable" },
      { kind := "constant", value := some (.int 7) }, { kind := "assign" },
      { kind := "identifier", name := "write" }, { kind := "member", name := "q" },
      { kind := "identifier", name := "a" }, { kind := "variable" }, { kind := "call" },
      { kind := "exit" }]

/-- The classes of which objects are made while commands are performed. -/
def Generator.madeBy : List Event.Command → Generator → List Scope.Class
  | [], _ => []
  | command :: rest, before =>
    (before.made? command).toList ++ madeBy rest (command.perform.run.run before).2

theorem Generator.MadeAs.mem_madeBy {capacities : Capacities} {commands : List Event.Command}
    {position : Nat} {class_ : Scope.Class} (made : MadeAs capacities commands position class_) :
    class_ ∈ madeBy commands (.ofCapacities capacities) := by
  obtain ⟨command, before, ⟨earlier, later, _, rfl, performs, -⟩, makes⟩ := made
  generalize ofCapacities capacities = start at performs
  induction performs with
  | nil =>
    rw [List.nil_append, madeBy, makes]
    exact List.mem_cons_self
  | cons performed _ ih =>
    rw [List.cons_append, madeBy, congrArg Prod.snd performed]
    exact List.mem_append_right _ (ih makes)

/-- An object and the next one, which a method of it makes before its class has all its fields. -/
theorem Transcript.mating_objects_apart : ∃ code, mating.compile {} = .ok code ∧
    ∃ commands, mating.Asks commands ∧ ∃ machine pointer class_ later pointer' class',
      Machine.run 2 (.ofProgram code {}) = (.unfinished, machine) ∧ machine.Makes pointer 3 ∧
      MadeAs {} commands machine.position class_ ∧ class_.fields ≠ [] ∧
      Machine.run 7 (.ofProgram code {}) = (.unfinished, later) ∧ later.Makes pointer' 2 ∧
      MadeAs {} commands later.position class' ∧ class'.fields ≠ [] ∧ class_.Housed pointer 3 ∧
      ∀ field ∈ class_.fields, ∀ field' ∈ class'.fields, ∀ (now : Machine) (cell : Address),
        now.Resolves pointer field cell → ¬ now.Resolves pointer' field' cell := by
  obtain ⟨code, compiled, ⟨goes, makes⟩, goes', makes'⟩ : ∃ code, mating.compile {} = .ok code ∧
      ((Machine.run 2 (.ofProgram code {})).1.isUnfinished = true ∧
        (Machine.run 2 (.ofProgram code {})).2.makes? = some (⟨.stack, .object, false, 0⟩, 3)) ∧
      (Machine.run 7 (.ofProgram code {})).1.isUnfinished = true ∧
        (Machine.run 7 (.ofProgram code {})).2.makes? = some (⟨.stack, .object, false, 3⟩, 2) :=
    exists_ok_of_any (by decide +kernel)
  obtain ⟨commands, asks, apart⟩ := Transcript.compiled_objects_apart compiled
  have sound : ∀ class_ ∈ Generator.madeBy commands (.ofCapacities {}),
      class_.fields ≠ [] ∧ class_.Fits := by
    rw [asks.told]
    unfold Scope.Class.Fits
    decide +kernel
  have ran : Machine.run 2 (.ofProgram code {}) = (.unfinished, _) :=
    Prod.ext (Machine.Outcome.eq_unfinished goes) rfl
  have ran' : Machine.run 7 (.ofProgram code {}) = (.unfinished, _) :=
    Prod.ext (Machine.Outcome.eq_unfinished goes') rfl
  obtain ⟨class_, madeAs, housed⟩ := apart {} 2 _ _ 3 ran makes
  obtain ⟨class', madeAs', _⟩ := apart {} 7 _ _ 2 ran' makes'
  obtain ⟨some_, fits⟩ := sound class_ madeAs.mem_madeBy
  obtain ⟨some', fits'⟩ := sound class' madeAs'.mem_madeBy
  obtain ⟨house, elsewhere⟩ := housed fits
  exact ⟨code, compiled, commands, asks, _, _, class_, _, _, class', ran, makes, madeAs, some_, ran',
    makes', madeAs', some', house, elsewhere 4 _ _ _ class' ran' makes' madeAs' fits'⟩

/-- What the class gets after that has no cells in the object that was made before: it is written to
the next object. -/
theorem Transcript.mating_shares_cell : ∃ code, mating.compile {} = .ok code ∧
    (Machine.run 100 (.ofProgram code {})).2.console.output = "7\n" :=
  exists_ok_of_any (by decide +kernel)

end Quadruple
