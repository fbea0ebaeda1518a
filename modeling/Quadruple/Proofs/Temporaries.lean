import Quadruple.Proofs.Instructions
import Quadruple.Proofs.Records

/-!
Workspaces that differ in intermediate results only. An instruction that reads none of the cells in
which two workspaces differ does the same to both, and what it writes is then the same in both.
-/

namespace Quadruple

/-- Both fail for the same cause, or both succeed with results that are related. -/
inductive Same {ε α β : Type} (related : α → β → Prop) : Except ε α → Except ε β → Prop where
  | error (cause : ε) : Same related (.error cause) (.error cause)
  | ok {given : α} {given' : β} (holds : related given given') : Same related (.ok given) (.ok given')

namespace Same

variable {ε ε' α β γ δ : Type} {related : α → β → Prop} {further : γ → δ → Prop} {outcome : Except ε α}
  {outcome' : Except ε β}

theorem bind {rest : α → Except ε γ} {rest' : β → Except ε δ} (same : Same related outcome outcome')
    (next : ∀ given given', related given given' → Same further (rest given) (rest' given')) :
    Same further (outcome >>= rest) (outcome' >>= rest') := by
  cases same with
  | error cause => exact .error cause
  | ok holds => exact next _ _ holds

theorem after {given : Except ε α} {rest : α → Except ε γ} {rest' : α → Except ε δ}
    (next : ∀ value, given = .ok value → Same further (rest value) (rest' value)) :
    Same further (given >>= rest) (given >>= rest') := by
  cases given with
  | error cause => exact .error cause
  | ok value => exact next value rfl

theorem map {change : α → γ} {change' : β → δ} (same : Same related outcome outcome')
    (next : ∀ given given', related given given' → further (change given) (change' given')) :
    Same further (outcome.map change) (outcome'.map change') := by
  cases same with
  | error cause => exact .error cause
  | ok holds => exact .ok (next _ _ holds)

theorem mapError (same : Same related outcome outcome') (change : ε → ε') :
    Same related (outcome.mapError change) (outcome'.mapError change) := by
  cases same with
  | error cause => exact .error (change cause)
  | ok holds => exact .ok holds

end Same

def Arena.room (arena : Arena) : Nat × Nat :=
  (arena.capacity, arena.cursor)

namespace Bank

def room (bank : Bank) (type : DataType) : Option (Nat × Nat) :=
  (bank.arena? type).map Arena.room

/-- What a bank holds in a cell; nothing where it has no such cell. -/
def cell? (bank : Bank) (address : Address) : Option Value :=
  (bank.arena? address.type).bind fun arena =>
    if address.offset.toNat < arena.capacity then
      some (arena.get address.type address.offset.toNat)
    else none

end Bank

def Address.IsTemp (address : Address) : Prop :=
  address.area = .temps ∧ address.reference = false

theorem Address.IsTemp.eq {first second : Address} (isTemp : first.IsTemp) (isTemp' : second.IsTemp)
    (type : first.type = second.type) (offset : first.offset.toNat = second.offset.toNat) :
    first = second := by
  cases first
  cases second
  obtain ⟨area, reference⟩ := isTemp
  obtain ⟨area', reference'⟩ := isTemp'
  have offsets := UInt32.toNat_inj.1 offset
  simp only at area reference area' reference' type offsets
  rw [area, reference, area', reference', type, offsets]

theorem Address.IsTemp.plain {address : Address} (inTemps : address.area = .temps) :
    address.plain.IsTemp :=
  ⟨inTemps, rfl⟩

namespace Bank

variable {bank : Bank} {type : DataType} {arena : Arena}

theorem room_setArena_put (found : bank.arena? type = some arena) (offset : Nat) (value : Value) :
    (bank.setArena type (arena.put type offset value)).room = bank.room := by
  funext other
  unfold room
  rw [arena?_setArena found]
  by_cases same : other = type
  · rw [if_pos same, same, found]
    rfl
  · rw [if_neg same]

theorem cell?_setArena_put {address other : Address} (found : bank.arena? address.type = some arena)
    (inside : address.offset.toNat < arena.capacity) (value : Value) (isTemp : address.IsTemp)
    (isTemp' : other.IsTemp) :
    (bank.setArena address.type (arena.put address.type address.offset.toNat value)).cell? other =
      if other = address then some value else bank.cell? other := by
  unfold cell?
  rw [arena?_setArena found]
  by_cases sameType : other.type = address.type
  · rw [if_pos sameType, sameType, found, Option.bind_some, Option.bind_some, Arena.capacity_put,
      Arena.get_put]
    by_cases same : other = address
    · rw [if_pos same, same, if_pos inside, if_pos rfl]
    · have elsewhere : other.offset.toNat ≠ address.offset.toNat := fun offset =>
        same (isTemp'.eq isTemp sameType offset)
      rw [if_neg same, if_neg elsewhere]
  · have different : other ≠ address := fun same => sameType (by rw [same])
    rw [if_neg sameType, if_neg different]

end Bank

namespace Memory

variable {memory after : Memory} {address : Address} {value : Value}

theorem load_temp (isTemp : address.IsTemp) (held : memory.temps.cell? address = some value) :
    memory.load address = .ok value := by
  have found : memory.arena? address.area address.type = memory.temps.arena? address.type := by
    rw [isTemp.1]
    rfl
  obtain ⟨arena, isArena, inside⟩ := Option.bind_eq_some_iff.1 held
  rw [load, Memory.arena, found, isArena]
  simp_all [bind, Except.bind]

/-- Storing an intermediate result changes nothing but its cell. -/
theorem store_temp (isTemp : address.IsTemp) (stored : memory.store address value = .ok after) :
    after.temps.room = memory.temps.room ∧ ∀ other : Address, other.IsTemp →
      after.temps.cell? other =
        if other = address then some value else memory.temps.cell? other := by
  obtain ⟨arena, found, inside, rfl⟩ := store_eq_ok.1 stored
  rw [isTemp.1] at found
  have temps : (memory.setArena address.area address.type
      (arena.put address.type address.offset.toNat value)).temps =
        memory.temps.setArena address.type (arena.put address.type address.offset.toNat value) := by
    rw [isTemp.1]
    rfl
  rw [temps]
  exact ⟨Bank.room_setArena_put found _ value,
    fun other isTemp' => Bank.cell?_setArena_put found inside value isTemp isTemp'⟩

theorem variables_store_temp (isTemp : address.IsTemp) (stored : memory.store address value = .ok after) :
    after.global = memory.global ∧ after.locals = memory.locals ∧ after.stack = memory.stack := by
  obtain ⟨arena, _, _, rfl⟩ := store_eq_ok.1 stored
  rw [isTemp.1]
  exact ⟨rfl, rfl, rfl⟩

theorem temps_store (elsewhere : address.area ≠ .temps) (stored : memory.store address value = .ok after) :
    after.temps = memory.temps := by
  obtain ⟨arena, found, _, rfl⟩ := store_eq_ok.1 stored
  cases area : address.area with
  | temps => exact absurd area elsewhere
  | reserved => rfl
  | _ => rfl

/-- Two memories differ at most in saved records and in intermediate results other than the given
ones. -/
structure Agree (cells : Address → Prop) (memory memory' : Memory) : Prop where
  global : memory.global = memory'.global
  locals : memory.locals = memory'.locals
  stack : memory.stack = memory'.stack
  room : memory.temps.room = memory'.temps.room
  cells : ∀ address : Address, address.IsTemp → cells address →
    memory.temps.cell? address = memory'.temps.cell? address

namespace Agree

variable {cells : Address → Prop} {memory memory' : Memory} {area : Area} {address : Address}

section

variable (agree : Agree cells memory memory')
include agree

theorem mono {fewer : Address → Prop} (included : ∀ address, fewer address → cells address) :
    Agree fewer memory memory' :=
  { agree with cells := fun address isTemp among => agree.cells address isTemp (included _ among) }

theorem arena?_eq (elsewhere : area ≠ .temps) (type : DataType) :
    memory.arena? area type = memory'.arena? area type := by
  cases area with
  | temps => exact absurd rfl elsewhere
  | global => exact congrArg (fun bank => bank.arena? type) agree.global
  | locals => exact congrArg (fun bank => bank.arena? type) agree.locals
  | stack => exact congrArg (fun bank => bank.arena? type) agree.stack
  | reserved => rfl

theorem setArena (elsewhere : area ≠ .temps) (type : DataType) (arena : Arena) :
    Agree cells (memory.setArena area type arena) (memory'.setArena area type arena) := by
  cases area with
  | temps => exact absurd rfl elsewhere
  | global =>
    exact { agree with global := congrArg (fun bank => bank.setArena type arena) agree.global }
  | locals =>
    exact { agree with locals := congrArg (fun bank => bank.setArena type arena) agree.locals }
  | stack =>
    exact { agree with stack := congrArg (fun bank => bank.setArena type arena) agree.stack }
  | reserved => exact agree

/-- An arena is there in both memories, with the same room, or in none. -/
theorem arena?_cases (area : Area) (type : DataType) :
    (memory.arena? area type = none ∧ memory'.arena? area type = none) ∨
      ∃ arena arena', memory.arena? area type = some arena ∧
        memory'.arena? area type = some arena' ∧ arena'.capacity = arena.capacity := by
  have room : (memory.arena? area type).map Arena.room = (memory'.arena? area type).map Arena.room := by
    by_cases inTemps : area = .temps
    · subst inTemps
      exact congrFun agree.room type
    · rw [agree.arena?_eq inTemps]
  cases found : memory.arena? area type with
  | none =>
    rw [found] at room
    exact .inl ⟨rfl, Option.map_eq_none_iff.1 room.symm⟩
  | some arena =>
    rw [found] at room
    obtain ⟨arena', found', same⟩ := Option.map_eq_some_iff.1 room.symm
    exact .inr ⟨arena, arena', rfl, found', congrArg Prod.fst same⟩

theorem load_eq (plain : address.reference = false) (among : address.area = .temps → cells address) :
    memory.load address = memory'.load address := by
  unfold load Memory.arena
  by_cases inTemps : address.area = .temps
  · have held := agree.cells address ⟨inTemps, plain⟩ (among inTemps)
    have here (memory : Memory) : memory.temps.arena? address.type =
        memory.arena? address.area address.type := by
      rw [inTemps]
      rfl
    unfold Bank.cell? at held
    rcases agree.arena?_cases address.area address.type with
      ⟨absent, absent'⟩ | ⟨arena, arena', found, found', capacity⟩
    · rw [absent, absent']
    · simp only [here, found, found', Option.bind_some, capacity] at held
      simp only [found, found', bind, Except.bind, capacity]
      by_cases inside : address.offset.toNat < arena.capacity
      · simp only [if_pos inside, Option.some.injEq] at held
        simp only [if_pos inside, held]
      · simp only [if_neg inside]
  · rw [agree.arena?_eq inTemps]

/-- Storing succeeds in both memories, after which they agree on the cell, or fails alike. -/
theorem store (plain : address.reference = false) (value : Value) :
    Same (Agree fun other => cells other ∨ other = address) (memory.store address value)
      (memory'.store address value) := by
  rcases agree.arena?_cases address.area address.type with
    ⟨absent, absent'⟩ | ⟨arena, arena', found, found', capacity⟩
  · simp only [Memory.store, Memory.arena, absent, absent', bind, Except.bind]
    exact .error _
  by_cases inside : address.offset.toNat < arena.capacity
  · have stored : memory.store address value = .ok _ := store_eq_ok.2 ⟨arena, found, inside, rfl⟩
    have stored' : memory'.store address value = .ok _ :=
      store_eq_ok.2 ⟨arena', found', by rw [capacity]; exact inside, rfl⟩
    rw [stored, stored']
    refine .ok ?_
    by_cases inTemps : address.area = .temps
    · have isTemp : address.IsTemp := ⟨inTemps, plain⟩
      obtain ⟨room, held⟩ := store_temp isTemp stored
      obtain ⟨room', held'⟩ := store_temp isTemp stored'
      obtain ⟨global, locals, stack⟩ := variables_store_temp isTemp stored
      obtain ⟨global', locals', stack'⟩ := variables_store_temp isTemp stored'
      refine ⟨by rw [global, global', agree.global], by rw [locals, locals', agree.locals],
        by rw [stack, stack', agree.stack], by rw [room, room', agree.room], ?_⟩
      intro other isTemp' among
      rw [held other isTemp', held' other isTemp']
      split
      · rfl
      · rename_i different
        exact agree.cells other isTemp' (among.resolve_right different)
    · cases found.symm.trans ((agree.arena?_eq inTemps _).trans found')
      have agree' := agree.setArena inTemps address.type
        (arena.put address.type address.offset.toNat value)
      refine { agree' with cells := fun other isTemp among => agree'.cells other isTemp ?_ }
      exact among.resolve_right fun same => inTemps (same ▸ isTemp.1)
  · simp only [Memory.store, Memory.arena, found, found', bind, Except.bind, capacity, if_neg inside]
    exact .error _

theorem allocate (size : Int) :
    Same (fun given given' => given.1 = given'.1 ∧ Agree cells given.2 given'.2)
      (memory.allocate .stack .object size false) (memory'.allocate .stack .object size false) := by
  have elsewhere : Area.stack ≠ .temps := by decide
  unfold Memory.allocate Memory.arena
  rw [agree.arena?_eq elsewhere .object]
  cases memory'.arena? .stack .object with
  | none => exact .error _
  | some arena =>
    simp only [bind, Except.bind]
    by_cases full : arena.cursor + (if size < 1 then 1 else size.toNat) > arena.capacity
    · simp only [if_pos full]
      exact .error _
    · simp only [if_neg full]
      exact .ok ⟨rfl, agree.setArena elsewhere _ _⟩

end

end Agree

end Memory

/-! ### What instructions read and write -/

def Operand.Is (operand : Operand) (cell : Address) : Prop :=
  ∃ address : Address, operand = .address address ∧ address.plain = cell

def Operand.Among (operand : Operand) (cells : Address → Prop) : Prop :=
  ∀ address : Address, operand = .address address → address.area = .temps → cells address.plain

namespace Instruction

/-- The operands whose values an instruction takes, or through which it looks for an element. -/
def inputs (instr : Instruction) : List Operand :=
  match instr.opcode with
  | .store | .param | .nativeParam | .gotoTrue | .gotoFalse | .malloc => [instr.left]
  | .loadElement => [instr.left, instr.right]
  | .storeElement => [instr.left, instr.right, instr.result]
  | opcode => if opcode.isPure then [instr.left, instr.right] else []

def Reads (instr : Instruction) (cell : Address) : Prop :=
  cell.IsTemp ∧ ∃ operand ∈ instr.inputs, operand.Is cell

/-- Whether an instruction, when it is executed, stores to the cell of its result. An argument goes
to its cell with the call only. -/
def stores (instr : Instruction) : Bool :=
  match instr.opcode with
  | .load | .store | .loadElement | .malloc | .nativeCall => true
  | opcode => opcode.isPure

def Writes (instr : Instruction) (cell : Address) : Prop :=
  cell.IsTemp ∧ instr.stores = true ∧ instr.result.Is cell

variable {instr : Instruction}

theorem Writes.unique {cell cell' : Address}
    (writes : instr.Writes cell) (writes' : instr.Writes cell') : cell = cell' := by
  obtain ⟨_, _, address, same, rfl⟩ := writes
  obtain ⟨_, _, address', same', rfl⟩ := writes'
  cases same.symm.trans same'
  rfl

/-- An element is not looked for among intermediate results. -/
def BaseAside (instr : Instruction) : Prop :=
  instr.opcode = .loadElement ∨ instr.opcode = .storeElement →
    ∀ address : Address, instr.left = .address address →
      address.area ≠ .temps ∨ address.type = .object

end Instruction

namespace Workspace

/-- Two workspaces differ at most in saved records and in intermediate results other than the given
ones. -/
structure Alike (cells : Address → Prop) (workspace workspace' : Workspace) : Prop where
  memory : workspace.memory.Agree cells workspace'.memory
  console : workspace.console = workspace'.console
  openRecords : workspace.openRecords = workspace'.openRecords
  passed : workspace.passed = workspace'.passed
  nativeArguments : workspace.nativeArguments = workspace'.nativeArguments

end Workspace

/-- Effects on workspaces that are alike: `cells` are known to agree before the instruction and
`after` after it. -/
inductive Effect.Alike (cells after : Address → Prop) : Effect → Effect → Prop where
  | unknown : Alike cells after .unknown .unknown
  | fault (cause : Machine.Fault) {left left' : Workspace} (alike : left.Alike cells left') :
      Alike cells after (.fault cause left) (.fault cause left')
  | flow (way : Flow) {result result' : Workspace} (alike : result.Alike after result') :
      Alike cells after (.flow way result) (.flow way result')

namespace Machine

variable {operand base index : Operand} {type : DataType}

abbrev OutcomesAlike (after : Address → Prop) : Except Fault Machine → Except Fault Machine → Prop :=
  Same fun machine machine' => machine.workspace.Alike after machine'.workspace

theorem OutcomesAlike.effect {cells after : Address → Prop} {outcome outcome' : Except Fault Machine}
    {left left' : Machine} (alike : OutcomesAlike after outcome outcome')
    (leftAlike : left.workspace.Alike cells left'.workspace) :
    Effect.Alike cells after (.ofOutcome outcome left) (.ofOutcome outcome' left') := by
  cases alike with
  | error cause => exact .fault cause leftAlike
  | ok alike => exact .flow .next alike

section

variable {cells : Address → Prop} {machine machine' : Machine}
  (alike : machine.workspace.Alike cells machine'.workspace)
include alike

theorem load_alike {address : Address} (among : address.area = .temps → cells address.plain) :
    machine.memory.load address.plain = machine'.memory.load address.plain :=
  alike.memory.load_eq rfl among

theorem read_alike (among : operand.Among cells) : machine.read operand = machine'.read operand := by
  cases operand with
  | address address =>
    simp only [read, load_alike alike (among address rfl)]
  | _ => rfl

theorem readIfAny_alike (among : operand.Among cells) :
    machine.readIfAny operand = machine'.readIfAny operand := by
  cases operand with
  | none => rfl
  | _ => exact read_alike alike among

theorem storeAt_alike (cell : Address) (value : Value) :
    Same (Memory.Agree fun other => cells other ∨ other = cell.plain) (storeAt machine.memory cell value)
      (storeAt machine'.memory cell value) :=
  (alike.memory.store rfl (value.coerce cell.type)).mapError Fault.memory

theorem write_alike (operand : Operand) (value : Value) :
    OutcomesAlike (fun cell => cells cell ∨ operand.Is cell) (machine.write operand value)
      (machine'.write operand value) := by
  cases operand with
  | address address =>
    refine (storeAt_alike alike address value).map fun _ _ agree =>
      { alike with memory := agree.mono fun cell among => among.imp id ?_ }
    rintro ⟨_, same, rfl⟩
    cases same
    rfl
  | _ => exact .error _

theorem element_alike (baseAmong : base.Among cells) (indexAmong : index.Among cells) :
    machine.element base index type = machine'.element base index type := by
  cases base with
  | address cell =>
    have origin : machine.originOf cell.plain = machine'.originOf cell.plain := by
      unfold originOf
      rw [load_alike alike (baseAmong cell rfl)]
    simp only [element, read_alike alike indexAmong, origin]
  | _ => rfl

end

/-- An element is an object's, or lies where its base does. -/
theorem element_area {machine : Machine} {cell : Address}
    (aside : ∀ address : Address, base = .address address → address.area ≠ .temps ∨ address.type = .object)
    (found : machine.element base index type = .ok cell) :
    cell.area ≠ .temps ∧ cell.reference = false := by
  obtain ⟨address, _, origin, same, _, _, starts, rfl⟩ := element_eq_ok found
  refine ⟨?_, rfl⟩
  cases starts with
  | here direct => exact (aside address same).resolve_right direct
  | object _ _ stack => exact fun inTemps => nomatch stack.symm.trans inTemps

def WithResult (instr : Instruction) (cells : Address → Prop) (cell : Address) : Prop :=
  cells cell ∨ instr.result.Is cell

section

variable {cells : Address → Prop} {machine machine' : Machine} {instr : Instruction}
  (alike : machine.workspace.Alike cells machine'.workspace)
include alike

theorem loadLiteral_alike :
    OutcomesAlike (WithResult instr cells) (machine.loadLiteral instr)
      (machine'.loadLiteral instr) := by
  unfold loadLiteral
  cases instr.left with
  | literal value => exact write_alike alike instr.result value
  | _ => exact .error _

section

variable (left : instr.left.Among cells)
include left

theorem copy_alike :
    OutcomesAlike (WithResult instr cells) (machine.copy instr) (machine'.copy instr) := by
  unfold copy
  rw [read_alike alike left]
  exact .after fun value _ => write_alike alike instr.result value

section

variable (right : instr.right.Among cells)
include right

theorem operate_alike :
    OutcomesAlike (WithResult instr cells) (machine.operate instr) (machine'.operate instr) := by
  unfold operate
  rw [readIfAny_alike alike left, readIfAny_alike alike right]
  exact .after fun first _ => .after fun second _ => .after fun value _ =>
    write_alike alike instr.result value

theorem loadElement_alike
    (aside : ∀ address : Address, instr.left = .address address → address.area ≠ .temps ∨
      address.type = .object) :
    OutcomesAlike (WithResult instr cells) (machine.loadElement instr)
      (machine'.loadElement instr) := by
  unfold loadElement
  cases destination : instr.result with
  | address target =>
    simp only
    rw [element_alike alike left right, ← destination]
    refine .after fun cell found => ?_
    obtain ⟨elsewhere, plain⟩ := element_area aside found
    have agree : machine.memory.Agree cells machine'.memory := alike.memory
    rw [agree.load_eq plain fun inTemps => absurd inTemps elsewhere]
    exact .after fun value _ => write_alike alike instr.result value
  | _ => exact .error _

theorem storeElement_alike (result : instr.result.Among cells) :
    OutcomesAlike cells (machine.storeElement instr) (machine'.storeElement instr) := by
  unfold storeElement
  rw [read_alike alike result, element_alike alike left right]
  refine .after fun value _ => .after fun cell _ => ?_
  exact (storeAt_alike alike cell value).bind fun _ _ agree =>
    .ok { alike with memory := agree.mono fun _ => .inl }

end

theorem passParam_alike :
    OutcomesAlike cells (machine.passParam instr) (machine'.passParam instr) := by
  unfold passParam
  rw [read_alike alike left]
  refine .after fun value _ => ?_
  cases instr.result with
  | address destination =>
    refine .ok { alike with passed := ?_ }
    exact congrArg (fun passed => passed ++ [⟨value, destination⟩]) alike.passed
  | _ => exact .error _

theorem passNative_alike :
    OutcomesAlike cells (machine.passNative instr) (machine'.passNative instr) := by
  unfold passNative
  rw [read_alike alike left]
  refine .after fun value _ => .ok { alike with nativeArguments := ?_ }
  exact congrArg (fun arguments => arguments ++ [value]) alike.nativeArguments

theorem allocateObject_alike :
    OutcomesAlike (WithResult instr cells) (machine.allocateObject instr).1
        (machine'.allocateObject instr).1 ∧
      (machine.allocateObject instr).2.workspace.Alike cells
        (machine'.allocateObject instr).2.workspace := by
  unfold allocateObject
  rw [read_alike alike left]
  cases machine'.read instr.left with
  | error cause => exact ⟨.error cause, alike⟩
  | ok size =>
    have agree : machine.memory.Agree cells machine'.memory := alike.memory
    have allocates := agree.allocate size.toInt.toInt
    simp only
    generalize machine.memory.allocate .stack .object size.toInt.toInt false = given,
      machine'.memory.allocate .stack .object size.toInt.toInt false = given' at allocates
    cases allocates with
    | error cause => exact ⟨.error _, alike⟩
    | @ok first second holds =>
      obtain ⟨pointer, after⟩ := first
      obtain ⟨_, after'⟩ := second
      obtain ⟨rfl, agree'⟩ := holds
      have alike' : Workspace.Alike cells { machine with memory := after }.workspace
          { machine' with memory := after' }.workspace := { alike with memory := agree' }
      exact ⟨write_alike alike' instr.result (.object pointer), alike'⟩

end

theorem callNative_alike :
    OutcomesAlike (WithResult instr cells) (machine.callNative instr).1
        (machine'.callNative instr).1 ∧
      (machine.callNative instr).2.workspace.Alike cells
        (machine'.callNative instr).2.workspace := by
  unfold callNative
  simp only
  cases Native.ofName? (nativeName instr.left) with
  | none => exact ⟨.error _, alike⟩
  | some native =>
    have sameArguments : machine.nativeArguments = machine'.nativeArguments := alike.nativeArguments
    have sameConsole : machine.console = machine'.console := alike.console
    simp only [sameArguments, sameConsole]
    obtain ⟨outcome, console⟩ := native.execute machine'.nativeArguments machine'.console
    have alike' : Workspace.Alike cells { machine with nativeArguments := [], console }.workspace
        { machine' with nativeArguments := [], console }.workspace :=
      { alike with console := rfl, nativeArguments := rfl }
    cases outcome with
    | error cause => exact ⟨.error _, alike'⟩
    | ok value =>
      cases destination : instr.result with
      | address cell =>
        simp only
        rw [← destination]
        exact ⟨write_alike alike' instr.result value, alike'⟩
      | _ =>
        refine ⟨.ok { alike' with
          memory := alike'.memory.mono fun _ among => among.resolve_right ?_ }, alike'⟩
        rintro ⟨_, same, _⟩
        rw [destination] at same
        cases same

end

end Machine

theorem Effect.Alike.mono {cells after fewer : Address → Prop} {effect effect' : Effect}
    (alike : Effect.Alike cells after effect effect')
    (included : ∀ cell, fewer cell → after cell) : Effect.Alike cells fewer effect effect' := by
  cases alike with
  | unknown => exact .unknown
  | fault cause alike => exact .fault cause alike
  | flow way alike => exact .flow way { alike with memory := alike.memory.mono included }

namespace Workspace

variable {cells : Address → Prop} {workspace workspace' : Workspace} {instr : Instruction}

theorem branch_alike (alike : workspace.Alike cells workspace')
    (left : instr.left.Among cells) (sense : Bool) :
    Effect.Alike cells cells (workspace.branch instr sense)
      (workspace'.branch instr sense) := by
  have alike' : workspace.idle.workspace.Alike cells workspace'.idle.workspace := alike
  unfold branch
  rw [Machine.read_alike alike' left]
  cases workspace'.idle.read instr.left with
  | error cause => exact .fault cause alike
  | ok condition => exact .flow _ alike

/-- An instruction other than a call, a return and the end of the program does the same to two
workspaces, if these agree on what it reads. They then agree on what it writes, too. -/
theorem effect_alike (alike : workspace.Alike cells workspace') (callers : Nat)
    (aside : instr.BaseAside) (reads : ∀ cell, instr.Reads cell → cells cell)
    (notCall : instr.opcode ≠ .call) (notRet : instr.opcode ≠ .ret)
    (notExit : instr.opcode ≠ .exit) :
    Effect.Alike cells (fun cell => cells cell ∨ instr.Writes cell)
      (workspace.effect callers instr) (workspace'.effect callers instr) := by
  have alike' : workspace.idle.workspace.Alike cells workspace'.idle.workspace := alike
  have among : ∀ operand ∈ instr.inputs, operand.Among cells := by
    intro operand taken address same inTemps
    exact reads address.plain ⟨.plain inTemps, operand, taken, address, same, rfl⟩
  have withResult : ∀ cell, cells cell ∨ instr.Writes cell →
      Machine.WithResult instr cells cell := by
    intro cell agreed
    exact agreed.imp id fun writes => writes.2.2
  have noResult : instr.stores = false → ∀ cell, cells cell ∨ instr.Writes cell →
      cells cell := by
    intro silent cell agreed
    refine agreed.resolve_right fun writes => ?_
    exact Bool.false_ne_true (silent.symm.trans writes.2.1)
  unfold Instruction.inputs at among
  unfold Instruction.stores at noResult
  unfold effect
  cases named : instr.opcode <;> rw [named] at among noResult
  case call => exact absurd named notCall
  case ret => exact absurd named notRet
  case exit => exact absurd named notExit
  case nop | init | goto => exact (Effect.Alike.flow _ alike).mono (noResult rfl)
  case openRecord =>
    refine (Effect.Alike.flow .next ?_).mono (noResult rfl)
    exact { alike with
      memory := { alike.memory with }, openRecords := congrArg (· + 1) alike.openRecords }
  case gotoTrue | gotoFalse =>
    exact (branch_alike alike (among _ List.mem_cons_self) _).mono (noResult rfl)
  case load => exact ((Machine.loadLiteral_alike alike').effect alike').mono withResult
  case store =>
    exact ((Machine.copy_alike alike' (among _ List.mem_cons_self)).effect alike').mono withResult
  case loadElement =>
    exact ((Machine.loadElement_alike alike' (among _ List.mem_cons_self)
      (among _ (List.mem_cons_of_mem _ List.mem_cons_self)) (aside (.inl named))).effect
      alike').mono withResult
  case storeElement =>
    exact ((Machine.storeElement_alike alike' (among _ List.mem_cons_self)
      (among _ (List.mem_cons_of_mem _ List.mem_cons_self))
      (among _ (List.mem_cons_of_mem _ (List.mem_cons_of_mem _ List.mem_cons_self)))).effect
      alike').mono (noResult rfl)
  case malloc =>
    have allocated := Machine.allocateObject_alike alike' (among _ List.mem_cons_self)
    exact (allocated.1.effect allocated.2).mono withResult
  case param =>
    exact ((Machine.passParam_alike alike' (among _ List.mem_cons_self)).effect alike').mono
      (noResult rfl)
  case nativeParam =>
    exact ((Machine.passNative_alike alike' (among _ List.mem_cons_self)).effect alike').mono
      (noResult rfl)
  case nativeCall =>
    have called := @Machine.callNative_alike cells workspace.idle workspace'.idle instr alike'
    exact (called.1.effect called.2).mono withResult
  case assign | reserved => exact .unknown
  all_goals
    exact ((Machine.operate_alike alike' (among _ List.mem_cons_self)
      (among _ (List.mem_cons_of_mem _ List.mem_cons_self))).effect alike').mono withResult

end Workspace

/-! ### What an instruction leaves as it is -/

namespace Machine

theorem Writes.writes_temp {machine : Machine} {cell : Address} {value : Value}
    (writes : machine.Writes instr cell value) (aside : instr.BaseAside) (inTemps : cell.area = .temps) :
    instr.Writes cell.plain := by
  have isResult (result : instr.result = .address cell) (storing : instr.stores = true) :
      instr.Writes cell.plain := ⟨.plain inTemps, storing, cell, result, rfl⟩
  cases writes with
  | place stores _ found => exact absurd inTemps (element_area (aside (.inr stores)) found).1
  | literal opcode _ result | copy opcode _ result | fetch opcode _ _ result =>
    exact isResult result (by simp only [Instruction.stores, opcode])
  | operate operates _ _ _ result =>
    refine isResult result ?_
    unfold Instruction.stores
    split
    all_goals first | rfl | exact operates

end Machine

namespace Memory

theorem keeps_temps_store {memory after : Memory} {cell : Address} {value : Value}
    (stored : memory.store cell.plain value = .ok after) :
    after.temps.room = memory.temps.room ∧ ∀ other : Address, other.IsTemp →
      (cell.area = .temps → other ≠ cell.plain) → after.temps.cell? other = memory.temps.cell? other := by
  by_cases inTemps : cell.area = .temps
  · obtain ⟨room, held⟩ := store_temp (.plain inTemps) stored
    exact ⟨room, fun other isTemp different => (held other isTemp).trans (if_neg (different inTemps))⟩
  · have elsewhere : cell.plain.area ≠ .temps := inTemps
    rw [temps_store elsewhere stored]
    exact ⟨rfl, fun _ _ _ => rfl⟩

end Memory

namespace Workspace

/-- An instruction that goes on in its body changes no intermediate result but the one it writes. -/
theorem effect_keeps_temps {workspace result : Workspace} {callers : Nat} (aside : instr.BaseAside)
    (flows : workspace.effect callers instr = .flow .next result) :
    result.memory.temps.room = workspace.memory.temps.room ∧
      ∀ cell : Address, cell.IsTemp → ¬ instr.Writes cell →
        result.memory.temps.cell? cell = workspace.memory.temps.cell? cell := by
  have fits : Flow.next.Fits instr.opcode := effect_fits flows
  obtain ⟨after, position, does, rfl⟩ := does_of_next flows
  have intoResult {memory after : Memory} {cell : Address} {value : Value} (storing : instr.stores = true)
      (result : instr.result = .address cell) (stored : memory.store cell.plain value = .ok after) :
      after.temps.room = memory.temps.room ∧ ∀ cell : Address, cell.IsTemp → ¬ instr.Writes cell →
        after.temps.cell? cell = memory.temps.cell? cell := by
    obtain ⟨room, kept⟩ := Memory.keeps_temps_store stored
    exact ⟨room, fun cell isTemp silent => kept cell isTemp fun _ same =>
      silent ⟨isTemp, storing, _, result, same.symm⟩⟩
  cases does with
  | write writes stored =>
    obtain ⟨room, kept⟩ := Memory.keeps_temps_store stored
    refine ⟨room, fun cell isTemp silent => kept cell isTemp fun inTemps same => silent ?_⟩
    exact same ▸ writes.writes_temp aside inTemps
  | make makes _ found result stored =>
    obtain ⟨arena, _, _, _, rfl⟩ := Memory.allocate_eq_ok.1 found
    have kept := intoResult (by simp only [Instruction.stores, makes]) result stored
    exact kept
  | askHost calls _ _ result stored =>
    exact intoResult (by simp only [Instruction.stores, calls]) result stored
  | enter calls => exact absurd calls fits.2.1
  | leave leaves => exact absurd leaves fits.2.2.1
  | _ => exact ⟨rfl, fun _ _ _ => rfl⟩

end Workspace

end Quadruple
