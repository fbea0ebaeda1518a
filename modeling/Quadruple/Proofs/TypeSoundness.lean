import Quadruple.Proofs.Patching
import Quadruple.Proofs.Steps
import Mathlib.Logic.Function.Iterate

/-!
Type soundness. Storing converts numbers and truth values but leaves all else as it is, so that a
cell holds a value of its type only if the instruction that fills it was emitted for values of that
type. Compiled code consists of such instructions, whatever the targets of its jumps are; so every
stored value has the type of its arena, at every time and in every saved activation record.
-/

namespace Quadruple

open Generator (conversion? emitted NativeSignature standardNatives)

variable {arena : Arena} {type : DataType} {value : Value} {capacities : Capacities}
  {made : Option Scope.Class}

/-! ### Typed storage -/

def Arena.Typed (arena : Arena) (type : DataType) : Prop :=
  ∀ (offset : Nat) (value : Value), arena.cells[offset]? = some value → value.type = type

/-- Every stored value has the type of its arena, now and in every saved activation record. -/
def Memory.Typed (memory : Memory) : Prop :=
  memory.Every fun _ type arena => arena.Typed type

theorem Arena.Typed.get (typed : arena.Typed type) (offset : Nat) : (arena.get type offset).type = type := by
  rw [Arena.get_eq]
  cases found : arena.cells[offset]? with
  | none => exact Value.type_zero type
  | some value => exact typed offset value found

theorem Arena.Typed.put (typed : arena.Typed type) (here : value.type = type) (offset : Nat) :
    (arena.put type offset value).Typed type := by
  intro other stored found
  rw [Arena.getElem?_put] at found
  split at found
  · cases found
    exact here
  · split at found
    · exact typed other stored found
    · split at found
      · cases found
        exact Value.type_zero type
      · cases found

namespace Memory.Typed

variable {memory after : Memory} {area : Area} {type : DataType} {arena : Arena}
  {address : Address} {value : Value}

section

variable (typed : memory.Typed)
include typed

theorem load (loaded : memory.load address = .ok value) : value.type = address.type := by
  obtain ⟨arena, found, _, rfl⟩ := Memory.load_eq_ok.1 loaded
  exact (typed.arenas _ _ arena found).get _

theorem store (stored : memory.store address value = .ok after) (here : value.type = address.type) :
    after.Typed := by
  obtain ⟨arena, found, _, rfl⟩ := Memory.store_eq_ok.1 stored
  exact typed.setArena found ((typed.arenas _ _ arena found).put here _)

theorem fill (stored : memory.store address.plain (value.coerce address.type) = .ok after)
    (here : value.type = address.type) : after.Typed := by
  rw [Value.coerce_of_type here] at stored
  exact typed.store stored here

theorem allocate {size : Int} {reference : Bool}
    (allocated : memory.allocate area type size reference = .ok (address, after)) :
    after.Typed := by
  obtain ⟨arena, found, _, _, rfl⟩ := Memory.allocate_eq_ok.1 allocated
  exact typed.setArena found (typed.arenas _ _ arena found)

theorem bindAll {passed : List Passed}
    (here : ∀ argument ∈ passed, argument.value.type = argument.destination.type) :
    (Machine.bindAll memory passed).2.Typed :=
  Machine.bindAll_keeps Memory.Typed
    (fun argument listed _ _ typed stored => typed.fill stored (here argument listed)) typed

end

end Memory.Typed

theorem Memory.typed_ofCapacities (capacities : Capacities) : (ofCapacities capacities).Typed := by
  refine Every.mk (fun area type arena found offset value stored => ?_) nofun
  rw [(Memory.arena?_ofCapacities found).2.2] at stored
  simp at stored

/-! ### The host's functions -/

def Native.gives : Native → DataType
  | cos | sin | sqrt | pow | textToFloat => .float
  | truncate | textLength | textToInt => .int
  | read => .string
  | clearConsole | cursorHome | putchar | write => .void

theorem Native.type_execute {native : Native} {arguments : List Value} {console after : Console}
    (executed : native.execute arguments console = (.ok value, after)) : value.type = native.gives := by
  unfold Native.execute at executed
  split at executed
  · cases executed
  · cases native with
    | textToInt | textToFloat =>
      obtain ⟨number, _, rfl⟩ := map_eq_ok.1 (congrArg Prod.fst executed)
      rfl
    | _ =>
      cases executed
      rfl

/-! ### Typed instructions -/

def Operand.Yields (operand : Operand) (value : Value) : Prop :=
  operand ≠ .none → value.type = operand.type

/-- If the instruction writes to a cell, it writes a value of the cell's type. -/
structure Instruction.Typed (instr : Instruction) : Prop where
  moves : ∀ cell, instr.result = .address cell →
    instr.opcode = .load ∨ instr.opcode = .store ∨ instr.opcode = .param →
    instr.left.type = cell.type
  makes : ∀ cell, instr.result = .address cell → instr.opcode = .malloc →
    cell.type = .object
  receives : ∀ cell native, instr.result = .address cell → instr.opcode = .nativeCall →
    Native.ofName? (Machine.nativeName instr.left) = some native → native.gives = cell.type
  computes : ∀ cell first second value, instr.result = .address cell →
    instr.opcode.isPure = true → instr.left.Yields first →
    instr.right.Yields second → instr.opcode.eval first second = .ok value →
    value.type = cell.type

namespace Instruction

variable {instr : Instruction}

theorem typed_of_none (none : ∀ cell, instr.result ≠ .address cell) : instr.Typed where
  moves := fun cell result => absurd result (none cell)
  makes := fun cell result => absurd result (none cell)
  receives := fun cell _ result => absurd result (none cell)
  computes := fun cell _ _ _ result => absurd result (none cell)

theorem typed_aimed (instr : Instruction) (target : Int) :
    (instr.aimed target).Typed := by
  refine typed_of_none fun cell same => ?_
  cases same

theorem typed_of_moves (moves : instr.opcode ∈ [Opcode.load, .store, .param])
    (same : ∀ cell, instr.result = .address cell → instr.left.type = cell.type) :
    instr.Typed where
  moves := fun cell result _ => same cell result
  makes := by
    intro _ _ makes
    rw [makes] at moves
    simp at moves
  receives := by
    intro _ _ _ receives
    rw [receives] at moves
    simp at moves
  computes := by
    intro _ _ _ _ _ computes
    simp only [List.mem_cons, List.not_mem_nil, or_false] at moves
    rcases moves with moves | moves | moves <;> rw [moves] at computes <;> cases computes

theorem typed_of_computes (other : instr.opcode ∉ [Opcode.load, .store, .param, .malloc, .nativeCall])
    (computes : ∀ cell first second value, instr.result = .address cell → instr.opcode.isPure = true →
      instr.left.Yields first → instr.right.Yields second → instr.opcode.eval first second = .ok value →
      value.type = cell.type) : instr.Typed where
  moves := by
    rintro _ _ (moves | moves | moves) <;> rw [moves] at other <;> simp at other
  makes := by
    intro _ _ makes
    rw [makes] at other
    simp at other
  receives := by
    intro _ _ _ receives
    rw [receives] at other
    simp at other
  computes := computes

end Instruction

section

variable {rules : Rules} {instr : Instruction} {opcode : Opcode}

theorem Rules.Plain.typed (plain : rules.Plain instr) : instr.Typed := by
  cases plain with
  | load same | store same =>
    refine Instruction.typed_of_moves (by simp) ?_
    rintro _ ⟨⟩
    exact same
  | loadElement | storeElement =>
    refine Instruction.typed_of_computes (by simp) ?_
    intro _ _ _ _ _ operates
    cases operates
  | @convert opcode source cell converts =>
    have other : opcode ∉ [Opcode.load, .store, .param, .malloc, .nativeCall] := by
      unfold conversion? at converts
      split at converts <;> cases converts <;> simp
    refine Instruction.typed_of_computes other ?_
    rintro _ first second value ⟨⟩ _ _ yields computed
    obtain ⟨same, isTarget⟩ := Opcode.eval_of_conversion? converts (yields nofun)
    cases same.symm.trans computed
    exact isTarget
  | @unary opcode operand cell typed =>
    rw [Opcode.emitted_unary typed]
    have other : opcode ∉ [Opcode.load, .store, .param, .malloc, .nativeCall] := by
      cases opcode <;> first | cases typed | simp
    refine Instruction.typed_of_computes other ?_
    rintro _ first second value ⟨⟩ _ _ yields computed
    have here : second.type = operand.type := yields nofun
    rw [← here] at typed
    exact Opcode.type_of_unary typed computed
  | @binary opcode left right cell typed readsLeft readsRight =>
    have other : emitted opcode cell.type ∉ [Opcode.load, .store, .param, .malloc, .nativeCall] := by
      unfold emitted
      cases opcode <;> first | cases typed | (simp <;> split <;> simp)
    refine Instruction.typed_of_computes other ?_
    rintro _ first second value ⟨⟩ _ yieldsLeft yieldsRight computed
    have first_type : first.type = left.type := yieldsLeft (by rintro rfl; exact readsLeft)
    have second_type : second.type = right.type := yieldsRight (by rintro rfl; exact readsRight)
    rw [← first_type, ← second_type] at typed
    rw [Opcode.eval_emitted typed] at computed
    exact Opcode.type_of_binary typed computed
  | ret =>
    refine Instruction.typed_of_none fun cell same => ?_
    cases same

/-- The rules of typed code: the host's functions give what they are declared to give. -/
def Rules.typing (capacities : Capacities) : Rules where
  capacities
  usable := fun _ => True
  hosts := fun name returns => ∀ native, Native.ofName? name = some native → native.gives = returns
  usable_of_has := fun _ _ => trivial
  usable_mark := fun _ _ => Iff.rfl

theorem Rules.Appends.typed (appends : (typing capacities).Appends made instr) : instr.Typed := by
  cases appends with
  | plain plain => exact plain.typed
  | malloc _ refers =>
    refine ⟨?_, ?_, ?_, ?_⟩
    · rintro _ _ (moves | moves | moves) <;> cases moves
    · rintro _ ⟨⟩ _
      exact refers.isObject
    · intro _ _ _ receives
      cases receives
    · intro _ _ _ _ _ operates
      cases operates
  | passing typed =>
    refine Instruction.typed_of_moves (by simp [Instruction.passing]) ?_
    rintro _ ⟨⟩
    exact typed
  | callHost hosts receives =>
    refine ⟨?_, ?_, ?_, ?_⟩
    · rintro _ _ (moves | moves | moves) <;> cases moves
    · intro _ _ makes
      cases makes
    · rintro cell native result _ found
      cases receives with
      | nothing => cases result
      | value typed =>
        cases result
        rw [hosts native found, typed]
    · intro _ _ _ _ _ operates
      cases operates
  | openRecord | call | passingHost =>
    refine Instruction.typed_of_none fun cell same => ?_
    cases same

theorem Rules.Emits.typed (emits : (typing capacities).Emits made instr) : instr.Typed := by
  cases emits with
  | append appends => exact appends.typed
  | branch | jump | start | exit =>
    refine Instruction.typed_of_none fun cell same => ?_
    cases same

end

/-! ### Typed runs -/

namespace Machine

variable {machine after left : Machine} {instr : Instruction} {operand : Operand} {value : Value}
  {cell : Address}

/-- Cells hold values of their types, and arguments that wait fit the cells that they go to. -/
structure Typed (machine : Machine) : Prop where
  memory : machine.memory.Typed
  passed : ∀ argument ∈ machine.passed, argument.value.type = argument.destination.type

theorem Typed.read (typed : machine.Typed) (found : machine.read operand = .ok value) :
    value.type = operand.type := by
  cases operand with
  | literal => cases found; rfl
  | address cell =>
    have loaded : machine.memory.load cell.plain = .ok value := mapError_eq_ok.1 found
    have here : value.type = cell.plain.type := typed.memory.load loaded
    exact here
  | _ => cases found

theorem Typed.readIfAny (typed : machine.Typed) (found : machine.readIfAny operand = .ok value) :
    operand.Yields value := by
  intro some
  cases operand with
  | none => exact absurd rfl some
  | _ => exact typed.read found

theorem type_of_element {base index : Operand} {type : DataType}
    (found : machine.element base index type = .ok cell) : cell.type = type := by
  obtain ⟨_, _, _, _, _, _, _, rfl⟩ := element_eq_ok found
  rfl

section

variable (typed : machine.Typed)
include typed

theorem Typed.writes (fits : instr.Typed) (writes : machine.Writes instr cell value) :
    value.type = cell.type := by
  cases writes with
  | literal loads source result =>
    rw [← fits.moves cell result (.inl loads), source]
    rfl
  | copy copies source result =>
    rw [← fits.moves cell result (.inr (.inl copies))]
    exact typed.read source
  | fetch loads found source result =>
    rw [← type_of_element found]
    exact typed.memory.load source
  | place stores source found =>
    rw [type_of_element found]
    exact typed.read source
  | operate operates readLeft readRight evaluated result =>
    exact fits.computes cell _ _ value result operates (typed.readIfAny readLeft)
      (typed.readIfAny readRight) evaluated

theorem Typed.does (fits : instr.Typed) {position : Nat}
    (does : machine.Does instr after position) : after.Typed := by
  cases does with
  | idle | halt | jump | fall | passHost | callHost => exact ⟨typed.memory, typed.passed⟩
  | write writes stored =>
    exact ⟨typed.memory.fill stored (typed.writes fits writes), typed.passed⟩
  | make makes _ found result stored =>
    exact ⟨(typed.memory.allocate found).fill stored (fits.makes _ result makes).symm,
      typed.passed⟩
  | openRecord => exact ⟨typed.memory.snapshot, typed.passed⟩
  | pass passes source result =>
    refine ⟨typed.memory, fun argument listed => ?_⟩
    rcases List.mem_append.1 listed with listed | listed
    · exact typed.passed argument listed
    · cases List.mem_singleton.1 listed
      rw [← fits.moves _ result (.inr (.inr passes))]
      exact typed.read source
  | enter _ _ bound =>
    have kept := typed.memory.bindAll typed.passed
    rw [bound] at kept
    exact ⟨kept, fun _ listed => (nomatch listed)⟩
  | leave _ _ restored => exact ⟨typed.memory.restore restored, typed.passed⟩
  | askHost calls found executed result stored =>
    refine ⟨typed.memory.fill stored ?_, typed.passed⟩
    rw [Native.type_execute executed]
    exact fits.receives _ _ result calls found

theorem Typed.leaves (leaves : machine.Leaves instr left) : left.Typed := by
  cases leaves with
  | same => exact typed
  | made _ found => exact ⟨typed.memory.allocate found, typed.passed⟩
  | bound _ bound =>
    have kept := typed.memory.bindAll typed.passed
    rw [bound] at kept
    exact ⟨kept, typed.passed⟩
  | entered _ _ bound =>
    have kept := typed.memory.bindAll typed.passed
    rw [bound] at kept
    exact ⟨kept, fun _ listed => (nomatch listed)⟩
  | called => exact ⟨typed.memory, typed.passed⟩

section

variable (code : Code.Each (fun _ => Instruction.Typed) machine.program)
include code

/-- A step of a typed program keeps the machine typed, whether it succeeds or not. -/
theorem Typed.step : machine.step.2.Typed := by
  refine step_keeps Machine.Typed typed ⟨typed.memory, typed.passed⟩ (fun found does => ?_)
    fun _ leaves => typed.leaves leaves
  have kept := typed.does (code _ _ found) does
  exact ⟨kept.memory, kept.passed⟩

theorem Typed.steps (count : Nat) : ((fun machine => machine.step.2)^[count] machine).Typed := by
  induction count generalizing machine with
  | zero => exact typed
  | succ count ih =>
    exact ih (typed.step code) (by rw [program_step]; exact code)

end

end

end Machine

theorem Event.kind_of_declareNative {event : Event} {name : String} {returns : DataType}
    (told : event.command = .ok (.declareNative name returns)) :
    String.ofList (event.kind.toList.map Text.lowerPlain) = "declare_native" := by
  unfold Event.command at told
  split at told
  case h_13 => assumption
  all_goals
    first
    | cases told
    | (obtain ⟨_, _, told⟩ := bind_eq_ok.1 told
       cases told)
    | (split at told
       · cases told
       · obtain ⟨_, _, told⟩ := bind_eq_ok.1 told
         cases told)

namespace Transcript

/-- Code of a transcript that declares no functions of the host on its own is typed. -/
theorem typed_of_compile {transcript : Transcript} {capacities : Capacities} {code : Code}
    (own : ∀ event ∈ transcript.events,
      String.ofList (event.kind.toList.map Text.lowerPlain) ≠ "declare_native")
    (compiled : transcript.compile capacities = .ok code) : Code.Each (fun _ => Instruction.Typed) code := by
  obtain ⟨commands, after, asks, performs, rfl⟩ := compile_performs compiled
  have hosts : ∀ signature ∈ standardNatives,
      (Rules.typing capacities).hosts signature.name signature.returns := by
    intro signature listed native found
    have agree : standardNatives.all fun signature =>
        (Native.ofName? signature.name).all fun native => native.gives = signature.returns := by
      decide
    have here := List.all_eq_true.1 agree signature listed
    rw [found] at here
    exact of_decide_eq_true here
  have admits : Generator.Admits (Rules.typing capacities) commands := by
    refine asks.admits hosts fun _ command _ _ _ _ told => ?_
    cases command with
    | declareNative =>
      obtain ⟨event, listed, means⟩ := List.mem_filterMap.1 told
      exact absurd (Event.kind_of_declareNative (toOption_eq_some.1 means)) (own event listed)
    | declareVariable | declareObject => exact .inr (.inl fun _ _ _ => trivial)
    | declareClass => exact .inl fun _ _ _ => trivial
    | _ => exact trivial
  exact Generator.Performs.all performs admits (fun _ _ emits => emits.typed)
    fun instr target _ => instr.typed_aimed target

/-- Whatever a compiled program does, and however often it is told to go on after it failed, every
stored value has the type of its arena. -/
theorem compiled_stays_typed {transcript : Transcript} {capacities : Capacities} {code : Code}
    (own : ∀ event ∈ transcript.events,
      String.ofList (event.kind.toList.map Text.lowerPlain) ≠ "declare_native")
    (compiled : transcript.compile capacities = .ok code) (options : Machine.Options)
    (count : Nat) :
    ((fun machine => machine.step.2)^[count] (Machine.ofProgram code options)).memory.Typed := by
  have start : (Machine.ofProgram code options).Typed :=
    ⟨Memory.typed_ofCapacities options.capacities, fun _ listed => (nomatch listed)⟩
  exact (start.steps (typed_of_compile own compiled) count).memory

/-- A function of a float, called with an integer, and a line for the host to write. -/
def halving : Transcript where
  natives := true
  events :=
    [{ kind := "declare_variable", name := "g", type := "float" },
      { kind := "declare_function", name := "half", type := "float" },
      { kind := "declare_argument", name := "x", type := "float" },
      { kind := "identifier", name := "x" }, { kind := "variable" },
      { kind := "constant", value := some (.int 2) }, { kind := "operator", operator := "/" },
      { kind := "return" }, { kind := "close_function" }, { kind := "init" },
      { kind := "identifier", name := "g" }, { kind := "variable" },
      { kind := "identifier", name := "half" }, { kind := "constant", value := some (.int 7) },
      { kind := "call" }, { kind := "assign" },
      { kind := "identifier", name := "write" },
      { kind := "constant", value := some (.string "done") }, { kind := "call" },
      { kind := "exit" }]

theorem halving_stays_typed : ∃ code, halving.compile {} = .ok code ∧
    ∀ count,
      ((fun machine => machine.step.2)^[count] (Machine.ofProgram code {})).memory.Typed := by
  obtain ⟨code, compiled⟩ := exists_ok (halving.compile {}) (by decide +kernel)
  exact ⟨code, compiled, compiled_stays_typed (by decide) compiled {}⟩

end Transcript

end Quadruple
