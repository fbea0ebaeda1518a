import Quadruple.Proofs.Cells
import Quadruple.Proofs.Segments
import Quadruple.Proofs.Structured
import Quadruple.Proofs.Typing

/-!
Code that does what structured programs mean. A segment computes an expression if a walk through it
leaves the value in a cell, and it executes a statement if a walk through it leaves the values of the
variables as the evaluator does. Both are put together from the parts of the expression or statement.
-/

namespace Quadruple

variable {address : Address}

theorem Address.plain_of_reference (plain : address.reference = false) :
    address.plain = address := by
  cases address
  cases plain
  rfl

namespace Structured

open Opcode (EvalError)

structure Placement where
  cell? : String → Option Address
  area : ∀ name address, cell? name = some address → address.area = .global
  plain : ∀ name address, cell? name = some address → address.reference = false
  apart : ∀ name name' address, cell? name = some address → cell? name' = some address → name = name'

abbrev Cursors := DataType → Nat

def Below (cursors : Cursors) (address : Address) : Prop :=
  address.reference = false ∧ (address.area = .temps → address.offset.toNat < cursors address.type)

variable {cursors cursors' : Cursors}

theorem Below.mono (below : Below cursors address)
    (later : ∀ type, cursors type ≤ cursors' type) : Below cursors' address :=
  ⟨below.1, fun inTemps => Nat.lt_of_lt_of_le (below.2 inTemps) (later _)⟩

abbrev Sizes := Area → DataType → Option Nat

/-- An intermediate result at the cursors or after them. -/
structure Available (sizes : Sizes) (cursors : Cursors) (address : Address) : Prop where
  area : address.area = .temps
  plain : address.reference = false
  beyond : cursors address.type ≤ address.offset.toNat
  inside : ∃ capacity, sizes address.area address.type = some capacity ∧
    address.offset.toNat < capacity

theorem Available.mono {sizes : Sizes}
    (available : Available sizes cursors' address) (later : ∀ type, cursors type ≤ cursors' type) :
    Available sizes cursors address :=
  { available with beyond := Nat.le_trans (later _) available.beyond }

/-- Two workspaces that differ at most in intermediate results from the cursors on. -/
structure Keeps (cursors : Cursors) (before after : Workspace) : Prop where
  sizes : after.memory.sizes = before.memory.sizes
  frames : after.memory.frames = before.memory.frames
  cells : ∀ address, Below cursors address → after.memory.load address = before.memory.load address

namespace Keeps

variable {cursors cursors' : Cursors} {before between after : Workspace}

theorem refl (cursors : Cursors) (workspace : Workspace) : Keeps cursors workspace workspace :=
  ⟨rfl, rfl, fun _ _ => rfl⟩

theorem trans (first : Keeps cursors before between) (second : Keeps cursors between after) :
    Keeps cursors before after :=
  ⟨second.sizes.trans first.sizes, second.frames.trans first.frames, fun address below =>
    (second.cells address below).trans (first.cells address below)⟩

theorem mono (keeps : Keeps cursors' before after) (later : ∀ type, cursors type ≤ cursors' type) :
    Keeps cursors before after :=
  { keeps with cells := fun address below => keeps.cells address (below.mono later) }

variable {value : Value}

theorem store {sizes : Sizes} {memory : Memory}
    (stored : before.memory.store address value = .ok memory)
    (available : Available sizes cursors address) :
    Keeps cursors before { before with memory } := by
  refine ⟨Memory.sizes_store stored, Memory.frames_store stored, fun other below => ?_⟩
  have different : other ≠ address := by
    rintro rfl
    exact Nat.not_lt_of_ge available.beyond (below.2 available.area)
  rw [Memory.load_store stored available.plain below.1, if_neg different]

end Keeps

structure Represents (sizes : Sizes) (placement : Placement) (store : Store) (workspace : Workspace) :
    Prop where
  sizes : workspace.memory.sizes = sizes
  frames : workspace.memory.frames = []
  cells : ∀ name address, placement.cell? name = some address →
    workspace.memory.load address = .ok (store name)
  typed : ∀ name address, placement.cell? name = some address → (store name).type = address.type

section

variable {sizes : Sizes} {placement : Placement} {cursors : Cursors} {store : Store}
  {workspace later : Workspace} {name : String} {address : Address} {value : Value} {memory : Memory}

theorem Placement.below (placed : placement.cell? name = some address) : Below cursors address := by
  refine ⟨placement.plain name address placed, fun inTemps => ?_⟩
  rw [placement.area name address placed] at inTemps
  cases inTemps

section

variable (represents : Represents sizes placement store workspace)
include represents

theorem Represents.keeps (keeps : Keeps cursors workspace later) :
    Represents sizes placement store later := by
  refine ⟨keeps.sizes.trans represents.sizes, keeps.frames.trans represents.frames, ?_,
    represents.typed⟩
  intro name address placed
  rw [keeps.cells address (Placement.below placed)]
  exact represents.cells name address placed

theorem Represents.exists_store (available : Available sizes cursors address) (value : Value) :
    ∃ memory, workspace.memory.store address value = .ok memory := by
  refine Memory.exists_store (Memory.has_iff.2 ?_) value
  rw [represents.sizes]
  exact available.inside

theorem Represents.set (placed : placement.cell? name = some address) (typed : value.type = address.type)
    (stored : workspace.memory.store address value = .ok memory) :
    Represents sizes placement (store.set name value) { workspace with memory } := by
  refine ⟨(Memory.sizes_store stored).trans represents.sizes,
    (Memory.frames_store stored).trans represents.frames, ?_, ?_⟩
  · intro other address' placed'
    rw [Memory.load_store stored (placement.plain _ _ placed) (placement.plain _ _ placed')]
    by_cases same : other = name
    · subst same
      cases placed.symm.trans placed'
      rw [if_pos rfl, Store.set, if_pos rfl]
    · have different : address' ≠ address := by
        rintro rfl
        exact same (placement.apart _ _ _ placed' placed)
      rw [if_neg different, Store.set, if_neg same]
      exact represents.cells other address' placed'
  · intro other address' placed'
    by_cases same : other = name
    · subst same
      cases placed.symm.trans placed'
      rw [Store.set, if_pos rfl]
      exact typed
    · rw [Store.set, if_neg same]
      exact represents.typed other address' placed'

end

end

/-- Where a walk comes to: to a place if there is a result, and to a failure if there is none. -/
def Comes {α : Type} (code : Code) (point : Point) (finish : Nat) :
    Except EvalError α → Workspace → Prop
  | .ok _, later => (Code.chart code).walk.Reaches point ⟨later, finish, []⟩
  | .error _, left => (Code.chart code).walk.Ends point (.failed .runtime, left)

section

variable {α : Type} {code : Code} {point between : Point} {place finish : Nat}
  {outcome : Except EvalError α} {later : Workspace}

theorem Comes.after (comes : Comes code between finish outcome later)
    (reached : (Code.chart code).walk.Reaches point between) :
    Comes code point finish outcome later := by
  cases outcome with
  | ok => exact reached.trans comes
  | error => exact reached.ends comes

theorem Comes.goOn (comes : Comes code point place outcome later)
    (stepped : ∀ workspace, (Code.chart code).walk.step ⟨workspace, place, []⟩ = .inl ⟨workspace, finish, []⟩) :
    Comes code point finish outcome later := by
  cases outcome with
  | ok => exact System.Reaches.trans comes (.step (stepped later))
  | error => exact comes

end

/-! ### Expressions -/

/-- A cell holds the value of an outcome, if there is one. -/
def Holds (address : Address) (outcome : Except EvalError Value) (workspace : Workspace) : Prop :=
  ∀ value, outcome = .ok value → value.type = address.type ∧ workspace.memory.load address = .ok value

theorem holds_error (address : Address) (cause : EvalError) (workspace : Workspace) :
    Holds address (.error cause) workspace :=
  nofun

/-- A walk leaves a value in a cell, or fails where there is no value. It works on intermediate results
from the cursors on only. -/
def Brings (code : Code) (cursors : Cursors) (workspace : Workspace) (start finish : Nat)
    (outcome : Except EvalError Value) (address : Address) : Prop :=
  ∃ later, Comes code ⟨workspace, start, []⟩ finish outcome later ∧ Keeps cursors workspace later ∧
    Holds address outcome later

/-- The code between two places computes a value into a cell. -/
def Computes (code : Code) (sizes : Sizes) (placement : Placement) (cursors : Cursors)
    (start finish : Nat) (outcome : Store → Except EvalError Value) (address : Address) : Prop :=
  ∀ store workspace, Represents sizes placement store workspace →
    Brings code cursors workspace start finish (outcome store) address

theorem Brings.bind {code : Code} {workspace : Workspace} {start between finish : Nat}
    {outcome : Except EvalError Value} {result : Value → Except EvalError Value} {address source : Address}
    (brings : Brings code cursors' workspace start between outcome source)
    (later : ∀ type, cursors type ≤ cursors' type)
    (next : ∀ value middle, Keeps cursors' workspace middle → value.type = source.type →
      middle.memory.load source = .ok value →
      Brings code cursors middle between finish (result value) address) :
    Brings code cursors workspace start finish (outcome >>= result) address := by
  obtain ⟨middle, comes, kept, holds⟩ := brings
  cases outcome with
  | error cause => exact ⟨middle, comes, kept.mono later, holds_error _ _ _⟩
  | ok value =>
    obtain ⟨typed, loaded⟩ := holds value rfl
    obtain ⟨after, comes', kept', holds'⟩ := next value middle kept typed loaded
    exact ⟨after, comes'.after comes, (kept.mono later).trans kept', holds'⟩

namespace Computes

variable {code : Code} {sizes : Sizes} {placement : Placement} {cursors cursors' : Cursors}
  {start between : Nat} {outcome outcome' : Store → Except EvalError Value}
  {address left right : Address} {opcode : Opcode}

theorem var {name : String} (placed : placement.cell? name = some address) :
    Computes code sizes placement cursors start start (fun store => .ok (store name)) address := by
  intro store workspace represents
  refine ⟨workspace, .refl _ _, .refl _ _, fun value same => ?_⟩
  cases same
  exact ⟨represents.typed name address placed, represents.cells name address placed⟩

variable {workspace : Workspace}

/-- What stands in an available cell after a value has been stored there. -/
theorem stored {memory : Memory}
    (available : Available sizes cursors address) (typed : value.type = address.type)
    (stored : workspace.memory.store address value = .ok memory) :
    workspace.memory.store address.plain (value.coerce address.type) = .ok memory ∧
      Keeps cursors workspace { workspace with memory } ∧
      Holds address (.ok value) { workspace with memory } := by
  refine ⟨?_, .store stored available, fun _ same => ?_⟩
  · rw [Address.plain_of_reference available.plain, Value.coerce_of_type typed]
    exact stored
  · cases same
    refine ⟨typed, ?_⟩
    rw [Memory.load_store stored available.plain available.plain, if_pos rfl]

theorem literal (typed : value.type = address.type) (available : Available sizes cursors address)
    (found : code[start]? = some ⟨.load, .literal value, .none, .address address⟩) :
    Computes code sizes placement cursors start (start + 1) (fun _ => .ok value) address := by
  intro store workspace represents
  obtain ⟨memory, isStored⟩ := represents.exists_store available value
  obtain ⟨written, keeps, holds⟩ := stored available typed isStored
  exact ⟨_, .step (Code.step_next found (Workspace.effect_load written)), keeps, holds⟩

theorem operate {store : Store} {first second : Value} {outcome : Except EvalError Value}
    {operand operand' : Operand} (represents : Represents sizes placement store workspace)
    (pure : opcode.isPure = true) (available : Available sizes cursors address)
    (found : code[start]? = some ⟨opcode, operand, operand', .address address⟩)
    (readLeft : workspace.idle.readIfAny operand = .ok first)
    (readRight : workspace.idle.readIfAny operand' = .ok second)
    (means : opcode.eval first second = outcome ∧ ∀ value, outcome = .ok value → value.type = address.type) :
    Brings code cursors workspace start (start + 1) outcome address := by
  obtain ⟨rfl, typed⟩ := means
  cases computed : opcode.eval first second with
  | error cause =>
    have stuck := Code.step_evaluation_fault found
      (Workspace.effect_operate_error pure readLeft readRight computed)
    exact ⟨workspace, System.ends_of_step stuck, .refl _ _, holds_error _ _ _⟩
  | ok value =>
    obtain ⟨memory, isStored⟩ := represents.exists_store available value
    obtain ⟨written, keeps, holds⟩ := stored available (typed value computed) isStored
    exact ⟨_, .step (Code.step_next found
      (Workspace.effect_operate pure readLeft readRight computed written)), keeps, holds⟩

theorem readIfAny (below : Below cursors address)
    (loaded : workspace.memory.load address = .ok value) :
    workspace.idle.readIfAny (.address address) = .ok value := by
  refine mapError_eq_ok.2 ?_
  rw [Address.plain_of_reference below.1]
  exact loaded

theorem unary {result : Value → Except EvalError Value}
    (computes : Computes code sizes placement cursors start between outcome right)
    (below : Below cursors' right) (later : ∀ type, cursors type ≤ cursors' type)
    (available : Available sizes cursors' address) (pure : opcode.isPure = true)
    (found : code[between]? = some ⟨opcode, .none, .address right, .address address⟩)
    (means : ∀ given, given.type = right.type → opcode.eval .absent given = result given ∧
      ∀ value, result given = .ok value → value.type = address.type) :
    Computes code sizes placement cursors start (between + 1)
      (fun store => outcome store >>= result) address := by
  intro store workspace represents
  refine (computes store workspace represents).bind (fun _ => Nat.le_refl _)
    fun given middle kept givenType loaded => ?_
  exact operate (represents.keeps kept) pure (available.mono later) found rfl (readIfAny below loaded)
    (means given givenType)

/-- An instruction of two operands after the computations of the operands. The second computation
leaves the first operand as it is. -/
theorem binary {result : Value → Value → Except EvalError Value} {middle : Nat}
    {cursors'' : Cursors} (computes : Computes code sizes placement cursors start middle outcome left)
    (computes' : Computes code sizes placement cursors' middle between outcome' right)
    (below : Below cursors' left) (below' : Below cursors'' right)
    (later : ∀ type, cursors type ≤ cursors' type) (later' : ∀ type, cursors' type ≤ cursors'' type)
    (available : Available sizes cursors'' address) (pure : opcode.isPure = true)
    (found : code[between]? = some ⟨opcode, .address left, .address right, .address address⟩)
    (means : ∀ first second, first.type = left.type → second.type = right.type →
      opcode.eval first second = result first second ∧
        ∀ value, result first second = .ok value → value.type = address.type) :
    Computes code sizes placement cursors start (between + 1)
      (fun store => outcome store >>= fun first => outcome' store >>= result first) address := by
  intro store workspace represents
  refine (computes store workspace represents).bind (fun _ => Nat.le_refl _)
    fun first passed kept firstType loaded => ?_
  have represents := represents.keeps kept
  refine (computes' store passed represents).bind later fun second passed' kept' secondType loaded' => ?_
  have still := (kept'.cells left below).trans loaded
  exact operate (represents.keeps kept') pure ((available.mono later').mono later) found
    (readIfAny below still) (readIfAny below' loaded') (means first second firstType secondType)

end Computes

/-! ### Statements -/

/-- A walk comes to where an evaluation does, or lasts for some steps if the evaluation has not ended. -/
def Follows (code : Code) (sizes : Sizes) (placement : Placement) (point : Point) (finish count : Nat) :
    Option Result → Prop
  | some (outcome, store) => ∃ later, Comes code point finish outcome later ∧
      Represents sizes placement store later
  | none => (Code.chart code).walk.Lasts point count

/-- The code between two places changes the variables as the evaluator does and fails where it fails.
The more rounds the evaluator goes on for without an end, the more steps the code takes. -/
def Executes (code : Code) (sizes : Sizes) (placement : Placement) (types : String → DataType)
    (start finish : Nat) (statement : Statement) : Prop :=
  ∀ rounds store workspace, Represents sizes placement store workspace →
    Follows code sizes placement ⟨workspace, start, []⟩ finish (rounds - statement.depth)
      (statement.run types rounds store)

def whenFalse (condition : Address) (target : Nat) : Instruction :=
  ⟨.gotoFalse, .address condition, .none, .target target⟩

def always (target : Nat) : Instruction :=
  { opcode := .goto, result := .target target }

section

variable {code : Code} {place target : Nat} {workspace : Workspace} {condition : Address}
  {value : Value}

theorem step_always (found : code[place]? = some (always target)) :
    (Code.chart code).walk.step ⟨workspace, place, []⟩ = .inl ⟨workspace, target, []⟩ :=
  Code.step_target found rfl

section

variable (found : code[place]? = some (whenFalse condition target))
include found

theorem step_whenFalse_next
    (plain : condition.reference = false) (loaded : workspace.memory.load condition = .ok value)
    (holds : value.holds = true) :
    (Code.chart code).walk.step ⟨workspace, place, []⟩ = .inl ⟨workspace, place + 1, []⟩ := by
  refine Code.step_next found ?_
  rw [← Address.plain_of_reference plain] at loaded
  rw [whenFalse, Workspace.effect_gotoFalse loaded, holds]
  rfl

theorem step_whenFalse_target
    (plain : condition.reference = false) (loaded : workspace.memory.load condition = .ok value)
    (fails : ¬ value.holds = true) :
    (Code.chart code).walk.step ⟨workspace, place, []⟩ = .inl ⟨workspace, target, []⟩ := by
  refine Code.step_target found ?_
  rw [← Address.plain_of_reference plain] at loaded
  rw [whenFalse, Workspace.effect_gotoFalse loaded, if_pos (Bool.eq_false_iff.2 fails)]

end

end

section

variable {code : Code} {sizes : Sizes} {placement : Placement} {point between : Point}
  {place finish count count' : Nat} {result : Option Result} {workspace : Workspace}

theorem Follows.after (follows : Follows code sizes placement between finish count result)
    (reached : (Code.chart code).walk.Reaches point between) :
    Follows code sizes placement point finish count result := by
  cases result with
  | none => exact reached.lasts follows
  | some =>
    obtain ⟨later, comes, represents⟩ := follows
    exact ⟨later, comes.after reached, represents⟩

theorem Follows.step (follows : Follows code sizes placement between finish count result)
    (stepped : (Code.chart code).walk.step point = .inl between) :
    Follows code sizes placement point finish (count + 1) result := by
  cases result with
  | none => exact .succ stepped follows
  | some => exact follows.after (.step stepped)

theorem Follows.fewer (follows : Follows code sizes placement point finish count result)
    (fewer : count' ≤ count) : Follows code sizes placement point finish count' result := by
  cases result with
  | none =>
    obtain ⟨more, later, enough, reached⟩ := follows
    exact ⟨more, later, Nat.le_trans fewer enough, reached⟩
  | some => exact follows

theorem Follows.goOn (follows : Follows code sizes placement point place count result)
    (stepped : ∀ workspace, (Code.chart code).walk.step ⟨workspace, place, []⟩ = .inl ⟨workspace, finish, []⟩) :
    Follows code sizes placement point finish count result := by
  cases result with
  | none => exact follows
  | some =>
    obtain ⟨later, comes, represents⟩ := follows
    exact ⟨later, comes.goOn stepped, represents⟩

theorem Follows.andThen {rest : Store → Option Result}
    (follows : Follows code sizes placement point place count result)
    (next : ∀ store workspace, Represents sizes placement store workspace →
      Follows code sizes placement ⟨workspace, place, []⟩ finish count (rest store)) :
    Follows code sizes placement point finish count (andThen result rest) := by
  cases result with
  | none => exact follows
  | some given =>
    obtain ⟨outcome, store⟩ := given
    cases outcome with
    | error cause => exact follows
    | ok _ =>
      obtain ⟨later, comes, represents⟩ := follows
      exact (next store later represents).after comes

/-- The evaluation of an expression, and what depends on its value. -/
theorem Computes.within {cursors : Cursors} {start : Nat} {outcome : Store → Except EvalError Value}
    {address : Address} {store : Store} {rest : Value → Option Result}
    (computes : Computes code sizes placement cursors start place outcome address)
    (represents : Represents sizes placement store workspace)
    (next : ∀ value later, value.type = address.type → later.memory.load address = .ok value →
      Represents sizes placement store later →
      Follows code sizes placement ⟨later, place, []⟩ finish count (rest value)) :
    Follows code sizes placement ⟨workspace, start, []⟩ finish count
      (within store (outcome store) rest) := by
  obtain ⟨later, comes, kept, holds⟩ := computes store workspace represents
  have represents := represents.keeps kept
  cases isGiven : outcome store with
  | error cause =>
    rw [isGiven] at comes
    exact ⟨later, comes, represents⟩
  | ok value =>
    rw [isGiven] at comes
    obtain ⟨typed, loaded⟩ := holds value isGiven
    exact (next value later typed loaded represents).after comes

end

namespace Executes

variable {code : Code} {sizes : Sizes} {placement : Placement} {types : String → DataType}
  {cursors : Cursors} {start between between' finish : Nat} {condition : Expression}
  {statement first second yes no body : Statement} {outcome : Store → Except EvalError Value}
  {name : String} {address source : Address}

theorem of_succ (executes : ∀ rounds store workspace, Represents sizes placement store workspace →
      Follows code sizes placement ⟨workspace, start, []⟩ finish (rounds + 1 - statement.depth)
        (statement.run types (rounds + 1) store)) :
    Executes code sizes placement types start finish statement := by
  intro rounds store workspace represents
  cases rounds with
  | zero => exact ⟨0, _, Nat.le_of_eq (Nat.zero_sub _), rfl⟩
  | succ rounds => exact executes rounds store workspace represents

theorem skip : Executes code sizes placement types start start .skip :=
  .of_succ fun _ _ workspace represents => ⟨workspace, .refl _ _, represents⟩

/-- A statement that stores one value: the value is computed and then copied to its variable. -/
theorem store (runs : ∀ rounds store, statement.run types (rounds + 1) store =
      within store (outcome store) fun value => some (.ok (), store.set name value))
    (computes : Computes code sizes placement cursors start between outcome source)
    (plain : source.reference = false) (placed : placement.cell? name = some address)
    (typed : source.type = address.type)
    (found : code[between]? = some ⟨.store, .address source, .none, .address address⟩) :
    Executes code sizes placement types start (between + 1) statement := by
  refine .of_succ fun rounds store workspace represents => ?_
  rw [runs]
  refine computes.within represents fun value later valueType loaded represents => ?_
  obtain ⟨arena, here, inside, _⟩ := Memory.load_eq_ok.1 (represents.cells name address placed)
  obtain ⟨memory, stored⟩ := Memory.exists_store ⟨arena, here, inside⟩ value
  have valueType := valueType.trans typed
  have copies := Code.step_next found (Workspace.effect_store
    (by rw [Address.plain_of_reference plain]; exact loaded)
    (by
      rw [Address.plain_of_reference (placement.plain _ _ placed), Value.coerce_of_type valueType]
      exact stored))
  exact ⟨_, .step copies, represents.set placed valueType stored⟩

theorem sequence (executes : Executes code sizes placement types start between first)
    (executes' : Executes code sizes placement types between finish second) :
    Executes code sizes placement types start finish (.sequence first second) := by
  refine .of_succ fun rounds store workspace represents => Follows.andThen
    ((executes rounds store workspace represents).fewer ?_)
    fun store workspace represents => (executes' rounds store workspace represents).fewer ?_
  all_goals
    simp only [Statement.depth]
    omega

theorem choose {test : Address}
    (computes : Computes code sizes placement cursors start between (fun store => condition.eval store) test)
    (plain : test.reference = false) (tests : code[between]? = some (whenFalse test (between' + 1)))
    (executes : Executes code sizes placement types (between + 1) between' yes)
    (found : code[between']? = some (always finish))
    (executes' : Executes code sizes placement types (between' + 1) finish no) :
    Executes code sizes placement types start finish (.choose condition yes no) := by
  refine .of_succ fun rounds store workspace represents => computes.within represents
    fun value later _ loaded represents => ?_
  by_cases holds : value.holds = true
  · rw [if_pos holds]
    refine (((executes rounds store later represents).goOn fun _ => step_always found).fewer ?_).after
      (.step (step_whenFalse_next tests plain loaded holds))
    simp only [Statement.depth]
    omega
  · rw [if_neg holds]
    refine ((executes' rounds store later represents).fewer ?_).after
      (.step (step_whenFalse_target tests plain loaded holds))
    simp only [Statement.depth]
    omega

/-- Each round of the evaluator is one walk around the loop, which takes at least one step. -/
theorem loop {test : Address}
    (computes : Computes code sizes placement cursors start between (fun store => condition.eval store) test)
    (plain : test.reference = false) (tests : code[between]? = some (whenFalse test finish))
    (executes : Executes code sizes placement types (between + 1) between' body)
    (found : code[between']? = some (always start)) :
    Executes code sizes placement types start finish (.loop condition body) := by
  intro rounds
  induction rounds with
  | zero => exact fun _ _ _ => ⟨0, _, Nat.le_of_eq (Nat.zero_sub _), rfl⟩
  | succ rounds again =>
    intro store workspace represents
    refine computes.within represents fun value later _ loaded represents => ?_
    by_cases holds : value.holds = true
    · rw [if_pos holds]
      have passes := step_whenFalse_next tests plain loaded holds
      refine (Follows.andThen ((executes rounds store later represents).fewer ?_) fun store workspace
        represents => ((again store workspace represents).step (step_always found)).fewer ?_).after
          (.step passes)
      all_goals
        simp only [Statement.depth]
        omega
    · rw [if_neg holds]
      exact ⟨later, .step (step_whenFalse_target tests plain loaded holds), represents⟩

end Executes

end Structured

end Quadruple
