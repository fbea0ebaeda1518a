import Mathlib.Data.List.Basic
import Mathlib.Logic.Function.Basic
import Quadruple.Proofs.Storage

/-!
Plain memories. What can be asked of any memory, and how the records that it saves pair the requests to
save and to give back. A plain memory has a value for every cell, a cursor for every area and type, and a
stack of saved pairs of the two areas that belong to an activation. A load finds what was stored last,
however activations are nested.
-/

namespace Quadruple

open Function (update)

def Area.isFramed : Area → Bool
  | .locals | .temps => true
  | _ => false

/-- The cells of each type in an area; an arena cannot have more than there are offsets. -/
def Capacities.cells (capacities : Capacities) : Area → Nat
  | .global => atMost capacities.global
  | .locals => atMost capacities.locals
  | .temps => atMost capacities.temps
  | .stack => atMost capacities.stack
  | .reserved .. => 0
where
  atMost (requested : Nat) : Nat :=
    if requested = 0 then Address.defaultCapacity else min requested Address.defaultCapacity

/-! ### What can be asked of a memory -/

namespace Memory

/-- The operations of a memory with states of a type. -/
structure Operations (σ : Type) where
  allocate : σ → Area → DataType → Int → Bool → Except Error (Address × σ)
  reset : σ → Area → DataType → Except Error σ
  resetLocals : σ → σ
  snapshot : σ → σ
  restore : σ → Except Error σ
  load : σ → Address → Except Error Value
  store : σ → Address → Value → Except Error σ

inductive Request where
  | allocate (area : Area) (type : DataType) (size : Int) (reference : Bool)
  | reset (area : Area) (type : DataType)
  | resetLocals
  | snapshot
  | restore
  | load (address : Address)
  | store (address : Address) (value : Value)

inductive Answer where
  | done
  | address (address : Address)
  | value (value : Value)

namespace Operations

variable {σ : Type} (operations : Operations σ)

def attempt (state : σ) : Request → Except Error (Answer × σ)
  | .allocate area type size reference =>
    (operations.allocate state area type size reference).map fun (address, after) =>
      (.address address, after)
  | .reset area type => (operations.reset state area type).map fun after => (.done, after)
  | .resetLocals => .ok (.done, operations.resetLocals state)
  | .snapshot => .ok (.done, operations.snapshot state)
  | .restore => (operations.restore state).map fun after => (.done, after)
  | .load address => (operations.load state address).map fun value => (.value value, state)
  | .store address value => (operations.store state address value).map fun after => (.done, after)

def perform (state : σ) (request : Request) : Except Error Answer × σ :=
  match operations.attempt state request with
  | .ok (answer, after) => (.ok answer, after)
  | .error cause => (.error cause, state)

def answers (state : σ) : List Request → List (Except Error Answer)
  | [] => []
  | request :: rest =>
    (operations.perform state request).1 :: answers (operations.perform state request).2 rest

def after (state : σ) (requests : List Request) : σ :=
  requests.foldl (fun state request => (operations.perform state request).2) state

theorem perform_eq {state after : σ} {request : Request} {answer : Answer}
    (done : operations.attempt state request = .ok (answer, after)) :
    operations.perform state request = (.ok answer, after) := by
  rw [perform, done]

theorem attempt_eq {state : σ} {request : Request} {answer : Answer}
    (given : (operations.perform state request).1 = .ok answer) :
    operations.attempt state request = .ok (answer, (operations.perform state request).2) := by
  unfold perform at given ⊢
  split at given
  · rename_i done
    cases given
    rw [done]
  · cases given

/-- What a request does is what it attempts, or nothing. -/
theorem perform_keeps {state : σ} {request : Request} (motive : σ → Prop) (start : motive state)
    (done : ∀ answer after, operations.attempt state request = .ok (answer, after) → motive after) :
    motive (operations.perform state request).2 := by
  unfold perform
  split
  · rename_i attempted
    exact done _ _ attempted
  · exact start

theorem after_append (state : σ) (earlier later : List Request) :
    operations.after state (earlier ++ later) = operations.after (operations.after state earlier) later :=
  List.foldl_append

theorem after_cons (state : σ) (request : Request) (rest : List Request) :
    operations.after state (request :: rest) =
      operations.after (operations.perform state request).2 rest :=
  rfl

theorem after_concat (state : σ) (requests : List Request) (request : Request) :
    operations.after state (requests ++ [request]) =
      (operations.perform (operations.after state requests) request).2 :=
  operations.after_append state requests [request]

end Operations

/-! ### Nested activations -/

/-- Requests in which every record that is saved is given back, and no other. -/
inductive Nested : List Request → Prop where
  | nil : Nested []
  | other {request : Request} {rest : List Request} (notSaved : request ≠ .snapshot)
      (notGiven : request ≠ .restore) (nested : Nested rest) : Nested (request :: rest)
  | frame {inner rest : List Request} (inside : Nested inner) (nested : Nested rest) :
      Nested (.snapshot :: (inner ++ .restore :: rest))

theorem Nested.append {earlier later : List Request} (first : Nested earlier) (second : Nested later) :
    Nested (earlier ++ later) := by
  induction first with
  | nil => exact second
  | other notSaved notGiven _ ih => exact .other notSaved notGiven ih
  | @frame inner rest inside _ _ ih =>
    rw [List.cons_append, List.append_assoc, List.cons_append]
    exact .frame inside ih

/-- Records of states on a stack: one request adds a record, one takes the latest away, if there is one, and
the others leave the stack alone. -/
structure Operations.Framed {σ ρ : Type} (operations : Operations σ) (record : σ → ρ)
    (records : σ → List ρ) : Prop where
  snapshot : ∀ state, records (operations.perform state .snapshot).2 = record state :: records state
  restore : ∀ state, records (operations.perform state .restore).2 = (records state).tail
  other : ∀ state request, request ≠ .snapshot → request ≠ .restore →
    records (operations.perform state request).2 = records state

namespace Operations.Framed

variable {σ ρ : Type} {operations : Operations σ} {record : σ → ρ} {records : σ → List ρ}
  (framed : operations.Framed record records)
include framed

theorem nested {requests : List Request} (nested : Nested requests) (state : σ) :
    records (operations.after state requests) = records state := by
  induction nested generalizing state with
  | nil => rfl
  | other notSaved notGiven _ ih => rw [after_cons, ih, framed.other state _ notSaved notGiven]
  | frame _ _ inside ih =>
    rw [after_cons, after_append, after_cons, ih, framed.restore, inside, framed.snapshot,
      List.tail_cons]

/-- The latest record was saved by a request, and what came after that is nested. -/
theorem matching {start : σ} (unused : records start = []) (requests : List Request) :
    records (operations.after start requests) = [] ∨ ∃ earlier between,
      requests = earlier ++ .snapshot :: between ∧ Nested between ∧
      records (operations.after start requests) =
        record (operations.after start earlier) :: records (operations.after start earlier) := by
  rcases requests.eq_nil_or_concat' with rfl | ⟨requests, request, rfl⟩
  · exact .inl unused
  rw [after_concat]
  by_cases saves : request = .snapshot
  · subst saves
    exact .inr ⟨requests, [], rfl, .nil, framed.snapshot _⟩
  by_cases gives : request = .restore
  · -- The record below is the latest again, and a whole activation has come after it.
    subst gives
    rw [framed.restore]
    rcases matching unused requests with none_ | ⟨earlier, between, rfl, nested, saved⟩
    · rw [none_]
      exact .inl rfl
    rw [saved, List.tail_cons]
    refine (matching unused earlier).imp_right ?_
    rintro ⟨before, between', rfl, nested', saved'⟩
    refine ⟨before, between' ++ .snapshot :: (between ++ [.restore]), ?_,
      nested'.append (.frame nested .nil), saved'⟩
    simp only [List.append_assoc, List.cons_append]
  · rw [framed.other _ request saves gives]
    refine (matching unused requests).imp_right ?_
    rintro ⟨earlier, between, rfl, nested, saved⟩
    exact ⟨earlier, between ++ [request], List.append_assoc .., nested.append (.other saves gives .nil),
      saved⟩
termination_by requests.length

end Operations.Framed

end Memory

/-! ### Plain memories -/

/-- The cells of one area and type, each with a value, and the cursor. -/
structure Column where
  cells : Nat → Value
  cursor : Nat

/-- The columns of an area. -/
abbrev Plane := DataType → Column

/-- A memory that only maps: every area and type to a column. With it come the saved pairs of the areas of
an activation, the latest first. -/
structure PlainMemory where
  columns : Area → Plane
  saved : List (Plane × Plane)

namespace PlainMemory

open Memory (Error Operations)

/-- A memory that has not been used: every cell holds its type's zero. -/
def blank : PlainMemory :=
  ⟨fun _ type => ⟨fun _ => .zero type, 0⟩, []⟩

def cell (memory : PlainMemory) (address : Address) : Value :=
  (memory.columns address.area address.type).cells address.offset.toNat

def setColumn (memory : PlainMemory) (area : Area) (type : DataType) (column : Column) : PlainMemory :=
  { memory with columns := update memory.columns area (update (memory.columns area) type column) }

def setCell (memory : PlainMemory) (address : Address) (value : Value) : PlainMemory :=
  let column := memory.columns address.area address.type
  memory.setColumn address.area address.type
    { column with cells := update column.cells address.offset.toNat value }

def setCursor (memory : PlainMemory) (area : Area) (type : DataType) (cursor : Nat) : PlainMemory :=
  memory.setColumn area type { memory.columns area type with cursor }

variable (capacities : Capacities)

def limit (area : Area) (type : DataType) : Except Error Nat :=
  if area.isAssigned && type.isStored then .ok (capacities.cells area)
  else .error (.noArena area type)

def allocate (memory : PlainMemory) (area : Area) (type : DataType) (size : Int) (reference : Bool) :
    Except Error (Address × PlainMemory) := do
  let limit ← limit capacities area type
  let cursor := (memory.columns area type).cursor
  if cursor + max size 1 ≤ limit then
    .ok (⟨area, type, reference, .ofNat cursor⟩, memory.setCursor area type (cursor + (max size 1).toNat))
  else .error (.full area type cursor limit (max size 1))

def reset (memory : PlainMemory) (area : Area) (type : DataType) :
    Except Error PlainMemory := do
  let _ ← limit capacities area type
  .ok (memory.setCursor area type 0)

def resetLocals (memory : PlainMemory) : PlainMemory :=
  { memory with
    columns := fun area type =>
      if area.isFramed then { memory.columns area type with cursor := 0 } else memory.columns area type }

def snapshot (memory : PlainMemory) : PlainMemory :=
  { memory with saved := (memory.columns .locals, memory.columns .temps) :: memory.saved }

def givenBack (memory : PlainMemory) (frame : Plane × Plane) (saved : List (Plane × Plane)) :
    PlainMemory :=
  ⟨update (update memory.columns .locals frame.1) .temps frame.2, saved⟩

def restore (memory : PlainMemory) : Except Error PlainMemory :=
  match memory.saved with
  | [] => .error .noFrame
  | frame :: saved => .ok (memory.givenBack frame saved)

def load (memory : PlainMemory) (address : Address) : Except Error Value := do
  let limit ← limit capacities address.area address.type
  if address.offset.toNat < limit then .ok (memory.cell address)
  else .error (.readOutside address limit)

def store (memory : PlainMemory) (address : Address) (value : Value) :
    Except Error PlainMemory := do
  let limit ← limit capacities address.area address.type
  if address.offset.toNat < limit then .ok (memory.setCell address value)
  else .error (.writeOutside address limit)

def operations : Operations PlainMemory where
  allocate := allocate capacities
  reset := reset capacities
  resetLocals := resetLocals
  snapshot := snapshot
  restore := restore
  load := load capacities
  store := store capacities

end PlainMemory

/-! ### What requests change -/

theorem Address.plain_eq_iff {address other : Address} :
    address.plain = other.plain ↔ address.area = other.area ∧ address.type = other.type ∧
      address.offset.toNat = other.offset.toNat := by
  simp only [plain, mk.injEq, true_and, UInt32.toNat_inj]

namespace PlainMemory

open Memory (Answer Operations Request Nested)

variable {capacities : Capacities} {memory after : PlainMemory} {request : Request} {address : Address}
  {answer : Answer} {saved : List (Plane × Plane)}

/-- What a plain memory grants: the answer to a request, and the memory after it. -/
inductive Grants (capacities : Capacities) (memory : PlainMemory) :
    Request → Answer → PlainMemory → Prop where
  | allocate {area : Area} {type : DataType} {size : Int} {cells : Nat} (reference : Bool)
      (found : limit capacities area type = .ok cells)
      (room : (memory.columns area type).cursor + max size 1 ≤ (cells : Int)) :
      Grants capacities memory (.allocate area type size reference)
        (.address ⟨area, type, reference, .ofNat (memory.columns area type).cursor⟩)
        (memory.setCursor area type ((memory.columns area type).cursor + (max size 1).toNat))
  | reset {area : Area} {type : DataType} {cells : Nat} (found : limit capacities area type = .ok cells) :
      Grants capacities memory (.reset area type) .done (memory.setCursor area type 0)
  | resetLocals : Grants capacities memory .resetLocals .done memory.resetLocals
  | snapshot : Grants capacities memory .snapshot .done memory.snapshot
  | restore {frame : Plane × Plane} {saved : List (Plane × Plane)}
      (top : memory.saved = frame :: saved) :
      Grants capacities memory .restore .done (memory.givenBack frame saved)
  | load {address : Address} {cells : Nat}
      (found : limit capacities address.area address.type = .ok cells)
      (inside : address.offset.toNat < cells) :
      Grants capacities memory (.load address) (.value (memory.cell address)) memory
  | store {address : Address} {cells : Nat} (value : Value)
      (found : limit capacities address.area address.type = .ok cells)
      (inside : address.offset.toNat < cells) :
      Grants capacities memory (.store address value) .done (memory.setCell address value)

theorem attempt_eq_ok : (operations capacities).attempt memory request = .ok (answer, after) ↔
    memory.Grants capacities request answer after := by
  constructor
  · intro done
    cases request with
    | allocate area type size reference =>
      obtain ⟨_, allocated, ⟨⟩⟩ := map_eq_ok.1 done
      obtain ⟨cells, found, granted⟩ := bind_eq_ok.1 allocated
      obtain ⟨room, rfl⟩ := ite_eq_ok.1 granted
      exact .allocate reference found room
    | reset area type =>
      obtain ⟨_, rewound, ⟨⟩⟩ := map_eq_ok.1 done
      obtain ⟨cells, found, ⟨⟩⟩ := bind_eq_ok.1 rewound
      exact .reset found
    | resetLocals =>
      cases done
      exact .resetLocals
    | snapshot =>
      cases done
      exact .snapshot
    | restore =>
      obtain ⟨_, given, ⟨⟩⟩ := map_eq_ok.1 done
      simp only [operations, restore] at given
      split at given
      · cases given
      · rename_i top
        cases given
        exact .restore top
    | load address =>
      obtain ⟨_, loaded, ⟨⟩⟩ := map_eq_ok.1 done
      obtain ⟨cells, found, granted⟩ := bind_eq_ok.1 loaded
      obtain ⟨inside, rfl⟩ := ite_eq_ok.1 granted
      exact .load found inside
    | store address value =>
      obtain ⟨_, stored, ⟨⟩⟩ := map_eq_ok.1 done
      obtain ⟨cells, found, granted⟩ := bind_eq_ok.1 stored
      obtain ⟨inside, rfl⟩ := ite_eq_ok.1 granted
      exact .store value found inside
  · intro grants
    cases grants with
    | allocate reference found room =>
      simp only [Operations.attempt, operations, allocate, found, bind, Except.bind, if_pos room]
      rfl
    | reset found =>
      simp only [Operations.attempt, operations, reset, found]
      rfl
    | resetLocals | snapshot => rfl
    | restore top => simp only [Operations.attempt, operations, restore, top, Except.map]
    | load found inside =>
      simp only [Operations.attempt, operations, load, found, bind, Except.bind, if_pos inside]
      rfl
    | store value found inside =>
      simp only [Operations.attempt, operations, store, found, bind, Except.bind, if_pos inside]
      rfl

theorem Grants.perform (grants : memory.Grants capacities request answer after) :
    (operations capacities).perform memory request = (.ok answer, after) :=
  Operations.perform_eq _ (attempt_eq_ok.2 grants)

theorem cell_setColumn (area : Area) (type : DataType) (column : Column) :
    (memory.setColumn area type column).cell address =
      if address.area = area ∧ address.type = type then column.cells address.offset.toNat
      else memory.cell address := by
  unfold cell setColumn
  by_cases here : address.area = area
  · subst here
    by_cases same : address.type = type
    · simp only [same, Function.update_self, and_self, if_true]
    · simp only [same, Function.update_self, Function.update_of_ne same, and_false, if_false]
  · simp only [here, Function.update_of_ne here, false_and, if_false]

theorem cell_setCursor (area : Area) (type : DataType) (cursor : Nat) :
    (memory.setCursor area type cursor).cell address = memory.cell address := by
  rw [setCursor, cell_setColumn]
  split
  · rename_i here
    rw [cell, here.1, here.2]
  · rfl

theorem cell_resetLocals : memory.resetLocals.cell address = memory.cell address := by
  unfold cell resetLocals
  simp only
  split <;> rfl

theorem cell_setCell (other : Address) (value : Value) :
    (memory.setCell other value).cell address =
      if address.plain = other.plain then value else memory.cell address := by
  simp only [setCell, cell_setColumn, Address.plain_eq_iff, Function.update_apply]
  by_cases here : address.area = other.area ∧ address.type = other.type
  · rw [if_pos here]
    simp only [cell, here.1, here.2, true_and]
  · rw [if_neg here, if_neg fun same => here ⟨same.1, same.2.1⟩]

/-- A cell changes only when it is stored to, or by giving back the record that holds it. -/
theorem cell_perform
    (unstored : ∀ other value, request = .store other value → other.plain ≠ address.plain)
    (lasting : request = .restore → address.area.isFramed = false) :
    ((operations capacities).perform memory request).2.cell address = memory.cell address := by
  refine (operations capacities).perform_keeps (fun after => after.cell address = memory.cell address) rfl
    fun answer after done => ?_
  cases attempt_eq_ok.1 done with
  | snapshot | load => rfl
  | allocate | reset => exact cell_setCursor ..
  | resetLocals => exact cell_resetLocals
  | restore =>
    have outside := lasting rfl
    unfold cell givenBack
    generalize address.area = area at outside
    cases area with
    | locals | temps => cases outside
    | _ => rfl
  | store => rw [cell_setCell, if_neg fun same => unstored _ _ rfl same.symm]

theorem saved_perform (notSaved : request ≠ .snapshot) (notGiven : request ≠ .restore) :
    ((operations capacities).perform memory request).2.saved = memory.saved := by
  refine (operations capacities).perform_keeps (fun after => after.saved = memory.saved) rfl
    fun answer after done => ?_
  cases attempt_eq_ok.1 done with
  | snapshot => exact absurd rfl notSaved
  | restore => exact absurd rfl notGiven
  | _ => rfl

/-! ### Loads find what was stored last -/

section

variable {requests : List Request}

theorem framed (capacities : Capacities) :
    (operations capacities).Framed (fun memory => (memory.columns .locals, memory.columns .temps))
      PlainMemory.saved where
  snapshot := fun _ => rfl
  restore := by
    intro memory
    cases top : memory.saved with
    | nil => simp only [Operations.perform, Operations.attempt, operations, restore, top, Except.map,
        List.tail_nil]
    | cons frame saved =>
      rw [(Grants.restore top).perform]
      rfl
  other := fun _ _ => saved_perform

theorem columns_givenBack (before memory : PlainMemory) (area : Area) :
    (memory.givenBack (before.columns .locals, before.columns .temps) saved).columns area =
      if area.isFramed then before.columns area else memory.columns area := by
  cases area <;> rfl

theorem after_frame {inner rest : List Request}
    (top : ((operations capacities).after memory.snapshot inner).saved = memory.snapshot.saved) :
    (operations capacities).after memory (.snapshot :: (inner ++ .restore :: rest)) =
      (operations capacities).after (((operations capacities).after memory.snapshot inner).givenBack
        (memory.columns .locals, memory.columns .temps) memory.saved) rest := by
  have first : ((operations capacities).perform memory .snapshot).2 = memory.snapshot := rfl
  rw [Operations.after_cons, first, Operations.after_append, Operations.after_cons,
    (Grants.restore top).perform]

theorem cell_nested (nested : Nested requests)
    (unstored : ∀ other value, Request.store other value ∈ requests → other.plain ≠ address.plain) :
    ((operations capacities).after memory requests).cell address = memory.cell address := by
  induction nested generalizing memory with
  | nil => rfl
  | @other request rest notSaved notGiven _ ih =>
    rw [Operations.after_cons, ih fun other value listed =>
      unstored other value (List.mem_cons_of_mem _ listed)]
    refine cell_perform (fun other value same => ?_) fun given => absurd given notGiven
    exact unstored other value (same ▸ List.mem_cons_self)
  | @frame inner rest inside _ within ih =>
    have kept := @within memory.snapshot fun other value listed =>
      unstored other value (List.mem_cons_of_mem _ (List.mem_append_left _ listed))
    rw [after_frame ((framed capacities).nested inside memory.snapshot), ih fun other value listed =>
      unstored other value
        (List.mem_cons_of_mem _ (List.mem_append_right _ (List.mem_cons_of_mem _ listed)))]
    rw [cell, columns_givenBack]
    split
    · rfl
    · exact kept

/-- Cells outside of activations survive all requests that do not store to them. -/
theorem cell_after (outside : address.area.isFramed = false)
    (unstored : ∀ other value, Request.store other value ∈ requests → other.plain ≠ address.plain) :
    ((operations capacities).after memory requests).cell address = memory.cell address := by
  induction requests generalizing memory with
  | nil => rfl
  | cons request rest ih =>
    rw [Operations.after_cons, ih fun other value listed =>
      unstored other value (List.mem_cons_of_mem _ listed)]
    refine cell_perform (fun other value same => ?_) fun _ => outside
    exact unstored other value (same ▸ List.mem_cons_self)

/-- What is loaded is what was stored last, whatever mark the address has. -/
theorem perform_load_last {value : Value}
    (stored : ((operations capacities).perform memory (.store address value)).1 = .ok answer)
    (unstored : ∀ other value, Request.store other value ∈ requests → other.plain ≠ address.plain)
    (nested : address.area.isFramed = true → Nested requests) (reference : Bool) :
    ((operations capacities).perform
      ((operations capacities).after memory (.store address value :: requests))
      (.load (address.withReference reference))).1 = .ok (.value value) := by
  have grants := attempt_eq_ok.1 ((operations capacities).attempt_eq stored)
  generalize ((operations capacities).perform memory (.store address value)).2 = after at grants
  obtain ⟨cells, found, inside⟩ : ∃ cells, limit capacities address.area address.type = .ok cells ∧
      address.offset.toNat < cells := by
    cases grants with
    | store _ found inside => exact ⟨_, found, inside⟩
  have last : (memory.setCell address value).cell address = value := by
    rw [cell_setCell, if_pos rfl]
  have kept : ((operations capacities).after (memory.setCell address value) requests).cell address =
      value := by
    cases framed : address.area.isFramed with
    | true => rw [cell_nested (nested framed) unstored, last]
    | false => rw [cell_after framed unstored, last]
  have loads : Grants capacities ((operations capacities).after (memory.setCell address value) requests)
      (.load (address.withReference reference)) _ _ := .load found inside
  rw [Operations.after_cons, (Grants.store value found inside).perform, loads.perform]
  exact congrArg (fun value => Except.ok (Answer.value value)) kept

end

end PlainMemory

end Quadruple
