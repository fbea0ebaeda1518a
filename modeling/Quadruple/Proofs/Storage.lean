import Quadruple.Memory

/-!
Laws of storage: what reading, storing and handing out cells do to the arenas and to the saved
activation records.
-/

namespace Quadruple

/-! ### Outcomes -/

section

variable {ε ε' α β : Type}

theorem bind_eq_ok {first : Except ε α} {rest : α → Except ε β} {result : β} :
    (first >>= rest) = .ok result ↔ ∃ value, first = .ok value ∧ rest value = .ok result := by
  cases first with
  | error cause | ok value => simp [bind, Except.bind]

variable {outcome : Except ε α}

theorem map_eq_ok {change : α → β} {result : β} :
    outcome.map change = .ok result ↔ ∃ value, outcome = .ok value ∧ change value = result := by
  cases outcome with
  | error cause | ok value => simp [Except.map]

theorem mapError_eq_ok {change : ε → ε'} {result : α} :
    outcome.mapError change = .ok result ↔ outcome = .ok result := by
  cases outcome with
  | error cause => exact ⟨nofun, nofun⟩
  | ok value => exact ⟨fun same => by cases same; rfl, fun same => by cases same; rfl⟩

theorem ite_eq_ok {condition : Prop} [Decidable condition] {value result : α} {failure : ε} :
    (if condition then Except.ok value else .error failure) = .ok result ↔
      condition ∧ result = value := by
  split <;> simp [*, eq_comm]

theorem toOption_eq_some {result : α} : outcome.toOption = some result ↔ outcome = .ok result := by
  cases outcome with
  | error cause | ok value => simp [Except.toOption]

theorem exists_ok (outcome : Except ε α) (accepted : outcome.isOk = true) :
    ∃ value, outcome = .ok value := by
  cases outcome with
  | error cause => cases accepted
  | ok value => exact ⟨value, rfl⟩

/-- An outcome can be evaluated, together with what is said of its value. -/
theorem exists_ok_of_any {holds : α → Prop} [DecidablePred holds]
    (checked : (outcome.toOption.any fun value => holds value) = true) :
    ∃ value, outcome = .ok value ∧ holds value := by
  obtain ⟨value, found, holds⟩ := (Option.any_eq_true _ _).1 checked
  exact ⟨value, toOption_eq_some.1 found, of_decide_eq_true holds⟩

end

/-! ### Arenas -/

namespace Arena

variable (arena : Arena) (type : DataType) (offset : Nat) (value : Value)

@[simp]
theorem capacity_put : (arena.put type offset value).capacity = arena.capacity := rfl

@[simp]
theorem cursor_put : (arena.put type offset value).cursor = arena.cursor := rfl

theorem get_eq : arena.get type offset = arena.cells[offset]?.getD (.zero type) := by
  unfold get
  split
  · rename_i there
    rw [Array.getElem?_eq_getElem there, Option.getD_some]
  · rename_i beyond
    rw [Array.getElem?_eq_none (Nat.not_lt.1 beyond), Option.getD_none]

/-- Filling adds as many cells as are asked for, behind those that were there. -/
theorem getElem?_fill (count : Nat) (cells : Array Value) (index : Nat) :
    (fill value count cells)[index]? = if index < cells.size then cells[index]?
      else if index < cells.size + count then some value else none := by
  induction count generalizing cells with
  | zero => grind [fill]
  | succ count ih =>
    rw [fill, ih, Array.size_push, Array.getElem?_push]
    grind

theorem size_fill (count : Nat) (cells : Array Value) :
    (fill value count cells).size = cells.size + count := by
  induction count generalizing cells with
  | zero => rfl
  | succ count ih =>
    rw [fill, ih, Array.size_push]
    omega

/-- A store adds no cells but those up to its own, and they hold zeros. -/
theorem getElem?_put (other : Nat) :
    (arena.put type offset value).cells[other]? = if other = offset then some value
      else if other < arena.cells.size then arena.cells[other]?
      else if other < offset then some (.zero type) else none := by
  unfold put
  dsimp only
  split
  · grind
  · rename_i beyond
    rw [Array.getElem?_setIfInBounds, getElem?_fill, size_fill]
    grind

theorem get_put (other : Nat) :
    (arena.put type offset value).get type other =
      if other = offset then value else arena.get type other := by
  rw [get_eq, get_eq, getElem?_put]
  split
  · rfl
  · split
    · rfl
    · rename_i beyond
      rw [Array.getElem?_eq_none (Nat.not_lt.1 beyond)]
      split <;> rfl

end Arena

theorem Bank.arena?_setArena {bank : Bank} {type : DataType} {arena : Arena}
    (found : bank.arena? type = some arena) (changed : Arena) (other : DataType) :
    (bank.setArena type changed).arena? other =
      if other = type then some changed else bank.arena? other := by
  cases type <;> cases other <;> first | rfl | cases found

def Frame.arena? (frame : Frame) (area : Area) (type : DataType) : Option Arena :=
  match area with
  | .locals => frame.locals.arena? type
  | .temps => frame.temps.arena? type
  | _ => none

namespace Memory

variable {memory after : Memory} {address : Address} {value : Value} {area : Area} {type : DataType}
  {size : Int} {reference : Bool} {arena changed : Arena}

@[simp]
theorem frames_setBank (memory : Memory) (area : Area) (bank : Bank) :
    (memory.setBank area bank).frames = memory.frames := by
  cases area <;> rfl

@[simp]
theorem frames_setArena (memory : Memory) (area : Area) (type : DataType) (arena : Arena) :
    (memory.setArena area type arena).frames = memory.frames := by
  unfold setArena
  split
  · rfl
  · exact memory.frames_setBank area _

theorem arena?_isSome (memory : Memory) (area : Area) (type : DataType) :
    (memory.arena? area type).isSome = (area.isAssigned && type.isStored) := by
  cases area <;> cases type <;> rfl

theorem arena?_setArena (found : memory.arena? area type = some arena) (changed : Arena) (area' : Area)
    (type' : DataType) : (memory.setArena area type changed).arena? area' type' =
      if area' = area ∧ type' = type then some changed else memory.arena? area' type' := by
  cases area <;> cases area' <;> cases type <;> cases type' <;> first | rfl | cases found

theorem arena_eq_ok : memory.arena area type = .ok arena ↔ memory.arena? area type = some arena := by
  unfold Memory.arena
  cases memory.arena? area type <;> simp

theorem store_eq_ok :
    memory.store address value = .ok after ↔ ∃ arena,
      memory.arena? address.area address.type = some arena ∧
      address.offset.toNat < arena.capacity ∧
      after = memory.setArena address.area address.type
        (arena.put address.type address.offset.toNat value) := by
  simp only [store, bind_eq_ok, arena_eq_ok, ite_eq_ok]

theorem load_eq_ok :
    memory.load address = .ok value ↔ ∃ arena,
      memory.arena? address.area address.type = some arena ∧
      address.offset.toNat < arena.capacity ∧
      value = arena.get address.type address.offset.toNat := by
  simp only [load, bind_eq_ok, arena_eq_ok, ite_eq_ok]

theorem frames_store (stored : memory.store address value = .ok after) : after.frames = memory.frames := by
  obtain ⟨arena, _, _, rfl⟩ := store_eq_ok.1 stored
  exact memory.frames_setArena _ _ _

theorem allocate_eq_ok :
    memory.allocate area type size reference = .ok (address, after) ↔ ∃ arena,
      memory.arena? area type = some arena ∧
      arena.cursor + (if size < 1 then 1 else size.toNat) ≤ arena.capacity ∧
      address = ⟨area, type, reference, UInt32.ofNat arena.cursor⟩ ∧
      after = memory.setArena area type
        { arena with cursor := arena.cursor + (if size < 1 then 1 else size.toNat) } := by
  simp only [allocate, bind_eq_ok, arena_eq_ok]
  refine exists_congr fun arena => and_congr_right fun _ => ?_
  rw [← ite_not, ite_eq_ok, gt_iff_lt, Nat.not_lt, Prod.mk.injEq]

theorem frames_allocate (allocated : memory.allocate area type size reference = .ok (address, after)) :
    after.frames = memory.frames := by
  obtain ⟨arena, _, _, _, rfl⟩ := allocate_eq_ok.1 allocated
  exact memory.frames_setArena _ _ _

theorem restore_eq_ok (restored : memory.restore = .ok after) :
    ∃ frame frames, memory.frames = frame :: frames ∧
      after = { memory with locals := frame.locals, temps := frame.temps, frames } := by
  unfold restore at restored
  split at restored
  · cases restored
  · rename_i frame frames saved
    cases restored
    exact ⟨frame, frames, saved, rfl⟩

/-! ### All arenas -/

/-- What holds of every arena, in use or saved in an activation record. -/
structure Every (holds : Area → DataType → Arena → Prop) (memory : Memory) : Prop where
  arenas : ∀ area type arena, memory.arena? area type = some arena → holds area type arena
  saved : ∀ frame ∈ memory.frames, ∀ area type arena,
    frame.arena? area type = some arena → holds area type arena

namespace Every

variable {holds : Area → DataType → Arena → Prop} (every : memory.Every holds)
include every

theorem setArena (found : memory.arena? area type = some arena) (here : holds area type changed) :
    (memory.setArena area type changed).Every holds where
  arenas := by
    intro area' type' arena' found'
    rw [arena?_setArena found] at found'
    split at found'
    · rename_i same
      cases found'
      rw [same.1, same.2]
      exact here
    · exact every.arenas area' type' arena' found'
  saved := by
    rw [frames_setArena]
    exact every.saved

theorem snapshot : memory.snapshot.Every holds := by
  refine ⟨every.arenas, fun frame listed area type arena found => ?_⟩
  rcases List.mem_cons.1 listed with rfl | listed
  · cases area with
    | locals | temps => exact every.arenas _ type arena found
    | _ => cases found
  · exact every.saved frame listed area type arena found

theorem restore (restored : memory.restore = .ok after) : after.Every holds := by
  obtain ⟨frame, frames, saved, rfl⟩ := restore_eq_ok restored
  have listed := every.saved
  rw [saved] at listed
  refine ⟨fun area type arena found => ?_, fun other among => listed other (List.mem_cons_of_mem _ among)⟩
  cases area with
  | locals | temps => exact listed frame List.mem_cons_self _ type arena found
  | _ => exact every.arenas _ type arena found

end Every

end Memory

end Quadruple
