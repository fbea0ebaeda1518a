import Quadruple.Proofs.Storage

/-!
Cells one by one: which cells a memory has, where the next one is handed out, and what a cell holds
after a value has been stored.
-/

namespace Quadruple.Memory

variable {memory after : Memory} {area : Area} {type : DataType} {arena : Arena} {address : Address}
  {value : Value} {size : Int} {reference : Bool} {capacities : Capacities}

def sizes (memory : Memory) (area : Area) (type : DataType) : Option Nat :=
  (memory.arena? area type).map Arena.capacity

def cursor (memory : Memory) (area : Area) (type : DataType) : Nat :=
  ((memory.arena? area type).map Arena.cursor).getD 0

def Has (memory : Memory) (address : Address) : Prop :=
  ∃ arena, memory.arena? address.area address.type = some arena ∧
    address.offset.toNat < arena.capacity

theorem has_iff : memory.Has address ↔ ∃ capacity,
    memory.sizes address.area address.type = some capacity ∧ address.offset.toNat < capacity := by
  unfold Has sizes
  simp only [Option.map_eq_some_iff]
  constructor
  · rintro ⟨arena, found, inside⟩
    exact ⟨_, ⟨arena, found, rfl⟩, inside⟩
  · rintro ⟨_, ⟨arena, found, rfl⟩, inside⟩
    exact ⟨arena, found, inside⟩

theorem sizes_setArena (found : memory.arena? area type = some arena) {changed : Arena}
    (same : changed.capacity = arena.capacity) :
    (memory.setArena area type changed).sizes = memory.sizes := by
  funext area' type'
  unfold sizes
  rw [arena?_setArena found]
  by_cases here : area' = area ∧ type' = type
  · rw [if_pos here, here.1, here.2, found, Option.map_some, Option.map_some, same]
  · rw [if_neg here]

theorem cursor_setArena (found : memory.arena? area type = some arena) (changed : Arena) (area' : Area)
    (type' : DataType) : (memory.setArena area type changed).cursor area' type' =
      if area' = area ∧ type' = type then changed.cursor else memory.cursor area' type' := by
  unfold cursor
  rw [arena?_setArena found]
  split <;> rfl

theorem cursor_store (stored : memory.store address value = .ok after) :
    after.cursor = memory.cursor := by
  obtain ⟨arena, found, _, rfl⟩ := store_eq_ok.1 stored
  funext area type
  rw [cursor_setArena found]
  split
  · rename_i here
    rw [here.1, here.2, cursor, found]
    rfl
  · rfl

theorem sizes_store (stored : memory.store address value = .ok after) :
    after.sizes = memory.sizes := by
  obtain ⟨arena, found, _, rfl⟩ := store_eq_ok.1 stored
  exact sizes_setArena found rfl

theorem exists_store (has : memory.Has address) (value : Value) :
    ∃ after, memory.store address value = .ok after := by
  obtain ⟨arena, found, inside⟩ := has
  exact ⟨_, store_eq_ok.2 ⟨arena, found, inside, rfl⟩⟩

theorem load_store {other : Address} (stored : memory.store address value = .ok after)
    (plain : address.reference = false) (plain' : other.reference = false) :
    after.load other = if other = address then .ok value else memory.load other := by
  obtain ⟨arena, found, inside, rfl⟩ := store_eq_ok.1 stored
  have changed := arena?_setArena found (arena.put address.type address.offset.toNat value) other.area
    other.type
  by_cases same : other.area = address.area ∧ other.type = address.type
  · rw [if_pos same, same.1, same.2] at changed
    simp only [load, Memory.arena, changed, same.1, same.2, found, bind, Except.bind,
      Arena.capacity_put, Arena.get_put]
    by_cases there : other.offset = address.offset
    · have equal : other = address := by
        cases other
        cases address
        simp only at same plain plain' there
        rw [same.1, same.2, plain, plain', there]
      rw [if_pos equal, there, if_pos inside, if_pos rfl]
    · have different : other ≠ address := fun equal => there (congrArg Address.offset equal)
      have apart : other.offset.toNat ≠ address.offset.toNat := fun equal =>
        there (UInt32.toNat_inj.1 equal)
      rw [if_neg different, if_neg apart]
  · have different : other ≠ address := fun equal => same (by rw [equal]; exact ⟨rfl, rfl⟩)
    rw [if_neg same] at changed
    rw [if_neg different]
    simp only [load, Memory.arena, changed]

theorem allocate_cells (allocated : memory.allocate area type size reference = .ok (address, after)) :
    address = ⟨area, type, reference, .ofNat (memory.cursor area type)⟩ ∧
    (∃ capacity, memory.sizes area type = some capacity ∧
      memory.cursor area type + (if size < 1 then 1 else size.toNat) ≤ capacity) ∧
    after.sizes = memory.sizes ∧
    ∀ area' type', after.cursor area' type' =
      if area' = area ∧ type' = type then
        memory.cursor area type + (if size < 1 then 1 else size.toNat)
      else memory.cursor area' type' := by
  obtain ⟨arena, found, room, rfl, rfl⟩ := allocate_eq_ok.1 allocated
  have here : memory.cursor area type = arena.cursor := by
    rw [cursor, found]
    rfl
  refine ⟨by rw [here], ⟨arena.capacity, ?_, ?_⟩, sizes_setArena found rfl, fun area' type' => ?_⟩
  · rw [sizes, found]
    rfl
  · rw [here]
    exact room
  · rw [here, cursor_setArena found]

theorem allocate_one (allocated : memory.allocate area type 1 reference = .ok (address, after)) :
    address = ⟨area, type, reference, .ofNat (memory.cursor area type)⟩ ∧
    (∃ capacity, memory.sizes area type = some capacity ∧ memory.cursor area type < capacity) ∧
    after.sizes = memory.sizes ∧
    ∀ area' type', after.cursor area' type' =
      if area' = area ∧ type' = type then memory.cursor area type + 1
      else memory.cursor area' type' :=
  allocate_cells allocated

theorem cursor_le_allocate (allocated : memory.allocate area type size reference = .ok (address, after))
    (area' : Area) (type' : DataType) : memory.cursor area' type' ≤ after.cursor area' type' := by
  rw [(allocate_cells allocated).2.2.2]
  split
  · rename_i same
    rw [same.1, same.2]
    exact Nat.le_add_right _ _
  · exact Nat.le_refl _

theorem allocate_next
    (small : ∀ capacity, memory.sizes area type = some capacity → capacity ≤ Address.defaultCapacity)
    (allocated : memory.allocate area type 1 reference = .ok (address, after)) :
    address.area = area ∧ address.type = type ∧ address.reference = reference ∧
    address.offset.toNat = memory.cursor area type ∧ memory.Has address ∧ after.sizes = memory.sizes ∧
    after.cursor area type = memory.cursor area type + 1 ∧
    ∀ area' type', memory.cursor area' type' ≤ after.cursor area' type' := by
  obtain ⟨rfl, ⟨capacity, size, room⟩, sizes, cursors⟩ := allocate_one allocated
  have bound := small capacity size
  have offset : (UInt32.ofNat (memory.cursor area type)).toNat = memory.cursor area type := by
    rw [UInt32.toNat_ofNat_of_lt']
    simp only [Address.defaultCapacity, UInt32.size] at bound ⊢
    omega
  refine ⟨rfl, rfl, rfl, offset, has_iff.2 ⟨capacity, size, ?_⟩, sizes, ?_, cursor_le_allocate allocated⟩
  · simp only [offset]
    exact room
  · rw [cursors, if_pos ⟨rfl, rfl⟩]

/-! ### Rewinding -/

theorem reset_eq_ok (done : memory.reset area type = .ok after) : after.sizes = memory.sizes ∧
    ∀ area' type', after.cursor area' type' =
      if area' = area ∧ type' = type then 0 else memory.cursor area' type' := by
  unfold reset Memory.arena at done
  cases found : memory.arena? area type with
  | none =>
    rw [found] at done
    cases done
  | some arena =>
    rw [found] at done
    cases done
    exact ⟨sizes_setArena found rfl, cursor_setArena found arena.reset⟩

theorem cursor_resetLocals (memory : Memory) (area : Area) (type : DataType) :
    memory.resetLocals.cursor area type =
      if area = .locals ∨ area = .temps then 0 else memory.cursor area type := by
  cases area <;> cases type <;> rfl

theorem sizes_resetLocals (memory : Memory) : memory.resetLocals.sizes = memory.sizes := by
  funext area type
  cases area <;> cases type <;> rfl

/-! ### A fresh memory -/

theorem arena?_ofCapacities (found : (ofCapacities capacities).arena? area type = some arena) :
    arena.capacity ≤ Address.defaultCapacity ∧ arena.cursor = 0 ∧ arena.cells = #[] := by
  have made : ∃ requested, Arena.ofCapacity requested = arena := by
    cases area <;> cases type <;> cases found <;> exact ⟨_, rfl⟩
  obtain ⟨requested, rfl⟩ := made
  refine ⟨?_, rfl, rfl⟩
  unfold Arena.ofCapacity
  simp only [Bool.or_eq_true, decide_eq_true_eq]
  split <;> omega

theorem sizes_le {capacity : Nat} (size : (ofCapacities capacities).sizes area type = some capacity) :
    capacity ≤ Address.defaultCapacity := by
  obtain ⟨arena, found, rfl⟩ := Option.map_eq_some_iff.1 size
  exact (arena?_ofCapacities found).1

theorem cursor_ofCapacities (capacities : Capacities) (area : Area) (type : DataType) :
    (ofCapacities capacities).cursor area type = 0 := by
  unfold cursor
  cases found : (ofCapacities capacities).arena? area type with
  | none => rfl
  | some arena => exact (arena?_ofCapacities found).2.1

theorem load_ofCapacities (has : (ofCapacities capacities).Has address) :
    (ofCapacities capacities).load address = .ok (.zero address.type) := by
  obtain ⟨arena, found, inside⟩ := has
  refine load_eq_ok.2 ⟨arena, found, inside, ?_⟩
  rw [Arena.get_eq, (arena?_ofCapacities found).2.2]
  rfl

end Quadruple.Memory
