import Mathlib.Algebra.Order.Ring.Int
import Quadruple.Proofs.ArenaGrid
import Quadruple.Proofs.Instructions

/-!
Cells are handed out once. No cursor passes the end of its arena, in use or saved, so that cells are
granted exactly if there is room for them. Until an arena is rewound or given back, no cell of it that was
handed out is handed out again.
-/

namespace Quadruple

theorem Capacities.cells_bounds (capacities : Capacities) {area : Area} (assigned : area.isAssigned = true) :
    1 ≤ capacities.cells area ∧ capacities.cells area ≤ 67108864 := by
  have atMost (requested : Nat) :
      1 ≤ cells.atMost requested ∧ cells.atMost requested ≤ 67108864 := by
    unfold cells.atMost Address.defaultCapacity
    split <;> omega
  cases area with
  | reserved => cases assigned
  | _ => exact atMost _

namespace Memory

variable {capacities : Capacities} {memory after : Memory} {area : Area} {type : DataType} {arena : Arena}
  {size : Int} {reference : Bool} {address : Address}

/-- Whether a request may move the cursor of an arena back. -/
def Request.rewinds (area : Area) (type : DataType) : Request → Bool
  | .reset area' type' => area = area' ∧ type = type'
  | .resetLocals | .restore => area.isFramed
  | _ => false

theorem cursor_le_attempt {request : Request} {answer : Answer}
    (keeps : request.rewinds area type = false)
    (done : operations.attempt memory request = .ok (answer, after)) :
    memory.cursor area type ≤ after.cursor area type := by
  cases request with
  | allocate =>
    obtain ⟨_, allocated, ⟨⟩⟩ := map_eq_ok.1 done
    exact cursor_le_allocate allocated area type
  | reset area' type' =>
    obtain ⟨_, rewound, ⟨⟩⟩ := map_eq_ok.1 done
    exact Nat.le_of_eq (((reset_eq_ok rewound).2 area type).trans
      (if_neg (by simpa [Request.rewinds] using keeps))).symm
  | resetLocals =>
    cases done
    refine Nat.le_of_eq ((cursor_resetLocals memory area type).trans (if_neg ?_)).symm
    rintro (rfl | rfl) <;> cases keeps
  | snapshot =>
    cases done
    exact Nat.le_refl _
  | restore =>
    obtain ⟨_, restored, ⟨⟩⟩ := map_eq_ok.1 done
    obtain ⟨_, _, _, rfl⟩ := restore_eq_ok restored
    cases area with
    | locals | temps => cases keeps
    | _ => exact Nat.le_refl _
  | load =>
    obtain ⟨_, _, ⟨⟩⟩ := map_eq_ok.1 done
    exact Nat.le_refl _
  | store =>
    obtain ⟨_, stored, ⟨⟩⟩ := map_eq_ok.1 done
    exact Nat.le_of_eq (congrFun₂ (cursor_store stored) area type).symm

theorem cursor_le_after (memory : Memory) {requests : List Request}
    (keeps : ∀ request ∈ requests, request.rewinds area type = false) :
    memory.cursor area type ≤ (operations.after memory requests).cursor area type := by
  induction requests generalizing memory with
  | nil => exact Nat.le_refl _
  | cons request rest ih =>
    rw [Operations.after_cons]
    refine Nat.le_trans ?_ (ih _ fun other listed => keeps other (List.mem_cons_of_mem _ listed))
    exact operations.perform_keeps (fun after => memory.cursor area type ≤ after.cursor area type)
      (Nat.le_refl _) fun _ _ => cursor_le_attempt (keeps request List.mem_cons_self)

theorem bounds_of_size (assigned : area.isAssigned = true)
    (size : arena.capacity = capacities.cells area ∧ arena.cursor ≤ capacities.cells area) :
    1 ≤ arena.capacity ∧ arena.capacity ≤ 67108864 ∧ arena.cursor ≤ arena.capacity := by
  have bounds := capacities.cells_bounds assigned
  omega

theorem Sized.bounds (sized : memory.Sized capacities) (found : memory.arena? area type = some arena) :
    1 ≤ arena.capacity ∧ arena.capacity ≤ 67108864 ∧ arena.cursor ≤ arena.capacity := by
  have present := memory.arena?_isSome area type
  rw [found, Option.isSome_some, eq_comm, Bool.and_eq_true] at present
  exact bounds_of_size present.1 (sized.arenas area type arena found)

/-- Cells start where the cursor stood, and end where it stands afterwards. -/
theorem Sized.allocate (sized : memory.Sized capacities)
    (allocated : memory.allocate area type size reference = .ok (address, after)) :
    address.offset.toNat = memory.cursor area type ∧
      (after.cursor area type : Int) = memory.cursor area type + max size 1 := by
  obtain ⟨rfl, ⟨capacity, size, room⟩, _, cursor⟩ := allocate_cells allocated
  obtain ⟨arena, found, rfl⟩ := Option.map_eq_some_iff.1 size
  have bounds := sized.bounds found
  constructor
  · rw [UInt32.toNat_ofNat']
    omega
  · rw [cursor, if_pos ⟨rfl, rfl⟩]
    split <;> omega

theorem perform_allocate_eq_ok
    (given : (operations.perform memory (.allocate area type size reference)).1 = .ok (.address address)) :
    ∃ after, memory.allocate area type size reference = .ok (address, after) ∧
      (operations.perform memory (.allocate area type size reference)).2 = after := by
  obtain ⟨⟨_, after⟩, allocated, same⟩ := map_eq_ok.1 (operations.attempt_eq given)
  obtain ⟨⟨⟩, left⟩ := Prod.mk.inj same
  exact ⟨after, allocated, left.symm⟩

theorem perform_allocate (found : memory.arena? area type = some arena) :
    operations.perform memory (.allocate area type size reference) =
      if arena.cursor + max size 1 ≤ (arena.capacity : Int) then
        (.ok (.address ⟨area, type, reference, .ofNat arena.cursor⟩),
          memory.setArena area type { arena with cursor := arena.cursor + (max size 1).toNat })
      else (.error (.full area type arena.cursor arena.capacity (max size 1)), memory) := by
  have count : (if size < 1 then 1 else size) = max size 1 := by split <;> omega
  have cells : (if size < 1 then 1 else size.toNat) = (max size 1).toNat := by split <;> omega
  have room : ¬ arena.cursor + (max size 1).toNat > arena.capacity ↔
      arena.cursor + max size 1 ≤ (arena.capacity : Int) := by omega
  simp only [Operations.perform, Operations.attempt, operations, Memory.allocate, Memory.arena, found,
    bind, Except.bind, count, cells]
  by_cases fits : arena.cursor + max size 1 ≤ (arena.capacity : Int)
  · rw [if_neg (room.2 fits), if_pos fits]
    rfl
  · rw [if_pos (Decidable.not_not.1 (mt room.1 fits)), if_neg fits]
    rfl

/-- Whatever is asked of arenas, all of them, in use and saved, have between one cell and as many as there
are offsets, and none hands out more than it has. Cells are granted exactly if there is room for them, and
for one if fewer are asked for; they start at the cursor, with a valid address that is marked as asked,
and a request that is refused changes nothing. Cells that are handed out later, with no rewinding of
the arena in between, start behind those handed out before. -/
theorem cells_handed_out_once (capacities : Capacities) (requests : List Request) :
    (∀ area type arena, (reached capacities requests).arena? area type = some arena ∨
      (∃ frame ∈ (reached capacities requests).frames, frame.arena? area type = some arena) →
      1 ≤ arena.capacity ∧ arena.capacity ≤ 2 ^ 26 ∧ arena.cursor ≤ arena.capacity) ∧
    (∀ area type arena size reference, (reached capacities requests).arena? area type = some arena →
      if arena.cursor + max size 1 ≤ (arena.capacity : Int) then
        ∃ address, (operations.perform (reached capacities requests)
            (.allocate area type size reference)).1 = .ok (.address address) ∧
          address.isValid = true ∧ address.area = area ∧ address.type = type ∧
          address.offset.toNat = arena.cursor ∧ address.reference = reference
      else ∃ failure, operations.perform (reached capacities requests)
          (.allocate area type size reference) = (.error failure, reached capacities requests) ∧
          failure.report.kind = .allocationExhausted) ∧
    ∀ area type size reference address between size' reference' address',
      (operations.perform (reached capacities requests) (.allocate area type size reference)).1 =
        .ok (.address address) →
      (∀ request ∈ between, request.rewinds area type = false) →
      (operations.perform
        (reached capacities (requests ++ .allocate area type size reference :: between))
        (.allocate area type size' reference')).1 = .ok (.address address') →
      address.offset.toNat + max size 1 ≤ (address'.offset.toNat : Int) := by
  have sized := sized_reached capacities requests
  refine ⟨?_, ?_, ?_⟩
  · rintro area type arena (found | ⟨frame, listed, found⟩)
    · exact sized.bounds found
    · have size := sized.saved frame listed area type arena found
      cases area with
      | locals | temps => exact bounds_of_size rfl size
      | _ => cases found
  · intro area type arena size reference found
    rw [perform_allocate found]
    split
    · have present := (reached capacities requests).arena?_isSome area type
      rw [found, Option.isSome_some, eq_comm] at present
      have offset : (UInt32.ofNat arena.cursor).toNat = arena.cursor := by
        have bounds := sized.bounds found
        rw [UInt32.toNat_ofNat']
        omega
      refine ⟨_, rfl, ?_, rfl, rfl, offset, rfl⟩
      have bounds := sized.bounds found
      simp only [Address.isValid, present, offset, Address.maxOffset, Bool.true_and, decide_eq_true_eq]
      omega
    · exact ⟨_, rfl, rfl⟩
  · intro area type size reference address between size' reference' address' first apart second
    obtain ⟨middle, allocated, left⟩ := perform_allocate_eq_ok first
    obtain ⟨_, again, _⟩ := perform_allocate_eq_ok second
    obtain ⟨start, finish⟩ := sized.allocate allocated
    obtain ⟨later, _⟩ := (sized_reached capacities _).allocate again
    have way : reached capacities (requests ++ .allocate area type size reference :: between) =
        operations.after middle between := by
      rw [reached, Operations.after_append, Operations.after_cons, ← left]
      rfl
    have onward := cursor_le_after middle apart
    rw [← way, ← later] at onward
    omega

end Memory

end Quadruple
