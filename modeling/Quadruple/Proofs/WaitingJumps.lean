import Mathlib.Data.List.Perm.Subperm
import Quadruple.Proofs.JumpCompletion

/-!
What waits for a target, from the first operation on code under construction to the last. An index goes onto
the stack once and comes off once, and a target goes to the instructions whose indices come off for it, and to
no others.
-/

namespace Quadruple

namespace Code

def Covers (code : Code) (index : Int) : Prop :=
  0 ≤ index ∧ index < code.size

instance (code : Code) (index : Int) : Decidable (code.Covers index) :=
  inferInstanceAs (Decidable (_ ∧ _))

theorem Aims.size {code after : Code} {places : List Nat} {target : Int}
    (aims : code.Aims places target after) : after.size = code.size := by
  have ends (place : Nat) : after.size ≤ place ↔ code.size ≤ place := by
    rw [← Array.getElem?_eq_none_iff, aims place, Option.map_eq_none_iff, Array.getElem?_eq_none_iff]
  exact Nat.le_antisymm ((ends _).2 (Nat.le_refl _)) ((ends _).1 (Nat.le_refl _))

end Code

namespace CodeBuffer

/-! ### Operations -/

inductive Operation where
  | emit (instr : Instruction)
  | pushPending (index : Int)
  | pushDelimiter
  | patchPending
  | patchOne (depth : Int)
  | popTarget (depth : Int)

namespace Operation

/-- Whether an operation succeeds, and the buffer that it leaves in either case. -/
def perform (buffer : CodeBuffer) : Operation → Except Code.Error Unit × CodeBuffer
  | emit instr => (.ok (), buffer.emit instr)
  | pushPending index => (.ok (), buffer.pushPending index)
  | pushDelimiter => (.ok (), buffer.pushDelimiter)
  | patchPending => buffer.patchPending
  | patchOne depth => buffer.patchOne depth
  | popTarget depth =>
    match buffer.take depth with
    | .ok (_, after) => (.ok (), after)
    | .error failure => (.error failure, buffer)

def pushes : Operation → List Int
  | pushPending index => [index]
  | _ => []

end Operation

variable {buffer after : CodeBuffer} {pushed removed : List Int} {index depth : Int}

/-- The indices on the stack, the latest first. -/
def waiting (buffer : CodeBuffer) : List Int :=
  buffer.pending.flatMap fun
    | .delimiter => []
    | .jump index => [index]

/-- No jump stands at that depth. -/
def Lacks (buffer : CodeBuffer) (depth : Int) : Prop :=
  depth < 0 ∨ ∀ index, buffer.pending[depth.toNat]? ≠ some (.jump index)

/-- A jump is taken from among the other entries; nothing else is. -/
theorem take_cases (buffer : CodeBuffer) (depth : Int) :
    buffer.Lacks depth ∧ (∃ failure, buffer.take depth = .error failure) ∨
      ∃ above index below, depth = (above.length : Int) ∧ buffer.pending = above ++ .jump index :: below ∧
        buffer.take depth = .ok (index, { buffer with pending := above ++ below }) := by
  cases taken : buffer.take depth with
  | error failure =>
    refine .inl ⟨?_, failure, rfl⟩
    by_contra present
    obtain ⟨least, index, found⟩ : 0 ≤ depth ∧ ∃ index, buffer.pending[depth.toNat]? = some (.jump index) := by
      simpa [Lacks] using present
    rw [take, if_neg (Int.not_lt.2 least), found] at taken
    cases taken
  | ok result =>
    obtain ⟨index, after⟩ := result
    obtain ⟨place, rfl, found, rfl⟩ := take_eq_ok taken
    obtain ⟨inside, here⟩ := List.getElem?_eq_some_iff.1 found
    refine .inr ⟨buffer.pending.take place, index, buffer.pending.drop (place + 1), ?_, ?_, ?_⟩
    · rw [List.length_take, Nat.min_eq_left (Nat.le_of_lt inside)]
    · rw [← here, List.getElem_cons_drop, List.take_append_drop]
    · rw [List.eraseIdx_eq_take_drop_succ]

section

variable (covers : ∀ index ∈ buffer.waiting, Code.Covers buffer.code index)
include covers

theorem patchOne_cases (depth : Int) :
    buffer.Lacks depth ∧ (∃ failure, buffer.patchOne depth = (.error failure, buffer)) ∨
      ∃ above below patched, ∃ place : Nat, depth = (above.length : Int) ∧
        buffer.pending = above ++ .jump place :: below ∧
        Code.Aims buffer.code [place] buffer.code.size patched ∧
        buffer.patchOne depth = (.ok (), ⟨patched, above ++ below⟩) := by
  unfold patchOne
  rcases buffer.take_cases depth with
    ⟨lacks, failure, failed⟩ | ⟨above, index, below, same, waits, taken⟩
  · rw [failed]
    exact .inl ⟨lacks, failure, rfl⟩
  · obtain ⟨least, inside⟩ := covers index (by simp [waiting, waits])
    obtain ⟨place, rfl⟩ := Int.eq_ofNat_of_zero_le least
    have found := Array.getElem?_eq_getElem (Int.ofNat_lt.1 inside)
    rw [taken]
    refine .inr ⟨above, below, _, place, same, waits, Code.aims_set found _, ?_⟩
    simp only [Code.setTarget_found found]

/-- An operation adds what it pushes and nothing else, and code does not get shorter. -/
theorem perform_keeps (operation : Operation)
    (orderly : ∀ index ∈ operation.pushes, Code.Covers buffer.code index) :
    ((operation.perform buffer).2.waiting).Sublist (operation.pushes ++ buffer.waiting) ∧
      buffer.code.size ≤ (operation.perform buffer).2.code.size := by
  cases operation with
  | emit instr =>
    refine ⟨.refl _, ?_⟩
    simp [Operation.perform, emit]
  | pushPending index =>
    have isJump : Pending.ofIndex index = .jump index :=
      if_neg fun before => by
        have least := (orderly index List.mem_cons_self).1
        omega
    refine ⟨?_, Nat.le_refl _⟩
    simp [Operation.perform, pushPending, waiting, isJump, Operation.pushes]
  | pushDelimiter => exact ⟨.refl _, Nat.le_refl _⟩
  | patchPending =>
    obtain ⟨patched, rest, aims, ⟨above, whole⟩, done, _⟩ := patchAll_aims buffer.code buffer.pending
    rw [Operation.perform, patchPending, done]
    refine ⟨?_, Nat.le_of_eq aims.size.symm⟩
    simp [waiting, ← whole, Operation.pushes]
  | patchOne depth =>
    rcases patchOne_cases covers depth with
      ⟨_, failure, failed⟩ | ⟨above, below, patched, place, _, waits, aims, done⟩
    · rw [Operation.perform, failed]
      exact ⟨.refl _, Nat.le_refl _⟩
    · rw [Operation.perform, done]
      refine ⟨?_, Nat.le_of_eq aims.size.symm⟩
      simp [waiting, waits, Operation.pushes]
  | popTarget depth =>
    rcases buffer.take_cases depth with ⟨_, failure, failed⟩ | ⟨above, index, below, _, waits, taken⟩
    · rw [Operation.perform, failed]
      exact ⟨.refl _, Nat.le_refl _⟩
    · rw [Operation.perform, taken]
      refine ⟨?_, Nat.le_refl _⟩
      simp [waiting, waits, Operation.pushes]

end

/-! ### What all operations do -/

end CodeBuffer

end Quadruple
