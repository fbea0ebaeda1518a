import Quadruple.Proofs.Storage
import Quadruple.Proofs.Workspace

/-!
What each instruction does when it succeeds, said once: which operands it reads, which cell it
writes and what else of the machine it changes.
-/

namespace Quadruple

namespace Machine

variable {machine after : Machine} {instr : Instruction}

theorem write_eq_ok {operand : Operand} {value : Value} :
    machine.write operand value = .ok after ↔ ∃ cell memory, operand = .address cell ∧
      machine.memory.store cell.plain (value.coerce cell.type) = .ok memory ∧
      after = { machine with memory } := by
  cases operand with
  | address cell =>
    simp only [write, storeAt, map_eq_ok, mapError_eq_ok]
    constructor
    · rintro ⟨memory, stored, rfl⟩
      exact ⟨cell, memory, rfl, stored, rfl⟩
    · rintro ⟨_, memory, same, stored, rfl⟩
      cases same
      exact ⟨memory, stored, rfl⟩
  | _ => simp [write]

theorem storeAt_eq_ok {memory bound : Memory} {cell : Address} {value : Value} :
    storeAt memory cell value = .ok bound ↔
      memory.store cell.plain (value.coerce cell.type) = .ok bound := by
  rw [storeAt, mapError_eq_ok]

/-- What holds of a memory while arguments are stored one by one holds in the end, also if one fails. -/
theorem bindAll_keeps (Holds : Memory → Prop) {memory : Memory} {passed : List Passed}
    (keeps : ∀ argument ∈ passed, ∀ before after, Holds before →
      before.store argument.destination.plain (argument.value.coerce argument.destination.type) =
        .ok after → Holds after)
    (holds : Holds memory) : Holds (bindAll memory passed).2 := by
  induction passed generalizing memory with
  | nil => exact holds
  | cons argument rest ih =>
    unfold bindAll
    cases stored : storeAt memory argument.destination argument.value with
    | error fault => exact holds
    | ok bound =>
      exact ih (fun other listed => keeps other (List.mem_cons_of_mem _ listed))
        (keeps argument List.mem_cons_self memory bound holds (storeAt_eq_ok.1 stored))

theorem loadLiteral_eq_ok :
    machine.loadLiteral instr = .ok after ↔ ∃ value, instr.left = .literal value ∧
      machine.write instr.result value = .ok after := by
  unfold loadLiteral
  cases instr.left with
  | literal value => simp
  | _ => simp

theorem copy_eq_ok :
    machine.copy instr = .ok after ↔ ∃ value, machine.read instr.left = .ok value ∧
      machine.write instr.result value = .ok after := by
  simp only [copy, bind_eq_ok]

theorem loadElement_eq_ok :
    machine.loadElement instr = .ok after ↔ ∃ destination cell value,
      instr.result = .address destination ∧
      machine.element instr.left instr.right destination.type = .ok cell ∧
      machine.memory.load cell = .ok value ∧
      machine.write instr.result value = .ok after := by
  unfold loadElement
  cases instr.result with
  | address destination => simp [bind_eq_ok, mapError_eq_ok]
  | _ => simp

theorem storeElement_eq_ok (done : machine.storeElement instr = .ok after) : ∃ value cell memory,
    machine.read instr.result = .ok value ∧
    machine.element instr.left instr.right instr.result.type = .ok cell ∧
    machine.memory.store cell.plain (value.coerce cell.type) = .ok memory ∧
    after = { machine with memory } := by
  obtain ⟨value, isRead, done⟩ := bind_eq_ok.1 done
  obtain ⟨cell, found, done⟩ := bind_eq_ok.1 done
  obtain ⟨memory, stored, ⟨⟩⟩ := bind_eq_ok.1 done
  exact ⟨value, cell, memory, isRead, found, storeAt_eq_ok.1 stored, rfl⟩

theorem operate_eq_ok :
    machine.operate instr = .ok after ↔ ∃ left right value,
      machine.readIfAny instr.left = .ok left ∧
      machine.readIfAny instr.right = .ok right ∧
      instr.opcode.eval left right = .ok value ∧
      machine.write instr.result value = .ok after := by
  simp only [operate, bind_eq_ok, mapError_eq_ok]
  constructor
  · rintro ⟨left, readLeft, right, readRight, value, evaluated, written⟩
    exact ⟨left, right, value, readLeft, readRight, evaluated, written⟩
  · rintro ⟨left, right, value, readLeft, readRight, evaluated, written⟩
    exact ⟨left, readLeft, right, readRight, value, evaluated, written⟩

theorem passParam_eq_ok :
    machine.passParam instr = .ok after ↔ ∃ value destination,
      machine.read instr.left = .ok value ∧ instr.result = .address destination ∧
      after = { machine with passed := machine.passed ++ [⟨value, destination⟩] } := by
  unfold passParam
  rw [bind_eq_ok]
  cases instr.result with
  | address destination => simp [pure, Except.pure, eq_comm]
  | _ => simp

theorem passNative_eq_ok (done : machine.passNative instr = .ok after) : ∃ value,
    machine.read instr.left = .ok value ∧
    after = { machine with nativeArguments := machine.nativeArguments ++ [value] } := by
  obtain ⟨value, isRead, ⟨⟩⟩ := bind_eq_ok.1 done
  exact ⟨value, isRead, rfl⟩

/-- Where the elements of a base start: at the base, or at the object to which it refers. -/
inductive Starts (machine : Machine) (base : Address) : Address → Prop where
  | here (direct : base.type ≠ .object) : Starts machine base base.plain
  | object {pointer : Address} (refers : base.type = .object)
      (held : machine.memory.load base.plain = .ok (.object pointer))
      (stack : pointer.area = .stack) : Starts machine base pointer

theorem originOf_eq_ok {base origin : Address} :
    machine.originOf base.plain = .ok origin ↔ machine.Starts base origin := by
  have same : base.plain.type = base.type := rfl
  unfold originOf
  rw [same]
  constructor
  · intro found
    split at found
    · rename_i refers
      obtain ⟨held, loaded, found⟩ := bind_eq_ok.1 found
      split at found
      · rename_i pointer
        split at found
        · rename_i stack
          cases found
          exact .object refers (mapError_eq_ok.1 loaded) stack
        · cases found
      · cases found
    · rename_i direct
      cases found
      exact .here direct
  · intro starts
    cases starts with
    | here direct => rw [if_neg direct]; rfl
    | object refers held stack =>
      rw [if_pos refers, held]
      exact if_pos stack

theorem element_eq_ok {operand index : Operand} {type : DataType} {cell : Address}
    (found : machine.element operand index type = .ok cell) :
    ∃ base value origin, operand = .address base ∧ machine.read index = .ok value ∧
      0 ≤ value.toInt.toInt ∧ machine.Starts base origin ∧
      cell = ⟨origin.area, type, false,
        (Int64.ofInt origin.offset.toNat + value.toInt).toUInt64.toUInt32⟩ := by
  unfold element at found
  split at found
  · rename_i base
    obtain ⟨value, isRead, found⟩ := bind_eq_ok.1 found
    simp only at found
    split at found
    · cases found
    · rename_i nonneg
      obtain ⟨origin, traced, found⟩ := bind_eq_ok.1 found
      split at found
      · cases found
      · cases found
        refine ⟨base, value, origin, rfl, isRead, ?_, originOf_eq_ok.1 traced, rfl⟩
        exact Int.not_lt.1 fun below => nonneg (Int64.lt_iff_toInt_lt.2 below)
  · cases found

theorem allocateObject_eq_ok (done : (machine.allocateObject instr).1 = .ok after) :
    ∃ size pointer memory, machine.read instr.left = .ok size ∧
      machine.memory.allocate .stack .object size.toInt.toInt false = .ok (pointer, memory) ∧
      Machine.write { machine with memory } instr.result (.object pointer) = .ok after := by
  unfold allocateObject at done
  split at done
  · cases done
  · rename_i size isRead
    split at done
    · cases done
    · rename_i allocated
      exact ⟨size, _, _, isRead, allocated, done⟩

theorem callNative_eq_ok (done : (machine.callNative instr).1 = .ok after) : ∃ native value console,
    Native.ofName? (nativeName instr.left) = some native ∧
    native.execute machine.nativeArguments machine.console = (.ok value, console) ∧
    ((∃ cell, instr.result = .address cell ∧
      Machine.write { machine with nativeArguments := [], console } instr.result value = .ok after) ∨
    ((∀ cell, instr.result ≠ .address cell) ∧
      after = { machine with nativeArguments := [], console })) := by
  unfold callNative at done
  simp only at done
  split at done
  · cases done
  · rename_i native found
    split at done
    · cases done
    · rename_i value executed
      refine ⟨native, value, _, found, Prod.ext executed rfl, ?_⟩
      cases destination : instr.result with
      | address cell =>
        rw [destination] at done
        exact .inl ⟨cell, rfl, done⟩
      | _ =>
        rw [destination] at done
        cases done
        exact .inr ⟨nofun, rfl⟩

end Machine

end Quadruple
