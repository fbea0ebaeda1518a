import Quadruple.Proofs.ImageCodec
import Quadruple.Proofs.Targets

/-!
Images of compiled programs. Every address that compilation names fits its bits, and when the program
is finished every jump has a target. So the image of a finished program can be encoded, and what is
encoded can be loaded.
-/

namespace Quadruple

def Rules.packing (capacities : Capacities) : Rules where
  capacities
  usable := fun address => address.isValid = true
  hosts := fun _ _ => True
  usable_of_has := by
    intro address has
    obtain ⟨capacity, size, inside⟩ := Memory.has_iff.1 has
    have few : capacity ≤ 67108864 := Memory.sizes_le size
    obtain ⟨area, type, reference, offset⟩ := address
    refine Address.isValid_iff.2 ⟨?_, ?_, Nat.lt_of_lt_of_le inside few⟩
    · cases area with
      | reserved => cases size
      | _ => rfl
    · cases type with
      | void | reserved => cases area <;> cases size
      | _ => rfl
  usable_mark := fun _ _ => Iff.rfl

/-- An operand that is no target, and whose address fits its bits. -/
def Operand.Storable : Operand → Prop
  | .address cell => cell.isValid = true
  | .literal value => value.type ≠ .object
  | .target _ => False
  | _ => True

/-- The operands of an instruction can be stored; its result may be a target. -/
structure Instruction.Storable (instr : Instruction) : Prop where
  left : instr.left.Storable
  right : instr.right.Storable
  result : instr.result.Storable ∨ ∃ target, instr.result = .target target

section

variable {capacities : Capacities} {made : Option Scope.Class} {instr : Instruction}

theorem Rules.Reads.storable {operand : Operand} (reads : (packing capacities).Reads operand) :
    operand.Storable := by
  cases operand with
  | address | literal => exact reads
  | _ => exact reads.elim

theorem Rules.Plain.storable (plain : (packing capacities).Plain instr) :
    instr.Storable := by
  cases plain with
  | load _ literal usable => exact ⟨literal, trivial, .inl usable⟩
  | store _ reads usable => exact ⟨reads, trivial, .inl usable⟩
  | loadElement holds reads usable | storeElement holds reads usable =>
    exact ⟨holds.usable, Reads.storable reads, .inl usable⟩
  | convert _ reads usable | unary _ reads usable => exact ⟨trivial, reads, .inl usable⟩
  | binary _ left right usable => exact ⟨Reads.storable left, Reads.storable right, .inl usable⟩
  | ret => exact ⟨trivial, trivial, .inl trivial⟩

theorem Rules.Emits.storable (emits : (packing capacities).Emits made instr) :
    instr.Storable := by
  cases emits with
  | append appends =>
    cases appends with
    | plain plain => exact plain.storable
    | malloc _ refers => exact ⟨DataType.noConfusion, trivial, .inl refers.usable⟩
    | passing _ reads usable => exact ⟨reads, trivial, .inl usable⟩
    | passingHost reads => exact ⟨reads, trivial, .inl trivial⟩
    | callHost _ receives =>
      refine ⟨trivial, trivial, .inl ?_⟩
      cases receives with
      | nothing => exact trivial
      | value _ usable => exact usable
    | openRecord => exact ⟨trivial, trivial, .inl trivial⟩
    | call _ start => exact ⟨trivial, trivial, .inr ⟨start, rfl⟩⟩
  | branch reads => exact ⟨reads, trivial, .inl trivial⟩
  | jump | start | exit => exact ⟨trivial, trivial, .inl trivial⟩

end

/-! ### Records of instructions -/

theorem Address.isValid_origin : origin.isValid = true := by
  decide

theorem ValueRecord.fits_ofValue {value : Value} (plain : value.type ≠ .object)
    (text : TextFits (ofValue value).text) : (ofValue value).Fits := by
  refine ⟨?_, text⟩
  cases value with
  | object => exact absurd rfl plain
  | _ => exact Address.isValid_origin

namespace OperandRecord

theorem toOperand_ofOperand (operand : Operand) : (ofOperand operand).toOperand = operand := by
  cases operand with
  | literal value => exact congrArg Operand.literal (ValueRecord.toValue_ofValue value)
  | unknown kind unassigned =>
    unfold ofOperand toOperand
    simp only
    split
    · exact absurd unassigned (by decide)
    · exact absurd unassigned (by decide)
    · exact absurd unassigned (by decide)
    · exact absurd unassigned (by decide)
    · exact dif_pos unassigned
  | _ => rfl

def TextsFit (record : OperandRecord) : Prop :=
  TextFits record.name ∧ TextFits record.literal.text

instance (record : OperandRecord) : Decidable record.TextsFit :=
  inferInstanceAs (Decidable (_ ∧ _))

theorem fits_ofOperand {operand : Operand} (texts : (ofOperand operand).TextsFit)
    (storable : operand.Storable ∨ ∃ target : Nat, operand = .target target ∧ target ≤ Cbor.maxCount) :
    (ofOperand operand).Fits := by
  have plain : ValueRecord.Fits {} := ⟨Address.isValid_origin, by decide⟩
  have low : -9223372036854775808 ≤ (0 : Int) := by decide
  have high : (0 : Int) < 9223372036854775808 := by decide
  rcases storable with storable | ⟨target, rfl, small⟩
  · cases operand with
    | literal value =>
      exact ⟨Address.isValid_origin, ValueRecord.fits_ofValue storable texts.2, low, high, texts.1⟩
    | address cell => exact ⟨storable, plain, low, high, texts.1⟩
    | target => exact storable.elim
    | none | name | unknown => exact ⟨Address.isValid_origin, plain, low, high, texts.1⟩
  · have few : target ≤ 131072 := small
    refine ⟨Address.isValid_origin, plain, ?_, ?_, texts.1⟩
    · show -9223372036854775808 ≤ (target : Int)
      omega
    · show (target : Int) < 9223372036854775808
      omega

end OperandRecord

theorem InstructionRecord.toInstruction_ofInstruction (instr : Instruction) :
    (ofInstruction instr).toInstruction = instr := by
  simp only [toInstruction, ofInstruction, OperandRecord.toOperand_ofOperand]

namespace Image

variable {name : String} {code : Code} {optimized : Bool}

theorem records_ofRecords (name : String) (records : List InstructionRecord) (optimized : Bool) :
    (ofRecords name records optimized).records = records := by
  unfold Image.records ofRecords
  split
  · rename_i empty
    rw [List.isEmpty_iff.1 empty]
    rfl
  · rfl

theorem records_ofCode (name : String) (code : Code) (optimized : Bool) :
    (ofCode name code optimized).records = code.toList.map InstructionRecord.ofInstruction :=
  records_ofRecords name _ optimized

theorem code_ofCode (name : String) (code : Code) (optimized : Bool) :
    (ofCode name code optimized).code = code := by
  have same : InstructionRecord.toInstruction ∘ InstructionRecord.ofInstruction = id :=
    funext InstructionRecord.toInstruction_ofInstruction
  unfold Image.code
  rw [records_ofCode, List.map_map, same, List.map_id, Array.toArray_toList]

theorem mem_calledNatives {records : List InstructionRecord} {native : String} :
    native ∈ calledNatives records ↔ ∃ record ∈ records, record.native? = some native := by
  unfold calledNatives
  rw [List.mem_eraseDups, List.mem_mergeSort, List.mem_filterMap]

theorem length_eraseDups_le (names : List String) : names.eraseDups.length ≤ names.length := by
  match names with
  | [] => exact Nat.le_refl 0
  | name :: rest =>
    have fewer := List.length_filter_le (fun other => !other == name) rest
    have ih := length_eraseDups_le (rest.filter fun other => !other == name)
    rw [List.eraseDups_cons, List.length_cons, List.length_cons]
    omega
termination_by names.length

theorem length_calledNatives_le (records : List InstructionRecord) :
    (calledNatives records).length ≤ records.length := by
  refine Nat.le_trans (length_eraseDups_le _) ?_
  rw [List.length_mergeSort]
  exact List.length_filterMap_le _ _

/-- The limits of what can be encoded: the number of instructions and the lengths of texts. -/
def Small (image : Image) : Prop :=
  image.records.length ≤ Cbor.maxCount ∧ TextFits image.name ∧ ∀ record ∈ image.records,
    record.left.TextsFit ∧ record.right.TextsFit ∧ record.result.TextsFit

instance (image : Image) : Decidable image.Small :=
  inferInstanceAs (Decidable (_ ∧ _ ∧ _))

theorem fits_records (small : (ofCode name code optimized).Small)
    (storable : Code.Each (fun _ => Instruction.Storable) code)
    (aims : ∀ (place : Nat) (instr : Instruction) (target : Int), code[place]? = some instr →
      instr.result = .target target → 0 ≤ target ∧ target ≤ code.size) :
    ∀ record ∈ (ofCode name code optimized).records, record.Fits := by
  intro record listed
  obtain ⟨few, _, texts⟩ := small
  obtain ⟨left, right, result⟩ := texts record listed
  rw [records_ofCode] at listed few
  obtain ⟨instr, present, rfl⟩ := List.mem_map.1 listed
  obtain ⟨place, inside, here⟩ := List.mem_iff_getElem.1 present
  have found : code[place]? = some instr := by
    rw [← here, ← Array.getElem?_toList, List.getElem?_eq_getElem]
  have stored := storable place instr found
  refine ⟨OperandRecord.fits_ofOperand left (.inl stored.left),
    OperandRecord.fits_ofOperand right (.inl stored.right),
    OperandRecord.fits_ofOperand result (stored.result.imp_right ?_)⟩
  rintro ⟨target, aimed⟩
  obtain ⟨low, high⟩ := aims place instr target found aimed
  rw [List.length_map, Array.length_toList] at few
  exact ⟨target.toNat, by rw [aimed, Int.toNat_of_nonneg low], by omega⟩

theorem fits_ofCode (small : (ofCode name code optimized).Small)
    (fits : ∀ record ∈ (ofCode name code optimized).records, record.Fits) :
    (ofCode name code optimized).Fits where
  low := by
    show -9223372036854775808 ≤ (1 : Int)
    decide
  high := by
    show (1 : Int) < 9223372036854775808
    decide
  name := small.2.1
  records := fits
  few := small.1
  natives := by
    intro native listed
    obtain ⟨record, present, calls⟩ := mem_calledNatives.1 listed
    rw [← records_ofCode name code optimized] at present
    obtain ⟨⟨named, _⟩, _⟩ := small.2.2 record present
    unfold InstructionRecord.native? at calls
    split at calls
    · cases calls
      exact named
    · cases calls
  fewNatives := by
    have few := small.1
    rw [records_ofCode] at few
    exact Nat.le_trans (length_calledNatives_le _) few

theorem checkTargets_eq_ok_iff {size position : Nat} {instructions : List Instruction} :
    checkTargets size position instructions = .ok () ↔
      ∀ instr ∈ instructions, instr.opcode.hasTarget = true →
        ∃ target : Nat, instr.target? = some (target : Int) ∧ target ≤ size := by
  induction instructions generalizing position with
  | nil => simp [checkTargets]
  | cons first rest ih =>
    rw [List.forall_mem_cons, ← @ih (position + 1), checkTargets]
    split
    · rename_i jumps
      split
      · rename_i none_
        simp [jumps, none_]
      · rename_i target named
        split
        · rename_i outside
          refine iff_of_false (by simp) fun both => ?_
          obtain ⟨index, same, bounded⟩ := both.1 jumps
          cases named.symm.trans same
          simp only [Bool.or_eq_true, decide_eq_true_eq] at outside
          omega
        · rename_i inside
          simp only [Bool.or_eq_true, decide_eq_true_eq, not_or, Int.not_lt] at inside
          obtain ⟨index, rfl⟩ := Int.eq_ofNat_of_zero_le inside.1
          exact (and_iff_right fun _ => ⟨index, named, Int.ofNat_le.1 inside.2⟩).symm
    · rename_i straight
      simp [straight]

theorem validate_eq_ok_iff {image : Image} : image.validate = .ok () ↔ image.code.TargetsInside := by
  unfold validate
  rw [checkTargets_eq_ok_iff]
  constructor
  · intro inside position instr found
    exact inside instr (Array.mem_toList_iff.2 (Array.mem_of_getElem? found))
  · intro inside instr listed
    obtain ⟨position, bounded, rfl⟩ := Array.mem_iff_getElem.1 (Array.mem_toList_iff.1 listed)
    exact inside position _ (Array.getElem?_eq_getElem bounded)

theorem validate_ofCode (inside : code.TargetsInside) :
    (ofCode name code optimized).validate = .ok () := by
  rw [validate_eq_ok_iff, code_ofCode]
  exact inside

end Image

/-! ### Finished programs -/

namespace Transcript

variable {transcript : Transcript} {capacities : Capacities} {code : Code}

theorem storable_of_compile (named : transcript.WellNamed capacities)
    (compiled : transcript.compile capacities = .ok code) :
    Code.Each (fun _ => Instruction.Storable) code := by
  obtain ⟨commands, generator, asks, performs, rfl⟩ := compile_performs compiled
  have admits : Generator.Admits (.packing capacities) commands :=
    WellNamed.admits named asks fun _ _ => trivial
  exact Generator.Performs.all performs admits (fun _ _ emits => emits.storable)
    fun _ target stored => ⟨stored.left, stored.right, .inr ⟨target, rfl⟩⟩

theorem fits_of_compile (named : transcript.WellNamed capacities)
    (compiled : transcript.compile capacities = .ok code) {name : String}
    (small : (Image.ofCode name code false).Small) : (Image.ofCode name code false).Fits := by
  have storable := storable_of_compile named compiled
  obtain ⟨commands, generator, asks, performs, rfl⟩ := compile_performs compiled
  have inOrder : generator.InOrder capacities commands :=
    performs.inOrder (Generator.admits_lax capacities commands)
  refine Image.fits_ofCode small (Image.fits_records small storable ?_)
  intro place instr target found aimed
  obtain ⟨index, rfl, bounded, _⟩ := inOrder.orderly.aims place instr target found aimed
  omega

/-- If every jump back takes the head of a loop, a finished program has an image that loads: its
addresses fit their bits, and its jumps and calls have targets in it. -/
theorem compiled_image_loads (named : transcript.WellNamed capacities)
    (finished : transcript.Finished) (loops : transcript.closesLoops = true)
    (compiled : transcript.compile capacities = .ok code) (name : String)
    (small : (Image.ofCode name code false).Small) :
    Code.Each (fun _ => Instruction.Storable) code ∧ code.TargetsInside ∧
      ∃ bytes, (Image.ofCode name code false).encode = .ok bytes ∧
        Image.decode bytes = .ok (Image.ofCode name code false).reread := by
  have inside := targetsInside_of_compile finished loops compiled
  refine ⟨storable_of_compile named compiled, inside, ?_⟩
  obtain ⟨bytes, made, read⟩ := Image.decode_encode (fits_of_compile named compiled small) rfl
  refine ⟨bytes, made, ?_⟩
  rw [read, Image.validate_ofCode inside]
  rfl

/-- A loop that counts to three. -/
def threefold : Transcript where
  events :=
    [{ kind := "declare_variable", name := "n", type := "int" }, { kind := "init" },
      { kind := "loop_start" }, { kind := "identifier", name := "n" }, { kind := "variable" },
      { kind := "constant", value := some (.int 3) }, { kind := "operator", operator := "<" },
      { kind := "push_delimiter" }, { kind := "conditional_jump" },
      { kind := "identifier", name := "n" }, { kind := "variable" },
      { kind := "constant", value := some (.int 1) }, { kind := "assign", operator := "+=" },
      { kind := "loop_jump", count := 2 }, { kind := "patch_pending" }, { kind := "exit" }]

theorem threefold_image_loads : ∃ code, threefold.compile {} = .ok code ∧ code.TargetsInside ∧
    ∃ bytes, (Image.ofCode "threefold" code false).encode = .ok bytes ∧
      Image.decode bytes = .ok (Image.ofCode "threefold" code false).reread := by
  obtain ⟨code, compiled, small⟩ : ∃ code, threefold.compile {} = .ok code ∧
      (Image.ofCode "threefold" code false).Small :=
    exists_ok_of_any (by decide +kernel)
  have named := wellNamed_of_isWellNamed {} (by decide +kernel : threefold.told.all _ = true)
  have finished : threefold.Finished :=
    ⟨threefold.events.dropLast, { kind := "exit" }, rfl, rfl⟩
  obtain ⟨_, inside, loads⟩ := compiled_image_loads named finished
    (by decide +kernel) compiled "threefold" small
  exact ⟨code, compiled, inside, loads⟩

/-- A jump whose entry is taken by a jump back. -/
def stray : Transcript where
  events := [{ kind := "init" }, { kind := "exit" }, { kind := "jump" }, { kind := "loop_jump" },
    { kind := "exit" }]

/-- Nothing waits any more when the program ends, but the jump has no target. -/
theorem stray_image_refused : ∃ code, stray.compile {} = .ok code ∧
    ∃ bytes, (Image.ofCode "stray" code false).encode = .ok bytes ∧
      Image.decode bytes = .error (.missingTarget .goto 3) := by
  obtain ⟨code, compiled, small, refused⟩ : ∃ code, stray.compile {} = .ok code ∧
      (Image.ofCode "stray" code false).Small ∧
        (Image.ofCode "stray" code false).validate = .error (.missingTarget .goto 3) :=
    exists_ok_of_any (by decide +kernel)
  have named := wellNamed_of_isWellNamed {} (by decide +kernel : stray.told.all _ = true)
  obtain ⟨bytes, made, read⟩ := Image.decode_encode (fits_of_compile named compiled small) rfl
  exact ⟨code, compiled, bytes, made, by rw [read, refused]; rfl⟩

end Transcript

end Quadruple
