import Quadruple.Generator.Expression
import Quadruple.Operator.Evaluation

/-!
The types of operators say what operators compute. An operator whose type is known computes a value of
that type, and the instruction for it computes what the operator does. A value of a type is already
in the form that the type's cells hold.
-/

namespace Quadruple

theorem Value.coerce_of_type {value : Value} {type : DataType} (typed : value.type = type) :
    value.coerce type = value := by
  subst typed
  cases value with
  | bare type unstored =>
    cases type with
    | void | reserved => rfl
    | _ => cases unstored
  | _ => rfl

namespace Value

variable {value : Value}

theorem exists_int (typed : value.type = .int) : ∃ number, value = .int number := by
  cases value with
  | int number => exact ⟨number, rfl⟩
  | bare type unstored =>
    cases typed
    cases unstored
  | _ => cases typed

theorem exists_float (typed : value.type = .float) : ∃ number, value = .float number := by
  cases value with
  | float number => exact ⟨number, rfl⟩
  | bare type unstored =>
    cases typed
    cases unstored
  | _ => cases typed

theorem exists_string (typed : value.type = .string) : ∃ text, value = .string text := by
  cases value with
  | string text => exact ⟨text, rfl⟩
  | bare type unstored =>
    cases typed
    cases unstored
  | _ => cases typed

end Value

namespace Opcode

open Generator (conversion? emitted)

variable {opcode : Opcode} {left right value : Value} {type : DataType}

theorem resultType_unary {operand other : DataType} (unary : opcode.arity = 1)
    (typed : opcode.resultType operand other = .ok type) :
    unaryType? opcode operand = some type := by
  unfold resultType at typed
  rw [if_pos unary] at typed
  cases found : unaryType? opcode operand with
  | none =>
    rw [found] at typed
    cases typed
  | some given =>
    rw [found] at typed
    cases typed
    rfl

variable {first second : DataType}

theorem resultType_binary (binary : opcode.arity ≠ 1)
    (typed : opcode.resultType first second = .ok type) :
    binaryType? opcode first second = some type := by
  unfold resultType at typed
  rw [if_neg binary] at typed
  cases found : binaryType? opcode first second with
  | none =>
    rw [found] at typed
    cases typed
  | some given =>
    rw [found] at typed
    cases typed
    rfl

section

variable (typed : arithmeticType? left.type right.type = some type)
include typed

/-- Arithmetic is of integers if it is typed so, and of floats otherwise. -/
theorem floating_of_type :
    (type = .int ∧ floating left right = false) ∨ (type = .float ∧ floating left right = true) := by
  unfold arithmeticType? at typed
  unfold floating
  split at typed
  · rename_i first second
    cases typed
    simp [first, second]
  · rename_i first second
    cases typed
    simp [second]
  · rename_i first second
    cases typed
    simp [first]
  · rename_i first second
    cases typed
    simp [first]
  · cases typed

theorem type_arithmetic {ints : Int64 → Int64 → Int64} {floats : Float → Float → Float} :
    (arithmetic ints floats left right).type = type := by
  unfold arithmetic
  split
  · cases typed
  · rcases floating_of_type typed with ⟨rfl, floats⟩ | ⟨rfl, floats⟩
    · rw [floats]
      rfl
    · rw [floats]
      rfl

theorem type_modulo (computed : modulo left right = .ok value) : value.type = type := by
  unfold modulo at computed
  rcases floating_of_type typed with ⟨rfl, floats⟩ | ⟨rfl, floats⟩
  · simp only [floats, Bool.false_eq_true, if_false] at computed
    split at computed
    · cases computed
    · cases computed
      rfl
  · simp only [floats, if_true] at computed
    cases computed
    rfl

end

theorem type_divideInts (computed : divideInts left right = .ok value) : value.type = .int := by
  unfold divideInts at computed
  split at computed
  · cases computed
  · cases computed
    rfl

theorem emitted_of_ne (different : opcode ≠ .div) : emitted opcode type = opcode :=
  if_neg different

section

variable (typed : binaryType? opcode left.type right.type = some type)
include typed

/-- The instruction for an operator of two operands computes what the operator does. -/
theorem eval_emitted : (emitted opcode type).eval left right = opcode.eval left right := by
  by_cases divides : opcode = .div
  · subst divides
    rcases floating_of_type typed with ⟨rfl, floats⟩ | ⟨rfl, floats⟩ <;>
      simp [emitted, eval, floats]
  · rw [emitted_of_ne divides]

theorem type_of_binary (computed : opcode.eval left right = .ok value) : value.type = type := by
  unfold binaryType? at typed
  cases opcode with
  | add =>
    by_cases texts : left.type = .string ∧ right.type = .string
    · rw [if_pos texts] at typed
      cases typed
      cases computed
      obtain ⟨front, rfl⟩ := Value.exists_string texts.1
      obtain ⟨back, rfl⟩ := Value.exists_string texts.2
      rfl
    · rw [if_neg texts] at typed
      cases computed
      exact type_arithmetic typed
  | sub | mul =>
    cases computed
    exact type_arithmetic typed
  | div =>
    rcases floating_of_type typed with ⟨rfl, floats⟩ | ⟨rfl, floats⟩
    · simp only [eval, floats, Bool.false_eq_true, if_false] at computed
      exact type_divideInts computed
    · simp only [eval, floats, if_true] at computed
      cases computed
      rfl
  | mod => exact type_modulo typed computed
  | bitOr | bitXor | bitAnd | shl | shr | or | and | eq | ne | gt | ge | lt | le =>
    simp only at typed
    split at typed
    · cases typed
      cases computed
      rfl
    · cases typed
  | assign => cases computed
  | _ => cases typed

end

theorem type_of_unary (typed : unaryType? opcode right.type = some type)
    (computed : opcode.eval left right = .ok value) : value.type = type := by
  unfold unaryType? at typed
  split at typed
  · rename_i isInt
    obtain ⟨number, rfl⟩ := Value.exists_int isInt
    cases typed
    cases computed
    rfl
  · rename_i isFloat
    obtain ⟨number, rfl⟩ := Value.exists_float isFloat
    cases typed
    cases computed
    rfl
  all_goals first
    | cases typed; cases computed; rfl
    | cases typed

theorem emitted_unary {operand : DataType} (typed : unaryType? opcode operand = some type) :
    emitted opcode type = opcode := by
  refine emitted_of_ne ?_
  rintro rfl
  cases typed

/-! ### Conversions -/

variable {target source : DataType}

theorem type_of_conversion? (none : conversion? target source = none)
    (typed : assign.resultType target source = .ok type) : source = target := by
  have assignable := resultType_binary (by decide) typed
  cases target <;> cases source <;> cases assignable <;> first | rfl | cases none

theorem isPure_of_conversion? (converts : conversion? target source = some opcode) :
    opcode.isPure = true := by
  unfold conversion? at converts
  split at converts <;> cases converts <;> rfl

theorem eval_of_conversion? (converts : conversion? target source = some opcode)
    (typed : right.type = source) :
    opcode.eval left right = .ok (right.coerce target) ∧ (right.coerce target).type = target := by
  unfold conversion? at converts
  split at converts
  · obtain ⟨number, rfl⟩ := Value.exists_float typed
    cases converts
    exact ⟨rfl, rfl⟩
  · obtain ⟨number, rfl⟩ := Value.exists_int typed
    cases converts
    exact ⟨rfl, rfl⟩
  · cases converts

/-! ### Operators that fail -/

theorem int_of_arithmeticType
    (typed : arithmeticType? first second = some .int) : first = .int ∧ second = .int := by
  unfold arithmeticType? at typed
  split at typed
  · exact ⟨rfl, rfl⟩
  all_goals cases typed

/-- An integer operation that a zero on the right makes fail, fails only for a zero. -/
theorem exists_error_iff_zero {cause : EvalError} {result : Value} (isInt : right.type = .int) :
    (∃ failure, (if right.toInt = 0 then .error cause else .ok result : Except EvalError Value) =
      .error failure) ↔ right = .int 0 := by
  obtain ⟨number, rfl⟩ := Value.exists_int isInt
  constructor
  · rintro ⟨failure, failed⟩
    split at failed
    · rename_i zero
      exact congrArg Value.int zero
    · cases failed
  · intro same
    rw [same]
    exact ⟨cause, if_pos rfl⟩

theorem exists_error_binary_iff (operator : opcode ≠ .assign)
    (typed : binaryType? opcode left.type right.type = some type) :
    (∃ cause, opcode.eval left right = .error cause) ↔
      (opcode = .div ∨ opcode = .mod) ∧ type = .int ∧ right = .int 0 := by
  cases opcode with
  | div =>
    rcases floating_of_type typed with ⟨rfl, floats⟩ | ⟨rfl, floats⟩
    · simp only [eval, floats, Bool.false_eq_true, if_false, true_or, true_and]
      exact exists_error_iff_zero (int_of_arithmeticType typed).2
    · simp [eval, floats]
  | mod =>
    rcases floating_of_type typed with ⟨rfl, floats⟩ | ⟨rfl, floats⟩
    · simp only [eval, modulo, floats, Bool.false_eq_true, if_false, or_true, true_and]
      exact exists_error_iff_zero (int_of_arithmeticType typed).2
    · simp [eval, modulo, floats]
  | assign => exact absurd rfl operator
  | _ => first | cases typed | simp [eval]

theorem exists_ok_unary (typed : unaryType? opcode right.type = some type) :
    ∃ value, opcode.eval left right = .ok value := by
  unfold unaryType? at typed
  split at typed
  all_goals first | exact ⟨_, rfl⟩ | cases typed

/-- An operator that is given a type, other than assignment, computes a value of that type, and so does
the instruction that stands for it: the same value. The one exception is the division or modulo of
integers by zero, which fails at run time. An operator of one operand is typed by the right one. -/
theorem emitted_computes_typed_value (operator : opcode ≠ .assign)
    (typed : opcode.resultType (if opcode.arity = 1 then right.type else left.type) right.type = .ok type) :
    (emitted opcode type).eval left right = opcode.eval left right ∧
    ((∃ value, (emitted opcode type).eval left right = .ok value ∧ value.type = type) ∨
      ∃ cause, (emitted opcode type).eval left right = .error cause ∧ cause.report.kind = .runtime) ∧
    ((∃ cause, (emitted opcode type).eval left right = .error cause) ↔
      (opcode = .div ∨ opcode = .mod) ∧ type = .int ∧ right = .int 0) := by
  by_cases unary : opcode.arity = 1
  · rw [if_pos unary] at typed
    have known := resultType_unary unary typed
    obtain ⟨value, computed⟩ := @exists_ok_unary opcode left right type known
    have whole : ¬ (opcode = .div ∨ opcode = .mod) := by
      rintro (rfl | rfl) <;> cases unary
    rw [emitted_unary known]
    refine ⟨rfl, .inl ⟨value, computed, type_of_unary known computed⟩, ?_⟩
    simp [computed, whole]
  · rw [if_neg unary] at typed
    have known := resultType_binary unary typed
    rw [eval_emitted known]
    refine ⟨rfl, ?_, exists_error_binary_iff operator known⟩
    cases computed : opcode.eval left right with
    | ok value => exact .inl ⟨value, rfl, type_of_binary known computed⟩
    | error cause => exact .inr ⟨cause, rfl, by cases cause <;> rfl⟩

/-- Seven modulo zero is typed as an integer and fails; modulo zero as a float it is a float. -/
theorem seven_modulo_zero :
    (∃ cause, (emitted .mod .int).eval (.int 7) (.int 0) = .error cause) ∧
      ¬ ∃ cause, (emitted .mod .float).eval (.int 7) (.float 0) = .error cause := by
  have whole := @emitted_computes_typed_value .mod (.int 7) (.int 0) .int (by decide) rfl
  have real := @emitted_computes_typed_value .mod (.int 7) (.float 0) .float (by decide) rfl
  refine ⟨whole.2.2.2 ⟨.inr rfl, rfl, rfl⟩, fun fails => ?_⟩
  cases (real.2.2.1 fails).2.1

end Opcode

end Quadruple
