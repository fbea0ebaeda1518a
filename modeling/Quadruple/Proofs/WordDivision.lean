import Mathlib.Data.Int.ModEq
import Quadruple.Operator.Evaluation

/-!
Division of words. The quotient is rounded toward zero, and the remainder is less than the divisor and
on the side of the dividend. Only one quotient is no word, that of the least word by minus one; there
too the two make up the dividend in the arithmetic of words.
-/

namespace Quadruple.Opcode

variable {dividend divisor : Int64}

/-- What a quotient and a remainder are to the words that are divided. -/
structure Divided (dividend divisor quotient remainder : Int64) : Prop where
  whole : quotient.toInt * divisor.toInt + remainder.toInt ≡ dividend.toInt [ZMOD 2 ^ 64]
  less : remainder.toInt.natAbs < divisor.toInt.natAbs
  side : remainder = 0 ∨ remainder.toInt.sign = dividend.toInt.sign
  truncated : ¬ (dividend = Int64.minValue ∧ divisor = -1) →
    quotient.toInt = dividend.toInt.tdiv divisor.toInt
  wrapped : dividend = Int64.minValue ∧ divisor = -1 → quotient = Int64.minValue ∧ remainder = 0

theorem toInt_ne_zero (nonzero : divisor ≠ 0) : divisor.toInt ≠ 0 :=
  fun same => nonzero (Int64.toInt_inj.1 (same.trans Int64.toInt_zero.symm))

theorem div_mul_add_mod_modEq (dividend divisor : Int64) :
    (dividend / divisor).toInt * divisor.toInt + (dividend % divisor).toInt ≡ dividend.toInt
      [ZMOD 2 ^ 64] := by
  have wraps : (dividend / divisor).toInt ≡ dividend.toInt.tdiv divisor.toInt [ZMOD 2 ^ 64] := by
    rw [Int64.toInt_div]
    exact Int.bmod_emod
  calc (dividend / divisor).toInt * divisor.toInt + (dividend % divisor).toInt
    _ ≡ dividend.toInt.tdiv divisor.toInt * divisor.toInt + (dividend % divisor).toInt
        [ZMOD 2 ^ 64] := (wraps.mul_right _).add_right _
    _ = dividend.toInt := by rw [Int64.toInt_mod, Int.tdiv_mul_add_tmod]

theorem divided (nonzero : divisor ≠ 0) :
    Divided dividend divisor (dividend / divisor) (dividend % divisor) := by
  refine ⟨div_mul_add_mod_modEq dividend divisor, ?_, ?_, fun fits => ?_, ?_⟩
  · rw [Int64.toInt_mod, Int.natAbs_tmod]
    exact Nat.mod_lt _ (Int.natAbs_pos.2 (toInt_ne_zero nonzero))
  · rw [Int64.toInt_mod, Int.sign_tmod, ← Int64.toInt_inj, Int64.toInt_mod, Int64.toInt_zero]
    by_cases divides : divisor.toInt ∣ dividend.toInt
    · exact .inl (Int.tmod_eq_zero_of_dvd divides)
    · exact .inr (if_neg divides)
  · rcases not_and_or.1 fits with notLeast | notMinusOne
    · exact Int64.toInt_div_of_ne_left dividend divisor notLeast
    · exact Int64.toInt_div_of_ne_right dividend divisor notMinusOne
  · rintro ⟨rfl, rfl⟩
    decide

theorem runtime_of_error (cause : EvalError) : cause.report.kind = .runtime := by
  cases cause <;> rfl

/-- Integer division and modulo fail exactly for a zero divisor, and otherwise divide the words. -/
theorem integers_divided (dividend divisor : Int64) :
    (∀ opcode ∈ [intDiv, mod], (∃ cause, opcode.eval (.int dividend) (.int divisor) = .error cause ∧
      cause.report.kind = .runtime) ↔ divisor = 0) ∧
    (divisor ≠ 0 → ∃ quotient remainder,
      intDiv.eval (.int dividend) (.int divisor) = .ok (.int quotient) ∧
        mod.eval (.int dividend) (.int divisor) = .ok (.int remainder) ∧
          Divided dividend divisor quotient remainder) := by
  have quotient : intDiv.eval (.int dividend) (.int divisor) =
      if divisor = 0 then .error .divisionByZero else .ok (.int (dividend / divisor)) := rfl
  have remainder : mod.eval (.int dividend) (.int divisor) =
      if divisor = 0 then .error .moduloByZero else .ok (.int (dividend % divisor)) := rfl
  by_cases zero : divisor = 0
  · rw [if_pos zero] at quotient remainder
    simp only [List.forall_mem_cons, quotient, remainder]
    simp [zero, runtime_of_error]
  · rw [if_neg zero] at quotient remainder
    refine ⟨?_, fun _ => ⟨_, _, quotient, remainder, divided zero⟩⟩
    simp [quotient, remainder, zero]

end Quadruple.Opcode
