import DesignTokens.Proofs.Number.Overflow

/-!
# Exact values of numerals

A numeral that is finite has a rational value, and every test of a numeral is
one of its value. Whole numbers beyond the doubles count as infinite.
-/

namespace DesignTokens.Number.Numeral

/-- The value of a finite numeral within the range of doubles. -/
def value? : Numeral → Option ℚ
  | .whole n => if n.natAbs < doubleLimit then some n else none
  | .real x => exactValue? x

theorem isFinite_iff (number : Numeral) :
    number.isFinite = true ↔ ∃ q, number.value? = some q := by
  cases number with
  | whole n =>
      have fits := floatOfInt?_isSome_iff n
      rw [isFinite, toFloat?, value?]
      cases nearest : floatOfInt? n with
      | none =>
          rw [nearest] at fits
          simp [← fits]
      | some x =>
          rw [nearest] at fits
          simp [← fits, isFinite_of_floatOfInt? nearest]
  | real x => exact isFinite_iff_exact x

theorem toFloat_whole_eq_ok {n : Int} {x : Float} :
    (whole n).toFloat = .ok x ↔ floatOfInt? n = some x := by
  rw [toFloat, toFloat?]
  cases floatOfInt? n <;> simp

theorem isIntegral_iff (number : Numeral) :
    number.isIntegral = true ↔ ∃ n : Int, number.value? = some (n : ℚ) := by
  cases number with
  | whole n =>
      rw [isIntegral, floatOfInt?_isSome_iff, value?]
      by_cases fits : n.natAbs < doubleLimit <;> simp [fits]
  | real x =>
      rw [isIntegral, Option.isSome_iff_exists]
      simp only [wholeValue?_eq_some_iff, value?]

section Tests

variable {number : Numeral} {q : ℚ}

private theorem whole_of_value {n : Int}
    (exact : (Numeral.whole n).value? = some q) : q = n := by
  rw [value?] at exact
  split at exact
  · exact (Option.some.inj exact).symm
  · cases exact

theorem atMostZero_iff (exact : number.value? = some q) :
    number.atMostZero = true ↔ q ≤ 0 := by
  cases number with
  | whole n => simp [atMostZero, whole_of_value exact]
  | real x =>
      rw [atMostZero, decide_eq_true_eq, le_iff_exact exact exactValue?_zero]

theorem belowZero_iff (exact : number.value? = some q) :
    number.belowZero = true ↔ q < 0 := by
  cases number with
  | whole n => simp [belowZero, whole_of_value exact]
  | real x =>
      rw [belowZero, decide_eq_true_eq, lt_iff_exact exact exactValue?_zero]

theorem belowOne_iff (exact : number.value? = some q) :
    number.belowOne = true ↔ q < 1 := by
  cases number with
  | whole n =>
      rw [belowOne, decide_eq_true_eq, whole_of_value exact]
      exact_mod_cast Iff.rfl
  | real x =>
      rw [belowOne, decide_eq_true_eq, lt_iff_exact exact exactValue?_one]

theorem aboveOne_iff (exact : number.value? = some q) :
    number.aboveOne = true ↔ 1 < q := by
  cases number with
  | whole n =>
      rw [aboveOne, decide_eq_true_eq, whole_of_value exact]
      exact_mod_cast Iff.rfl
  | real x =>
      rw [aboveOne, decide_eq_true_eq, lt_iff_exact exactValue?_one exact]

end Tests

end DesignTokens.Number.Numeral
