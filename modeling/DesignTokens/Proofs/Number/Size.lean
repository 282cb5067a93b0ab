import DesignTokens.Proofs.Number.Arithmetic

/-!
# Sizes

A size is given, or it is a product or a sum of doubles. Where its parts are
finite and only an increment is negative, it is a number, which is finite
unless an exact product or sum is beyond the doubles, and which is not negative
unless the increments take away more than there is.
-/

namespace DesignTokens

open DesignTokens.Number

/-- A size, as it is given or computed. -/
inductive Size where
  | given (size : Float)
  | product (base factor : Float)
  | sum (base increment factor : Float)

namespace Size

def value : Size → Float
  | given size => size
  | product base factor => base * factor
  | sum base increment factor => base + increment * factor

/-- Whether no exact result is beyond the doubles. -/
def Fits : Size → Prop
  | given _ => True
  | product base factor => InRange (exactProduct? base factor)
  | sum base increment factor =>
      InRange (exactProduct? increment factor) ∧
        InRange (exactSum? base (increment * factor))

/-- Whether increments take away more than there is. -/
def Falls : Size → Prop
  | given _ => False
  | product _ _ => False
  | sum base increment factor =>
      increment < 0 ∧ increment * factor < -base

/-- A size of finite parts, of which only increments may be negative. -/
def Sound : Size → Prop
  | given size => IsNonnegative size
  | product base factor => IsNonnegative base ∧ IsNonnegative factor
  | sum base increment factor =>
      IsNonnegative base ∧ increment.isFinite = true ∧ IsNonnegative factor

/-- A size that is a number, finite where it fits and negative where it
falls. -/
structure Measured (size : Size) : Prop where
  number : size.value.isNaN = false
  finite : size.value.isFinite = true ↔ size.Fits
  nonnegative : 0 ≤ size.value ↔ ¬ size.Falls

theorem measured_given {x : Float} (nonnegative : IsNonnegative x) :
    Measured (given x) := by
  obtain ⟨q, exact, above⟩ := nonnegative
  constructor
  · exact isNaN_of_exact exact
  · exact iff_of_true ((isFinite_iff_exact x).2 ⟨q, exact⟩) trivial
  · exact iff_of_true ((le_iff_exact exactValue?_zero exact).2 above) id

theorem measured_product {base factor : Float} (left : IsNonnegative base)
    (right : IsNonnegative factor) : Measured (product base factor) := by
  obtain ⟨p, leftExact, leftAbove⟩ := left
  obtain ⟨q, rightExact, rightAbove⟩ := right
  have rounded := rounded_product leftExact rightExact
  constructor
  · exact rounded.isNaN_eq_false
  · rw [Fits, exactProduct?_eq leftExact rightExact, inRange_some_iff]
    exact rounded.isFinite_iff
  · exact iff_of_true (rounded.nonneg (mul_nonneg leftAbove rightAbove)) id

/-- Where the increments together are a finite double, the sum is rounded
once more. -/
theorem measured_sum_of_finite {base increment factor : Float} {p r t : ℚ}
    (baseExact : exactValue? base = some p) (above : 0 ≤ p)
    (incrementExact : exactValue? increment = some r)
    (total : exactValue? (increment * factor) = some t)
    (signed : 0 ≤ r → 0 ≤ t)
    (fits : InRange (exactProduct? increment factor)) :
    Measured (sum base increment factor) := by
  have rounded := rounded_sum baseExact total
  constructor
  · exact rounded.isNaN_eq_false
  · rw [Fits, exactSum?_eq baseExact total, inRange_some_iff,
      and_iff_right fits]
    exact rounded.isFinite_iff
  · change 0 ≤ base + increment * factor ↔ ¬ (_ ∧ _)
    rw [sum_nonneg_iff baseExact total,
      lt_iff_exact incrementExact exactValue?_zero,
      lt_iff_exact total (exactValue?_neg baseExact)]
    -- Without a negative increment the product cannot be below the base.
    constructor
    · intro nonnegative falls
      linarith [falls.2]
    · intro holds
      by_contra negative
      rw [not_le] at negative
      refine holds ⟨?_, by linarith⟩
      by_contra upward
      linarith [signed (not_lt.1 upward)]

/-- Increments beyond the doubles are all that is left of the sum. -/
theorem measured_sum_of_infinite {base increment factor : Float} {p r q : ℚ}
    (baseExact : exactValue? base = some p)
    (incrementExact : exactValue? increment = some r)
    (factorExact : exactValue? factor = some q) (above : 0 ≤ q)
    (infinite : meaning (increment * factor) =
      .infinite (decide (r * q < 0)))
    (beyond : (doubleLimit : ℚ) ≤ |r * q|) :
    Measured (sum base increment factor) := by
  have baseFinite := (isFinite_iff_exact base).2 ⟨p, baseExact⟩
  have negatedFinite :=
    (isFinite_iff_exact (-base)).2 ⟨-p, exactValue?_neg baseExact⟩
  have total := meaning_add_infinite baseFinite infinite
  constructor
  · exact isNaN_of_infinite total
  · rw [value, isFinite_of_infinite total]
    refine iff_of_false nofun fun fits => ?_
    have within := fits.1
    rw [exactProduct?_eq incrementExact factorExact, inRange_some_iff]
      at within
    exact absurd within (not_lt.2 beyond)
  · change 0 ≤ base + increment * factor ↔ ¬ (_ ∧ _)
    rw [le_infinite_iff total isFinite_zero,
      infinite_lt_iff infinite negatedFinite,
      lt_iff_exact incrementExact exactValue?_zero, decide_eq_false_iff_not,
      decide_eq_true_eq]
    refine not_congr ⟨fun negative => ⟨?_, negative⟩, And.right⟩
    by_contra upward
    exact absurd negative (not_lt.2 (mul_nonneg (not_lt.1 upward) above))

theorem measured_sum {base increment factor : Float}
    (left : IsNonnegative base) (finite : increment.isFinite = true)
    (right : IsNonnegative factor) :
    Measured (sum base increment factor) := by
  obtain ⟨p, baseExact, baseAbove⟩ := left
  obtain ⟨r, incrementExact⟩ := (isFinite_iff_exact increment).1 finite
  obtain ⟨q, factorExact, factorAbove⟩ := right
  have rounded := rounded_product incrementExact factorExact
  rcases lt_or_ge |r * q| (doubleLimit : ℚ) with within | beyond
  · obtain ⟨t, total, signed, _⟩ := rounded.finite within
    apply measured_sum_of_finite baseExact baseAbove incrementExact total
    · exact fun upward => signed (mul_nonneg upward factorAbove)
    · rw [exactProduct?_eq incrementExact factorExact, inRange_some_iff]
      exact within
  · exact measured_sum_of_infinite baseExact incrementExact factorExact
      factorAbove (rounded.infinite beyond) beyond

theorem Sound.measured {size : Size} (sound : size.Sound) :
    size.Measured := by
  cases size with
  | given size => exact measured_given sound
  | product base factor => exact measured_product sound.1 sound.2
  | sum base increment factor =>
      exact measured_sum sound.1 sound.2.1 sound.2.2

end Size

end DesignTokens
