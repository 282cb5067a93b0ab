import DesignTokens.Proofs.Number.Rounding

/-!
# Products and sums of doubles

A product or a sum of finite doubles is the exact one, rounded. An infinite
double stays what it is when a finite one is added, and is beyond every finite
one.
-/

namespace DesignTokens.Number

open Float.Model Float.Model.UnpackedFloat

/-! ## Products -/

private theorem value_zero (sign : Sign) :
    Binary.value ⟨isMinus sign, 0, -1074⟩ = 0 := by
  cases sign <;> simp [Binary.value]

private theorem value_product (s t : Sign) (m n : Nat) (e f : Int) :
    Binary.value ⟨isMinus s, m, e⟩ * Binary.value ⟨isMinus t, n, f⟩ =
      Binary.value ⟨isMinus (s * t), m * n, e + f⟩ := by
  have size : ((m * n : Nat) : ℚ) * 2 ^ (e + f) = m * 2 ^ e * (n * 2 ^ f) := by
    rw [zpow_add₀ two_ne_zero, Nat.cast_mul]
    ring
  simp only [Binary.value, size]
  cases s <;> cases t
  · exact neg_mul_neg _ _
  · exact neg_mul _ _
  · exact mul_neg _ _
  · rfl

/-- Of two stored mantissas one is full, or both are fine. -/
private theorem fine_product {a b : Binary} (left : a.Canonical)
    (right : b.Canonical) (leftPositive : 0 < a.significand)
    (rightPositive : 0 < b.significand) :
    52 ≤ (a.significand * b.significand).log2 ∨
      a.exponent + b.exponent ≤ -1074 := by
  have nonzero : a.significand * b.significand ≠ 0 := by positivity
  rw [Nat.le_log2 nonzero]
  rcases left.full with full | least
  · exact .inl (full.trans (Nat.le_mul_of_pos_right _ rightPositive))
  · rcases right.full with full | rightLeast
    · exact .inl (full.trans (Nat.le_mul_of_pos_left _ leftPositive))
    · exact .inr (by omega)

private theorem roundsTo_product {u v : UnpackedFloat} {a b : Binary}
    (left : meaningOf u = .finite a) (right : meaningOf v = .finite b)
    (leftForm : a.Canonical) (rightForm : b.Canonical) :
    ∃ sign, IsSignOf sign (a.value * b.value) ∧
      RoundsTo sign |a.value * b.value| (u.mul .binary64 v) := by
  have nothing (sign : Sign) : IsSignOf sign 0 ∧
      RoundsTo sign |0| (.zero sign) :=
    ⟨fun nonzero => absurd rfl nonzero, roundsTo_zero sign abs_zero⟩
  cases u with
  | notANumber => cases left
  | infinity => cases left
  | zero s =>
      cases left
      rw [value_zero, zero_mul]
      cases v with
      | notANumber => cases right
      | infinity => cases right
      | zero t => exact ⟨s * t, nothing _⟩
      | finite t n f positive => exact ⟨s * t, nothing _⟩
  | finite s m e positive =>
      cases left
      cases v with
      | notANumber => cases right
      | infinity => cases right
      | zero t =>
          cases right
          rw [value_zero, mul_zero]
          exact ⟨s * t, nothing _⟩
      | finite t n f rightPositive =>
          cases right
          rw [value_product]
          refine ⟨s * t, isSignOf_value _ _ _, ?_⟩
          rw [abs_value]
          exact roundsTo_of_fine _ (Nat.mul_pos positive rightPositive)
            (fine_product leftForm rightForm positive rightPositive)

/-- A product is the exact one, rounded. -/
theorem rounded_product {x y : Float} {p q : ℚ}
    (left : exactValue? x = some p) (right : exactValue? y = some q) :
    Rounded (x * y) (p * q) := by
  obtain ⟨a, leftMeaning, rfl⟩ := exists_meaning left
  obtain ⟨b, rightMeaning, rfl⟩ := exists_meaning right
  obtain ⟨sign, signed, rounds⟩ := roundsTo_product
    (meaning_eq_meaningOf x ▸ leftMeaning)
    (meaning_eq_meaningOf y ▸ rightMeaning)
    (canonical_of_meaning leftMeaning) (canonical_of_meaning rightMeaning)
  exact rounded_of_roundsTo rfl signed rounds

/-! ## Sums -/

/-- Every finite double is a multiple of the least one. -/
theorem exists_multiple {x : Float} {q : ℚ} (exact : exactValue? x = some q) :
    ∃ n : Int, q = n * 2 ^ (-1074 : Int) := by
  obtain ⟨number, finite, rfl⟩ := exists_meaning exact
  obtain ⟨k, same⟩ : ∃ k : Nat, number.exponent = k + -1074 :=
    ⟨(number.exponent + 1074).toNat, by
      have := (canonical_of_meaning finite).least
      omega⟩
  have size : (number.significand : ℚ) * 2 ^ number.exponent =
      ((number.significand * 2 ^ k : Nat) : Int) * 2 ^ (-1074 : Int) := by
    rw [same, zpow_add₀ two_ne_zero, zpow_natCast, ← mul_assoc,
      Int.cast_natCast, Nat.cast_mul, Nat.cast_pow, Nat.cast_ofNat]
  rw [Binary.value]
  simp only [size]
  cases number.negative
  · exact ⟨_, rfl⟩
  · refine ⟨-((number.significand * 2 ^ k : Nat) : Int), ?_⟩
    rw [if_pos rfl, Int.cast_neg, neg_mul]

private theorem value_decreased (sign : Sign) (m : Nat) {e lower : Int}
    (below : lower ≤ e) :
    ((sign.apply (decreaseExponent m e lower).1 : Int) : ℚ) * 2 ^ lower =
      Binary.value ⟨isMinus sign, m, e⟩ := by
  have size : ((decreaseExponent m e lower).1 : ℚ) * 2 ^ lower =
      m * 2 ^ e := by
    rw [← size_shift m (e - lower).toNat e, Int.toNat_of_nonneg (by omega),
      sub_sub_cancel]
    rfl
  cases sign
  · rw [Sign.apply, Int.cast_neg, Int.cast_natCast, neg_mul, size]
    rfl
  · rw [Sign.apply, Int.cast_natCast, size]
    rfl

private theorem roundsTo_value (sign : Sign) {m : Nat} {e : Int}
    (positive : 0 < m) (form : Binary.Canonical ⟨isMinus sign, m, e⟩) :
    RoundsTo sign |Binary.value ⟨isMinus sign, m, e⟩|
      (.finite sign m e positive) := by
  rw [abs_value]
  exact roundsTo_self sign positive form.short form.least form.full

private theorem roundsTo_normalize (m e : Int) :
    ∃ sign, IsSignOf sign (m * 2 ^ e) ∧
      RoundsTo sign |(m : ℚ) * 2 ^ e|
        (UnpackedFloat.normalize .binary64 m e .positive) := by
  have unit : (0 : ℚ) < 2 ^ e := by positivity
  rw [UnpackedFloat.normalize]
  rcases lt_trichotomy m 0 with negative | rfl | positive
  · have below : (m : ℚ) * 2 ^ e < 0 :=
      mul_neg_of_neg_of_pos (by exact_mod_cast negative) unit
    have size : |(m : ℚ) * 2 ^ e| = ((-m).toNat : ℚ) * 2 ^ e := by
      have whole : ((-m).toNat : Int) = -m := Int.toNat_of_nonneg (by omega)
      rw [abs_of_neg below, ← neg_mul, ← Int.cast_neg,
        ← Int.cast_natCast (-m).toNat, whole]
    rw [compare_lt_iff_lt.2 negative, size]
    exact ⟨.negative, fun _ => (decide_eq_true below).symm,
      roundsTo_round .negative e (by omega)⟩
  · rw [compare_eq_iff_eq.2 rfl]
    exact ⟨.positive, fun nonzero => absurd (by simp) nonzero,
      roundsTo_zero _ (by simp)⟩
  · have above : (0 : ℚ) < m * 2 ^ e :=
      mul_pos (by exact_mod_cast positive) unit
    have size : |(m : ℚ) * 2 ^ e| = (m.toNat : ℚ) * 2 ^ e := by
      have whole : (m.toNat : Int) = m := Int.toNat_of_nonneg positive.le
      rw [abs_of_pos above, ← Int.cast_natCast, whole]
    rw [compare_gt_iff_gt.2 positive, size]
    exact ⟨.positive, fun _ => (decide_eq_false above.le.not_gt).symm,
      roundsTo_round .positive e (by omega)⟩

private theorem roundsTo_sum {u v : UnpackedFloat} {a b : Binary}
    (left : meaningOf u = .finite a) (right : meaningOf v = .finite b)
    (leftForm : a.Canonical) (rightForm : b.Canonical) :
    ∃ sign, IsSignOf sign (a.value + b.value) ∧
      RoundsTo sign |a.value + b.value| (u.add .binary64 v) := by
  cases u with
  | notANumber => cases left
  | infinity => cases left
  | zero s =>
      cases left
      cases v with
      | notANumber => cases right
      | infinity => cases right
      | zero t =>
          cases right
          rw [value_zero, value_zero, add_zero, abs_zero, UnpackedFloat.add]
          split
          · exact ⟨s, fun nonzero => absurd rfl nonzero, roundsTo_zero _ rfl⟩
          · exact ⟨_, fun nonzero => absurd rfl nonzero, roundsTo_zero _ rfl⟩
      | finite t n f positive =>
          cases right
          rw [value_zero, zero_add]
          exact ⟨t, isSignOf_value t n f,
            roundsTo_value t positive rightForm⟩
  | finite s m e positive =>
      cases left
      cases v with
      | notANumber => cases right
      | infinity => cases right
      | zero t =>
          cases right
          rw [value_zero, add_zero]
          exact ⟨s, isSignOf_value s m e,
            roundsTo_value s positive leftForm⟩
      | finite t n f rightPositive =>
          cases right
          rw [← value_decreased s m (min_le_left e f),
            ← value_decreased t n (min_le_right e f), ← add_mul,
            ← Int.cast_add]
          exact roundsTo_normalize _ _

/-- A sum is the exact one, rounded. -/
theorem rounded_sum {x y : Float} {p q : ℚ} (left : exactValue? x = some p)
    (right : exactValue? y = some q) : Rounded (x + y) (p + q) := by
  obtain ⟨a, leftMeaning, rfl⟩ := exists_meaning left
  obtain ⟨b, rightMeaning, rfl⟩ := exists_meaning right
  obtain ⟨sign, signed, rounds⟩ := roundsTo_sum
    (meaning_eq_meaningOf x ▸ leftMeaning)
    (meaning_eq_meaningOf y ▸ rightMeaning)
    (canonical_of_meaning leftMeaning) (canonical_of_meaning rightMeaning)
  exact rounded_of_roundsTo rfl signed rounds

/-! ## Infinite doubles -/

theorem isNaN_iff_meaning (x : Float) :
    x.isNaN = true ↔ meaning x = .notANumber := by
  change x.toModel.unpack.isNaN = true ↔ _
  rw [meaning_eq_meaningOf]
  cases x.toModel.unpack <;> simp [UnpackedFloat.isNaN, meaningOf]

private theorem unpack_of_finite {x : Float} (finite : x.isFinite = true) :
    (∃ sign, x.toModel.unpack = .zero sign) ∨
      ∃ sign m e positive,
        x.toModel.unpack = .finite sign m e positive := by
  change x.toModel.unpack.isFinite = true at finite
  cases parts : x.toModel.unpack with
  | notANumber => rw [parts] at finite; cases finite
  | infinity => rw [parts] at finite; cases finite
  | zero sign => exact .inl ⟨sign, rfl⟩
  | finite sign m e positive => exact .inr ⟨sign, m, e, positive, rfl⟩

private theorem unpack_of_infinite {x : Float} {negative : Bool}
    (infinite : meaning x = .infinite negative) :
    ∃ sign, isMinus sign = negative ∧ x.toModel.unpack = .infinity sign := by
  rw [meaning_eq_meaningOf] at infinite
  cases parts : x.toModel.unpack with
  | infinity sign =>
      rw [parts] at infinite
      exact ⟨sign, Meaning.infinite.inj infinite, rfl⟩
  | _ => rw [parts] at infinite; cases infinite

/-- Only the negative infinite double is smaller than a finite one. -/
theorem infinite_lt_iff {x y : Float} {negative : Bool}
    (infinite : meaning x = .infinite negative)
    (finite : y.isFinite = true) : x < y ↔ negative = true := by
  obtain ⟨sign, rfl, parts⟩ := unpack_of_infinite infinite
  change decide (UnpackedFloat.lt x.toModel.unpack y.toModel.unpack = true)
    = true ↔ _
  rw [UnpackedFloat.lt, parts]
  rcases unpack_of_finite finite with ⟨t, form⟩ | ⟨t, m, e, positive, form⟩
  · cases sign <;> simp [form, UnpackedFloat.compare, isMinus]
  · cases sign <;> simp [form, UnpackedFloat.compare, isMinus]

/-- Only the negative infinite double is not greater than a finite one. -/
theorem le_infinite_iff {x y : Float} {negative : Bool}
    (infinite : meaning x = .infinite negative)
    (finite : y.isFinite = true) : y ≤ x ↔ negative = false := by
  obtain ⟨sign, rfl, parts⟩ := unpack_of_infinite infinite
  change decide (UnpackedFloat.le y.toModel.unpack x.toModel.unpack = true)
    = true ↔ _
  rw [UnpackedFloat.le, parts]
  rcases unpack_of_finite finite with ⟨t, form⟩ | ⟨t, m, e, positive, form⟩
  · cases sign <;>
      simp [form, UnpackedFloat.compare, isMinus, Ordering.isLE]
  · cases sign <;>
      simp [form, UnpackedFloat.compare, isMinus, Ordering.isLE]

/-- An infinite double stays what it is when a finite one is added. -/
theorem meaning_add_infinite {x y : Float} {negative : Bool}
    (finite : x.isFinite = true) (infinite : meaning y = .infinite negative) :
    meaning (x + y) = .infinite negative := by
  obtain ⟨sign, rfl, parts⟩ := unpack_of_infinite infinite
  have packed : (Float.Model.pack (.infinity sign)).unpack =
      .infinity sign := by
    cases sign <;> rfl
  rw [meaning_eq_meaningOf]
  change meaningOf (Float.Model.pack
    (x.toModel.unpack.add .binary64 y.toModel.unpack)).unpack = _
  rw [parts]
  rcases unpack_of_finite finite with ⟨t, form⟩ | ⟨t, m, e, positive, form⟩
  · rw [form]
    exact congrArg meaningOf packed
  · rw [form]
    exact congrArg meaningOf packed

theorem exactValue?_neg {x : Float} {q : ℚ} (exact : exactValue? x = some q) :
    exactValue? (-x) = some (-q) := by
  obtain ⟨number, finite, rfl⟩ := exists_meaning exact
  have form := canonical_of_meaning finite
  rw [meaning_eq_meaningOf] at finite
  have negated : meaning (-x) = meaningOf
      (Float.Model.pack x.toModel.unpack.neg).unpack :=
    meaning_eq_meaningOf (-x)
  rcases unpack_of_finite ((isFinite_iff_exact x).2 ⟨_, exact⟩) with
    ⟨sign, parts⟩ | ⟨sign, m, e, positive, parts⟩
  · rw [parts] at finite negated
    cases finite
    rw [exactValue?, negated]
    cases sign <;> decide +kernel
  · rw [parts] at finite negated
    cases finite
    rw [UnpackedFloat.neg, unpack_pack_kept (-sign) positive form.short
      form.least form.full form.largest] at negated
    rw [exactValue?, negated]
    cases sign
    · exact congrArg some (neg_neg _).symm
    · rfl

/-! ## Rounded results -/

section Rounded

variable {x : Float} {q : ℚ}

theorem isFinite_of_infinite {negative : Bool}
    (infinite : meaning x = .infinite negative) : x.isFinite = false := by
  rw [← Bool.not_eq_true, isFinite_iff_exact, exactValue?, infinite]
  simp

theorem isNaN_of_exact (exact : exactValue? x = some q) :
    x.isNaN = false := by
  obtain ⟨number, finite, _⟩ := exists_meaning exact
  rw [← Bool.not_eq_true, isNaN_iff_meaning, finite]
  exact nofun

theorem isNaN_of_infinite {negative : Bool}
    (infinite : meaning x = .infinite negative) : x.isNaN = false := by
  rw [← Bool.not_eq_true, isNaN_iff_meaning, infinite]
  exact nofun

theorem Rounded.isNaN_eq_false (rounded : Rounded x q) :
    x.isNaN = false := by
  rcases lt_or_ge |q| (doubleLimit : ℚ) with within | beyond
  · obtain ⟨r, exact, _⟩ := rounded.finite within
    exact isNaN_of_exact exact
  · exact isNaN_of_infinite (rounded.infinite beyond)

theorem Rounded.isFinite_iff (rounded : Rounded x q) :
    x.isFinite = true ↔ |q| < doubleLimit := by
  rcases lt_or_ge |q| (doubleLimit : ℚ) with within | beyond
  · obtain ⟨r, exact, _⟩ := rounded.finite within
    exact iff_of_true ((isFinite_iff_exact x).2 ⟨r, exact⟩) within
  · rw [isFinite_of_infinite (rounded.infinite beyond)]
    exact iff_of_false nofun (not_lt.2 beyond)

theorem isFinite_zero : (0 : Float).isFinite = true :=
  (isFinite_iff_exact 0).2 ⟨0, exactValue?_zero⟩

/-- What is not negative is not rounded to a negative double. -/
theorem Rounded.nonneg (rounded : Rounded x q) (nonnegative : 0 ≤ q) :
    0 ≤ x := by
  rcases lt_or_ge |q| (doubleLimit : ℚ) with within | beyond
  · obtain ⟨r, exact, above, _⟩ := rounded.finite within
    exact (le_iff_exact exactValue?_zero exact).2 (above nonnegative)
  · apply (le_infinite_iff (rounded.infinite beyond) isFinite_zero).2
    exact decide_eq_false (not_lt.2 nonnegative)

/-- What is negative, but not tiny, is rounded to a negative double. -/
theorem Rounded.nonneg_iff (rounded : Rounded x q)
    (large : q ≠ 0 → 2 ^ (-1074 : Int) ≤ |q|) : 0 ≤ x ↔ 0 ≤ q := by
  refine ⟨fun nonnegative => ?_, rounded.nonneg⟩
  by_contra negative
  rw [not_le] at negative
  rcases lt_or_ge |q| (doubleLimit : ℚ) with within | beyond
  · obtain ⟨r, exact, _, below, nonzero⟩ := rounded.finite within
    rw [le_iff_exact exactValue?_zero exact] at nonnegative
    exact nonzero (large negative.ne) (le_antisymm (below negative.le)
      nonnegative)
  · rw [le_infinite_iff (rounded.infinite beyond) isFinite_zero]
      at nonnegative
    exact absurd negative (of_decide_eq_false nonnegative)

end Rounded

/-- A sum of doubles has the sign of the exact one. -/
theorem sum_nonneg_iff {x y : Float} {p q : ℚ}
    (left : exactValue? x = some p) (right : exactValue? y = some q) :
    0 ≤ x + y ↔ 0 ≤ p + q := by
  apply (rounded_sum left right).nonneg_iff
  obtain ⟨m, rfl⟩ := exists_multiple left
  obtain ⟨n, rfl⟩ := exists_multiple right
  have unit : (0 : ℚ) < 2 ^ (-1074 : Int) := by positivity
  rw [← add_mul, ← Int.cast_add]
  intro nonzero
  have whole : m + n ≠ 0 := by
    intro zero
    simp [zero] at nonzero
  have one : (1 : ℚ) ≤ |((m + n : Int) : ℚ)| := by
    exact_mod_cast Int.one_le_abs whole
  rw [abs_mul, abs_of_pos unit]
  exact le_mul_of_one_le_left unit.le one

/-! ## Ranges -/

/-- A finite double that is not negative. -/
def IsNonnegative (x : Float) : Prop :=
  ∃ q, exactValue? x = some q ∧ 0 ≤ q

/-- The exact product of two doubles that are finite. -/
def exactProduct? (x y : Float) : Option ℚ := do
  let left ← exactValue? x
  let right ← exactValue? y
  return left * right

/-- The exact sum of two doubles that are finite. -/
def exactSum? (x y : Float) : Option ℚ := do
  let left ← exactValue? x
  let right ← exactValue? y
  return left + right

/-- A number that is rounded to a finite double. -/
def InRange (exact : Option ℚ) : Prop :=
  ∃ q, exact = some q ∧ |q| < doubleLimit

theorem inRange_some_iff (q : ℚ) :
    InRange (some q) ↔ |q| < doubleLimit := by
  constructor
  · rintro ⟨_, same, fits⟩
    cases same
    exact fits
  · exact fun fits => ⟨q, rfl, fits⟩

theorem exactProduct?_eq {x y : Float} {p q : ℚ}
    (left : exactValue? x = some p) (right : exactValue? y = some q) :
    exactProduct? x y = some (p * q) := by
  simp [exactProduct?, left, right]

theorem exactSum?_eq {x y : Float} {p q : ℚ}
    (left : exactValue? x = some p) (right : exactValue? y = some q) :
    exactSum? x y = some (p + q) := by
  simp [exactSum?, left, right]

end DesignTokens.Number
