import DesignTokens.Proofs.Number.Overflow

/-!
# Rounding to doubles

A number is rounded to a double of its own sign, which is finite exactly where
the number is smaller than the least size that is rounded beyond the largest
double.
-/

namespace DesignTokens.Number

open Float.Model Float.Model.UnpackedFloat

/-! ## Rounding -/

/-- What a size is rounded to. -/
inductive RoundsTo (sign : Sign) (size : ℚ) : UnpackedFloat → Prop
  | zero (tiny : size < 2 ^ (-1074 : Int)) : RoundsTo sign size (.zero sign)
  | finite {m : Nat} {e : Int} (positive : 0 < m) (nonzero : 0 < size)
      (short : m < 2 ^ 53) (least : -1074 ≤ e)
      (full : 2 ^ 52 ≤ m ∨ e = -1074)
      (large : 972 ≤ e ↔ (doubleLimit : ℚ) ≤ size) :
      RoundsTo sign size (.finite sign m e positive)

theorem le_exponent_iff {m : Nat} {e : Int} (positive : 0 < m)
    (short : m < 2 ^ 53) (full : 2 ^ 52 ≤ m ∨ e = -1074) :
    972 ≤ e ↔ (doubleLimit : ℚ) ≤ m * 2 ^ e := by
  constructor
  · intro large
    have bits : m.log2 = 52 :=
      (Nat.log2_eq_iff positive.ne').2 ⟨full.resolve_right (by omega), short⟩
    have bounds := size_bounds positive e
    exact (limit_lt_zpow (by omega)).le.trans bounds.1
  · contrapose!
    intro small
    have most : (m : ℚ) ≤ 2 ^ 53 - 1 := by
      have next : (m : ℚ) + 1 ≤ 2 ^ 53 := by exact_mod_cast short
      linarith
    calc (m : ℚ) * 2 ^ e
        ≤ (2 ^ 53 - 1) * 2 ^ (1 + 970 : Int) := by
          gcongr
          · norm_num
          · omega
      _ = (2 ^ 54 - 2) * 2 ^ (970 : Int) := by
          rw [zpow_add₀ two_ne_zero, ← mul_assoc]
          norm_num
      _ < (2 ^ 54 - 1) * 2 ^ (970 : Int) :=
          mul_lt_mul_of_pos_right (by norm_num) (zpow_pos two_pos _)
      _ = doubleLimit := cast_doubleLimit.symm

theorem roundsTo_self (sign : Sign) {m : Nat} {e : Int} (positive : 0 < m)
    (short : m < 2 ^ 53) (least : -1074 ≤ e)
    (full : 2 ^ 52 ≤ m ∨ e = -1074) :
    RoundsTo sign (m * 2 ^ e) (.finite sign m e positive) :=
  .finite positive (by positivity) short least full
    (le_exponent_iff positive short full)

theorem roundsTo_zero (sign : Sign) {size : ℚ} (zero : size = 0) :
    RoundsTo sign size (.zero sign) := by
  apply RoundsTo.zero
  rw [zero]
  positivity

private theorem mantissa_shift (m k : Nat) :
    ((ExtendedMantissa.mk m false false) >>> k).mantissa = m / 2 ^ k := by
  cases k with
  | zero => exact (Nat.div_one m).symm
  | succ k => rw [shift_succ]

private theorem roundedMantissa_bounds (extended : ExtendedMantissa) :
    extended.mantissa ≤ extended.roundedMantissa ∧
      extended.roundedMantissa ≤ extended.mantissa + 1 := by
  obtain ⟨mantissa, first, others⟩ := extended
  cases first <;> cases others <;>
    simp [ExtendedMantissa.roundedMantissa, ExtendedMantissa.accuracy,
      Accuracy.roundToNearestEven]
  omega

/-- A size that has the least exponent once it is rounded. -/
private theorem roundsTo_low (sign : Sign) {m k : Nat} (positive : 0 < m)
    (few : m < 2 ^ (k + 52)) :
    RoundsTo sign (m * 2 ^ (-1074 - k : Int))
      (roundWithAccuracy .binary64 sign m (-1074 - k) .exact) := by
  have bits : m.log2 < k + 52 := (Nat.log2_lt positive.ne').2 few
  have first : shiftToTargetExponent .binary64 m (-1074 - k) .exact = _ :=
    shiftToTarget_of_le (k := k) (by omega)
  have bounds := roundedMantissa_bounds
    ((ExtendedMantissa.mk m false false) >>> k)
  have short : m / 2 ^ k < 2 ^ 52 := by
    rw [Nat.div_lt_iff_lt_mul (Nat.pow_pos (by decide)), ← Nat.pow_add,
      Nat.add_comm]
    exact few
  rw [mantissa_shift] at bounds
  rw [roundWithAccuracy, first, Int.sub_add_cancel]
  dsimp only
  generalize ((ExtendedMantissa.mk m false false) >>>
    k).roundedMantissa = rounded at *
  -- A carry makes the mantissa full at most, so that nothing is shifted again.
  have size : rounded.log2 ≤ 52 := by
    rcases Nat.eq_zero_or_pos rounded with rfl | nonzero
    · simp
    · exact log2_of_short nonzero (by omega)
  have second : shiftToTargetExponent .binary64 rounded (-1074) .exact = _ :=
    shiftToTarget_of_le (k := 0) (by omega)
  have same : ((ExtendedMantissa.mk rounded false false) >>> 0).mantissa =
      rounded := rfl
  rw [second]
  simp only [same, Nat.cast_zero, add_zero]
  by_cases zero : rounded = 0
  · rw [dif_pos zero]
    apply RoundsTo.zero
    have lost : m < 2 ^ k := by
      rw [← Nat.div_eq_zero_iff_lt (Nat.pow_pos (by decide))]
      exact Nat.le_zero.1 (bounds.1.trans_eq zero)
    have lost : (m : ℚ) < 2 ^ (k : Int) := by exact_mod_cast lost
    calc (m : ℚ) * 2 ^ (-1074 - k : Int)
        < 2 ^ (k : Int) * 2 ^ (-1074 - k : Int) := by gcongr
      _ = 2 ^ (-1074 : Int) := by
          rw [← zpow_add₀ two_ne_zero]
          congr 1
          omega
  · rw [dif_neg zero]
    have small := (size_bounds positive (-1074 - k)).2.trans
      (zpow_lt_limit (by omega))
    exact .finite _ (by positivity) (by omega) le_rfl (.inr rfl)
      (iff_of_false (by decide) (not_le.2 small))

/-- A mantissa that is long enough, or fine enough, is rounded to a double. -/
theorem roundsTo_of_fine (sign : Sign) {m : Nat} {e : Int}
    (positive : 0 < m) (fine : 52 ≤ m.log2 ∨ e ≤ -1074) :
    RoundsTo sign (m * 2 ^ e)
      (roundWithAccuracy .binary64 sign m e .exact) := by
  -- Bits are lost below the least exponent, beyond the 53rd, or not at all.
  by_cases low : m.log2 + e < -1022
  · obtain ⟨k, rfl⟩ : ∃ k : Nat, e = -1074 - k :=
      ⟨(-1074 - e).toNat, by omega⟩
    apply roundsTo_low sign positive
    rw [← Nat.log2_lt positive.ne']
    omega
  · by_cases long : 53 ≤ m.log2
    · obtain ⟨mantissa, nonzero, full, short, rounded⟩ :=
        round_long sign long (e := e) (by omega)
      have least : -1074 ≤ roundedExponent m e := by
        rw [roundedExponent]
        split <;> omega
      rw [rounded]
      exact .finite nonzero (by positivity) short least (.inl full)
        (le_roundedExponent_iff long)
    · have short : m < 2 ^ 53 := (Nat.log2_lt positive.ne').1 (by omega)
      have full : 2 ^ 52 ≤ m ∨ e = -1074 := by
        rcases fine with full | least
        · exact .inl ((Nat.le_log2 positive.ne').1 full)
        · exact .inr (by omega)
      rw [round_kept sign positive short (by omega) full]
      exact roundsTo_self sign positive short (by omega) full

theorem size_shift (m k : Nat) (e : Int) :
    ((m <<< k : Nat) : ℚ) * 2 ^ (e - k) = m * 2 ^ e := by
  rw [Nat.shiftLeft_eq, Nat.cast_mul, Nat.cast_pow, Nat.cast_ofNat,
    ← zpow_natCast, mul_assoc, ← zpow_add₀ two_ne_zero, add_sub_cancel]

theorem roundsTo_round (sign : Sign) {m : Nat} (e : Int)
    (positive : 0 < m) :
    RoundsTo sign (m * 2 ^ e) (UnpackedFloat.round .binary64 sign m e) := by
  simp only [UnpackedFloat.round, targetExponent_binary64, decreaseExponent]
  generalize amount : (e - max (m.log2 + e - 52) (-1074)).toNat = k
  have shifted : 0 < m <<< k := by
    rw [Nat.shiftLeft_eq]
    positivity
  have bits : (m <<< k).log2 = m.log2 + k := by
    rw [Nat.shiftLeft_eq, log2_shift positive]
  rw [← size_shift m k e]
  exact roundsTo_of_fine sign shifted (by omega)

/-! ## Packing -/

/-- A finite double is taken apart into what it was packed from. -/
theorem unpack_pack_kept (sign : Sign) {m : Nat} {e : Int} (positive : 0 < m)
    (short : m < 2 ^ 53) (least : -1074 ≤ e)
    (full : 2 ^ 52 ≤ m ∨ e = -1074) (largest : e ≤ 971) :
    (Float.Model.pack (.finite sign m e positive)).unpack =
      .finite sign m e positive := by
  by_cases long : 2 ^ 52 ≤ m
  · exact unpack_pack_full sign positive long short least largest
  have same : e = -1074 := full.resolve_left long
  subst same
  have bias : Format.binary64.exponentBias = 1023 := by decide
  have width : Format.binary64.mantissaBits = 53 := by decide
  have bits : m.log2 < 52 := (Nat.log2_lt positive.ne').2 (by omega)
  have field : (BitVec.ofNat 52 m).toNat = m := by
    rw [BitVec.toNat_ofNat, Nat.mod_eq_of_lt (by omega)]
  have nonzero : BitVec.ofNat 52 m ≠ 0#52 :=
    ne_of_toNat (by rw [field]; exact positive.ne')
  have packed : UnpackedFloat.pack .binary64
      (.finite sign m (-1074) positive) =
        packComponents .binary64 sign 0#11 (BitVec.ofNat 52 m) := by
    simp only [UnpackedFloat.pack, width]
    rw [if_neg (by decide), if_neg (by omega)]
  rw [unpack_pack, packed, UnpackedFloat.unpack]
  simp only [unpackExponent_packComponents, unpackMantissa_packComponents,
    unpackSign_packComponents, Sign.ofBitVec_toBitVec, bias]
  rw [if_neg (by decide), if_pos trivial, dif_neg nonzero]
  congr 1

theorem unpack_pack_infinite (sign : Sign) {m : Nat} {e : Int}
    (positive : 0 < m) (large : 972 ≤ e) :
    (Float.Model.pack (.finite sign m e positive)).unpack =
      .infinity sign := by
  rw [unpack_pack, (exponent_pack_finite sign e positive).1 large]
  cases sign <;> rfl

/-! ## Signs -/

/-- The absolute value of a number. -/
def Binary.size (number : Binary) : ℚ :=
  number.significand * 2 ^ number.exponent

theorem abs_value (number : Binary) : |number.value| = number.size := by
  have nonnegative : 0 ≤ number.size := by
    rw [Binary.size]
    positivity
  change |if number.negative then -number.size else number.size| = _
  split
  · rw [abs_neg, abs_of_nonneg nonnegative]
  · exact abs_of_nonneg nonnegative

/-- No double is as large as the first power of two beyond them all. -/
theorem abs_lt_of_exact {x : Float} {q : ℚ}
    (exact : exactValue? x = some q) : |q| < 2 ^ 1024 := by
  obtain ⟨number, finite, rfl⟩ := exists_meaning exact
  have canonical := canonical_of_meaning finite
  have short : (number.significand : ℚ) < 2 ^ 53 := by
    exact_mod_cast canonical.short
  have low : (2 : ℚ) ^ number.exponent ≤ 2 ^ (971 : ℤ) :=
    zpow_le_zpow_right₀ one_le_two canonical.largest
  calc |number.value| = number.significand * 2 ^ number.exponent :=
        abs_value number
    _ < 2 ^ 53 * 2 ^ number.exponent := by gcongr
    _ ≤ 2 ^ 53 * 2 ^ (971 : ℤ) := by gcongr
    _ = 2 ^ 1024 := by rw [zpow_ofNat, ← pow_add]

/-- A sign that is the one of a number, unless that is zero. -/
def IsSignOf (sign : Sign) (q : ℚ) : Prop :=
  q ≠ 0 → isMinus sign = decide (q < 0)

theorem isSignOf_value (sign : Sign) (m : Nat) (e : Int) :
    IsSignOf sign (Binary.value ⟨isMinus sign, m, e⟩) := by
  intro nonzero
  have size : (0 : ℚ) ≤ m * 2 ^ e := by positivity
  cases sign
  · exact (decide_eq_true (lt_of_le_of_ne (neg_nonpos.2 size) nonzero)).symm
  · exact (decide_eq_false (not_lt.2 size)).symm

/-- A double that a number is rounded to. -/
structure Rounded (x : Float) (q : ℚ) : Prop where
  finite : |q| < doubleLimit → ∃ r, exactValue? x = some r ∧
    (0 ≤ q → 0 ≤ r) ∧ (q ≤ 0 → r ≤ 0) ∧ (2 ^ (-1074 : Int) ≤ |q| → r ≠ 0)
  infinite : doubleLimit ≤ |q| → meaning x = .infinite (decide (q < 0))

theorem rounded_of_roundsTo {x : Float} {unpacked : UnpackedFloat}
    {sign : Sign} {q : ℚ} (packed : x.toModel = Float.Model.pack unpacked)
    (signed : IsSignOf sign q) (rounds : RoundsTo sign |q| unpacked) :
    Rounded x q := by
  have parts := meaning_eq_meaningOf x
  rw [packed] at parts
  cases rounds with
  | zero tiny =>
      have small : |q| < doubleLimit := tiny.trans (zpow_lt_limit (by decide))
      have zero : (Float.Model.pack (.zero sign)).unpack = .zero sign := by
        cases sign <;> rfl
      have nothing : exactValue? x = some 0 := by
        rw [zero] at parts
        rw [exactValue?, parts]
        cases sign <;> simp [meaningOf, Binary.value]
      exact ⟨fun _ => ⟨0, nothing, fun _ => le_rfl, fun _ => le_rfl,
          fun least => absurd tiny (not_lt.2 least)⟩,
        fun large => absurd small (not_lt.2 large)⟩
  | @finite m e positive nonzero short least full large =>
      have nonzero : q ≠ 0 := abs_pos.1 nonzero
      constructor
      · intro within
        have largest : e ≤ 971 := by
          have := large.not.2 (not_le.2 within)
          omega
        have size : (0 : ℚ) < m * 2 ^ e := by positivity
        rw [unpack_pack_kept sign positive short least full largest] at parts
        refine ⟨Binary.value ⟨isMinus sign, m, e⟩, by rw [exactValue?, parts]; rfl,
          ?_⟩
        have same := signed nonzero
        rw [Binary.value, same]
        rcases nonzero.lt_or_gt with below | above
        · rw [decide_eq_true below]
          simp only [↓reduceIte]
          exact ⟨fun other => absurd below (not_lt.2 other),
            fun _ => (neg_lt_zero.2 size).le,
            fun _ => (neg_lt_zero.2 size).ne⟩
        · rw [decide_eq_false (not_lt.2 above.le)]
          exact ⟨fun _ => size.le, fun other => absurd above (not_lt.2 other),
            fun _ => size.ne'⟩
      · intro beyond
        rw [unpack_pack_infinite sign positive (large.2 beyond)] at parts
        rw [parts, ← signed nonzero]
        rfl

end DesignTokens.Number
