import DesignTokens.Proofs.Number.Exact

/-!
# Whole numbers beyond the doubles

A whole number has a nearest double exactly where it is smaller than the
number halfway between the largest double and the next power of two.
-/

namespace DesignTokens.Number

open Float.Model Float.Model.UnpackedFloat

/-! ## Rounding -/

theorem shift_succ (m k : Nat) :
    (ExtendedMantissa.mk m false false) >>> (k + 1) =
      ⟨m / 2 ^ (k + 1), m / 2 ^ k % 2 != 0, m % 2 ^ k != 0⟩ := by
  induction k with
  | zero =>
      change ExtendedMantissa.shiftRightOne ⟨m, false, false⟩ = _
      simp [ExtendedMantissa.shiftRightOne, Nat.mod_one]
  | succ k inductionHypothesis =>
      change ExtendedMantissa.shiftRightOne
        ((ExtendedMantissa.mk m false false) >>> (k + 1)) = _
      rw [inductionHypothesis]
      have residue : m % 2 ^ (k + 1) =
          m % 2 ^ k + 2 ^ k * (m / 2 ^ k % 2) := Nat.mod_pow_succ
      have power : 0 < 2 ^ k := Nat.pow_pos (by decide)
      simp only [ExtendedMantissa.shiftRightOne, Nat.div_div_eq_div_mul,
        ← Nat.pow_succ, residue]
      congr 1
      by_cases bit : m / 2 ^ k % 2 = 0
      · simp [bit]
      · have one : m / 2 ^ k % 2 = 1 := by omega
        simp [one]

/-- A mantissa that loses at least one bit carries into a further bit exactly
where all of its kept bits and the first lost one are set. -/
private theorem rounded_shift {m k : Nat} (short : m / 2 ^ (k + 1) < 2 ^ 53)
    (full : 2 ^ 52 ≤ m / 2 ^ (k + 1)) :
    let rounded :=
      ((ExtendedMantissa.mk m false false) >>> (k + 1)).roundedMantissa
    2 ^ 52 ≤ rounded ∧ rounded ≤ 2 ^ 53 ∧
      (rounded = 2 ^ 53 ↔ 2 ^ 54 - 1 ≤ m / 2 ^ k) := by
  rw [shift_succ]
  have halves : m / 2 ^ (k + 1) = m / 2 ^ k / 2 := by
    rw [Nat.pow_succ, Nat.div_div_eq_div_mul]
  rw [halves] at short full ⊢
  generalize m / 2 ^ k = kept at *
  cases lost : kept % 2 != 0 <;> cases sticky : m % 2 ^ k != 0 <;>
    simp [ExtendedMantissa.roundedMantissa, ExtendedMantissa.accuracy,
      Accuracy.roundToNearestEven] at * <;> omega

theorem targetExponent_binary64 (m : Nat) (e : Int) :
    Format.binary64.targetExponent (totalExponent m e) =
      max (m.log2 + e - 52) (-1074) := by
  have least : Format.binary64.minExponent = -1074 := by decide
  have width : Format.binary64.mantissaBits = 53 := by decide
  rw [Format.targetExponent, totalExponent, least, width]
  congr 1
  push_cast
  ring

theorem shiftToTarget_of_le {m : Nat} {e : Int} {k : Nat}
    (amount : max (m.log2 + e - 52) (-1074) = e + k) :
    shiftToTargetExponent .binary64 m e .exact =
      ((ExtendedMantissa.mk m false false) >>> k, e + k) := by
  have distance : (e + (k : Int) - e).toNat = k := by omega
  rw [shiftToTargetExponent, targetExponent_binary64, amount]
  simp only [shiftToExponent, distance,
    ExtendedMantissa.ofMantissaAndAccuracy]

/-- The exponent of a mantissa of more than 53 bits once it is rounded. -/
def roundedExponent (m : Nat) (e : Int) : Int :=
  e + m.log2 - 52 + if (2 ^ 54 - 1) * 2 ^ (m.log2 - 53) ≤ m then 1 else 0

/-- Rounding a mantissa of more than 53 bits. -/
theorem round_long (sign : Sign) {m : Nat} {e : Int}
    (long : 53 ≤ m.log2) (least : -1074 ≤ e + m.log2 - 52) :
    ∃ mantissa, ∃ positive : 0 < mantissa,
      2 ^ 52 ≤ mantissa ∧ mantissa < 2 ^ 53 ∧
        roundWithAccuracy .binary64 sign m e .exact =
          .finite sign mantissa (roundedExponent m e) positive := by
  obtain ⟨k, bits⟩ : ∃ k, m.log2 = k + 53 := ⟨m.log2 - 53, by omega⟩
  have nonzero : m ≠ 0 := by
    rintro rfl
    simp at long
  have bounds := (Nat.log2_eq_iff nonzero).1 bits
  have power : 0 < 2 ^ (k + 1) := Nat.pow_pos (by decide)
  have short : m / 2 ^ (k + 1) < 2 ^ 53 := by
    rw [Nat.div_lt_iff_lt_mul power, ← Nat.pow_add]
    exact lt_of_lt_of_le bounds.2 (Nat.pow_le_pow_right (by decide) (by omega))
  have full : 2 ^ 52 ≤ m / 2 ^ (k + 1) := by
    rw [Nat.le_div_iff_mul_le power, ← Nat.pow_add]
    exact le_trans (Nat.pow_le_pow_right (by decide) (by omega)) bounds.1
  have first : shiftToTargetExponent .binary64 m e .exact = _ :=
    shiftToTarget_of_le (k := k + 1) (by push_cast; omega)
  obtain ⟨above, below, carries⟩ := rounded_shift short full
  rw [Nat.le_div_iff_mul_le (Nat.pow_pos (by decide))] at carries
  rw [roundWithAccuracy, first]
  dsimp only
  generalize ((ExtendedMantissa.mk m false false) >>>
    (k + 1)).roundedMantissa = rounded at *
  have exponent : roundedExponent m e =
      e + (k + 1 : Nat) + (if rounded = 2 ^ 53 then 1 else 0 : Nat) := by
    simp only [roundedExponent, bits, carries, Nat.add_sub_cancel]
    push_cast
    ring
  rcases Nat.lt_or_eq_of_le below with kept | carried
  · have size : rounded.log2 = 52 :=
      (Nat.log2_eq_iff (by omega)).2 ⟨above, kept⟩
    have second : shiftToTargetExponent .binary64 rounded
        (e + (k + 1 : Nat)) .exact = _ :=
      shiftToTarget_of_le (k := 0) (by push_cast [size]; omega)
    rw [if_neg kept.ne] at exponent
    refine ⟨rounded, by omega, above, kept, ?_⟩
    rw [second, exponent]
    exact dif_neg (show rounded ≠ 0 by omega)
  · have size : rounded.log2 = 53 := by
      rw [carried, Nat.log2_two_pow]
    have second : shiftToTargetExponent .binary64 rounded
        (e + (k + 1 : Nat)) .exact = _ :=
      shiftToTarget_of_le (k := 1) (by push_cast [size]; omega)
    rw [if_pos carried] at exponent
    refine ⟨2 ^ 52, by decide, le_rfl, by decide, ?_⟩
    rw [second, exponent, carried]
    rfl

/-! ## Packing -/

theorem ne_of_toNat {width : Nat} {left right : BitVec width}
    (different : left.toNat ≠ right.toNat) : left ≠ right :=
  fun same => different (congrArg BitVec.toNat same)

theorem unpack_pack (u : UnpackedFloat) :
    (Float.Model.pack u).unpack =
      UnpackedFloat.unpack .binary64 (UnpackedFloat.pack .binary64 u) := rfl

/-- A double of full significand is taken apart into what it was packed
from. -/
theorem unpack_pack_full (sign : Sign) {m : Nat} {e : Int}
    (positive : 0 < m) (full : 2 ^ 52 ≤ m) (short : m < 2 ^ 53)
    (least : -1074 ≤ e) (largest : e ≤ 971) :
    (Float.Model.pack (.finite sign m e positive)).unpack =
      .finite sign m e positive := by
  have bias : Format.binary64.exponentBias = 1023 := by decide
  have width : Format.binary64.mantissaBits = 53 := by decide
  have bits : m.log2 = 52 :=
    (Nat.log2_eq_iff (by omega)).2 ⟨full, short⟩
  obtain ⟨raised, same⟩ : ∃ raised : Nat, (e + Format.binary64.exponentBias +
      Format.binary64.mantissaBitsWithoutImplicit).toNat = raised ∧
        e = raised - 1075 := by
    refine ⟨_, rfl, ?_⟩
    rw [bias]
    push_cast
    omega
  have field : (BitVec.ofNat 11 raised).toNat = raised := by
    rw [BitVec.toNat_ofNat, Nat.mod_eq_of_lt (by omega)]
  have fraction : (1#1 ++ BitVec.ofNat 52 m).toNat = m := by
    rw [toNat_implicitBit, BitVec.toNat_ofNat]
    omega
  have high : BitVec.ofNat 11 raised ≠ -1#11 :=
    ne_of_toNat (by rw [field]; simp; omega)
  have low : BitVec.ofNat 11 raised ≠ 0#11 :=
    ne_of_toNat (by rw [field]; simp; omega)
  have fits : ¬ 2 ^ Format.binary64.exponentBits ≤ raised + 1 := by
    change ¬ 2048 ≤ raised + 1
    omega
  have packed : UnpackedFloat.pack .binary64 (.finite sign m e positive) =
      packComponents .binary64 sign (BitVec.ofNat 11 raised)
        (BitVec.ofNat 52 m) := by
    simp only [UnpackedFloat.pack, same.1, if_neg fits, bits]
    exact if_pos width.symm
  rw [unpack_pack, packed, UnpackedFloat.unpack]
  simp only [unpackExponent_packComponents, unpackMantissa_packComponents,
    unpackSign_packComponents, Sign.ofBitVec_toBitVec, bias]
  rw [if_neg high, if_neg low]
  congr 1
  rw [field]
  push_cast
  omega

/-- The greatest exponent field is kept for what is not finite. -/
private theorem finite_unpack (bits : BitVec 64) :
    ((UnpackedFloat.unpack .binary64 bits).isFinite = true ↔
        @unpackExponent .binary64 bits ≠ -1#11) ∧
      ((UnpackedFloat.unpack .binary64 bits).isInf = true ↔
        @unpackExponent .binary64 bits = -1#11 ∧
          @unpackMantissa .binary64 bits = 0#52) := by
  unfold UnpackedFloat.unpack
  dsimp only
  split
  · rename_i top
    split
    · rename_i empty
      simp [UnpackedFloat.isFinite, UnpackedFloat.isInf, top, empty]
    · rename_i fraction
      simp [UnpackedFloat.isFinite, UnpackedFloat.isInf, top, fraction]
  · rename_i low
    refine ⟨iff_of_true ?_ low, iff_of_false ?_ fun both => low both.1⟩
    · split
      · split <;> rfl
      · rfl
    · split
      · split <;> simp [UnpackedFloat.isInf]
      · simp [UnpackedFloat.isInf]

theorem exponent_pack_finite (sign : Sign) {m : Nat} (e : Int)
    (positive : 0 < m) :
    (972 ≤ e → UnpackedFloat.pack .binary64 (.finite sign m e positive) =
        packedInfinity .binary64 sign) ∧
      (e < 972 → unpackExponent (UnpackedFloat.pack .binary64
        (.finite sign m e positive)) ≠ -1#11) := by
  have bias : Format.binary64.exponentBias = 1023 := by decide
  have allOnes : (-1#11).toNat = 2047 := by decide
  rw [UnpackedFloat.pack]
  simp only [bias]
  split
  · rename_i large
    have large : 2048 ≤ (e + 1023 + 52).toNat + 1 := large
    exact ⟨fun _ => rfl, fun fits => by omega⟩
  · rename_i small
    have small : ¬ 2048 ≤ (e + 1023 + 52).toNat + 1 := small
    refine ⟨fun large => by omega, fun _ found => ?_⟩
    split at found
    · have field := congrArg BitVec.toNat found
      rw [unpackExponent_packComponents, allOnes, BitVec.toNat_ofNat] at field
      have field : (e + 1023 + 52).toNat % 2048 = 2047 := field
      omega
    · have field := congrArg BitVec.toNat found
      rw [unpackExponent_packComponents, allOnes] at field
      cases field

/-- A packed number is finite, unless its exponent is too large; then it is
infinite. -/
theorem pack_finite (sign : Sign) {m : Nat} (e : Int) (positive : 0 < m) :
    (Float.Model.pack (.finite sign m e positive)).isInf =
        decide (972 ≤ e) ∧
      (Float.Model.pack (.finite sign m e positive)).isFinite =
        decide (e < 972) := by
  obtain ⟨infinite, finite⟩ := exponent_pack_finite sign e positive
  have field := finite_unpack
    (UnpackedFloat.pack .binary64 (.finite sign m e positive))
  rw [Float.Model.isInf, Float.Model.isFinite, unpack_pack,
    @Bool.eq_iff_iff _ (decide (972 ≤ e)),
    @Bool.eq_iff_iff _ (decide (e < 972)), field.1, field.2,
    decide_eq_true_eq, decide_eq_true_eq]
  clear field
  rcases lt_or_ge e 972 with small | large
  · exact ⟨⟨fun top => absurd top.1 (finite small), fun large => by omega⟩,
      fun _ => small, fun _ => finite small⟩
  · rw [infinite large]
    have top : unpackExponent (packedInfinity .binary64 sign) = -1#11 := by
      simp [packedInfinity]
    have empty : unpackMantissa (packedInfinity .binary64 sign) = 0#52 := by
      simp [packedInfinity]
    exact ⟨⟨fun _ => large, fun _ => ⟨top, empty⟩⟩,
      fun low => absurd top low, fun small => by omega⟩

/-! ## Whole numbers as doubles -/

theorem log2_of_short {n : Nat} (positive : 0 < n)
    (short : n < 2 ^ 53) : n.log2 ≤ 52 :=
  Nat.le_of_lt_succ ((Nat.log2_lt positive.ne').2 short)

/-- A mantissa that is stored as it is, is not rounded. -/
theorem round_kept (sign : Sign) {m : Nat} {e : Int} (positive : 0 < m)
    (short : m < 2 ^ 53) (least : -1074 ≤ e)
    (full : 2 ^ 52 ≤ m ∨ e = -1074) :
    roundWithAccuracy .binary64 sign m e .exact =
      .finite sign m e positive := by
  have low := log2_of_short positive short
  have bits : m.log2 = 52 ∨ e = -1074 :=
    full.imp_left fun full => (Nat.log2_eq_iff positive.ne').2 ⟨full, short⟩
  have kept : shiftToTargetExponent .binary64 m e .exact =
      (ExtendedMantissa.mk m false false, e) := by
    have shifted := shiftToTarget_of_le (m := m) (e := e) (k := 0)
      (by rcases bits with bits | same <;> omega)
    rw [Nat.cast_zero, add_zero] at shifted
    exact shifted
  have same : (ExtendedMantissa.mk m false false).roundedMantissa = m := rfl
  rw [roundWithAccuracy, kept]
  simp only [same, kept]
  exact dif_neg positive.ne'

/-- A short mantissa is shifted to the left until it is full. -/
private theorem shifted_full {n : Nat} (positive : 0 < n)
    (short : n < 2 ^ 53) :
    2 ^ 52 ≤ n * 2 ^ (52 - n.log2) ∧ n * 2 ^ (52 - n.log2) < 2 ^ 53 := by
  have bounds := (Nat.log2_eq_iff positive.ne').1 (Eq.refl n.log2)
  have bits := log2_of_short positive short
  constructor
  · calc 2 ^ 52 = 2 ^ n.log2 * 2 ^ (52 - n.log2) := by
          rw [← Nat.pow_add]
          congr 1
          omega
      _ ≤ n * 2 ^ (52 - n.log2) := Nat.mul_le_mul_right _ bounds.1
  · calc n * 2 ^ (52 - n.log2)
        < 2 ^ (n.log2 + 1) * 2 ^ (52 - n.log2) :=
          Nat.mul_lt_mul_of_pos_right bounds.2 (Nat.pow_pos (by decide))
      _ = 2 ^ 53 := by
          rw [← Nat.pow_add]
          congr 1
          omega

/-- A positive whole number of at most 53 bits in its stored form. -/
private theorem unpack_ofNat {n : Nat} (positive : 0 < n)
    (short : n < 2 ^ 53) :
    ∃ nonzero : 0 < n * 2 ^ (52 - n.log2),
      (Float.Model.ofNat n).unpack =
        .finite .positive (n * 2 ^ (52 - n.log2))
          (-(52 - n.log2 : Nat)) nonzero := by
  have bits := log2_of_short positive short
  obtain ⟨full, small⟩ := shifted_full positive short
  refine ⟨by omega, ?_⟩
  have normal : UnpackedFloat.ofNat .binary64 n =
      roundWithAccuracy .binary64 .positive (n * 2 ^ (52 - n.log2))
        (-(52 - n.log2 : Nat)) .exact := by
    have sign : compare (n : Int) 0 = .gt :=
      compare_gt_iff_gt.2 (by exact_mod_cast positive)
    have distance : (-max ((n.log2 : Int) + 0 - 52) (-1074)).toNat =
        52 - n.log2 := by omega
    rw [UnpackedFloat.ofNat, UnpackedFloat.ofInt, UnpackedFloat.normalize,
      sign]
    simp only [UnpackedFloat.round, targetExponent_binary64,
      decreaseExponent, Int.toNat_natCast, distance, Nat.shiftLeft_eq,
      zero_sub]
  rw [Float.Model.ofNat, normal,
    round_kept .positive (by omega) small (by omega) (.inl full),
    unpack_pack_full .positive (by omega) full small (by omega) (by omega)]

/-- The least size of a whole number that is rounded beyond the largest
double. -/
def doubleLimit : Nat :=
  (2 ^ 54 - 1) * 2 ^ 970

/-- A mantissa that is shifted to the left gets more bits. -/
theorem log2_shift {m : Nat} (positive : 0 < m) (k : Nat) :
    (m * 2 ^ k).log2 = m.log2 + k := by
  induction k with
  | zero => simp
  | succ k inductionHypothesis =>
      have nonzero : m * 2 ^ k ≠ 0 := by positivity
      rw [Nat.pow_succ, ← Nat.mul_assoc, Nat.mul_comm, Nat.log2_two_mul nonzero,
        inductionHypothesis, Nat.add_assoc]

theorem two_pow_le_limit {k bits : Nat} (low : bits ≤ k + 53) :
    2 ^ bits ≤ (2 ^ 54 - 1) * 2 ^ k :=
  calc 2 ^ bits ≤ 2 ^ (k + 53) := Nat.pow_le_pow_right (by decide) low
    _ = 2 ^ 53 * 2 ^ k := by rw [Nat.pow_add, Nat.mul_comm]
    _ ≤ (2 ^ 54 - 1) * 2 ^ k := Nat.mul_le_mul_right _ (by decide)

theorem cast_doubleLimit :
    (doubleLimit : ℚ) = (2 ^ 54 - 1) * 2 ^ (970 : Int) := by
  have high : ((2 ^ 54 - 1 : Nat) : ℚ) = 2 ^ 54 - 1 := by norm_num
  rw [doubleLimit, Nat.cast_mul, high, Nat.cast_pow, Nat.cast_ofNat,
    ← zpow_natCast]
  rfl

theorem zpow_lt_limit {bits : Int} (low : bits ≤ 1023) :
    (2 : ℚ) ^ bits < doubleLimit :=
  calc (2 : ℚ) ^ bits ≤ 2 ^ (53 + 970 : Int) :=
        zpow_le_zpow_right₀ one_le_two low
    _ = 2 ^ 53 * 2 ^ (970 : Int) := zpow_add₀ two_ne_zero 53 970
    _ < (2 ^ 54 - 1) * 2 ^ (970 : Int) :=
        mul_lt_mul_of_pos_right (by norm_num) (zpow_pos two_pos _)
    _ = doubleLimit := cast_doubleLimit.symm

theorem limit_lt_zpow {bits : Int} (high : 1024 ≤ bits) :
    (doubleLimit : ℚ) < 2 ^ bits :=
  calc (doubleLimit : ℚ) = (2 ^ 54 - 1) * 2 ^ (970 : Int) := cast_doubleLimit
    _ < 2 ^ 54 * 2 ^ (970 : Int) :=
        mul_lt_mul_of_pos_right (by norm_num) (zpow_pos two_pos _)
    _ = 2 ^ (54 + 970 : Int) := (zpow_add₀ two_ne_zero 54 970).symm
    _ ≤ 2 ^ bits := zpow_le_zpow_right₀ one_le_two high

/-- The bounds of a size from the number of bits of its mantissa. -/
theorem size_bounds {m : Nat} (positive : 0 < m) (e : Int) :
    (2 : ℚ) ^ (m.log2 + e) ≤ m * 2 ^ e ∧
      (m : ℚ) * 2 ^ e < 2 ^ (m.log2 + e + 1) := by
  have bounds := (Nat.log2_eq_iff positive.ne').1 (Eq.refl m.log2)
  have least : (2 : ℚ) ^ m.log2 ≤ m := by exact_mod_cast bounds.1
  have most : (m : ℚ) < 2 ^ (m.log2 + 1) := by exact_mod_cast bounds.2
  have unit : (0 : ℚ) < 2 ^ e := by positivity
  constructor
  · rw [zpow_add₀ two_ne_zero, zpow_natCast]
    exact mul_le_mul_of_nonneg_right least unit.le
  · rw [add_right_comm, zpow_add₀ two_ne_zero]
    exact mul_lt_mul_of_pos_right (by exact_mod_cast most) unit

/-- A mantissa of more than 53 bits is rounded beyond the doubles from the
size on that is halfway between the largest double and the next power of
two. -/
theorem le_roundedExponent_iff {m : Nat} {e : Int} (long : 53 ≤ m.log2) :
    972 ≤ roundedExponent m e ↔ (doubleLimit : ℚ) ≤ m * 2 ^ e := by
  obtain ⟨k, bits⟩ : ∃ k, m.log2 = k + 53 := ⟨m.log2 - 53, by omega⟩
  have positive : 0 < m := by
    rw [Nat.pos_iff_ne_zero]
    rintro rfl
    simp at long
  have bounds := size_bounds positive e
  rw [roundedExponent, bits, Nat.add_sub_cancel]
  rw [bits] at bounds
  rcases lt_trichotomy (e + k) 970 with low | middle | high
  · have below : ¬ (doubleLimit : ℚ) ≤ m * 2 ^ e :=
      not_le.2 (bounds.2.trans (zpow_lt_limit (by push_cast; omega)))
    refine iff_of_false ?_ below
    split <;> omega
  · have carries : (doubleLimit : ℚ) ≤ m * 2 ^ e ↔
        (2 ^ 54 - 1) * 2 ^ k ≤ m := by
      have unit : (0 : ℚ) < 2 ^ e := by positivity
      rw [cast_doubleLimit, ← middle, add_comm, zpow_add₀ two_ne_zero,
        ← mul_assoc, mul_le_mul_iff_left₀ unit, zpow_natCast,
        ← Nat.cast_le (α := ℚ)]
      norm_num
    rw [carries]
    by_cases reached : (2 ^ 54 - 1) * 2 ^ k ≤ m
    · rw [if_pos reached]
      exact iff_of_true (by omega) reached
    · rw [if_neg reached]
      exact iff_of_false (by omega) reached
  · have above : (doubleLimit : ℚ) ≤ m * 2 ^ e :=
      (limit_lt_zpow (by push_cast; omega)).le.trans bounds.1
    refine iff_of_true ?_ above
    split <;> omega

/-- A whole number as a double of full significand that is not yet known to
be finite. -/
private def PacksFull (n : Nat) : Prop :=
  ∃ m e, ∃ nonzero : 0 < m,
    (Float.ofNat n).toModel =
        Float.Model.pack (.finite .positive m e nonzero) ∧
      2 ^ 52 ≤ m ∧ m < 2 ^ 53 ∧ -1074 ≤ e ∧
      (972 ≤ e ↔ doubleLimit ≤ n)

private theorem packsFull_long {n : Nat} (long : 2 ^ 53 ≤ n) :
    PacksFull n := by
  have positive : 0 < n := lt_of_lt_of_le (by decide) long
  obtain ⟨mantissa, nonzero, full, short, rounded⟩ :=
    round_long .positive (m := n * 2 ^ 53) (e := -53)
      (by rw [log2_shift positive]; omega)
      (by rw [log2_shift positive]; omega)
  have slow : Float.ofNat n =
      Float.ofModel (Float.Model.ofScientific n (0 : Nat)) :=
    dif_neg fun short => absurd short.1 (by omega)
  have width : Format.binary64.mantissaBits = 53 := by decide
  have range : (2 : Int) ^ Format.binary64.exponentBits = 2048 := by decide
  have product : UnpackedFloat.ofScientific .binary64 n (0 : Nat) =
      roundWithAccuracy .binary64 .positive (n * 2 ^ 53) (-53) .exact := by
    rw [UnpackedFloat.ofScientific, dif_neg positive.ne', range,
      if_neg (by decide), if_neg (by omega), if_pos (by omega)]
    simp only [UnpackedFloat.mul, width, Nat.shiftLeft_eq, Int.toNat_natCast,
      Nat.pow_zero, Nat.mul_one, Int.add_zero]
    rfl
  have least : -1074 ≤ roundedExponent (n * 2 ^ 53) (-53) := by
    rw [roundedExponent, log2_shift positive]
    split <;> omega
  have large : 972 ≤ roundedExponent (n * 2 ^ 53) (-53) ↔ doubleLimit ≤ n := by
    have size : ((n * 2 ^ 53 : Nat) : ℚ) * 2 ^ (-53 : Int) = n := by
      rw [Nat.cast_mul, mul_assoc]
      norm_num
    rw [le_roundedExponent_iff (by rw [log2_shift positive]; omega), size,
      Nat.cast_le]
  refine ⟨mantissa, _, nonzero, ?_, full, short, least, large⟩
  rw [slow, ← rounded, ← product]
  rfl

private theorem packsFull_short {n : Nat} (positive : 0 < n)
    (short : n < 2 ^ 53) : PacksFull n := by
  obtain ⟨nonzero, whole⟩ := unpack_ofNat positive short
  have one : (Float.Model.ofBits 0x3FF0000000000000).unpack =
      .finite .positive (2 ^ 52) (-52) (by decide) := by rfl
  have word : n.toUInt64.toNat = n := by
    simp
    omega
  have fast : Float.ofNat n =
      n.toUInt64.toFloat * Float.ofBits 0x3FF0000000000000 :=
    dif_pos ⟨short, by decide⟩
  have whole : n.toUInt64.toFloat.toModel.unpack =
      .finite .positive (n * 2 ^ (52 - n.log2)) (-(52 - n.log2 : Nat))
        nonzero := by
    rw [← whole]
    change (Float.Model.pack (UnpackedFloat.ofNat .binary64
      n.toUInt64.toNat)).unpack = _
    rw [word]
    rfl
  have product : (Float.ofNat n).toModel =
      Float.Model.pack (roundWithAccuracy .binary64 .positive
        (n * 2 ^ (52 - n.log2) * 2 ^ 52) (-(52 - n.log2 : Nat) + -52)
        .exact) := by
    rw [fast]
    change Float.Model.pack (UnpackedFloat.mul .binary64
      n.toUInt64.toFloat.toModel.unpack
      (Float.Model.ofBits 0x3FF0000000000000).unpack) = _
    rw [whole, one]
    rfl
  have bits := log2_of_short positive short
  obtain ⟨full, small⟩ := shifted_full positive short
  have long : (n * 2 ^ (52 - n.log2) * 2 ^ 52).log2 = 104 :=
    (Nat.log2_eq_iff (by omega)).2 ⟨by omega, by omega⟩
  obtain ⟨mantissa, nonzero, filled, bounded, rounded⟩ :=
    round_long .positive (m := n * 2 ^ (52 - n.log2) * 2 ^ 52)
      (e := -(52 - n.log2 : Nat) + -52) (by omega) (by omega)
  have range : -1074 ≤ roundedExponent (n * 2 ^ (52 - n.log2) * 2 ^ 52)
        (-(52 - n.log2 : Nat) + -52) ∧
      ¬ 972 ≤ roundedExponent (n * 2 ^ (52 - n.log2) * 2 ^ 52)
        (-(52 - n.log2 : Nat) + -52) := by
    rw [roundedExponent, long]
    split <;> omega
  refine ⟨mantissa, _, nonzero, by rw [product, rounded], filled, bounded,
    range.1, ?_⟩
  exact iff_of_false range.2
    (not_le.2 (short.trans_le (two_pow_le_limit (by decide))))

private theorem packsFull {n : Nat} (positive : 0 < n) : PacksFull n := by
  rcases lt_or_ge n (2 ^ 53) with short | long
  · exact packsFull_short positive short
  · exact packsFull_long long

private theorem ofNat_finite (n : Nat) :
    (Float.ofNat n).isInf = decide (doubleLimit ≤ n) ∧
      (Float.ofNat n).isFinite = decide (n < doubleLimit) := by
  rcases Nat.eq_zero_or_pos n with rfl | positive
  · have positive : 0 < doubleLimit := Nat.mul_pos (by decide) (by positivity)
    rw [decide_eq_false (by omega), decide_eq_true positive]
    decide +kernel
  obtain ⟨m, e, nonzero, packed, _, _, _, large⟩ := packsFull positive
  obtain ⟨infinite, finite⟩ := pack_finite .positive e nonzero
  rw [← packed] at infinite finite
  refine ⟨infinite.trans (decide_eq_decide.2 large),
    finite.trans (decide_eq_decide.2 ?_)⟩
  rw [← not_le, large, not_le]

private theorem neg_finite (x : Float) :
    (-x).isInf = x.isInf ∧ (-x).isFinite = x.isFinite := by
  have finite := meaning_eq_meaningOf x
  change (Float.Model.pack x.toModel.unpack.neg).isInf =
      x.toModel.unpack.isInf ∧
    (Float.Model.pack x.toModel.unpack.neg).isFinite =
      x.toModel.unpack.isFinite
  cases form : x.toModel.unpack with
  | notANumber => decide +kernel
  | infinity sign => cases sign <;> decide +kernel
  | zero sign => cases sign <;> decide +kernel
  | finite sign m e positive =>
      rw [form] at finite
      have largest : e ≤ 971 := (canonical_of_meaning finite).largest
      obtain ⟨infinite, finite⟩ := pack_finite (-sign) e positive
      exact ⟨infinite.trans (decide_eq_false (by omega)),
        finite.trans (decide_eq_true (by omega))⟩

private theorem ofInt_finite (n : Int) :
    (Float.ofInt n).isInf = decide (doubleLimit ≤ n.natAbs) ∧
      (Float.ofInt n).isFinite = decide (n.natAbs < doubleLimit) := by
  cases n with
  | ofNat n => exact ofNat_finite n
  | negSucc n =>
      obtain ⟨infinite, finite⟩ := ofNat_finite (n + 1)
      obtain ⟨sameInfinite, sameFinite⟩ := neg_finite (Float.ofNat (n + 1))
      exact ⟨sameInfinite.trans infinite, sameFinite.trans finite⟩

/-- The whole numbers that have a nearest double. -/
theorem floatOfInt?_isSome_iff (n : Int) :
    (floatOfInt? n).isSome = true ↔ n.natAbs < doubleLimit := by
  rw [floatOfInt?, (ofInt_finite n).1]
  by_cases large : doubleLimit ≤ n.natAbs <;> simp [large]
  omega

theorem isFinite_of_floatOfInt? {n : Int} {x : Float}
    (nearest : floatOfInt? n = some x) : x.isFinite = true := by
  have fits := (floatOfInt?_isSome_iff n).1 (Option.isSome_of_eq_some nearest)
  rw [floatOfInt?, (ofInt_finite n).1,
    if_neg (by simpa using fits)] at nearest
  rw [← Option.some.inj nearest, (ofInt_finite n).2, decide_eq_true fits]

/-! ## Signs -/

/-- The double nearest to a positive number is positive. -/
theorem exactValue_pos_of_floatOfInt? {n : Int} {x : Float} {q : ℚ}
    (positive : 0 < n) (nearest : floatOfInt? n = some x)
    (exact : exactValue? x = some q) : 0 < q := by
  obtain ⟨size, rfl⟩ := Int.eq_ofNat_of_zero_le positive.le
  have fits : size < doubleLimit :=
    (floatOfInt?_isSome_iff size).1 (Option.isSome_of_eq_some nearest)
  obtain ⟨m, e, nonzero, packed, full, short, least, large⟩ :=
    packsFull (Int.natCast_pos.1 positive)
  have same : Float.ofNat size = x := by
    rw [floatOfInt?] at nearest
    split at nearest
    · cases nearest
    · exact Option.some.inj nearest
  have value : exactValue? x = some ((m : ℚ) * 2 ^ e) := by
    unfold exactValue?
    rw [meaning_eq_meaningOf, ← same, packed,
      unpack_pack_full .positive nonzero full short least (by omega)]
    rfl
  rw [exact] at value
  rw [Option.some.inj value]
  exact mul_pos (Nat.cast_pos.2 nonzero) (zpow_pos two_pos e)

/-- The double nearest to a number that is not negative is not negative. -/
theorem exactValue_nonneg_of_floatOfInt? {n : Int} {x : Float} {q : ℚ}
    (nonnegative : 0 ≤ n) (nearest : floatOfInt? n = some x)
    (exact : exactValue? x = some q) : 0 ≤ q := by
  rcases nonnegative.eq_or_lt with rfl | positive
  · have zero : floatOfInt? 0 = some 0 := by decide +kernel
    rw [zero] at nearest
    rw [← Option.some.inj nearest, exactValue?_zero] at exact
    exact (Option.some.inj exact).le
  · exact (exactValue_pos_of_floatOfInt? positive nearest exact).le

end DesignTokens.Number
