import DesignTokens.Number.Numeral
import Mathlib

/-!
# Exact values of doubles

A finite double is a rational number. Its comparisons, and the tests for
finite and for whole doubles, are those of the rational number.
-/

namespace DesignTokens.Number

open Float.Model Float.Model.UnpackedFloat

/-- The number that a binary stands for. -/
def Binary.value (number : Binary) : ℚ :=
  let size := (number.significand : ℚ) * 2 ^ number.exponent
  if number.negative then -size else size

/-- The number that a double is exactly, if it is one. -/
def exactValue? (x : Float) : Option ℚ :=
  match meaning x with
  | .finite number => some number.value
  | _ => none

/-- Whether a sign is the minus sign. -/
def isMinus : Sign → Bool
  | .negative => true
  | .positive => false

/-- The meaning of a double that is taken apart. -/
def meaningOf : UnpackedFloat → Meaning
  | .notANumber => .notANumber
  | .infinity sign => .infinite (isMinus sign)
  | .zero sign => .finite ⟨isMinus sign, 0, -1074⟩
  | .finite sign mantissa exponent _ =>
      .finite ⟨isMinus sign, mantissa, exponent⟩

private theorem toNat_unpackMantissa (bits : BitVec 64) :
    (@unpackMantissa .binary64 bits).toNat =
      bits.toNat % 2 ^ 52 := by
  simp [unpackMantissa]

private theorem toNat_unpackExponent (bits : BitVec 64) :
    (@unpackExponent .binary64 bits).toNat =
      bits.toNat / 2 ^ 52 % 2 ^ 11 := by
  simp [unpackExponent, Nat.shiftRight_eq_div_pow]

private theorem toNat_unpackSign (bits : BitVec 64) :
    (@unpackSign .binary64 bits).toNat =
      bits.toNat / 2 ^ 63 % 2 := by
  simp [unpackSign, Nat.shiftRight_eq_div_pow]

theorem toNat_implicitBit (mantissa : BitVec 52) :
    (1#1 ++ mantissa).toNat = 2 ^ 52 + mantissa.toNat := by
  rw [BitVec.toNat_append, ← Nat.shiftLeft_add_eq_or_of_lt mantissa.isLt]
  rfl

private theorem isMinus_ofBitVec (bit : BitVec 1) :
    isMinus (Sign.ofBitVec bit) = (bit.toNat == 1) := by
  have small := bit.isLt
  by_cases clear : bit = 0#1
  · subst clear
    rfl
  · have value : bit.toNat = 1 := by
      have nonzero : bit.toNat ≠ 0 := fun zero =>
        clear (BitVec.eq_of_toNat_eq zero)
      omega
    simp [Sign.ofBitVec, clear, isMinus, value]

private theorem unpackExponent_eq_iff (bits : BitVec 64) (value : Nat)
    (fits : value < 2 ^ 11) :
    @unpackExponent .binary64 bits = BitVec.ofNat 11 value ↔
      bits.toNat / 2 ^ 52 % 2 ^ 11 = value := by
  rw [← toNat_unpackExponent, ← BitVec.toNat_inj, BitVec.toNat_ofNat,
    Nat.mod_eq_of_lt fits]

private theorem unpackMantissa_eq_zero_iff (bits : BitVec 64) :
    @unpackMantissa .binary64 bits = 0#52 ↔
      bits.toNat % 2 ^ 52 = 0 := by
  rw [← toNat_unpackMantissa, ← BitVec.toNat_inj]
  rfl

/-- Reading the bits of a double and taking it apart agree. -/
theorem meaning_eq_meaningOf (x : Float) :
    meaning x = meaningOf x.toModel.unpack := by
  change meaning x = meaningOf
    (UnpackedFloat.unpack .binary64 x.toModel.toBits.toBitVec)
  have exponent := toNat_unpackExponent x.toModel.toBits.toBitVec
  have mantissa := toNat_unpackMantissa x.toModel.toBits.toBitVec
  have full := toNat_implicitBit
    (@unpackMantissa .binary64 x.toModel.toBits.toBitVec)
  have top := unpackExponent_eq_iff x.toModel.toBits.toBitVec 2047
    (by decide)
  have bottom := unpackExponent_eq_iff x.toModel.toBits.toBitVec 0
    (by decide)
  have empty := unpackMantissa_eq_zero_iff x.toModel.toBits.toBitVec
  have sign := isMinus_ofBitVec
    (@unpackSign .binary64 x.toModel.toBits.toBitVec)
  rw [toNat_unpackSign] at sign
  rw [mantissa] at full
  have bias : Format.binary64.exponentBias = 1023 := by decide
  have allOnes : -1#11 = 2047#11 := by decide
  have bitsEq : x.toBits.toNat = x.toModel.toBits.toBitVec.toNat := rfl
  simp only [meaning, twoTo, Nat.pow_eq, bitsEq, UnpackedFloat.unpack]
  generalize x.toModel.toBits.toBitVec = bits at *
  simp only [allOnes, top, bottom, empty]
  generalize bits.toNat / 2 ^ 52 % 2 ^ 11 = raised at *
  generalize bits.toNat % 2 ^ 52 = fraction at *
  by_cases infinite : raised = 2047
  · by_cases zero : fraction = 0
    · simp [infinite, zero, meaningOf, sign]
    · simp [infinite, zero, meaningOf]
  · by_cases low : raised = 0
    · by_cases zero : fraction = 0
      · simp [low, zero, meaningOf, sign]
      · simp [low, zero, meaningOf, sign, exponent, mantissa, bias]
    · simp [infinite, low, meaningOf, sign, exponent, full, bias]

/-- The one form in which a finite double is stored: a full significand, unless
the exponent is the least. -/
structure Binary.Canonical (number : Binary) : Prop where
  short : number.significand < 2 ^ 53
  least : -1074 ≤ number.exponent
  largest : number.exponent ≤ 971
  full : 2 ^ 52 ≤ number.significand ∨ number.exponent = -1074

theorem canonical_of_meaning {x : Float} {number : Binary}
    (finite : meaning x = .finite number) : number.Canonical := by
  have fraction : x.toBits.toNat % 2 ^ 52 < 2 ^ 52 :=
    Nat.mod_lt _ (by decide)
  have raised : x.toBits.toNat / 2 ^ 52 % 2 ^ 11 < 2 ^ 11 :=
    Nat.mod_lt _ (by decide)
  have fractions : twoTo 52 = 2 ^ 52 := rfl
  have exponents : twoTo 11 = 2 ^ 11 := rfl
  dsimp only [meaning] at finite
  rw [← fractions] at fraction
  rw [← exponents, ← fractions] at raised
  split at finite
  · split at finite <;> cases finite
  · rename_i notTop
    split at finite
    · cases finite
      exact ⟨by simp only; omega, by simp only; omega, by simp only; omega,
        .inr rfl⟩
    · rename_i notBottom
      cases finite
      exact ⟨by simp only; omega, by simp only; omega, by simp only; omega,
        .inl (by simp only; omega)⟩

/-! ## Comparisons -/

private theorem size_lt_of_exponent_lt {m n : Nat} {e f : Int}
    (short : m < 2 ^ 53) (full : 2 ^ 52 ≤ n) (lower : e < f) :
    (m : ℚ) * 2 ^ e < n * 2 ^ f := by
  have two : (0 : ℚ) < 2 ^ e := by positivity
  calc (m : ℚ) * 2 ^ e
      < 2 ^ 53 * 2 ^ e := by
        have : (m : ℚ) < 2 ^ 53 := by exact_mod_cast short
        gcongr
    _ = 2 ^ 52 * 2 ^ (e + 1) := by
        rw [zpow_add₀ (by norm_num)]
        ring
    _ ≤ 2 ^ 52 * 2 ^ f := by
        gcongr
        · norm_num
        · omega
    _ ≤ n * 2 ^ f := by
        have : (2 : ℚ) ^ 52 ≤ n := by exact_mod_cast full
        gcongr

/-- Stored sizes are ordered by exponent first. -/
private theorem compare_size {a b : Binary} (left : a.Canonical)
    (right : b.Canonical) :
    (compare a.exponent b.exponent).then
        (compare a.significand b.significand) =
      compare ((a.significand : ℚ) * 2 ^ a.exponent)
        (b.significand * 2 ^ b.exponent) := by
  rcases lt_trichotomy a.exponent b.exponent with lower | same | higher
  · have full : 2 ^ 52 ≤ b.significand :=
      right.full.resolve_right (by have := left.least; omega)
    rw [compare_lt_iff_lt.2 lower, eq_comm]
    exact compare_lt_iff_lt.2 (size_lt_of_exponent_lt left.short full lower)
  · have two : (0 : ℚ) < 2 ^ b.exponent := by positivity
    rw [same, compare_eq_iff_eq.2 rfl, Ordering.eq_then]
    rcases lt_trichotomy a.significand b.significand with
      fewer | equal | more
    · rw [compare_lt_iff_lt.2 fewer, eq_comm]
      exact compare_lt_iff_lt.2 (by gcongr)
    · rw [equal, compare_eq_iff_eq.2 rfl, compare_eq_iff_eq.2 rfl]
    · rw [compare_gt_iff_gt.2 more, eq_comm]
      exact compare_gt_iff_gt.2 (by gcongr)
  · have full : 2 ^ 52 ≤ a.significand :=
      left.full.resolve_right (by have := right.least; omega)
    rw [compare_gt_iff_gt.2 higher, eq_comm]
    exact compare_gt_iff_gt.2 (size_lt_of_exponent_lt right.short full higher)

private theorem value_eq (negative : Bool) (m : Nat) (e : Int) :
    Binary.value ⟨negative, m, e⟩ =
      if negative then -((m : ℚ) * 2 ^ e) else m * 2 ^ e := rfl

private theorem compare_neg (p q : ℚ) :
    compare (-p) (-q) = (compare p q).swap := by
  rcases lt_trichotomy p q with less | same | greater
  · rw [compare_lt_iff_lt.2 less]
    exact compare_gt_iff_gt.2 (neg_lt_neg less)
  · rw [same, compare_eq_iff_eq.2 rfl, compare_eq_iff_eq.2 rfl]
    rfl
  · rw [compare_gt_iff_gt.2 greater]
    exact compare_lt_iff_lt.2 (neg_lt_neg greater)

private theorem compare_of_meaning {u v : UnpackedFloat} {a b : Binary}
    (left : meaningOf u = .finite a) (right : meaningOf v = .finite b)
    (leftForm : a.Canonical) (rightForm : b.Canonical) :
    u.compare v = some (compare a.value b.value) := by
  have sizes := compare_size leftForm rightForm
  have below {q : ℚ} (positive : 0 < q) : compare 0 q = .lt ∧
      compare q 0 = .gt ∧ compare 0 (-q) = .gt ∧ compare (-q) 0 = .lt :=
    ⟨compare_lt_iff_lt.2 positive, compare_gt_iff_gt.2 positive,
      compare_gt_iff_gt.2 (neg_lt_zero.2 positive),
      compare_lt_iff_lt.2 (neg_lt_zero.2 positive)⟩
  cases u with
  | notANumber => cases left
  | infinity => cases left
  | zero s =>
      cases left
      cases v with
      | notANumber => cases right
      | infinity => cases right
      | zero t =>
          cases right
          simp [UnpackedFloat.compare, value_eq]
      | finite t n f positive =>
          cases right
          have size := below (show (0 : ℚ) < n * 2 ^ f by positivity)
          cases t <;> simp [UnpackedFloat.compare, value_eq, isMinus, size]
  | finite s m e positive =>
      cases left
      have leftSize := below (show (0 : ℚ) < m * 2 ^ e by positivity)
      cases v with
      | notANumber => cases right
      | infinity => cases right
      | zero t =>
          cases right
          cases s <;> simp [UnpackedFloat.compare, value_eq, isMinus, leftSize]
      | finite t n f rightPositive =>
          cases right
          have crossed : (0 : ℚ) < m * 2 ^ e ∧ (0 : ℚ) < n * 2 ^ f :=
            ⟨by positivity, by positivity⟩
          cases s <;> cases t
          · simpa [UnpackedFloat.compare, value_eq, isMinus, compare_neg]
              using sizes
          · exact congrArg some (compare_lt_iff_lt.2
              (by simp [value_eq, isMinus]; linarith)).symm
          · exact congrArg some (compare_gt_iff_gt.2
              (by simp [value_eq, isMinus]; linarith)).symm
          · simpa [UnpackedFloat.compare, value_eq, isMinus] using sizes

theorem exists_meaning {x : Float} {q : ℚ}
    (exact : exactValue? x = some q) :
    ∃ number, meaning x = .finite number ∧ number.value = q := by
  unfold exactValue? at exact
  split at exact
  · rename_i number finite
    exact ⟨number, finite, Option.some.inj exact⟩
  · cases exact

private theorem compare_of_exact {x y : Float} {p q : ℚ}
    (left : exactValue? x = some p) (right : exactValue? y = some q) :
    x.toModel.unpack.compare y.toModel.unpack = some (compare p q) := by
  obtain ⟨a, leftMeaning, rfl⟩ := exists_meaning left
  obtain ⟨b, rightMeaning, rfl⟩ := exists_meaning right
  exact compare_of_meaning (meaning_eq_meaningOf x ▸ leftMeaning)
    (meaning_eq_meaningOf y ▸ rightMeaning)
    (canonical_of_meaning leftMeaning) (canonical_of_meaning rightMeaning)

/-- Finite doubles are compared by their exact values. -/
theorem lt_iff_exact {x y : Float} {p q : ℚ} (left : exactValue? x = some p)
    (right : exactValue? y = some q) : x < y ↔ p < q := by
  change decide (UnpackedFloat.lt x.toModel.unpack y.toModel.unpack = true)
    = true ↔ p < q
  rw [UnpackedFloat.lt, compare_of_exact left right]
  simp [compare_lt_iff_lt]

theorem le_iff_exact {x y : Float} {p q : ℚ} (left : exactValue? x = some p)
    (right : exactValue? y = some q) : x ≤ y ↔ p ≤ q := by
  change decide (UnpackedFloat.le x.toModel.unpack y.toModel.unpack = true)
    = true ↔ p ≤ q
  rw [UnpackedFloat.le, compare_of_exact left right]
  simp [Ordering.isLE_iff_ne_gt, compare_le_iff_le]

theorem exactValue?_zero : exactValue? 0 = some 0 := by
  have finite : meaning 0 = .finite ⟨false, 0, -1074⟩ := by decide +kernel
  simp [exactValue?, finite, Binary.value]

theorem exactValue?_one : exactValue? 1 = some 1 := by
  have finite : meaning 1 = .finite ⟨false, 2 ^ 52, -52⟩ := by decide +kernel
  norm_num [exactValue?, finite, Binary.value]

/-! ## Finite and whole doubles -/

theorem isFinite_iff_exact (x : Float) :
    x.isFinite = true ↔ ∃ q, exactValue? x = some q := by
  change x.toModel.unpack.isFinite = true ↔ _
  unfold exactValue?
  rw [meaning_eq_meaningOf]
  cases x.toModel.unpack <;> simp [UnpackedFloat.isFinite, meaningOf]

theorem Binary.value_eq_fraction (number : Binary) :
    number.value =
      (if number.negative then -1 else 1) *
        ((number.fraction.1 : ℚ) / number.fraction.2) := by
  have size : (number.significand : ℚ) * 2 ^ number.exponent =
      (number.fraction.1 : ℚ) / number.fraction.2 := by
    simp only [Binary.fraction, twoTo, Nat.pow_eq]
    push_cast
    rcases le_total 0 number.exponent with upward | downward
    · obtain ⟨k, same⟩ := Int.eq_ofNat_of_zero_le upward
      simp [same]
    · obtain ⟨k, same⟩ := Int.exists_eq_neg_ofNat downward
      simp [same, div_eq_mul_inv]
  rw [Binary.value, size]
  cases number.negative <;> simp

theorem Binary.toInt?_eq_some_iff (number : Binary) (n : Int) :
    number.toInt? = some n ↔ number.value = (n : ℚ) := by
  have nonzero : (number.fraction.2 : ℚ) ≠ 0 :=
    Nat.cast_ne_zero.2 (Nat.pow_pos (by decide)).ne'
  rw [Binary.value_eq_fraction]
  unfold Binary.toInt?
  generalize number.fraction = fraction at *
  generalize number.negative = negative
  obtain ⟨numerator, denominator⟩ := fraction
  dsimp only at nonzero ⊢
  by_cases divides : numerator % denominator = 0
  · have quotient : (numerator : ℚ) / denominator =
        ((numerator / denominator : Nat) : Int) := by
      rw [Int.cast_natCast,
        Nat.cast_div (Nat.dvd_of_mod_eq_zero divides) nonzero]
    rw [if_pos divides, quotient]
    cases negative
    · rw [if_neg Bool.false_ne_true, if_neg Bool.false_ne_true, one_mul,
        Int.cast_inj, Option.some.injEq]
    · rw [if_pos rfl, if_pos rfl, neg_one_mul, ← Int.cast_neg,
        Int.cast_inj, Option.some.injEq]
  · rw [if_neg divides]
    refine ⟨fun found => (nomatch found), fun equal => absurd ?_ divides⟩
    apply Nat.mod_eq_zero_of_dvd
    rw [← Int.natCast_dvd_natCast]
    cases negative
    · rw [if_neg Bool.false_ne_true, one_mul, div_eq_iff nonzero] at equal
      exact Dvd.intro_left n (by exact_mod_cast equal.symm)
    · rw [if_pos rfl, neg_one_mul, neg_eq_iff_eq_neg, div_eq_iff nonzero]
        at equal
      exact Dvd.intro_left (-n) (by exact_mod_cast equal.symm)

/-- A double is read as a whole number exactly where its value is one. -/
theorem wholeValue?_eq_some_iff (x : Float) (n : Int) :
    wholeValue? x = some n ↔ exactValue? x = some (n : ℚ) := by
  unfold wholeValue? exactValue?
  cases meaning x with
  | notANumber => simp
  | infinite => simp
  | finite number => simp [Binary.toInt?_eq_some_iff]

/-! ## Products -/

private theorem sign_product_comm (first second : Sign) :
    first * second = second * first := by
  cases first <;> cases second <;> rfl

private theorem unpacked_product_comm (format : Format)
    (first second : UnpackedFloat) :
    first.mul format second = second.mul format first := by
  cases first <;> cases second <;>
    simp only [UnpackedFloat.mul, sign_product_comm, Nat.mul_comm,
      Int.add_comm]

/-- Two doubles have one product, in whatever order they are multiplied. -/
theorem product_comm (x y : Float) : x * y = y * x := by
  have unpacked := unpacked_product_comm .binary64 x.toModel.unpack
    y.toModel.unpack
  exact congrArg (fun product => Float.ofModel (pack product)) unpacked

end DesignTokens.Number
