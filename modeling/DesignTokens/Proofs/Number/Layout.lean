import DesignTokens.Proofs.Number.Numeral
import DesignTokens.Proofs.Number.Trimming

/-!
# Texts with a fixed number of decimals

The text of a finite number is a decimal text that denotes the nearest number
with so many decimals. Two numbers have the same trimmed text exactly if they
are rounded to the same one.
-/

namespace DesignTokens.Number

open DecimalText (Denotes)

/-! ## Fixed places -/

/-- The nearest whole number is off by a half at most. -/
theorem abs_roundHalfEven_sub_le (n : Nat) {d : Nat} (positive : 0 < d) :
    2 * |(roundHalfEven n d : ℚ) - n / d| ≤ 1 := by
  have divisor : (0 : ℚ) < d := Nat.cast_pos.2 positive
  have parts : (n : ℚ) / d = (n / d : Nat) + (n % d : Nat) / d := by
    rw [div_eq_iff divisor.ne', add_mul, div_mul_cancel₀ _ divisor.ne',
      mul_comm]
    exact_mod_cast (Nat.div_add_mod n d).symm
  have down (low : 2 * (n % d) ≤ d) :
      2 * |((n / d : Nat) : ℚ) - n / d| ≤ 1 := by
    rw [parts, sub_add_cancel_left, abs_neg, abs_of_nonneg (by positivity),
      ← mul_div_assoc, div_le_one divisor]
    exact_mod_cast low
  have up (high : d ≤ 2 * (n % d)) :
      2 * |((n / d + 1 : Nat) : ℚ) - n / d| ≤ 1 := by
    have rest : ((n % d : Nat) : ℚ) / d ≤ 1 := by
      rw [div_le_one divisor]
      exact_mod_cast (Nat.mod_lt n positive).le
    have half : 1 ≤ 2 * (((n % d : Nat) : ℚ) / d) := by
      rw [← mul_div_assoc, one_le_div divisor]
      exact_mod_cast high
    rw [parts, Nat.cast_add_one, add_sub_add_left_eq_sub,
      abs_of_nonneg (sub_nonneg.2 rest)]
    linarith
  rw [roundHalfEven]
  split
  · exact down (by omega)
  · split
    · exact up (by omega)
    · split
      · exact down (by omega)
      · exact up (by omega)

/-- The digits of the last places, for a count of units of the last one. -/
def lastPlaces (places units : Nat) : List Char :=
  if places = 0 then []
  else List.leftpad places '0' (digitsOf (units % tenTo places))

section LastPlaces

variable (places units : Nat)

theorem isDigit_of_mem_lastPlaces :
    ∀ digit ∈ lastPlaces places units, digit.isDigit = true := by
  rw [lastPlaces]
  split
  · exact List.forall_mem_nil _
  · refine List.forall_mem_append.2 ⟨?_, (isWholePart_toDigits _).all⟩
    intro digit member
    rw [(List.mem_replicate.1 member).2]
    rfl

theorem length_lastPlaces : (lastPlaces places units).length = places := by
  rw [lastPlaces]
  split
  · rename_i none
    rw [none, List.length_nil]
  · rename_i some
    have short : (digitsOf (units % tenTo places)).length ≤ places :=
      (Nat.length_toDigits_le_iff (by decide) (Nat.pos_of_ne_zero some)).2
        (Nat.mod_lt _ (Nat.pow_pos (by decide)))
    rw [List.length_leftpad, max_eq_left short]

theorem ofDigitChars_lastPlaces :
    Nat.ofDigitChars 10 (lastPlaces places units) 0 =
      units % 10 ^ places := by
  rw [lastPlaces]
  split
  · rename_i none
    rw [none, Nat.ofDigitChars_nil, pow_zero, Nat.mod_one]
  · rw [List.leftpad, Nat.ofDigitChars_append,
      Nat.ofDigitChars_replicate_zero, Nat.mul_zero, digitsOf,
      Nat.ofDigitChars_ten_toDigits]
    rfl

theorem pointed_eq_append : pointed places units =
    digitsOf (units / tenTo places) ++
      DecimalText.afterPoint (lastPlaces places units) := by
  have empty : lastPlaces places units = [] ↔ places = 0 := by
    rw [← List.length_eq_zero_iff, length_lastPlaces]
  rw [pointed, DecimalText.afterPoint]
  split
  · rename_i none
    rw [if_pos (empty.2 none), List.append_nil]
  · rename_i some
    rw [if_neg (empty.not.2 some), lastPlaces, if_neg some]

end LastPlaces

namespace DecimalText

/-- So many units of the last decimal place. -/
def ofUnits (negative : Bool) (places units : Nat) : DecimalText where
  negative := negative
  whole := digitsOf (units / tenTo places)
  decimals := lastPlaces places units
  nonempty := Nat.toDigits_ne_nil
  wholeDigits := (isWholePart_toDigits _).all
  decimalDigits := isDigit_of_mem_lastPlaces places units

variable (negative : Bool) (places units : Nat)

theorem text_ofUnits : (ofUnits negative places units).text =
    signed negative (pointed places units) := by
  rw [pointed_eq_append]
  rfl

theorem length_decimals_ofUnits :
    (ofUnits negative places units).decimals.length = places :=
  length_lastPlaces places units

theorem units_ofUnits : (ofUnits negative places units).units = units := by
  have whole : Nat.ofDigitChars 10 (ofUnits negative places units).whole 0 =
      units / 10 ^ places := Nat.ofDigitChars_ten_toDigits
  have decimals : Nat.ofDigitChars 10
      (ofUnits negative places units).decimals 0 = units % 10 ^ places :=
    ofDigitChars_lastPlaces places units
  rw [DecimalText.units, ofDigitChars_append_digits, length_decimals_ofUnits,
    whole, decimals, Nat.div_add_mod]

theorem isFixed_ofUnits :
    IsFixed places (ofUnits negative places units).text :=
  ⟨ofUnits negative places units, rfl, isWholePart_toDigits _,
    length_decimals_ofUnits negative places units⟩

theorem size_ofUnits :
    (ofUnits negative places units).size = units / 10 ^ places := by
  rw [size, units_ofUnits, length_decimals_ofUnits]

/-- The text of a binary number is off by half a unit of its last place at
most. -/
theorem abs_value_ofUnits_sub_le (number : Binary) :
    2 * |(ofUnits number.negative places (number.inPlaces places)).value -
      number.value| ≤ 1 / 10 ^ places := by
  have scale : (0 : ℚ) < 10 ^ places := by positivity
  have rounded := abs_roundHalfEven_sub_le
    (number.fraction.1 * 10 ^ places) (d := number.fraction.2)
    (Nat.pow_pos (by decide))
  have values : |(ofUnits number.negative places
      (number.inPlaces places)).value - number.value| =
        |(number.inPlaces places : ℚ) / 10 ^ places -
          (number.fraction.1 : ℚ) / number.fraction.2| := by
    rw [value, size_ofUnits, Binary.value_eq_fraction]
    change |(if number.negative then _ else _) - _| = _
    cases number.negative with
    | false => rw [if_neg (by decide), if_neg (by decide), one_mul]
    | true => rw [if_pos rfl, if_pos rfl, neg_one_mul, ← neg_sub', abs_neg]
  calc
    2 * |(ofUnits number.negative places (number.inPlaces places)).value -
        number.value| =
      2 * |(number.inPlaces places : ℚ) / 10 ^ places -
        (number.fraction.1 : ℚ) / number.fraction.2| := by rw [values]
    _ = 2 * |((number.inPlaces places : ℚ) -
        (number.fraction.1 * 10 ^ places : Nat) / number.fraction.2) /
          10 ^ places| := by
      rw [sub_div, Nat.cast_mul, Nat.cast_pow, Nat.cast_ofNat, div_right_comm,
        mul_div_cancel_right₀ _ scale.ne']
    _ = 2 * |(number.inPlaces places : ℚ) -
        (number.fraction.1 * 10 ^ places : Nat) / number.fraction.2| /
          10 ^ places := by rw [abs_div, abs_of_pos scale, ← mul_div_assoc]
    _ ≤ 1 / 10 ^ places := div_le_div_of_nonneg_right rounded scale.le

end DecimalText

/-! ## The texts of a number -/

namespace Numeral

/-- The texts of a number with so many decimals: `text` has them all and
denotes the nearest number that has no more, and `short` has those that
count. -/
structure HasTexts (number : Numeral) (places : Nat)
    (text short : String) : Prop where
  fixed : number.fixedText places = .ok text
  trimmed : number.trimmedText places = .ok short
  form : IsFixed places text.toList
  nearest : ∃ x exact shown, number.toFloat = .ok x ∧
    exactValue? x = some exact ∧ Denotes text.toList shown ∧
      2 * |shown - exact| ≤ 1 / 10 ^ places
  short : IsShortOf short.toList text.toList

variable {number : Numeral}

theorem exists_toFloat (finite : number.isFinite = true) :
    ∃ x exact, number.toFloat = .ok x ∧ exactValue? x = some exact := by
  rw [isFinite] at finite
  split at finite
  · rename_i x nearest
    obtain ⟨exact, value⟩ := (isFinite_iff_exact x).1 finite
    exact ⟨x, exact, by rw [toFloat, nearest], value⟩
  · cases finite

theorem hasTexts_of_toFloat (places : Nat) {x : Float} {exact : ℚ}
    (double : number.toFloat = .ok x) (value : exactValue? x = some exact) :
    number.HasTexts places (Number.fixedText places x)
      (Number.trimmedText places x) := by
  obtain ⟨binary, finite, rfl⟩ := exists_meaning value
  have layout : fixed places x = (DecimalText.ofUnits binary.negative places
      (binary.inPlaces places)).text := by
    rw [fixed, finite, DecimalText.text_ofUnits]
  have form : IsFixed places (fixed places x) :=
    layout ▸ DecimalText.isFixed_ofUnits ..
  have text : (Number.fixedText places x).toList = fixed places x :=
    String.toList_ofList
  have short : (Number.trimmedText places x).toList = trim (fixed places x) :=
    String.toList_ofList
  constructor
  case fixed =>
    rw [Numeral.fixedText, double]
    rfl
  case trimmed =>
    rw [Numeral.trimmedText, double]
    rfl
  case form =>
    rw [text]
    exact form
  case nearest =>
    refine ⟨x, binary.value, _, double, value, ⟨_, ?_, rfl⟩,
      DecimalText.abs_value_ofUnits_sub_le places binary⟩
    rw [text, layout]
  case short =>
    rw [text, short]
    exact isShortOf_trim form

/-- Finite numbers have both texts, and two of them have the same trimmed text
exactly if their texts with all decimals denote the same number. -/
theorem trimmedText_canonical (places : Nat) {number other : Numeral}
    (finite : number.isFinite = true) (otherFinite : other.isFinite = true) :
    ∃ text short otherText otherShort,
      number.HasTexts places text short ∧
      other.HasTexts places otherText otherShort ∧
      (short = otherShort ↔
        ∃ q, Denotes text.toList q ∧ Denotes otherText.toList q) := by
  obtain ⟨x, exact, double, value⟩ := exists_toFloat finite
  obtain ⟨y, otherExact, otherDouble, otherValue⟩ := exists_toFloat otherFinite
  have texts := hasTexts_of_toFloat places double value
  have otherTexts := hasTexts_of_toFloat places otherDouble otherValue
  refine ⟨_, _, _, _, texts, otherTexts, ?_⟩
  rw [← trim_eq_trim_iff texts.form otherTexts.form, Number.trimmedText,
    Number.trimmedText, ← String.toList_inj, String.toList_ofList,
    String.toList_ofList, Number.fixedText, Number.fixedText,
    String.toList_ofList, String.toList_ofList]

/-- Just below zero, so that four decimals show a minus and zeros. -/
def faintMinus : Numeral :=
  .real (Float.ofBits 0xbee4f8b588e368f1)

theorem faintMinus_canonical :
    faintMinus.isFinite = true ∧ (whole 100).isFinite = true ∧
      faintMinus.HasTexts 4 "-0.0000" "0" ∧
      (whole 100).HasTexts 4 "100.0000" "100" ∧
      ¬ ∃ q, Denotes "-0.0000".toList q ∧ Denotes "100.0000".toList q := by
  have finite : faintMinus.isFinite = true := by decide +kernel
  have otherFinite : (whole 100).isFinite = true := by decide +kernel
  obtain ⟨text, short, otherText, otherShort, texts, otherTexts, alike⟩ :=
    trimmedText_canonical 4 finite otherFinite
  have shown : faintMinus.fixedText 4 = .ok "-0.0000" := by decide +kernel
  have trimmed : faintMinus.trimmedText 4 = .ok "0" := by decide +kernel
  have otherShown : (whole 100).fixedText 4 = .ok "100.0000" := by
    decide +kernel
  have otherTrimmed : (whole 100).trimmedText 4 = .ok "100" := by
    decide +kernel
  cases shown.symm.trans texts.fixed
  cases trimmed.symm.trans texts.trimmed
  cases otherShown.symm.trans otherTexts.fixed
  cases otherTrimmed.symm.trans otherTexts.trimmed
  exact ⟨finite, otherFinite, texts, otherTexts,
    fun both => absurd (alike.2 both) (by decide)⟩

end Numeral

end DesignTokens.Number
