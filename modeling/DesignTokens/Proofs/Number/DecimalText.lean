import DesignTokens.Number.Layout
import Mathlib

/-!
# Decimal texts

A decimal text is a minus or none, digits, and further digits after a point. It
denotes one number, and it can be taken apart in one way. Without needless
zeros in front, all its digits follow from their number and from the place of
the point.
-/

namespace DesignTokens.Number

/-! ## Digits -/

theorem ofDigitChars_append_digits (front back : List Char) :
    Nat.ofDigitChars 10 (front ++ back) 0 =
      10 ^ back.length * Nat.ofDigitChars 10 front 0 +
        Nat.ofDigitChars 10 back 0 := by
  rw [Nat.ofDigitChars_append, Nat.ofDigitChars_eq_ofDigitChars_zero]

theorem ofDigitChars_concat (digits : List Char) (digit : Char) :
    Nat.ofDigitChars 10 (digits ++ [digit]) 0 =
      10 * Nat.ofDigitChars 10 digits 0 + (digit.toNat - '0'.toNat) := by
  rw [Nat.ofDigitChars_append, Nat.ofDigitChars_cons, Nat.ofDigitChars_nil]

theorem digit_lt_ten {digit : Char} (isDigit : digit.isDigit = true) :
    digit.toNat - '0'.toNat < 10 := by
  have most : digit.toNat ≤ '9'.toNat := (Char.isDigit_iff_toNat.1 isDigit).2
  have last : '9'.toNat = '0'.toNat + 9 := by decide
  omega

theorem toDigits_digit {digit : Char} (isDigit : digit.isDigit = true) :
    Nat.toDigits 10 (digit.toNat - '0'.toNat) = [digit] := by
  have small := digit_lt_ten isDigit
  have least : '0'.toNat ≤ digit.toNat := (Char.isDigit_iff_toNat.1 isDigit).1
  have zero : '0'.toNat = 48 := by decide
  rw [Nat.toDigits_of_lt_base small, List.cons.injEq]
  refine ⟨Char.toNat_inj.1 ?_, rfl⟩
  rw [Nat.toNat_digitChar_of_lt_ten small]
  omega

theorem ofDigitChars_lt {digits : List Char}
    (all : ∀ digit ∈ digits, digit.isDigit = true) :
    Nat.ofDigitChars 10 digits 0 < 10 ^ digits.length := by
  induction digits using List.reverseRecOn with
  | nil => simp
  | append_singleton front digit inductionHypothesis =>
      obtain ⟨frontDigits, lastDigit⟩ := List.forall_mem_append.1 all
      have before := inductionHypothesis frontDigits
      have last := digit_lt_ten (lastDigit digit List.mem_cons_self)
      rw [ofDigitChars_concat, List.length_append, List.length_singleton,
        Nat.pow_succ]
      omega

/-- The digits of a whole number: at least one, and no zero in front of
others. -/
structure IsWholePart (digits : List Char) : Prop where
  nonempty : digits ≠ []
  all : ∀ digit ∈ digits, digit.isDigit = true
  leading : digits.head? = some '0' → digits = ['0']

theorem head?_toDigits_ne_zero {n : Nat} (nonzero : n ≠ 0) :
    (Nat.toDigits 10 n).head? ≠ some '0' := by
  induction n using Nat.strongRecOn with
  | ind n inductionHypothesis =>
      by_cases small : n < 10
      · rw [Nat.toDigits_of_lt_base small, List.head?_cons, Ne,
          Option.some.injEq]
        intro zero
        have codes := congrArg Char.toNat zero
        have first : '0'.toNat = 48 := by decide
        rw [Nat.toNat_digitChar_of_lt_ten small] at codes
        omega
      · rw [Nat.toDigits_of_base_le (by decide) (by omega),
          List.head?_append_of_ne_nil _ Nat.toDigits_ne_nil]
        exact inductionHypothesis (n / 10) (by omega) (by omega)

theorem isWholePart_toDigits (n : Nat) : IsWholePart (Nat.toDigits 10 n) where
  nonempty := Nat.toDigits_ne_nil
  all _ member := Nat.isDigit_of_mem_toDigits (by decide) (by decide) member
  leading zero := by
    by_cases nothing : n = 0
    · rw [nothing, Nat.toDigits_zero]
    · exact absurd zero (head?_toDigits_ne_zero nothing)

/-- A whole number is written in one way. -/
theorem IsWholePart.toDigits_ofDigitChars {digits : List Char}
    (whole : IsWholePart digits) :
    Nat.toDigits 10 (Nat.ofDigitChars 10 digits 0) = digits := by
  induction digits using List.reverseRecOn with
  | nil => exact absurd rfl whole.nonempty
  | append_singleton front digit inductionHypothesis =>
      obtain ⟨frontDigits, lastDigit⟩ := List.forall_mem_append.1 whole.all
      have last := lastDigit digit List.mem_cons_self
      rw [ofDigitChars_concat]
      by_cases empty : front = []
      · rw [empty, Nat.ofDigitChars_nil, Nat.mul_zero, Nat.zero_add,
          toDigits_digit last]
        rfl
      · -- With a digit behind it, the front does not start with a zero.
        have counts : front.head? ≠ some '0' := by
          intro zero
          have lengths := congrArg List.length (whole.leading
            ((List.head?_append_of_ne_nil _ empty).trans zero))
          rw [List.length_append] at lengths
          exact empty (List.length_eq_zero_iff.1 (Nat.succ.inj lengths))
        have digitsOfFront := inductionHypothesis
          ⟨empty, frontDigits, fun zero => absurd zero counts⟩
        have positive : 0 < Nat.ofDigitChars 10 front 0 := by
          apply Nat.pos_of_ne_zero
          intro zero
          rw [zero, Nat.toDigits_zero] at digitsOfFront
          exact counts (by rw [← digitsOfFront]; rfl)
        rw [← Nat.toDigits_append_toDigits (by decide) positive
          (digit_lt_ten last), digitsOfFront, toDigits_digit last]

/-- Digits of one length and one number are the same: behind a one, they are
the digits of a whole number. -/
theorem eq_of_ofDigitChars_eq {digits others : List Char}
    (all : ∀ digit ∈ digits, digit.isDigit = true)
    (otherAll : ∀ digit ∈ others, digit.isDigit = true)
    (lengths : digits.length = others.length)
    (same : Nat.ofDigitChars 10 digits 0 = Nat.ofDigitChars 10 others 0) :
    digits = others := by
  have behindOne {tail : List Char}
      (tailDigits : ∀ digit ∈ tail, digit.isDigit = true) :
      Nat.toDigits 10 (10 ^ tail.length * Nat.ofDigitChars 10 ['1'] 0 +
        Nat.ofDigitChars 10 tail 0) = '1' :: tail := by
    rw [← ofDigitChars_append_digits]
    apply IsWholePart.toDigits_ofDigitChars
    exact ⟨List.cons_ne_nil _ _,
      List.forall_mem_cons.2 ⟨by decide, tailDigits⟩, by simp⟩
  have numerals := (behindOne all).symm
  rw [lengths, same, behindOne otherAll] at numerals
  exact (List.cons.inj numerals).2

/-! ## Texts and the numbers that they denote -/

/-- A decimal text in its parts: a minus or none, at least one digit before the
point and any digits after it. -/
@[ext]
structure DecimalText where
  negative : Bool
  whole : List Char
  decimals : List Char
  nonempty : whole ≠ []
  wholeDigits : ∀ digit ∈ whole, digit.isDigit = true
  decimalDigits : ∀ digit ∈ decimals, digit.isDigit = true

namespace DecimalText

/-- Decimals with the point before them; there is no point without
decimals. -/
def afterPoint (decimals : List Char) : List Char :=
  if decimals = [] then [] else '.' :: decimals

def text (decimal : DecimalText) : List Char :=
  signed decimal.negative (decimal.whole ++ afterPoint decimal.decimals)

/-- All digits as one whole number: how many units of the last place there
are. -/
def units (decimal : DecimalText) : Nat :=
  Nat.ofDigitChars 10 (decimal.whole ++ decimal.decimals) 0

def size (decimal : DecimalText) : ℚ :=
  decimal.units / 10 ^ decimal.decimals.length

def value (decimal : DecimalText) : ℚ :=
  if decimal.negative then -decimal.size else decimal.size

/-- What a text denotes as a decimal. -/
def Denotes (text : List Char) (q : ℚ) : Prop :=
  ∃ decimal : DecimalText, decimal.text = text ∧ decimal.value = q

/-! ## Taking a text apart -/

/-- The digits of a text before its point, without its sign. -/
def wholePart (text : List Char) : List Char :=
  (text.dropWhile (· == '-')).takeWhile Char.isDigit

variable (decimal : DecimalText)

theorem exists_first : ∃ first rest, decimal.whole = first :: rest ∧
    first.isDigit = true := by
  obtain ⟨first, rest, same⟩ := List.exists_cons_of_ne_nil decimal.nonempty
  exact ⟨first, rest, same,
    decimal.wholeDigits first (same ▸ List.mem_cons_self)⟩

theorem dropSign_text : decimal.text.dropWhile (· == '-') =
    decimal.whole ++ afterPoint decimal.decimals := by
  obtain ⟨first, rest, same, digit⟩ := decimal.exists_first
  have other : ¬ (first == '-') = true := by
    intro minus
    rw [eq_of_beq minus] at digit
    exact absurd digit (by decide)
  have unsigned : (decimal.whole ++ afterPoint decimal.decimals).dropWhile
      (· == '-') = decimal.whole ++ afterPoint decimal.decimals := by
    rw [same, List.cons_append, List.dropWhile_cons, if_neg other]
  rw [text, signed]
  split
  · rw [List.dropWhile_cons_of_pos (by decide), unsigned]
  · exact unsigned

theorem head?_text_eq_minus_iff :
    decimal.text.head? = some '-' ↔ decimal.negative = true := by
  obtain ⟨first, rest, same, digit⟩ := decimal.exists_first
  rw [text, signed, same]
  cases decimal.negative with
  | true => simp
  | false =>
      simp only [Bool.false_eq_true, if_false, List.cons_append,
        List.head?_cons, Option.some.injEq, iff_false]
      rintro rfl
      exact absurd digit (by decide)

theorem wholePart_text : wholePart decimal.text = decimal.whole := by
  rw [wholePart, dropSign_text,
    List.takeWhile_append_of_pos decimal.wholeDigits, afterPoint]
  split
  · exact List.append_nil _
  · rw [List.takeWhile_cons_of_neg (by decide), List.append_nil]

theorem text_ne_nil : decimal.text ≠ [] := by
  intro empty
  have whole := decimal.wholePart_text
  rw [empty] at whole
  exact decimal.nonempty whole.symm

theorem afterPoint_of_text :
    (decimal.text.dropWhile (· == '-')).dropWhile Char.isDigit =
      afterPoint decimal.decimals := by
  rw [dropSign_text, List.dropWhile_append_of_pos decimal.wholeDigits,
    afterPoint]
  split
  · rfl
  · rw [List.dropWhile_cons_of_neg (by decide)]

theorem tail_afterPoint (decimals : List Char) :
    (afterPoint decimals).tail = decimals := by
  rw [afterPoint]
  split
  · rename_i empty
    exact empty.symm
  · rfl

theorem text_injective : Function.Injective DecimalText.text := by
  intro left right same
  have signs : left.negative = right.negative := by
    rw [Bool.eq_iff_iff, ← head?_text_eq_minus_iff, same,
      head?_text_eq_minus_iff]
  have wholes : left.whole = right.whole := by
    rw [← wholePart_text, same, wholePart_text]
  have decimals : left.decimals = right.decimals := by
    rw [← tail_afterPoint left.decimals, ← afterPoint_of_text, same,
      afterPoint_of_text, tail_afterPoint]
  exact DecimalText.ext signs wholes decimals

/-- A text denotes one number at most. -/
theorem denotes_text_iff {q : ℚ} :
    Denotes decimal.text q ↔ decimal.value = q := by
  constructor
  · rintro ⟨other, same, value⟩
    rw [← value, text_injective same]
  · exact fun value => ⟨decimal, rfl, value⟩

/-- The last character of a text is the last decimal, or the last digit of a
text without decimals. -/
theorem getLast?_text : decimal.text.getLast? =
    if decimal.decimals = [] then decimal.whole.getLast?
    else decimal.decimals.getLast? := by
  have signless (body : List Char) (some : body ≠ []) :
      (signed decimal.negative body).getLast? = body.getLast? := by
    rw [signed]
    split
    · exact List.getLast?_cons_of_ne_nil some
    · rfl
  rw [text, signless _ (List.append_ne_nil_of_left_ne_nil decimal.nonempty _),
    afterPoint]
  split
  · rw [List.append_nil]
  · rename_i some
    rw [List.getLast?_append_of_ne_nil _ (List.cons_ne_nil _ _),
      List.getLast?_cons_of_ne_nil some]

theorem getLast?_text_ne_point : decimal.text.getLast? ≠ some '.' := by
  rw [getLast?_text]
  split
  · intro last
    exact absurd (decimal.wholeDigits _ (List.mem_of_getLast? last))
      (by decide)
  · intro last
    exact absurd (decimal.decimalDigits _ (List.mem_of_getLast? last))
      (by decide)

theorem point_not_mem_signed_whole :
    '.' ∉ signed decimal.negative decimal.whole := by
  have digits : '.' ∉ decimal.whole := fun point =>
    absurd (decimal.wholeDigits _ point) (by decide)
  rw [signed]
  split
  · exact List.not_mem_cons_of_ne_of_not_mem (by decide) digits
  · exact digits

theorem text_eq_append : decimal.text =
    signed decimal.negative decimal.whole ++ afterPoint decimal.decimals := by
  rw [text, signed, signed]
  split <;> rfl

theorem point_mem_text_iff : '.' ∈ decimal.text ↔ decimal.decimals ≠ [] := by
  rw [text_eq_append, List.mem_append, afterPoint]
  have sign := decimal.point_not_mem_signed_whole
  split
  · rename_i empty
    simp [sign, empty]
  · rename_i some
    simp [sign, some]

/-! ## Values -/

theorem size_nonneg : 0 ≤ decimal.size := by
  rw [size]
  positivity

theorem size_eq_zero_iff : decimal.size = 0 ↔ decimal.units = 0 := by
  rw [size, div_eq_zero_iff, Nat.cast_eq_zero]
  exact or_iff_left (by positivity)

theorem abs_value : |decimal.value| = decimal.size := by
  rw [value]
  split
  · rw [abs_neg, abs_of_nonneg decimal.size_nonneg]
  · exact abs_of_nonneg decimal.size_nonneg

theorem value_neg_iff : decimal.value < 0 ↔
    decimal.negative = true ∧ decimal.units ≠ 0 := by
  rw [value, ← decimal.size_eq_zero_iff.ne]
  cases decimal.negative with
  | false => simpa using decimal.size_nonneg
  | true =>
      rw [if_pos rfl, neg_lt_zero, decimal.size_nonneg.lt_iff_ne', Ne]
      exact (and_iff_right rfl).symm

/-! ## One way to write a number -/

/-- The digits on both sides of the point, from the number that they are
together. -/
theorem eq_of_units_eq {left right : DecimalText}
    (leftWhole : IsWholePart left.whole)
    (rightWhole : IsWholePart right.whole)
    (places : left.decimals.length = right.decimals.length)
    (same : left.units = right.units) :
    left.whole = right.whole ∧ left.decimals = right.decimals := by
  have parts (decimal : DecimalText) :
      Nat.ofDigitChars 10 decimal.whole 0 =
          decimal.units / 10 ^ decimal.decimals.length ∧
        Nat.ofDigitChars 10 decimal.decimals 0 =
          decimal.units % 10 ^ decimal.decimals.length := by
    -- The decimals are less than one unit before the point.
    have small := ofDigitChars_lt decimal.decimalDigits
    have scale : 0 < 10 ^ decimal.decimals.length := by positivity
    rw [units, ofDigitChars_append_digits, Nat.mul_add_div scale,
      Nat.mul_add_mod, Nat.div_eq_of_lt small, Nat.mod_eq_of_lt small]
    exact ⟨rfl, rfl⟩
  constructor
  · rw [← leftWhole.toDigits_ofDigitChars, (parts left).1, same, places,
      ← (parts right).1, rightWhole.toDigits_ofDigitChars]
  · apply eq_of_ofDigitChars_eq left.decimalDigits right.decimalDigits places
    rw [(parts left).2, (parts right).2, same, places]

end DecimalText

end DesignTokens.Number
