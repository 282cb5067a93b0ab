import DesignTokens.Proofs.Number.DecimalText

/-!
# Trimmed decimal texts

A trimmed text denotes what it did, with the same digits before its point. Of
two texts with the same number of decimals, the trimmed ones are equal exactly
if they denote the same number.
-/

namespace DesignTokens.Number

/-! ## Dropping a character from the end -/

section Dropping

variable (mark : Char)

theorem dropTrailing_append (front back : List Char) :
    dropTrailing mark (front ++ back) =
      if dropTrailing mark back = [] then dropTrailing mark front
      else front ++ dropTrailing mark back := by
  simp only [dropTrailing, List.reverse_append, List.dropWhile_append,
    List.reverse_eq_nil_iff, List.isEmpty_iff]
  split
  · rfl
  · rw [List.reverse_append, List.reverse_reverse]

theorem dropTrailing_cons_of_ne {mark first : Char} (other : first ≠ mark)
    (rest : List Char) :
    dropTrailing mark (first :: rest) = first :: dropTrailing mark rest := by
  have cut := dropTrailing_append mark [first] rest
  have single : dropTrailing mark [first] = [first] := by
    rw [dropTrailing, List.reverse_singleton, List.dropWhile_cons,
      if_neg (mt eq_of_beq other)]
    rfl
  rw [List.singleton_append, single] at cut
  rw [cut]
  split
  · rename_i nothing
    rw [nothing]
  · rfl

theorem dropTrailing_eq_nil_iff (text : List Char) :
    dropTrailing mark text = [] ↔ ∀ letter ∈ text, letter = mark := by
  refine List.rdropWhile_eq_nil_iff.trans ?_
  simp only [beq_iff_eq]

theorem exists_eq_append_replicate (text : List Char) :
    ∃ count, text = dropTrailing mark text ++ List.replicate count mark := by
  refine ⟨(text.rtakeWhile (· == mark)).length, ?_⟩
  have marks : text.rtakeWhile (· == mark) =
      List.replicate (text.rtakeWhile (· == mark)).length mark :=
    List.eq_replicate_of_mem fun _ member =>
      eq_of_beq (List.mem_rtakeWhile_imp (p := (· == mark)) member)
  rw [← marks]
  exact (List.rdropWhile_append_rtakeWhile).symm

theorem getLast?_dropTrailing_ne (text : List Char) :
    (dropTrailing mark text).getLast? ≠ some mark := by
  intro last
  obtain ⟨front, same⟩ := List.getLast?_eq_some_iff.1 last
  have some : text.rdropWhile (· == mark) ≠ [] := by
    change dropTrailing mark text ≠ []
    rw [same]
    exact List.concat_ne_nil _ _
  apply List.rdropWhile_last_not (· == mark) text some
  rw [beq_iff_eq]
  exact Option.some.inj ((List.getLast?_eq_getLast_of_ne_nil some).symm.trans
    last)

variable {mark}

theorem dropTrailing_of_not_mem {text : List Char} (clear : mark ∉ text) :
    dropTrailing mark text = text := by
  obtain ⟨count, same⟩ := exists_eq_append_replicate mark text
  cases count with
  | zero =>
      rw [List.replicate_zero, List.append_nil] at same
      exact same.symm
  | succ count =>
      refine absurd ?_ clear
      rw [same]
      exact List.mem_append_right _
        (List.mem_replicate.2 ⟨Nat.succ_ne_zero _, rfl⟩)

theorem forall_mem_dropTrailing {text : List Char} {kind : Char → Prop}
    (all : ∀ letter ∈ text, kind letter) :
    ∀ letter ∈ dropTrailing mark text, kind letter := by
  intro letter member
  exact all letter ((List.rdropWhile_prefix _ text).mem member)

end Dropping

/-! ## Trimming a decimal text -/

theorem ofDigitChars_eq_zero_iff {digits : List Char}
    (all : ∀ digit ∈ digits, digit.isDigit = true) :
    Nat.ofDigitChars 10 digits 0 = 0 ↔ ∀ digit ∈ digits, digit = '0' := by
  have zeros :
      Nat.ofDigitChars 10 (List.replicate digits.length '0') 0 = 0 := by
    rw [Nat.ofDigitChars_replicate_zero, Nat.mul_zero]
  constructor
  · intro nothing
    have same : digits = List.replicate digits.length '0' := by
      apply eq_of_ofDigitChars_eq all _ List.length_replicate.symm
      · rw [nothing, zeros]
      · intro digit member
        rw [(List.mem_replicate.1 member).2]
        rfl
    exact (List.eq_replicate_iff.1 same).2
  · intro all
    rw [List.eq_replicate_of_mem all, zeros]

namespace DecimalText

variable (decimal : DecimalText)

/-- The same digits without the zeros at the end of the decimals. -/
def cut : DecimalText :=
  { decimal with
    decimals := dropTrailing '0' decimal.decimals
    decimalDigits := forall_mem_dropTrailing decimal.decimalDigits }

/-- Without zeros at the end of the decimals, and without the sign of
zero. -/
def short : DecimalText :=
  { decimal.cut with negative := decimal.negative && decimal.units != 0 }

@[simp]
theorem short_negative :
    decimal.short.negative = (decimal.negative && decimal.units != 0) := rfl

@[simp]
theorem short_whole : decimal.short.whole = decimal.whole := rfl

@[simp]
theorem short_decimals :
    decimal.short.decimals = dropTrailing '0' decimal.decimals := rfl

/-- Zero with a minus. -/
def minusZero : DecimalText where
  negative := true
  whole := ['0']
  decimals := []
  nonempty := List.cons_ne_nil _ _
  wholeDigits := List.forall_mem_singleton.2 rfl
  decimalDigits := List.forall_mem_nil _

theorem text_cut : decimal.cut.text =
    signed decimal.negative decimal.whole ++
      afterPoint (dropTrailing '0' decimal.decimals) :=
  text_eq_append _

/-- The point is dropped exactly if no decimal is left behind it. -/
theorem dropTrailing_point {digits : List Char} (clear : '.' ∉ digits) :
    dropTrailing '.' ('.' :: digits) = afterPoint digits := by
  have cut := dropTrailing_append '.' ['.'] digits
  rw [dropTrailing_of_not_mem clear] at cut
  exact cut

theorem dropTrailing_text :
    (if decimal.text.contains '.'
      then dropTrailing '.' (dropTrailing '0' decimal.text)
      else decimal.text) = decimal.cut.text := by
  have stem := dropTrailing_of_not_mem decimal.point_not_mem_signed_whole
  have clear : '.' ∉ dropTrailing '0' decimal.decimals := fun member =>
    absurd (decimal.cut.decimalDigits _ member) (by decide)
  have pointed : decimal.text.contains '.' = true ↔ decimal.decimals ≠ [] :=
    List.contains_iff_mem.trans decimal.point_mem_text_iff
  rw [text_cut]
  by_cases empty : decimal.decimals = []
  · rw [if_neg (pointed.not.2 (not_not_intro empty)), text_eq_append, empty]
    rfl
  · rw [if_pos (pointed.2 empty), text_eq_append, afterPoint, if_neg empty,
      dropTrailing_append, dropTrailing_cons_of_ne (by decide),
      if_neg (List.cons_ne_nil _ _), dropTrailing_append,
      dropTrailing_point clear, stem]
    split
    · rename_i nothing
      rw [nothing, List.append_nil]
    · rfl

variable {decimal}

theorem units_eq_zero_iff (plain : IsWholePart decimal.whole) :
    decimal.units = 0 ↔
      decimal.whole = ['0'] ∧ dropTrailing '0' decimal.decimals = [] := by
  rw [units, ofDigitChars_eq_zero_iff (List.forall_mem_append.2
    ⟨decimal.wholeDigits, decimal.decimalDigits⟩), List.forall_mem_append,
    dropTrailing_eq_nil_iff]
  apply and_congr_left'
  constructor
  · intro zeros
    obtain ⟨first, rest, same, -⟩ := decimal.exists_first
    apply plain.leading
    rw [same, List.head?_cons, zeros first (same ▸ List.mem_cons_self)]
  · intro zero
    rw [zero]
    exact List.forall_mem_singleton.2 rfl

theorem trim_text (plain : IsWholePart decimal.whole) :
    trim decimal.text = decimal.short.text := by
  simp only [trim, dropTrailing_text, decimal.cut.text_ne_nil, or_false]
  by_cases signedZero : decimal.negative = true ∧ decimal.units = 0
  · obtain ⟨negative, zero⟩ := signedZero
    obtain ⟨whole, nothing⟩ := (units_eq_zero_iff plain).1 zero
    rw [text_cut, text_eq_append decimal.short, short_negative, short_whole,
      short_decimals, negative, zero, whole, nothing]
    rfl
  · have other : decimal.cut.text ≠ ['-', '0'] := by
      intro same
      have parts : decimal.cut = minusZero := text_injective same
      exact signedZero ⟨congrArg negative parts, (units_eq_zero_iff plain).2
        ⟨congrArg whole parts, congrArg decimals parts⟩⟩
    have signs : (decimal.negative && decimal.units != 0) =
        decimal.negative := by
      cases negative : decimal.negative with
      | false => rfl
      | true => exact bne_iff_ne.2 fun zero => signedZero ⟨negative, zero⟩
    rw [if_neg other, text_cut, text_eq_append decimal.short, short_negative,
      short_whole, short_decimals, signs]

/-! ## What a trimmed text denotes -/

variable (decimal)

theorem units_eq_short : ∃ count,
    decimal.decimals.length = decimal.short.decimals.length + count ∧
      decimal.units = 10 ^ count * decimal.short.units := by
  obtain ⟨count, same⟩ := exists_eq_append_replicate '0' decimal.decimals
  rw [← short_decimals] at same
  refine ⟨count, ?_, ?_⟩
  · have lengths := congrArg List.length same
    rw [List.length_append, List.length_replicate] at lengths
    exact lengths
  · rw [units, same, ← List.append_assoc, Nat.ofDigitChars_append,
      Nat.ofDigitChars_replicate_zero, units, short_whole]

theorem size_short : decimal.short.size = decimal.size := by
  obtain ⟨count, places, same⟩ := decimal.units_eq_short
  have scale : (10 : ℚ) ^ count ≠ 0 := by positivity
  rw [size, size, places, same, pow_add, Nat.cast_mul, Nat.cast_pow,
    Nat.cast_ofNat, mul_comm ((10 : ℚ) ^ decimal.short.decimals.length),
    mul_div_mul_left _ _ scale]

/-- A trimmed text has a minus exactly if it denotes a negative number. -/
theorem negative_short_iff :
    decimal.short.negative = true ↔ decimal.value < 0 := by
  rw [value_neg_iff, short_negative, Bool.and_eq_true, bne_iff_ne]

theorem value_short : decimal.short.value = decimal.value := by
  rw [value, value, size_short, short_negative]
  by_cases zero : decimal.units = 0
  · rw [decimal.size_eq_zero_iff.2 zero, neg_zero, ite_self, ite_self]
  · rw [bne_iff_ne.2 zero, Bool.and_true]

variable {decimal}

/-- With the same number of decimals, the trimmed text follows from the
number. -/
theorem short_eq_iff {other : DecimalText} (plain : IsWholePart decimal.whole)
    (otherPlain : IsWholePart other.whole)
    (places : decimal.decimals.length = other.decimals.length) :
    decimal.short = other.short ↔ decimal.value = other.value := by
  constructor
  · intro same
    rw [← value_short, same, value_short]
  · intro same
    have scale : (10 : ℚ) ^ other.decimals.length ≠ 0 := by positivity
    have sizes : decimal.units = other.units := by
      have quotients := congrArg abs same
      rw [abs_value, abs_value, size, size, places, div_left_inj' scale]
        at quotients
      exact_mod_cast quotients
    have signs : decimal.short.negative = other.short.negative := by
      rw [Bool.eq_iff_iff, negative_short_iff, same, negative_short_iff]
    obtain ⟨wholes, decimals⟩ := eq_of_units_eq plain otherPlain places sizes
    exact DecimalText.ext signs wholes
      (congrArg (dropTrailing '0') decimals)

end DecimalText

open DecimalText (Denotes wholePart)

/-- A decimal text with this many decimals, and without needless zeros in
front. -/
def IsFixed (places : Nat) (text : List Char) : Prop :=
  ∃ decimal : DecimalText, decimal.text = text ∧
    IsWholePart decimal.whole ∧ decimal.decimals.length = places

/-- `short` denotes what `text` does, and keeps the digits before its point. It
does not end in a point or in a zero behind the point, nor is it zero with a
minus. -/
structure IsShortOf (short text : List Char) : Prop where
  denotes : ∀ q, Denotes short q ↔ Denotes text q
  whole : wholePart short = wholePart text
  point : short.getLast? ≠ some '.'
  zeros : '.' ∈ short → short.getLast? ≠ some '0'
  sign : short ≠ ['-', '0']

section Fixed

variable {places : Nat} {text other : List Char}

theorem isShortOf_trim (fixed : IsFixed places text) :
    IsShortOf (trim text) text := by
  obtain ⟨decimal, rfl, plain, -⟩ := fixed
  rw [DecimalText.trim_text plain]
  constructor
  case denotes =>
    intro q
    rw [DecimalText.denotes_text_iff, DecimalText.denotes_text_iff,
      DecimalText.value_short]
  case whole =>
    rw [DecimalText.wholePart_text, DecimalText.wholePart_text,
      DecimalText.short_whole]
  case point => exact decimal.short.getLast?_text_ne_point
  case zeros =>
    intro point
    rw [DecimalText.getLast?_text,
      if_neg (decimal.short.point_mem_text_iff.1 point),
      DecimalText.short_decimals]
    exact getLast?_dropTrailing_ne '0' decimal.decimals
  case sign =>
    intro same
    have parts : decimal.short = DecimalText.minusZero :=
      DecimalText.text_injective same
    have below := decimal.negative_short_iff.1
      (congrArg DecimalText.negative parts)
    have zero : decimal.units = 0 := (DecimalText.units_eq_zero_iff plain).2
      ⟨congrArg DecimalText.whole parts, congrArg DecimalText.decimals parts⟩
    exact (decimal.value_neg_iff.1 below).2 zero

theorem trim_eq_trim_iff (left : IsFixed places text)
    (right : IsFixed places other) :
    trim text = trim other ↔ ∃ q, Denotes text q ∧ Denotes other q := by
  obtain ⟨decimal, rfl, plain, length⟩ := left
  obtain ⟨second, rfl, otherPlain, otherLength⟩ := right
  rw [DecimalText.trim_text plain, DecimalText.trim_text otherPlain,
    DecimalText.text_injective.eq_iff,
    DecimalText.short_eq_iff plain otherPlain
      (length.trans otherLength.symm)]
  simp only [DecimalText.denotes_text_iff, exists_eq_left']
  exact eq_comm

end Fixed

end DesignTokens.Number
