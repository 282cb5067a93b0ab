import DesignTokens.Proofs.Acceptance.Grammar
import DesignTokens.Proofs.Success

/-!
# Accepted content is well formed

The checks of the tokens of each family accept exactly what the grammar
allows.
-/

namespace DesignTokens.Acceptance

open DesignTokens.Grammar DesignTokens.Success
open DesignTokens.Number (Numeral)

/-! ## Numbers and names -/

theorem isName_iff (value : Value) : isName value = true ↔ IsName value := by
  cases value <;> simp [isName, IsName]

theorem acceptUnit_iff (tokens : Entries) :
    acceptUnit tokens = .ok () ↔ Holds "unit" IsName tokens := by
  rw [acceptUnit, Holds]
  cases Entries.get? "unit" tokens with
  | none => simp
  | some value =>
      rw [Option.map_some, Option.getD_some]
      by_cases named : isName value = true
      · simp [named, (isName_iff value).1 named]
      · simp [named, mt (isName_iff value).2 named]

theorem exists_denotes_iff {value : Value} {kind : ℚ → Prop} :
    IsNumber kind value ↔ ∃ number, value.numeral? = some number ∧
      ∃ q, Numeral.value? number = some q ∧ kind q := by
  simp only [IsNumber, Denotes, Option.bind_eq_some_iff]
  constructor
  · rintro ⟨q, ⟨number, found, exact⟩, held⟩
    exact ⟨number, found, q, exact, held⟩
  · rintro ⟨number, found, q, exact, held⟩
    exact ⟨q, ⟨number, found, exact⟩, held⟩

/-- The numbers that meet a need. -/
def Need.Allows : Need → ℚ → Prop
  | .number => fun _ => True
  | .positive => (0 < ·)
  | .nonNegative => (0 ≤ ·)

theorem Need.meets_iff (need : Need) {number : Numeral} {q : ℚ}
    (exact : number.value? = some q) :
    need.meets number = true ↔ need.Allows q := by
  cases need with
  | number => exact iff_of_true rfl trivial
  | positive =>
      rw [Need.meets, Bool.not_eq_true', ← Bool.not_eq_true,
        Numeral.atMostZero_iff exact, not_le, Need.Allows]
  | nonNegative =>
      rw [Need.meets, Bool.not_eq_true', ← Bool.not_eq_true,
        Numeral.belowZero_iff exact, not_lt, Need.Allows]

/-- A finite number is one that has a value. -/
theorem finiteField?_eq_some_iff {name : String} {entries : Entries}
    {number : Numeral} :
    finiteField? name entries = some number ↔
      ∃ value, Entries.get? name entries = some value ∧
        value.numeral? = some number ∧ ∃ q, number.value? = some q := by
  rw [finiteField?, Option.filter_eq_some_iff, Option.bind_eq_some_iff,
    Numeral.isFinite_iff]
  constructor
  · rintro ⟨⟨value, found, counted⟩, exact⟩
    exact ⟨value, found, counted, exact⟩
  · rintro ⟨value, found, counted, exact⟩
    exact ⟨⟨value, found, counted⟩, exact⟩

theorem acceptNumber_iff (name : String) (need : Need) (tokens : Entries) :
    acceptNumber name need tokens = .ok () ↔
      Holds name (IsNumber need.Allows) tokens := by
  rw [acceptNumber]
  cases finite : finiteField? name tokens with
  | none =>
      refine iff_of_false nofun ?_
      rintro ⟨value, found, number⟩
      obtain ⟨number, counted, q, exact, _⟩ := exists_denotes_iff.1 number
      rw [finiteField?_eq_some_iff.2 ⟨value, found, counted, q, exact⟩]
        at finite
      cases finite
  | some number =>
      obtain ⟨value, found, counted, q, exact⟩ :=
        finiteField?_eq_some_iff.1 finite
      simp only [Holds, exists_denotes_iff, found, counted,
        Option.some.injEq, exists_eq_left', exact, ← need.meets_iff exact]
      by_cases meets : need.meets number = true <;> simp [meets]

theorem isStepCount_iff (value : Value) :
    isStepCount value = true ↔ IsStepCount value := by
  rw [isStepCount, IsStepCount]
  simp only [Denotes]
  cases value.numeral? with
  | none => simp
  | some number =>
      rw [Option.bind_some, Bool.and_eq_true, Numeral.isIntegral_iff,
        Bool.not_eq_true', ← Bool.not_eq_true]
      constructor
      · rintro ⟨⟨n, exact⟩, least⟩
        rw [Numeral.belowOne_iff exact, not_lt] at least
        exact ⟨n, exact, by exact_mod_cast least⟩
      · rintro ⟨n, exact, least⟩
        rw [Numeral.belowOne_iff exact, not_lt]
        exact ⟨⟨n, exact⟩, by exact_mod_cast least⟩

theorem acceptRange_iff (tokens : Entries) :
    acceptRange tokens = .ok () ↔ Holds "range" IsStepCount tokens := by
  rw [acceptRange, Holds]
  cases Entries.get? "range" tokens with
  | none => simp [isStepCount, Value.numeral?]
  | some value =>
      rw [Option.getD_some]
      by_cases counted : isStepCount value = true
      · simp [counted, (isStepCount_iff value).1 counted]
      · simp [counted, mt (isStepCount_iff value).2 counted]

/-! ## Colours -/

/-- An opacity is a finite number that is neither below zero nor above one. -/
theorem opacity_iff (value : Value) :
    (∃ opacity, value.numeral?.filter Numeral.isFinite = some opacity ∧
        (opacity.belowZero || opacity.aboveOne) = false) ↔
      IsNumber (fun q => 0 ≤ q ∧ q ≤ 1) value := by
  simp only [exists_denotes_iff, Option.filter_eq_some_iff,
    Numeral.isFinite_iff, Bool.or_eq_false_iff]
  constructor
  · rintro ⟨opacity, ⟨counted, q, exact⟩, low, high⟩
    rw [← Bool.not_eq_true, Numeral.belowZero_iff exact, not_lt] at low
    rw [← Bool.not_eq_true, Numeral.aboveOne_iff exact, not_lt] at high
    exact ⟨opacity, counted, q, exact, low, high⟩
  · rintro ⟨opacity, counted, q, exact, low, high⟩
    rw [← not_lt, ← Numeral.belowZero_iff exact, Bool.not_eq_true] at low
    rw [← not_lt, ← Numeral.aboveOne_iff exact, Bool.not_eq_true] at high
    exact ⟨opacity, ⟨counted, q, exact⟩, low, high⟩

theorem acceptLevels_iff (levels : Entries) :
    acceptLevels levels = .ok () ↔
      ∀ entry ∈ levels, IsName entry.1 ∧
        IsNumber (fun q => 0 ≤ q ∧ q ≤ 1) entry.2 := by
  induction levels with
  | nil => exact iff_of_true rfl nofun
  | cons entry rest inductionHypothesis =>
      obtain ⟨key, value⟩ := entry
      rw [List.forall_mem_cons, ← inductionHypothesis, IsName]
      cases key with
      | str level =>
          rw [acceptLevels]
          by_cases blank : level = ""
          · simp [blank]
          rw [if_neg blank]
          have number := opacity_iff value
          cases finite : value.numeral?.filter Numeral.isFinite with
          | none => simp [← number, finite]
          | some opacity =>
              rw [finite] at number
              simp only [Option.some.injEq, exists_eq_left', ← number]
              generalize (opacity.belowZero || opacity.aboveOne) = outside
              cases outside <;> simp [blank]
      | _ => simp [acceptLevels]

theorem acceptSchedule_iff (schedule : Value) :
    acceptSchedule schedule = .ok () ↔ IsSchedule schedule := by
  rw [acceptSchedule, IsSchedule]
  cases schedule with
  | map levels =>
      cases levels with
      | nil => simp [Value.entries?]
      | cons entry rest =>
          simp only [Value.entries?, acceptLevels_iff, Value.map.injEq,
            exists_eq_left', ne_eq, reduceCtorEq, not_false_eq_true, true_and]
  | _ => simp [Value.entries?]

theorem acceptScheduleField_iff (mode : Option String) (entries : Entries) :
    acceptScheduleField mode entries = .ok () ↔ HasSchedule entries := by
  rw [acceptScheduleField, either?_eq_spelled, HasSchedule]
  refine optionally_iff (fun absent => by rw [absent])
    (fun null => by rw [null]) fun value found present => ?_
  rw [found, ← acceptSchedule_iff, ← mapError_eq_ok (FamilyFault.schedule mode)]
  cases value <;> first | rfl | exact absurd rfl present

theorem acceptChannel_iff (name : String) (channels : Entries) :
    acceptChannel name channels = .ok () ↔
      Holds name (IsNumber fun _ => True) channels := by
  rw [← Need.Allows, ← acceptNumber_iff, acceptChannel, acceptNumber]
  cases finiteField? name channels <;> simp [Need.meets]

theorem acceptSpace_iff (channels : Entries) :
    acceptSpace channels = .ok () ↔
      ∀ value, Entries.get? "mode" channels = some value →
        value = .str "oklch" := by
  rw [acceptSpace]
  cases Entries.get? "mode" channels with
  | none => exact iff_of_true rfl nofun
  | some given =>
      simp only [Option.some.injEq, forall_eq', ← isText_iff]
      by_cases space : given.isText "oklch" = true <;> simp [space]

theorem acceptHue_iff (channels : Entries) :
    acceptHue channels = .ok () ↔
      Optionally (IsNumber fun _ => True) (Entries.get? "h" channels) := by
  rw [acceptHue]
  refine optionally_given_iff (fun missing => by rw [missing])
    fun value present => ?_
  have found := (given?_eq_some_iff.1 present).1
  rw [present]
  simp [acceptChannel_iff, Holds, found]

theorem acceptColor_iff (value : Value) :
    acceptColor value = .ok () ↔ IsColor value := by
  cases value with
  | null => exact iff_of_true rfl .null
  | color built => exact iff_of_true rfl (.built built)
  | map channels =>
      rw [acceptColor]
      simp only [check_bind_eq_ok, acceptSpace_iff, acceptChannel_iff,
        acceptHue_iff]
      constructor
      · rintro ⟨space, lightness, chroma, hue⟩
        exact .channels ⟨space, lightness, chroma, hue⟩
      · rintro (_ | _ | ⟨space, lightness, chroma, hue⟩)
        exact ⟨space, lightness, chroma, hue⟩
  | _ => exact iff_of_false nofun nofun

theorem acceptColors_iff (tokens : Entries) :
    acceptColors tokens = .ok () ↔
      ∀ entry ∈ tokens, IsName entry.1 ∧ IsColor entry.2 := by
  induction tokens with
  | nil => exact iff_of_true rfl nofun
  | cons entry rest inductionHypothesis =>
      obtain ⟨key, value⟩ := entry
      rw [List.forall_mem_cons, ← inductionHypothesis, ← acceptColor_iff,
        IsName]
      cases key with
      | str name =>
          rw [acceptColors]
          by_cases blank : name = ""
          · simp [blank]
          · rw [if_neg blank, check_bind_eq_ok, mapError_eq_ok]
            simp [blank]
      | _ => simp [acceptColors]

theorem acceptColorMode_iff (spacing : List String) (mode : PlainMode) :
    acceptColorMode mode = .ok () ↔ Content spacing .color mode := by
  rw [acceptColorMode]
  simp only [check_bind_eq_ok, mapError_eq_ok, acceptColors_iff,
    acceptScheduleField_iff]
  rfl

/-! ## Scales and widths -/

theorem acceptScale_iff (need : Need) (tokens : Entries) :
    acceptScale need tokens = .ok () ↔ IsScale need.Allows tokens := by
  rw [acceptScale]
  simp only [check_bind_eq_ok, acceptUnit_iff, acceptNumber_iff,
    acceptRange_iff]
  exact ⟨fun ⟨unit, base, least, count⟩ => ⟨unit, base, least, count⟩,
    fun ⟨unit, base, least, count⟩ => ⟨unit, base, least, count⟩⟩

theorem acceptTypography_iff (tokens : Entries) :
    acceptTypography tokens = .ok () ↔ IsTypeScale tokens := by
  rw [acceptTypography]
  simp only [check_bind_eq_ok, acceptUnit_iff, acceptNumber_iff,
    acceptRange_iff]
  constructor
  · rintro ⟨unit, base, least, increment, count⟩
    exact ⟨⟨unit, base, least, count⟩, increment⟩
  · rintro ⟨⟨unit, base, least, count⟩, increment⟩
    exact ⟨unit, base, least, increment, count⟩

theorem acceptWidth_iff (tokens : Entries) :
    acceptWidth tokens = .ok () ↔ IsWidth tokens := by
  rw [acceptWidth]
  simp only [check_bind_eq_ok, acceptUnit_iff, acceptNumber_iff]
  exact ⟨fun ⟨unit, size⟩ => ⟨unit, size⟩,
    fun ⟨unit, size⟩ => ⟨unit, size⟩⟩

/-! ## References -/

theorem isReference_iff (value : Value) :
    isReference value = true ↔ IsReference value := by
  cases value with
  | str held => simp [isReference, IsReference]
  | int n =>
      simp only [isReference, IsReference, decide_eq_true_eq, reduceCtorEq,
        false_or, Value.int.injEq]
      exact ⟨Int.eq_ofNat_of_zero_le, fun ⟨k, same⟩ => by omega⟩
  | _ => simp [isReference, IsReference]

theorem acceptOptionalUnit_iff (tokens : Entries) :
    acceptOptionalUnit tokens = .ok () ↔
      Optionally IsName (Entries.get? "unit" tokens) := by
  rw [acceptOptionalUnit]
  refine optionally_given_iff (fun missing => by rw [missing])
    fun value present => ?_
  have found := (given?_eq_some_iff.1 present).1
  rw [present]
  simp [acceptUnit_iff, Holds, found]

theorem acceptSpacingMode_iff (spacing : List String) (tokens : Entries) :
    acceptSpacingMode spacing tokens = .ok () ↔
      Optionally (fun value => ∃ name ∈ spacing, value = .str name)
        (spelled "spacingMode" "spacing_mode" tokens) := by
  rw [acceptSpacingMode, either?_eq_spelled]
  refine optionally_iff (fun absent => by rw [absent])
    (fun null => by rw [null]) fun value found present => ?_
  rw [found]
  cases value with
  | null => exact absurd rfl present
  | str name => by_cases known : name ∈ spacing <;> simp [known]
  | _ => simp

theorem acceptReferenceEntries_iff (tokens : Entries) :
    acceptReferenceEntries tokens = .ok () ↔
      ∀ entry ∈ tokens, ∃ name, entry.1 = .str name ∧ name ≠ "" ∧
        (name ∈ configurationKeys ∨ IsReference entry.2) := by
  induction tokens with
  | nil => exact iff_of_true rfl nofun
  | cons entry rest inductionHypothesis =>
      obtain ⟨key, value⟩ := entry
      rw [List.forall_mem_cons, ← inductionHypothesis, ← isReference_iff]
      cases key with
      | str name =>
          rw [acceptReferenceEntries]
          by_cases blank : name = ""
          · simp [blank]
          · rw [if_neg blank]
            simp only [Value.str.injEq, exists_eq_left', ne_eq, blank,
              not_false_eq_true, true_and, Bool.or_eq_true,
              List.contains_iff_mem]
            by_cases allowed : name ∈ configurationKeys ∨
              isReference value = true <;> simp [allowed]
      | _ => simp [acceptReferenceEntries]

theorem acceptReferences_iff (spacing : List String) (tokens : Entries) :
    acceptReferences spacing tokens = .ok () ↔
      IsReferences spacing tokens := by
  rw [acceptReferences]
  simp only [check_bind_eq_ok, acceptOptionalUnit_iff, acceptSpacingMode_iff,
    acceptReferenceEntries_iff]
  exact ⟨fun ⟨unit, spacingMode, entries⟩ => ⟨unit, spacingMode, entries⟩,
    fun ⟨unit, spacingMode, entries⟩ => ⟨unit, spacingMode, entries⟩⟩

end DesignTokens.Acceptance
