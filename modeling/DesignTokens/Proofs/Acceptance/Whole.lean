import DesignTokens.Proofs.Acceptance.Modes

/-!
# Accepted configurations are the well-formed ones
-/

namespace DesignTokens.Acceptance

open DesignTokens.Grammar DesignTokens.Success

/-! ## Families -/

/-- The check of a family. -/
def acceptor (spacing : List String) :
    Family → Value → Except FamilyFault (List PlainMode)
  | .color => acceptColorFamily
  | .spacing => acceptFamily (acceptScale .positive)
  | .gap | .borderRadius => acceptFamily (acceptReferences spacing)
  | .typography => acceptFamily acceptTypography
  | .borderWidth => acceptFamily acceptWidth
  | .time => acceptFamily (acceptScale .nonNegative)

theorem acceptFamily_iff {spacing : List String} (family : Family)
    {check : Entries → Except ContentFault Unit} (plain : family ≠ .color)
    (each : ∀ mode : PlainMode,
      check mode.tokens = .ok () ↔ Content spacing family mode)
    (value : Value) (modes : List PlainMode) :
    acceptFamily check value = .ok modes ↔
      ∃ entries, value = .map entries ∧
        IsFamily spacing family entries modes := by
  rw [acceptFamily, bind_eq_ok]
  constructor
  · rintro ⟨⟨entries, found⟩, shape, following⟩
    obtain ⟨⟨⟩, content, equal⟩ := bind_eq_ok.1 following
    cases equal
    obtain ⟨mapping, listed, nonempty, distinct⟩ :=
      (acceptModes_iff ..).1 shape
    refine ⟨entries, mapping, listed, nonempty, distinct,
      fun color => absurd color plain, fun mode member => ?_⟩
    have accepted := forM_eq_ok.1 content mode member
    exact (each mode).1 ((mapError_eq_ok _).1 accepted)
  · rintro ⟨entries, mapping, listed, nonempty, distinct, -, content⟩
    refine ⟨(entries, modes),
      (acceptModes_iff ..).2 ⟨mapping, listed, nonempty, distinct⟩,
      bind_eq_ok.2 ⟨(), forM_eq_ok.2 fun mode member => ?_, rfl⟩⟩
    exact (mapError_eq_ok _).2 ((each mode).2 (content mode member))

theorem acceptColorFamily_iff (spacing : List String) (value : Value)
    (modes : List PlainMode) :
    acceptColorFamily value = .ok modes ↔
      ∃ entries, value = .map entries ∧
        IsFamily spacing .color entries modes := by
  rw [acceptColorFamily, bind_eq_ok]
  constructor
  · rintro ⟨⟨entries, found⟩, shape, following⟩
    obtain ⟨⟨⟩, schedule, following⟩ := bind_eq_ok.1 following
    obtain ⟨⟨⟩, content, equal⟩ := bind_eq_ok.1 following
    cases equal
    obtain ⟨mapping, listed, nonempty, distinct⟩ :=
      (acceptModes_iff ..).1 shape
    exact ⟨entries, mapping, listed, nonempty, distinct,
      fun _ => (acceptScheduleField_iff ..).1 schedule, fun mode member =>
        (acceptColorMode_iff ..).1 (forM_eq_ok.1 content mode member)⟩
  · rintro ⟨entries, mapping, listed, nonempty, distinct, schedule, content⟩
    exact ⟨(entries, modes),
      (acceptModes_iff ..).2 ⟨mapping, listed, nonempty, distinct⟩,
      bind_eq_ok.2 ⟨(), (acceptScheduleField_iff ..).2 (schedule rfl),
        bind_eq_ok.2 ⟨(), forM_eq_ok.2 fun mode member =>
          (acceptColorMode_iff spacing mode).2 (content mode member), rfl⟩⟩⟩

/-- Every family is accepted exactly where it is well formed. -/
theorem acceptor_iff (spacing : List String) (family : Family) (value : Value)
    (modes : List PlainMode) :
    acceptor spacing family value = .ok modes ↔
      ∃ entries, value = .map entries ∧
        IsFamily spacing family entries modes := by
  cases family with
  | color => exact acceptColorFamily_iff spacing value modes
  | spacing =>
      exact acceptFamily_iff .spacing nofun (fun mode => acceptScale_iff ..)
        value modes
  | gap =>
      exact acceptFamily_iff .gap nofun (fun mode => acceptReferences_iff ..)
        value modes
  | typography =>
      exact acceptFamily_iff .typography nofun
        (fun mode => acceptTypography_iff _) value modes
  | borderRadius =>
      exact acceptFamily_iff .borderRadius nofun
        (fun mode => acceptReferences_iff ..) value modes
  | borderWidth =>
      exact acceptFamily_iff .borderWidth nofun (fun mode => acceptWidth_iff _)
        value modes
  | time =>
      exact acceptFamily_iff .time nofun (fun mode => acceptScale_iff ..)
        value modes

theorem acceptGiven_iff {family : Family}
    {check : Value → Except FamilyFault (List PlainMode)}
    {given : Option Value} {modes : List PlainMode} :
    acceptGiven family check given = .ok modes ↔
      (given = none → modes = []) ∧
        ∀ value, given = some value → check value = .ok modes := by
  cases given with
  | none => simp [acceptGiven, eq_comm]
  | some value => simp [acceptGiven, mapError_eq_ok]

/-! ## Configurations -/

theorem borderEntries_iff (config border : Entries) :
    borderEntries config = .ok border ↔
      (Entries.given? "border" config = none ∧ border = []) ∨
        Entries.given? "border" config = some (.map border) := by
  rw [borderEntries]
  cases Entries.given? "border" config with
  | none => simp [eq_comm]
  | some value => cases value <;> simp [eq_comm]

theorem needSpacing_iff (family : Family) (spacing given : Option Value) :
    needSpacing family spacing given = .ok () ↔
      (given ≠ none → spacing ≠ none) := by
  cases given <;> cases spacing <;> simp [needSpacing]

theorem acceptOverrides_iff (taken : List String) (family : Family)
    (modes : List PlainMode) :
    acceptOverrides taken family modes = .ok () ↔
      ∀ name ∈ taken, name ∉ overrideNames modes := by
  rw [acceptOverrides]
  cases found : (overrideNames modes).find? taken.contains with
  | none =>
      rw [List.find?_eq_none] at found
      refine iff_of_true rfl fun name member shared => ?_
      exact found name shared (List.contains_iff_mem.2 member)
  | some name =>
      refine iff_of_false nofun fun apart => ?_
      exact apart name
        (List.contains_iff_mem.1 (List.find?_some found))
        (List.mem_of_find?_eq_some found)

theorem familyValue_border {config border : Entries}
    (read : borderEntries config = .ok border) :
    familyValue config .borderRadius = Entries.given? "radius" border ∧
      familyValue config .borderWidth = Entries.given? "width" border := by
  rw [familyValue, familyValue]
  rcases (borderEntries_iff ..).1 read with ⟨absent, rfl⟩ | present
  · rw [absent]
    exact ⟨rfl, rfl⟩
  · rw [present]
    exact ⟨rfl, rfl⟩

/-- A value for each family. -/
def familywise {alpha : Type} (color spacing gap typography borderRadius
    borderWidth time : alpha) : Family → alpha
  | .color => color
  | .spacing => spacing
  | .gap => gap
  | .typography => typography
  | .borderRadius => borderRadius
  | .borderWidth => borderWidth
  | .time => time

/-- The check of the values of all families. -/
def acceptFamilies (given : Family → Option Value) : Except Fault Unit := do
  let check (names : List String) (family : Family) :=
    acceptGiven family (acceptor names family) (given family)
  needSpacing .gap (given .spacing) (given .gap)
  needSpacing .borderRadius (given .spacing) (given .borderRadius)
  let colors ← check [] .color
  let spacing ← check [] .spacing
  let names := spacing.map PlainMode.name
  let gap ← check names .gap
  let typography ← check names .typography
  let radius ← check names .borderRadius
  let width ← check names .borderWidth
  let _ ← check names .time
  let taken := overrideNames colors
  acceptOverrides taken .spacing spacing
  acceptOverrides taken .gap gap
  acceptOverrides taken .typography typography
  acceptOverrides taken .borderRadius radius
  acceptOverrides taken .borderWidth width

/-- A configuration is checked family by family. -/
theorem acceptEntries_eq (config : Entries) :
    acceptEntries config = (do
      if !familyFields.any fun name => (Entries.given? name config).isSome then
        throw .noFamily
      let _ ← borderEntries config
      acceptFamilies (familyValue config)) := by
  rw [acceptEntries]
  cases familyFields.any fun name => (Entries.given? name config).isSome with
  | false => rfl
  | true =>
      change (borderEntries config >>= _) = (borderEntries config >>= _)
      cases read : borderEntries config with
      | error fault => rfl
      | ok border =>
          obtain ⟨radius, width⟩ := familyValue_border read
          simp only [ok_bind, acceptFamilies, radius, width]
          rfl

/-- The steps of accepting a configuration, family by family. -/
theorem acceptEntries_steps (config : Entries) :
    acceptEntries config = .ok () ↔
      (familyFields.any fun name =>
        (Entries.given? name config).isSome) = true ∧
      (∃ border, borderEntries config = .ok border) ∧
      (∀ family ∈ [Family.gap, .borderRadius],
        needSpacing family (familyValue config .spacing)
          (familyValue config family) = .ok ()) ∧
      ∃ modes : Family → List PlainMode,
        (∀ family, acceptGiven family
          (acceptor ((modes .spacing).map PlainMode.name) family)
          (familyValue config family) = .ok (modes family)) ∧
        ∀ family ∈ Category.size.families,
          acceptOverrides (overrideNames (modes .color)) family
            (modes family) = .ok () := by
  rw [acceptEntries]
  by_cases given : (familyFields.any fun name =>
    (Entries.given? name config).isSome) = true
  · simp only [given, Bool.not_true, Bool.false_eq_true, if_false,
      true_and, bind_eq_ok]
    constructor
    · rintro ⟨border, read, ⟨⟩, gapNeeds, ⟨⟩, radiusNeeds, color, colors,
        spacing, spacings, gap, gaps, typography, typographies, radius, radii,
        width, widths, time, times, ⟨⟩, apartSpacing, ⟨⟩, apartGap, ⟨⟩,
        apartTypography, ⟨⟩, apartRadius, apartWidth⟩
      obtain ⟨radiusValue, widthValue⟩ := familyValue_border read
      rw [← radiusValue] at radiusNeeds radii
      rw [← widthValue] at widths
      refine ⟨⟨border, read⟩, ?_, familywise color spacing gap typography
        radius width time, fun family => ?_, ?_⟩
      · simpa using ⟨gapNeeds, radiusNeeds⟩
      · cases family <;> assumption
      · simpa [Category.families, Category.leading, Category.following] using
          ⟨apartSpacing, apartGap, apartTypography, apartRadius, apartWidth⟩
    · rintro ⟨⟨border, read⟩, needs, modes, accepted, isolated⟩
      obtain ⟨radiusValue, widthValue⟩ := familyValue_border read
      have radii := accepted .borderRadius
      have widths := accepted .borderWidth
      have radiusNeeds := needs .borderRadius (by simp)
      rw [radiusValue] at radii radiusNeeds
      rw [widthValue] at widths
      exact ⟨border, read, (), needs .gap (by simp), (), radiusNeeds,
        modes .color, accepted .color, modes .spacing, accepted .spacing,
        modes .gap, accepted .gap, modes .typography, accepted .typography,
        modes .borderRadius, radii, modes .borderWidth, widths, modes .time,
        accepted .time, (), isolated .spacing (by decide), (),
        isolated .gap (by decide), (), isolated .typography (by decide), (),
        isolated .borderRadius (by decide),
        isolated .borderWidth (by decide)⟩
  · refine iff_of_false ?_ fun steps => given steps.1
    rw [Bool.not_eq_true] at given
    rw [given]
    intro accepted
    cases accepted

theorem borderEntries_isOk (config : Entries) :
    (∃ border, borderEntries config = .ok border) ↔
      Optionally (fun value => ∃ entries, value = .map entries)
        (Entries.get? "border" config) := by
  simp only [borderEntries_iff]
  refine optionally_given_iff (fun missing => ⟨[], .inl ⟨missing, rfl⟩⟩)
    fun value present => ?_
  rw [present]
  simp

theorem acceptGiven_acceptor_iff {spacing : List String} {family : Family}
    {given : Option Value} {modes : List PlainMode} :
    acceptGiven family (acceptor spacing family) given = .ok modes ↔
      (given = none → modes = []) ∧
        ∀ value, given = some value → ∃ entries, value = .map entries ∧
          IsFamily spacing family entries modes := by
  simp only [acceptGiven_iff, acceptor_iff]

/-- Accepted entries are well formed, and well-formed ones are accepted. -/
theorem acceptEntries_iff (config : Entries) :
    acceptEntries config = .ok () ↔ ∃ modes, WellFormed config modes := by
  rw [acceptEntries_steps, borderEntries_isOk]
  simp only [List.any_eq_true, Option.isSome_iff_exists, needSpacing_iff,
    acceptGiven_acceptor_iff, acceptOverrides_iff]
  constructor
  · rintro ⟨someFamily, border, needs, modes, accepted, isolated⟩
    have distinct (family : Family) :=
      names_nodup (accepted family).1 (accepted family).2
    refine ⟨modes, someFamily, border, needs, fun family =>
      (accepted family).1, fun family => (accepted family).2,
      fun family member name colors sizes => ?_⟩
    exact isolated family member name
      ((mem_overrideNames_iff (distinct .color) name).2 colors)
      ((mem_overrideNames_iff (distinct family) name).2 sizes)
  · rintro ⟨modes, wellFormed⟩
    have distinct := wellFormed.distinct
    refine ⟨wellFormed.someFamily, wellFormed.border,
      wellFormed.needsSpacing, modes, fun family =>
        ⟨wellFormed.absent family, wellFormed.present family⟩,
      fun family member name colors sizes => ?_⟩
    exact wellFormed.isolated family member name
      ((mem_overrideNames_iff (distinct .color) name).1 colors)
      ((mem_overrideNames_iff (distinct family) name).1 sizes)

/-- The accepted configurations are exactly the well-formed ones. -/
theorem accept_iff_wellFormed (config : Value) :
    accept config = .ok () ↔ ∃ entries modes,
      config = .map entries ∧ WellFormed entries modes := by
  cases config with
  | map entries => simp [accept, acceptEntries_iff]
  | _ => simp [accept]

end DesignTokens.Acceptance
