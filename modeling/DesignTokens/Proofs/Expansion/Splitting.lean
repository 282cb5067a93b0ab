import DesignTokens.Proofs.Expansion.Assembly

/-!
# Modes are split alike wherever they are split

The modes of a family are split into the default and the overrides twice: as
they are accepted, and as they are expanded. A flag may be missing, null, false
or true, and have either spelling. Both times the first flagged mode is the
default, or the first mode where none is flagged, and the others are overrides
in declaration order.
-/

namespace DesignTokens

open Acceptance (PlainMode)
open Grammar Schema

/-- How the typed modes of a family are split, and that the plain modes that
they are read from have overrides of the same names. -/
structure Divides {alpha : Type} (plain : List PlainMode)
    (typed : Modes alpha) (default : Mode alpha) : Prop where
  chosen : typed.default = .ok default
  first : (typed.find? Modes.flagged).or typed.head? = some default
  others : typed.overrides =
    typed.filter fun mode => mode.name ≠ default.name
  complete : (default :: typed.overrides).Perm typed
  once : ((default :: typed.overrides).map Mode.name).Nodup
  plainly : Acceptance.overrideNames plain = typed.overrides.map Mode.name
  notices : typed.notices =
    if 2 ≤ typed.countP Modes.flagged then
      [.severalDefaults default.name
        ((typed.filter Modes.flagged).tail.map Mode.name)]
    else []

section Modes

variable {alpha : Type} {readContent : Entries → Checked alpha}

theorem Modes.default_of_split {typed earlier later : Modes alpha}
    {default : Mode alpha}
    (split : Selection.Split flagged typed earlier default later) :
    typed.default = .ok default := by
  rw [Modes.default, split.default?_eq]

theorem Modes.notices_of_split {typed earlier later : Modes alpha}
    {default : Mode alpha}
    (split : Selection.Split flagged typed earlier default later) :
    typed.notices =
      if 2 ≤ typed.countP flagged then
        [.severalDefaults default.name
          ((typed.filter flagged).tail.map Mode.name)]
      else [] := by
  rw [Modes.notices, split.contenders_eq]
  by_cases several : 2 ≤ typed.countP flagged
  · rw [if_pos several, if_pos several]
  · rw [if_neg several, if_neg several]

theorem exists_divides {plain : List PlainMode} {typed : Modes alpha}
    (areTyped : List.Forall₂ (Typed readContent) plain typed)
    (nonempty : typed ≠ []) (distinct : (plain.map PlainMode.name).Nodup) :
    ∃ default, Divides plain typed default := by
  obtain ⟨earlier, default, later, split⟩ :=
    Selection.exists_split Modes.flagged nonempty
  have names : (typed.map Mode.name).Nodup := by
    rwa [names_of_typed areTyped]
  have complete := Selection.perm_default_overrides split.default?_eq
  exact ⟨default, {
    chosen := Modes.default_of_split split
    first := split.first_eq
    others := split.overrides_eq_filter names
    complete := complete
    once := (complete.map Mode.name).nodup_iff.2 names
    plainly := (overrides_of_typed areTyped).symm
    notices := Modes.notices_of_split split }⟩

/-- A family that is missing in a configuration is missing in the design
system, too; the modes of any other one are accepted and are split as their
typed modes are. -/
def SplitsAlike (value : Option Value) (given : Option (Modes alpha)) :
    Prop :=
  (value = none ∧ given = none) ∨
    ∃ family entries plain typed default, value = some family ∧
      Acceptance.acceptModes family = .ok (entries, plain) ∧
      given = some typed ∧ Divides plain typed default

theorem splitsAlike_of_matches {config : Entries}
    {modes : Family → List PlainMode} {family : Family}
    {given : Option (Modes alpha)} (wellFormed : WellFormed config modes)
    (matched : Matches readContent (modes family) given) :
    SplitsAlike (familyValue config family) given := by
  cases valued : familyValue config family with
  | none =>
      rw [wellFormed.absent family valued] at matched
      cases matched with
      | absent => exact .inl ⟨rfl, rfl⟩
      | present nonempty => exact absurd rfl nonempty
  | some value =>
      obtain ⟨entries, rfl, isFamily⟩ :=
        wellFormed.present family value valued
      have accepted : Acceptance.acceptModes (.map entries) =
          .ok (entries, modes family) :=
        (Acceptance.acceptModes_iff ..).2 ⟨rfl, isFamily.listed,
          isFamily.nonempty, isFamily.distinct⟩
      generalize modes family = plain at accepted matched isFamily
      cases matched with
      | absent => exact absurd rfl isFamily.nonempty
      | present nonempty areTyped =>
          rename_i typed
          have typedNonempty : typed ≠ [] := by
            rintro rfl
            cases areTyped
            exact nonempty rfl
          obtain ⟨default, divides⟩ :=
            exists_divides areTyped typedNonempty isFamily.distinct
          exact .inr ⟨_, entries, plain, typed, default, rfl, accepted, rfl,
            divides⟩

end Modes

/-- All families of a design system are split as they are in its
configuration. -/
structure DesignSystem.SplitsAlike (config : Entries)
    (system : DesignSystem) : Prop where
  color : DesignTokens.SplitsAlike (familyValue config .color)
    (system.colors.map ColorFamily.modes)
  spacing : DesignTokens.SplitsAlike (familyValue config .spacing)
    system.spacing
  gap : DesignTokens.SplitsAlike (familyValue config .gap) system.gap
  typography : DesignTokens.SplitsAlike (familyValue config .typography)
    system.typography
  borderRadius : DesignTokens.SplitsAlike (familyValue config .borderRadius)
    (system.border.bind Border.radius)
  borderWidth : DesignTokens.SplitsAlike (familyValue config .borderWidth)
    (system.border.bind Border.width)
  time : DesignTokens.SplitsAlike (familyValue config .time) system.time

/-- The modes of every family of an accepted configuration are split alike in
the configuration and in the design system that is read from it. There is one
notice, about all flagged modes, exactly if several are flagged. -/
theorem modes_split_alike {config : Value} {system : DesignSystem}
    (accepted : Acceptance.accept config = .ok ())
    (read : DesignSystem.read config = .accepted system) :
    ∃ entries, config = .map entries ∧
      DesignSystem.SplitsAlike entries system := by
  obtain ⟨entries, modes, rfl, wellFormed, readFrom⟩ :=
    exists_modes accepted read
  exact ⟨entries, rfl, {
    color := splitsAlike_of_matches wellFormed readFrom.color
    spacing := splitsAlike_of_matches wellFormed readFrom.spacing
    gap := splitsAlike_of_matches wellFormed readFrom.gap
    typography := splitsAlike_of_matches wellFormed readFrom.typography
    borderRadius := splitsAlike_of_matches wellFormed readFrom.borderRadius
    borderWidth := splitsAlike_of_matches wellFormed readFrom.borderWidth
    time := splitsAlike_of_matches wellFormed readFrom.time }⟩

/-- Spacing whose flags are false, null beside another spelling, true in either
spelling, and missing. -/
def mixedFlags : Value :=
  let mode (name : String) (base : Int) (flags : Entries) : Value :=
    .map ((.str "name", .str name) :: flags ++
      [(.str "tokens", .map (writtenScale base (.int 1)))])
  .map [(.str "spacing", .map [(.str "modes", .list
    [mode "tiny" 2 [(.str "isDefault", .bool false)],
      mode "small" 4 [(.str "isDefault", .null),
        (.str "is_default", .bool true)],
      mode "regular" 8 [(.str "is_default", .bool true)],
      mode "wide" 16 [(.str "isDefault", .bool true),
        (.str "is_default", .null)],
      mode "huge" 32 []])])]

theorem mixedFlags_split_alike :
    ∃ entries system spacing, Acceptance.accept mixedFlags = .ok () ∧
      DesignSystem.read mixedFlags = .accepted system ∧
      mixedFlags = .map entries ∧
      DesignSystem.SplitsAlike entries system ∧
      system.spacing = some spacing ∧
      spacing.overrides.map Mode.name = ["tiny", "small", "wide", "huge"] ∧
      spacing.notices = [.severalDefaults "regular" ["wide"]] := by
  have accepted : Acceptance.accept mixedFlags = .ok () := rfl
  have read : ∃ system, DesignSystem.read mixedFlags = .accepted system ∧
      ∃ spacing, system.spacing = some spacing ∧
        spacing.overrides.map Mode.name =
          ["tiny", "small", "wide", "huge"] ∧
        spacing.notices = [.severalDefaults "regular" ["wide"]] :=
    ⟨_, rfl, _, rfl, rfl, rfl⟩
  obtain ⟨system, read, spacing, given, names, notices⟩ := read
  obtain ⟨entries, mapping, alike⟩ := modes_split_alike accepted read
  exact ⟨entries, system, spacing, accepted, read, mapping, alike, given,
    names, notices⟩

end DesignTokens
