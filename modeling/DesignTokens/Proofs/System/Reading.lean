import DesignTokens.Generation
import DesignTokens.Proofs.Acceptance.Whole
import DesignTokens.Proofs.System.Scalar

/-!
# Accepted configurations can be read

The typed reading of an accepted configuration fails for one reason only: a
number of steps is written as a double that is too large a whole number.
-/

namespace DesignTokens

open Acceptance (PlainMode)
open Grammar Schema Schema.Checked Success

/-! ## Modes -/

section Modes

variable {alpha : Type} {readContent : Entries → Checked alpha}

theorem succeeds_readMode {item : Value} {mode : PlainMode}
    (isMode : IsMode item mode) :
    (Mode.read readContent item).Succeeds ↔
      (readContent mode.entries).Succeeds := by
  have name : (field "name" "name" text mode.entries).Succeeds :=
    succeeds_field.2 ⟨.str mode.name, (spelled_self ..).trans isMode.name,
      mode.name, rfl⟩
  have flag : (fieldOr "isDefault" "is_default" (some false)
      (nullable Schema.flag) mode.entries).Succeeds :=
    succeeds_fieldOr.2 fun _ found => flag_of_optionally isMode.flag found
  rw [isMode.mapping, Mode.read, model, succeeds_seq, succeeds_seq,
    succeeds_map]
  exact ⟨And.right, fun content => ⟨⟨name, flag⟩, content⟩⟩

theorem succeeds_readModes {spacing : List String} {family : Family}
    {entries : Entries} {modes : List PlainMode}
    (isFamily : IsFamily spacing family entries modes) :
    (field "modes" "modes" (listOf (Mode.read readContent))
        entries).Succeeds ↔
      ∀ mode ∈ modes, (readContent mode.entries).Succeeds := by
  obtain ⟨value, given, items, listed, areModes⟩ := isFamily.listed
  rw [succeeds_field, spelled_self, given]
  simp only [Option.some.injEq, exists_eq_left']
  rw [listOf_of_lists listed, succeeds_readItems]
  clear listed given isFamily
  induction areModes with
  | nil => simp
  | cons isMode _ inductionHypothesis =>
      rw [List.forall_mem_cons, List.forall_mem_cons, inductionHypothesis,
        succeeds_readMode isMode]

theorem succeeds_readTokens {read : Reader alpha} {item : Value}
    {mode : PlainMode} (isMode : IsMode item mode) :
    (readTokens read mode.entries).Succeeds ↔
      (read (.map mode.tokens)).Succeeds := by
  rw [readTokens, succeeds_field, spelled_self, isMode.tokens]
  simp

end Modes

/-! ## Content -/

theorem succeeds_name {field : String} {tokens : Entries}
    (held : Holds field IsName tokens) :
    (Schema.field field field text tokens).Succeeds := by
  obtain ⟨value, found, name⟩ := held
  exact succeeds_field.2
    ⟨value, (spelled_self ..).trans found, text_of_isName name⟩

theorem succeeds_number {kind : ℚ → Prop} {field : String}
    {tokens : Entries} (held : Holds field (IsNumber kind) tokens) :
    (Schema.field field field real tokens).Succeeds := by
  obtain ⟨value, found, number⟩ := held
  exact succeeds_field.2
    ⟨value, (spelled_self ..).trans found, real_of_isNumber number⟩

theorem succeeds_count {tokens : Entries}
    (held : Holds "range" IsStepCount tokens) :
    (Schema.field "range" "range" whole tokens).Succeeds ↔
      ¬ Holds "range" IsWide tokens := by
  obtain ⟨value, found, n, denotes, positive⟩ := held
  rw [succeeds_field, spelled_self, Holds, found]
  simp only [Option.some.injEq, exists_eq_left']
  rcases whole_of_isStepCount denotes positive with
    ⟨read, narrow⟩ | ⟨failed, wide⟩
  · exact iff_of_true ⟨n, read⟩ narrow
  · exact iff_of_false failed (not_not.2 wide)

theorem succeeds_readScale {base : ℚ → Prop} {tokens : Entries}
    (isScale : IsScale base tokens) :
    (Scale.read (.map tokens)).Succeeds ↔
      ¬ Holds "range" IsWide tokens := by
  rw [Scale.read, model, succeeds_seq, succeeds_seq, succeeds_seq,
    succeeds_map, succeeds_count isScale.count]
  exact ⟨And.right, fun narrow => ⟨⟨⟨succeeds_name isScale.unit,
    succeeds_number isScale.base⟩, succeeds_number isScale.least⟩, narrow⟩⟩

theorem succeeds_readTypeScale {tokens : Entries}
    (isScale : IsTypeScale tokens) :
    (TypeScale.read (.map tokens)).Succeeds ↔
      ¬ Holds "range" IsWide tokens := by
  rw [TypeScale.read, model, succeeds_seq, succeeds_seq, succeeds_seq,
    succeeds_seq, succeeds_map, succeeds_count isScale.count]
  exact ⟨And.right, fun narrow => ⟨⟨⟨⟨succeeds_name isScale.unit,
    succeeds_number isScale.base⟩, succeeds_number isScale.least⟩,
    succeeds_number isScale.increment⟩, narrow⟩⟩

theorem succeeds_readWidth {tokens : Entries} (isWidth : IsWidth tokens) :
    (Width.read (.map tokens)).Succeeds := by
  rw [Width.read, model, succeeds_seq, succeeds_map]
  exact ⟨succeeds_name isWidth.unit, succeeds_number isWidth.size⟩

/-- A field that may be absent or null can be read where its value can. -/
theorem succeeds_optional {alpha : Type} {name alternative : String}
    {read : Reader alpha} {entries : Entries} (good : Value → Prop)
    (optional : Optionally good (spelled name alternative entries))
    (each : ∀ value, good value → (read value).Succeeds) :
    (fieldOr name alternative none (nullable read) entries).Succeeds :=
  succeeds_fieldOr.2 fun value found =>
    succeeds_nullable.2 ((optional value found).imp_right (each value))

theorem succeeds_referenceEntries {spelling : String} {tokens : Entries}
    (named : ∀ entry ∈ tokens, ∃ name, entry.1 = .str name) :
    (References.readEntries spelling tokens).Succeeds := by
  induction tokens with
  | nil => exact succeeds_accepted []
  | cons entry rest inductionHypothesis =>
      obtain ⟨key, value⟩ := entry
      rw [List.forall_mem_cons] at named
      obtain ⟨⟨name, rfl⟩, others⟩ := named
      rw [References.readEntries]
      split
      · exact inductionHypothesis others
      · exact succeeds_map.2 (inductionHypothesis others)

theorem succeeds_readReferences {spacing : List String} {tokens : Entries}
    (isReferences : IsReferences spacing tokens) :
    (References.read (.map tokens)).Succeeds := by
  rw [References.read, model, succeeds_seq, succeeds_seq, succeeds_map]
  refine ⟨⟨succeeds_optional IsName ?_ fun _ => text_of_isName,
    succeeds_optional _ isReferences.spacingMode ?_⟩,
    succeeds_referenceEntries fun entry member => ?_⟩
  · rw [spelled_self]
    exact isReferences.unit
  · rintro _ ⟨name, _, rfl⟩
    exact ⟨name, rfl⟩
  · obtain ⟨name, key, _⟩ := isReferences.entries entry member
    exact ⟨name, key⟩

theorem succeeds_readKey {key : Value} (name : IsName key) :
    (readKey key).Succeeds := by
  rw [readKey, succeeds_within, succeeds_within]
  exact text_of_isName name

theorem succeeds_readSchedule {entries : Entries}
    (hasSchedule : HasSchedule entries) :
    (readSchedule entries).Succeeds := by
  refine succeeds_optional _ hasSchedule ?_
  rintro _ ⟨levels, rfl, _, each⟩
  rw [recordOf, succeeds_readEntries]
  intro entry member
  obtain ⟨name, opacity⟩ := each entry member
  exact ⟨succeeds_readKey name, real_of_isNumber opacity⟩

theorem succeeds_readChannels {channels : Entries}
    (isChannels : IsChannels channels) :
    (Oklch.readEntries channels).Succeeds := by
  rw [Oklch.readEntries, succeeds_seq, succeeds_seq, succeeds_seq,
    succeeds_map]
  refine ⟨⟨⟨succeeds_fieldOr.2 fun value found => ?_,
    succeeds_number isChannels.lightness⟩,
    succeeds_number isChannels.chroma⟩,
    succeeds_optional (IsNumber fun _ => True) ?_
      fun _ => real_of_isNumber⟩
  · rw [spelled_self] at found
    rw [isChannels.space value found]
    exact ⟨(), rfl⟩
  · rw [spelled_self]
    exact isChannels.hue

theorem succeeds_readColor {value : Value} (isColor : IsColor value) :
    (nullable Oklch.read value).Succeeds := by
  cases isColor with
  | null => exact ⟨none, rfl⟩
  | built color => exact ⟨some color, rfl⟩
  | channels isChannels =>
      exact succeeds_nullable.2 (.inr (succeeds_readChannels isChannels))

theorem succeeds_readPalette {spacing : List String} {item : Value}
    {mode : PlainMode} (isMode : IsMode item mode)
    (content : Content spacing .color mode) :
    (Palette.read mode.entries).Succeeds := by
  obtain ⟨colors, schedule⟩ := content
  rw [Palette.read, succeeds_seq, succeeds_map]
  refine ⟨succeeds_fieldOr.2 fun value found => ?_,
    succeeds_readSchedule schedule⟩
  rw [spelled_self, isMode.tokens] at found
  cases found
  rw [recordOf, succeeds_readEntries]
  intro entry member
  obtain ⟨name, color⟩ := colors entry member
  exact ⟨succeeds_readKey name, succeeds_readColor color⟩

/-! ## Families -/

/-- The families whose modes have a number of steps. -/
def steppedFamilies : List Family :=
  [.spacing, .typography, .time]

/-- Whether the value of a family can be read. -/
def FamilyReads (family : Family) (value : Value) : Prop :=
  match family with
  | .color => (ColorFamily.read value).Succeeds
  | .spacing | .time => (Modes.read (readTokens Scale.read) value).Succeeds
  | .gap | .borderRadius =>
      (Modes.read (readTokens References.read) value).Succeeds
  | .typography => (Modes.read (readTokens TypeScale.read) value).Succeeds
  | .borderWidth => (Modes.read (readTokens Width.read) value).Succeeds

section Families

variable {alpha : Type} {read : Reader alpha} {spacing : List String}
  {family : Family} {entries : Entries} {modes : List PlainMode}

theorem succeeds_tokenModes
    (isFamily : IsFamily spacing family entries modes) :
    (Modes.read (readTokens read) (.map entries)).Succeeds ↔
      ∀ mode ∈ modes, (read (.map mode.tokens)).Succeeds := by
  rw [Modes.read, model, succeeds_readModes isFamily]
  refine forall₂_congr fun mode member => ?_
  obtain ⟨item, isMode⟩ := isFamily.exists_isMode member
  exact succeeds_readTokens isMode

theorem tokenModes_of_stepped
    (isFamily : IsFamily spacing family entries modes)
    (stepped : family ∈ steppedFamilies)
    (each : ∀ mode : PlainMode, Content spacing family mode →
      ((read (.map mode.tokens)).Succeeds ↔
        ¬ Holds "range" IsWide mode.tokens)) :
    (Modes.read (readTokens read) (.map entries)).Succeeds ↔
      (family ∈ steppedFamilies →
        ∀ mode ∈ modes, ¬ Holds "range" IsWide mode.tokens) := by
  rw [succeeds_tokenModes isFamily, imp_iff_right stepped]
  exact forall₂_congr fun mode member =>
    each mode (isFamily.content mode member)

theorem tokenModes_of_not_stepped
    (isFamily : IsFamily spacing family entries modes)
    (unstepped : family ∉ steppedFamilies)
    (each : ∀ mode : PlainMode, Content spacing family mode →
      (read (.map mode.tokens)).Succeeds) :
    (Modes.read (readTokens read) (.map entries)).Succeeds ↔
      (family ∈ steppedFamilies →
        ∀ mode ∈ modes, ¬ Holds "range" IsWide mode.tokens) := by
  rw [succeeds_tokenModes isFamily]
  exact iff_of_true (fun mode member =>
    each mode (isFamily.content mode member))
    fun stepped => absurd stepped unstepped

/-- A well-formed family can be read, unless it has a number of steps that is
too large for a double to be read as one. -/
theorem familyReads_iff (isFamily : IsFamily spacing family entries modes) :
    FamilyReads family (.map entries) ↔
      (family ∈ steppedFamilies →
        ∀ mode ∈ modes, ¬ Holds "range" IsWide mode.tokens) := by
  cases family with
  | color =>
      refine iff_of_true ?_ nofun
      change (_ <*> _ : Checked ColorFamily).Succeeds
      rw [succeeds_seq, succeeds_map, succeeds_readModes isFamily]
      refine ⟨fun mode member => ?_,
        succeeds_readSchedule (isFamily.schedule rfl)⟩
      obtain ⟨item, isMode⟩ := isFamily.exists_isMode member
      exact succeeds_readPalette isMode (isFamily.content mode member)
  | spacing =>
      exact tokenModes_of_stepped isFamily (by decide) fun _ =>
        succeeds_readScale
  | time =>
      exact tokenModes_of_stepped isFamily (by decide) fun _ =>
        succeeds_readScale
  | typography =>
      exact tokenModes_of_stepped isFamily (by decide) fun _ =>
        succeeds_readTypeScale
  | gap =>
      exact tokenModes_of_not_stepped isFamily (by decide) fun _ =>
        succeeds_readReferences
  | borderRadius =>
      exact tokenModes_of_not_stepped isFamily (by decide) fun _ =>
        succeeds_readReferences
  | borderWidth =>
      exact tokenModes_of_not_stepped isFamily (by decide) fun _ =>
        succeeds_readWidth

end Families

/-! ## Design systems -/

theorem succeeds_given {alpha : Type} {name : String} {read : Reader alpha}
    {entries : Entries} :
    (fieldOr name name none (nullable read) entries).Succeeds ↔
      ∀ value, Entries.given? name entries = some value →
        (read value).Succeeds := by
  simp only [succeeds_fieldOr, spelled_self, succeeds_nullable,
    given?_eq_some_iff]
  exact ⟨fun each value found => (each value found.1).resolve_left found.2,
    fun each value found => or_iff_not_imp_left.2 fun present =>
      each value ⟨found, present⟩⟩

theorem succeeds_readBorder {config : Entries}
    (border : Optionally (fun value => ∃ entries, value = .map entries)
      (Entries.get? "border" config)) :
    (fieldOr "border" "border" none (nullable Border.read) config).Succeeds ↔
      (∀ value, familyValue config .borderRadius = some value →
        FamilyReads .borderRadius value) ∧
      ∀ value, familyValue config .borderWidth = some value →
        FamilyReads .borderWidth value := by
  rw [succeeds_given, familyValue, familyValue]
  cases given : Entries.given? "border" config with
  | none => simp
  | some value =>
      obtain ⟨found, present⟩ := given?_eq_some_iff.1 given
      obtain ⟨entries, rfl⟩ := (border value found).resolve_left present
      simp only [Option.some.injEq, forall_eq', Option.bind_some,
        Value.entries?]
      rw [Border.read, model, succeeds_seq, succeeds_map, succeeds_given,
        succeeds_given]
      rfl

/-- A configuration can be read where all of its families can. -/
theorem succeeds_readSystem {config : Entries}
    (border : Optionally (fun value => ∃ entries, value = .map entries)
      (Entries.get? "border" config)) :
    (DesignSystem.read (.map config)).Succeeds ↔
      ∀ family value, familyValue config family = some value →
        FamilyReads family value := by
  rw [DesignSystem.read, model, succeeds_seq, succeeds_seq, succeeds_seq,
    succeeds_seq, succeeds_seq, succeeds_map, succeeds_given, succeeds_given,
    succeeds_given, succeeds_given, succeeds_readBorder border,
    succeeds_given]
  constructor
  · rintro ⟨⟨⟨⟨⟨color, spacing⟩, gap⟩, typography⟩, radius, width⟩, time⟩
      family
    cases family <;> assumption
  · intro each
    exact ⟨⟨⟨⟨⟨each .color, each .spacing⟩, each .gap⟩, each .typography⟩,
      each .borderRadius, each .borderWidth⟩, each .time⟩

/-- Some mode of a family with steps gives their number as a double of more
than 64 bits. -/
def HasWideRange (config : Value) : Prop :=
  ∃ family ∈ steppedFamilies, ∃ tokens,
    GivesTokens config family tokens ∧ Holds "range" IsWide tokens

/-- A well-formed configuration can be read, unless it has a number of steps
that is too large for a double to be read as one. -/
theorem succeeds_read_iff {config : Entries}
    {modes : Family → List PlainMode}
    (wellFormed : WellFormed config modes) :
    (DesignSystem.read (.map config)).Succeeds ↔
      ¬ HasWideRange (.map config) := by
  rw [succeeds_readSystem wellFormed.border]
  have wide : HasWideRange (.map config) ↔
      ∃ family ∈ steppedFamilies, ∃ mode ∈ modes family,
        Holds "range" IsWide mode.tokens := by
    simp [HasWideRange, wellFormed.givesTokens_iff]
  rw [wide]
  have reads (family : Family) :
      (∀ value, familyValue config family = some value →
        FamilyReads family value) ↔
      (family ∈ steppedFamilies →
        ∀ mode ∈ modes family, ¬ Holds "range" IsWide mode.tokens) := by
    cases given : familyValue config family with
    | none => simp [wellFormed.absent family given]
    | some value =>
        obtain ⟨entries, rfl, isFamily⟩ :=
          wellFormed.present family value given
        simp [familyReads_iff isFamily]
  simp only [reads, not_exists, not_and]

theorem succeeds_read_of_accepted {config : Value}
    (accepted : Acceptance.accept config = .ok ()) :
    (DesignSystem.read config).Succeeds ↔ ¬ HasWideRange config := by
  cases config with
  | map entries =>
      obtain ⟨modes, wellFormed⟩ :=
        (Acceptance.acceptEntries_iff entries).1 accepted
      exact succeeds_read_iff wellFormed
  | _ => cases accepted

/-! ## Generation -/

/-- A stage that fails on its own makes no configuration unreadable. -/
theorem expand_ne_unreadable (system : DesignSystem) (settings : Value)
    (issues : List Issue) :
    (do
      let chosen ← (Settings.readGiven settings).mapError
        GenerationFault.settings
      system.expand chosen) ≠ .error (.unreadable issues) := by
  cases Settings.readGiven settings with
  | error fault => nofun
  | ok chosen =>
      change (do
        let expansions ←
          (Expansions.ofSystem chosen system).mapError
            GenerationFault.expansion
        return expansions.assemble) ≠ _
      cases Expansions.ofSystem chosen system <;> nofun

theorem unreadable_iff (config settings : Value) :
    (∃ issues, generate config settings = .error (.unreadable issues)) ↔
      Acceptance.accept config = .ok () ∧
        ¬ (DesignSystem.read config).Succeeds := by
  rw [generate, readAccepted]
  cases Acceptance.accept config with
  | error fault => exact iff_of_false nofun nofun
  | ok passed =>
      cases DesignSystem.read config with
      | accepted system =>
          refine iff_of_false ?_ fun both => both.2 (succeeds_accepted system)
          rintro ⟨issues, failed⟩
          exact expand_ne_unreadable system settings issues failed
      | refused issues => exact iff_of_true ⟨issues, rfl⟩ ⟨rfl, nofun⟩

/-- An accepted configuration can be read, unless it has a number of steps
that is too large for a double to be read as one. No other configuration fails
to be read after it is accepted. -/
theorem accepted_reads_iff (config : Value) :
    (Acceptance.accept config = .ok () →
      ((∃ system, DesignSystem.read config = .accepted system) ↔
        ¬ HasWideRange config)) ∧
    ∀ settings,
      (∃ issues, generate config settings = .error (.unreadable issues)) ↔
        Acceptance.accept config = .ok () ∧ HasWideRange config := by
  refine ⟨succeeds_read_of_accepted, fun settings => ?_⟩
  rw [unreadable_iff]
  refine and_congr_right fun accepted => ?_
  rw [succeeds_read_of_accepted accepted, not_not]

/-- One spacing mode with this number of steps. -/
def spacingOf (range : Value) : Value :=
  .map [(.str "spacing", writtenFamily [("regular", writtenScale 8 range)])]

/-- A whole number of steps is read, but not a double of more than 64 bits. -/
theorem spacingOf_hasWideRange :
    ¬ HasWideRange (spacingOf (.int 4)) ∧
      HasWideRange (spacingOf (.float 1e19)) :=
  ⟨((accepted_reads_iff _).1 rfl).1 ⟨_, rfl⟩,
    (((accepted_reads_iff _).2 .null).1 ⟨_, rfl⟩).2⟩

end DesignTokens
