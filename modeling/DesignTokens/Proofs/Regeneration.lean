import DesignTokens.Proofs.Acceptance.Written
import DesignTokens.Proofs.Expansion.Flags
import DesignTokens.Proofs.Expansion.Isolation

/-!
# Generating from a design system

A configuration that is read and written again is accepted, and the same token
sheet is generated from it. So nothing is lost where a design system is given
in place of its configuration.
-/

namespace DesignTokens

open Acceptance (PlainMode)
open Grammar Schema Schema.Checked Success

/-! ## Families -/

section Families

variable {alpha : Type} {readContent : Entries → Checked alpha}
  {write : alpha → Entries} {spacing : List String} {family : Family}
  {plain : List PlainMode}

/-- Two modes have the same name and the same flag. -/
def SameLabel (mode other : PlainMode) : Prop :=
  mode.name = other.name ∧ mode.flagged = other.flagged

/-- A family that is given by `value`, if it is given, and has the labels of
`modes`. -/
structure Rewritten (spacing : List String) (family : Family)
    (modes : List PlainMode) (value : Option Value)
    (others : List PlainMode) : Prop where
  absent : value = none → others = []
  present : ∀ held, value = some held → ∃ entries, held = .map entries ∧
    IsFamily spacing family entries others
  labels : List.Forall₂ SameLabel modes others

theorem Rewritten.missing (spacing : List String) (family : Family) :
    Rewritten spacing family [] none [] := by
  refine ⟨fun _ => rfl, ?_, .nil⟩
  rintro _ ⟨⟩

theorem Rewritten.given {entries : Entries} {others : List PlainMode}
    (isFamily : IsFamily spacing family entries others)
    (labels : List.Forall₂ SameLabel plain others) :
    Rewritten spacing family plain (some (.map entries)) others := by
  refine ⟨?_, ?_, labels⟩
  · rintro ⟨⟩
  · rintro _ ⟨⟩
    exact ⟨entries, rfl, isFamily⟩

theorem names_of_sameLabel {modes others : List PlainMode}
    (labels : List.Forall₂ SameLabel modes others) :
    others.map PlainMode.name = modes.map PlainMode.name := by
  induction labels with
  | nil => rfl
  | cons same _ inductionHypothesis =>
      rw [List.map_cons, List.map_cons, same.1, inductionHypothesis]

theorem Rewritten.value_eq_none_iff {modes others : List PlainMode}
    {value : Option Value}
    (rewritten : Rewritten spacing family modes value others) :
    value = none ↔ modes = [] := by
  constructor
  · intro absent
    have labels := rewritten.labels
    rw [rewritten.absent absent] at labels
    cases labels
    rfl
  · rintro rfl
    have labels := rewritten.labels
    cases labels
    by_contra given
    obtain ⟨held, found⟩ := Option.ne_none_iff_exists'.1 given
    obtain ⟨_, _, isFamily⟩ := rewritten.present held found
    exact isFamily.nonempty rfl

theorem exists_standsFor_modes {typed : Modes alpha}
    (areTyped : List.Forall₂ (Typed readContent) plain typed)
    (each : ∀ mode ∈ plain, ∀ typed, Typed readContent mode typed →
      ∃ other, StandsFor spacing family (typed.toValue write) mode other) :
    ∃ others,
      List.Forall₂ IsMode (typed.map (Mode.toValue write)) others ∧
        List.Forall₂ SameLabel plain others ∧
          ∀ other ∈ others, Content spacing family other := by
  induction areTyped with
  | nil => exact ⟨[], .nil, .nil, nofun⟩
  | cons isTyped _ inductionHypothesis =>
      obtain ⟨here, later⟩ := List.forall_mem_cons.1 each
      obtain ⟨other, stands⟩ := here _ isTyped
      obtain ⟨others, areModes, labels, contents⟩ :=
        inductionHypothesis later
      exact ⟨other :: others, .cons stands.isMode areModes,
        .cons ⟨stands.name, stands.flag⟩ labels,
        List.forall_mem_cons.2 ⟨stands.content, contents⟩⟩

theorem exists_isFamily {typed : Modes alpha} {entries : Entries}
    (written : Entries)
    (isFamily : IsFamily spacing family entries plain)
    (areTyped : List.Forall₂ (Typed readContent) plain typed)
    (each : ∀ mode ∈ plain, ∀ typed, Typed readContent mode typed →
      ∃ other, StandsFor spacing family (typed.toValue write) mode other)
    (listed : Entries.get? "modes" written =
      some (.list (typed.map (Mode.toValue write))))
    (schedule : family = .color → HasSchedule written) :
    ∃ others, IsFamily spacing family written others ∧
      List.Forall₂ SameLabel plain others := by
  obtain ⟨others, areModes, labels, contents⟩ :=
    exists_standsFor_modes areTyped each
  refine ⟨others, ⟨⟨_, listed, _, .inl rfl, areModes⟩, ?_, ?_, schedule,
    contents⟩, labels⟩
  · rintro rfl
    cases labels
    exact isFamily.nonempty rfl
  · rw [names_of_sameLabel labels]
    exact isFamily.distinct

end Families

section Systems

variable {config : Entries} {modes : Family → List PlainMode}
  {system : DesignSystem}

/-- A family whose modes hold nothing but tokens is written with the tokens
that were read. -/
theorem exists_rewritten {alpha : Type} {read : Reader alpha}
    {write : alpha → Entries} (family : Family)
    {given : Option (Modes alpha)} (wellFormed : WellFormed config modes)
    (sized : family ≠ .color)
    (matched : Matches (readTokens read) (modes family) given)
    (fields : ∀ content, ∃ tokens,
      [Value.entry "tokens" (.map tokens)] = write content)
    (each : ∀ mode ∈ modes family, ∀ content (other : PlainMode),
      Content ((modes .spacing).map PlainMode.name) family mode →
        read (.map mode.tokens) = .accepted content →
          [Value.entry "tokens" (.map other.tokens)] = write content →
            Content ((modes .spacing).map PlainMode.name) family other) :
    ∃ others, Rewritten ((modes .spacing).map PlainMode.name) family
      (modes family) (given.map (Modes.toValue write)) others := by
  have stands (mode : PlainMode) (member : mode ∈ modes family)
      (typed : Mode alpha) (isTyped : Typed (readTokens read) mode typed) :
      ∃ other, StandsFor ((modes .spacing).map PlainMode.name) family
        (typed.toValue write) mode other := by
    obtain ⟨_, isMode⟩ := wellFormed.exists_isMode member
    obtain ⟨tokens, written⟩ := fields typed.content
    exact standsFor_tokens isMode isTyped written
      (each mode member typed.content (typed.plain write tokens)
        (wellFormed.content_of_mem member) (tokens_of_typed isMode isTyped)
        written)
  rcases given_cases wellFormed matched with
    ⟨rfl, none⟩ | ⟨typed, entries, rfl, _, isFamily, areTyped⟩
  · rw [none]
    exact ⟨[], .missing ..⟩
  · obtain ⟨others, isFamily, labels⟩ := exists_isFamily
      [Value.entry "modes" (.list (typed.map (Mode.toValue write)))]
      isFamily areTyped stands rfl fun color => absurd color sized
    exact ⟨others, .given isFamily labels⟩

theorem exists_rewritten_colors (wellFormed : WellFormed config modes)
    (plain : ∀ mode ∈ modes .color, ∀ entry ∈ mode.tokens, ∀ built,
      entry.2 ≠ .color built)
    (read : fieldOr "colors" "colors" none (nullable ColorFamily.read)
      config = .accepted system.colors) :
    ∃ others, Rewritten ((modes .spacing).map PlainMode.name) .color
      (modes .color) (system.colors.map ColorFamily.toValue) others := by
  rcases given_eq_accepted read with
    ⟨absent, none⟩ | ⟨value, colors, found, accepted, given⟩
  · rw [none, wellFormed.absent .color absent]
    exact ⟨[], .missing ..⟩
  · obtain ⟨entries, rfl, isFamily⟩ := wellFormed.present .color value found
    obtain ⟨_, schedule, first, scheduleRead, rfl⟩ :=
      seq_eq_accepted.1 accepted
    obtain ⟨typed, modesRead, rfl⟩ := map_eq_accepted.1 first
    have areTyped := typed_of_readModes isFamily modesRead
    have each (mode : PlainMode) (member : mode ∈ modes .color)
        (typed : Mode Palette) (isTyped : Typed Palette.read mode typed) :
        ∃ other, StandsFor ((modes .spacing).map PlainMode.name) .color
          (typed.toValue Palette.toEntries) mode other := by
      obtain ⟨_, isMode⟩ := isFamily.exists_isMode member
      exact standsFor_palette isMode (isFamily.content mode member)
        (plain mode member) isTyped
    obtain ⟨others, isFamily, labels⟩ := exists_isFamily
      (Value.entry "modes" (.list (typed.map (Mode.toValue
        Palette.toEntries))) :: Value.entryOf "alphaSchedule"
          AlphaSchedule.toValue schedule)
      isFamily areTyped each rfl fun _ =>
        hasSchedule_written (isFamily.schedule rfl) scheduleRead
          (by simp [spelled])
    rw [given]
    exact ⟨others, .given isFamily labels⟩

/-- The value that a design system is written with for a family. -/
def DesignSystem.valueOf (system : DesignSystem) : Family → Option Value
  | .color => system.colors.map ColorFamily.toValue
  | .spacing => system.spacing.map (Modes.toValue Scale.toEntries)
  | .gap => system.gap.map (Modes.toValue References.toEntries)
  | .typography => system.typography.map (Modes.toValue TypeScale.toEntries)
  | .borderRadius => (system.border.bind Border.radius).map
      (Modes.toValue References.toEntries)
  | .borderWidth => (system.border.bind Border.width).map
      (Modes.toValue Width.toEntries)
  | .time => system.time.map (Modes.toValue Scale.toEntries)

/-- Colours as they are given by the configuration, not built in advance, and
spacing modes that are each spelled in one way. -/
structure IsPlain (modes : Family → List PlainMode) : Prop where
  colors : ∀ mode ∈ modes .color, ∀ entry ∈ mode.tokens, ∀ built,
    entry.2 ≠ .color built
  references : ∀ family ∈ referringFamilies, ∀ mode ∈ modes family,
    SpelledOnce mode.tokens

theorem exists_rewritten_of_read (wellFormed : WellFormed config modes)
    (isPlain : IsPlain modes)
    (read : DesignSystem.read (.map config) = .accepted system)
    (family : Family) :
    ∃ others, Rewritten ((modes .spacing).map PlainMode.name) family
      (modes family) (system.valueOf family) others := by
  have typed := readFrom_of_read wellFormed read
  have parts := DesignSystem.read_eq_accepted.1 read
  cases family with
  | color =>
      exact exists_rewritten_colors wellFormed isPlain.colors parts.colors
  | spacing =>
      exact exists_rewritten .spacing wellFormed nofun typed.spacing
        (fun _ => ⟨_, rfl⟩) fun _ _ _ _ =>
          isScale_written keptByRounding_pos
  | gap =>
      exact exists_rewritten .gap wellFormed nofun typed.gap
        (fun _ => ⟨_, rfl⟩) fun mode member _ _ isReferences =>
          isReferences_written isReferences
            (isPlain.references .gap (by decide) mode member)
  | typography =>
      exact exists_rewritten .typography wellFormed nofun typed.typography
        (fun _ => ⟨_, rfl⟩) fun _ _ _ _ => isTypeScale_written
  | borderRadius =>
      exact exists_rewritten .borderRadius wellFormed nofun
        typed.borderRadius (fun _ => ⟨_, rfl⟩)
        fun mode member _ _ isReferences =>
          isReferences_written isReferences
            (isPlain.references .borderRadius (by decide) mode member)
  | borderWidth =>
      exact exists_rewritten .borderWidth wellFormed nofun typed.borderWidth
        (fun _ => ⟨_, rfl⟩) fun _ _ _ _ => isWidth_written
  | time =>
      exact exists_rewritten .time wellFormed nofun typed.time
        (fun _ => ⟨_, rfl⟩) fun _ _ _ _ =>
          isScale_written keptByRounding_nonneg

/-! ## Acceptance -/

theorem given?_of_map {alpha : Type} {field : String} {entries : Entries}
    {part : Option alpha} {write : alpha → Value}
    (found : Entries.get? field entries = part.map write)
    (notNull : ∀ held, (write held).isNull = false) :
    Entries.given? field entries = part.map write := by
  rw [Entries.given?, found]
  cases part with
  | none => rfl
  | some held => simp [Option.filter, notNull]

theorem given?_border_fields (system : DesignSystem) :
    Entries.given? "border" system.fields =
      system.border.map Border.toValue :=
  given?_of_map (by simp [DesignSystem.fields]) fun _ => rfl

theorem familyValue_fields (system : DesignSystem) (family : Family) :
    familyValue system.fields family = system.valueOf family := by
  cases family with
  | borderRadius =>
      rw [familyValue, given?_border_fields, DesignSystem.valueOf]
      cases system.border with
      | none => rfl
      | some border => exact given?_of_map (by simp) fun _ => rfl
  | borderWidth =>
      rw [familyValue, given?_border_fields, DesignSystem.valueOf]
      cases system.border with
      | none => rfl
      | some border => exact given?_of_map (by simp) fun _ => rfl
  | _ => exact given?_of_map (by simp [DesignSystem.fields]) fun _ => rfl

theorem exists_given_written {alpha : Type} {name : String}
    {read : Reader alpha} {part : Option alpha} {written : Entries}
    (write : alpha → Value)
    (accepted : fieldOr name name none (nullable read) config =
      .accepted part)
    (found : Entries.get? name written = part.map write)
    (notNull : ∀ held, (write held).isNull = false)
    (given : ∃ value, Entries.given? name config = some value) :
    ∃ value, Entries.given? name written = some value := by
  rw [given?_of_map found notNull]
  obtain ⟨value, given⟩ := given
  rcases given_eq_accepted accepted with
    ⟨absent, _⟩ | ⟨_, held, _, _, rfl⟩
  · rw [given] at absent
    cases absent
  · exact ⟨write held, rfl⟩

theorem someFamily_written
    (parts : DesignSystem.ReadParts config system)
    (given : ∃ field ∈
      ["colors", "spacing", "gap", "typography", "border", "time"],
      ∃ value, Entries.given? field config = some value) :
    ∃ field ∈
      ["colors", "spacing", "gap", "typography", "border", "time"],
      ∃ value, Entries.given? field system.fields = some value := by
  obtain ⟨field, listed, given⟩ := given
  refine ⟨field, listed, ?_⟩
  simp only [List.mem_cons, List.not_mem_nil, or_false] at listed
  rcases listed with rfl | rfl | rfl | rfl | rfl | rfl
  · exact exists_given_written ColorFamily.toValue parts.colors
      (by simp [DesignSystem.fields]) (fun _ => rfl) given
  · exact exists_given_written (Modes.toValue Scale.toEntries) parts.spacing
      (by simp [DesignSystem.fields]) (fun _ => rfl) given
  · exact exists_given_written (Modes.toValue References.toEntries) parts.gap
      (by simp [DesignSystem.fields]) (fun _ => rfl) given
  · exact exists_given_written (Modes.toValue TypeScale.toEntries)
      parts.typography (by simp [DesignSystem.fields]) (fun _ => rfl) given
  · exact exists_given_written Border.toValue parts.border
      (by simp [DesignSystem.fields]) (fun _ => rfl) given
  · exact exists_given_written (Modes.toValue Scale.toEntries) parts.time
      (by simp [DesignSystem.fields]) (fun _ => rfl) given

theorem isOverride_of_sameLabel {plain others : List PlainMode}
    (labels : List.Forall₂ SameLabel plain others)
    (distinct : (plain.map PlainMode.name).Nodup) {name : String} :
    IsOverride others name ↔ IsOverride plain name := by
  have apart : (others.map PlainMode.name).Nodup := by
    rwa [names_of_sameLabel labels]
  have same : Acceptance.overrideNames plain =
      Acceptance.overrideNames others :=
    Selection.map_overrides_eq labels
  rw [← Acceptance.mem_overrideNames_iff apart, ← same,
    Acceptance.mem_overrideNames_iff distinct]

/-- A design system that was read from a plain configuration is accepted when
it is written again. -/
theorem exists_wellFormed_fields (wellFormed : WellFormed config modes)
    (isPlain : IsPlain modes)
    (read : DesignSystem.read (.map config) = .accepted system) :
    ∃ others, WellFormed system.fields others := by
  choose others rewritten using
    exists_rewritten_of_read wellFormed isPlain read
  have distinct := wellFormed.distinct
  have spacing : (others .spacing).map PlainMode.name =
      (modes .spacing).map PlainMode.name :=
    names_of_sameLabel (rewritten .spacing).labels
  refine ⟨others, someFamily_written (DesignSystem.read_eq_accepted.1 read)
    (wellFormed.someFamily), ?_, ?_, ?_, ?_, ?_⟩
  · intro value found
    have written : Entries.get? "border" system.fields =
        system.border.map Border.toValue := by
      simp [DesignSystem.fields]
    rw [written] at found
    obtain ⟨border, _, rfl⟩ := Option.map_eq_some_iff.1 found
    exact .inr ⟨_, rfl⟩
  · intro family refers given
    rw [familyValue_fields] at given ⊢
    rw [Ne, (rewritten family).value_eq_none_iff] at given
    rw [Ne, (rewritten .spacing).value_eq_none_iff]
    exact spacing_nonempty wellFormed refers given
  · intro family absent
    rw [familyValue_fields] at absent
    exact (rewritten family).absent absent
  · intro family value given
    rw [familyValue_fields] at given
    rw [spacing]
    exact (rewritten family).present value given
  · intro family sized name
    rw [isOverride_of_sameLabel (rewritten .color).labels (distinct .color),
      isOverride_of_sameLabel (rewritten family).labels (distinct family)]
    exact wellFormed.isolated family sized name

theorem isWritable_of_matches (wellFormed : WellFormed config modes)
    (isPlain : IsPlain modes) {family : Family}
    (refers : family ∈ referringFamilies) {given : Option (Modes References)}
    (matched : Matches (readTokens References.read) (modes family) given) :
    ∀ typed, given = some typed → ∀ mode ∈ typed, mode.content.IsWritable := by
  rintro typed rfl mode member
  obtain ⟨plain, inside, content, read⟩ :=
    exists_plain_of_mem wellFormed matched member
  exact isWritable_of_read (isReferences_of_content refers content)
    (isPlain.references family refers plain inside) read

theorem isWritable_of_wellFormed (wellFormed : WellFormed config modes)
    (isPlain : IsPlain modes)
    (read : DesignSystem.read (.map config) = .accepted system) :
    system.IsWritable := by
  have typed := readFrom_of_read wellFormed read
  exact ⟨isWritable_of_matches wellFormed isPlain (by decide) typed.gap,
    isWritable_of_matches wellFormed isPlain (by decide) typed.borderRadius⟩

end Systems

/-! ## Generation -/

theorem isPlain_of_config {config : Entries}
    {modes : Family → List PlainMode} (wellFormed : WellFormed config modes)
    (colors : ∀ tokens, GivesTokens (.map config) .color tokens →
      ∀ entry ∈ tokens, ∀ built, entry.2 ≠ .color built)
    (references : ∀ family ∈ referringFamilies, ∀ tokens,
      GivesTokens (.map config) family tokens → SpelledOnce tokens) :
    IsPlain modes := by
  constructor
  · intro mode member
    exact colors mode.tokens
      ((wellFormed.givesTokens_iff ..).2 ⟨mode, member, rfl⟩)
  · intro family refers mode member
    exact references family refers mode.tokens
      ((wellFormed.givesTokens_iff ..).2 ⟨mode, member, rfl⟩)

/-- The design system of a configuration without built colours, in which each
spacing mode is spelled in one way, gives the same token sheet as the
configuration, with the same notices. -/
theorem generate_toValue {config settings : Value} {generated : Generated}
    (colors : ∀ tokens, GivesTokens config .color tokens →
      ∀ entry ∈ tokens, ∀ built, entry.2 ≠ .color built)
    (references : ∀ family ∈ referringFamilies, ∀ tokens,
      GivesTokens config family tokens → SpelledOnce tokens)
    (made : generate config settings = .ok generated) :
    ∃ system, DesignSystem.read config = .accepted system ∧
      generate system.toValue settings = .ok generated := by
  obtain ⟨accepted, system, chosen, expansions, read, settled, expanded,
    assembled⟩ := generate_iff.1 made
  cases config with
  | map entries =>
      obtain ⟨modes, wellFormed⟩ :=
        (Acceptance.acceptEntries_iff entries).1 accepted
      have isPlain := isPlain_of_config wellFormed colors references
      have again : Acceptance.accept system.toValue = .ok () :=
        (Acceptance.acceptEntries_iff _).2
          (exists_wellFormed_fields wellFormed isPlain read)
      have back := DesignSystem.read_toValue
        (isWritable_of_wellFormed wellFormed isPlain read)
      refine ⟨system, read, generate_iff.2 ⟨again, system.settled, chosen,
        expansions, back, settled, ?_, assembled⟩⟩
      -- What is read back has a flag for every mode: an absent one is false.
      rw [ofSystem_settled]
      exact expanded
  | _ => cases accepted

/-- A colour without a value in a mode with a null flag, and a gap that spells
its spacing mode in the second way. -/
def looseTheme : Value :=
  .map [(.str "colors", .map [(.str "modes", .list [.map
      [(.str "name", .str "dark"), (.str "isDefault", .null),
        (.str "tokens", .map [(.str "ink", .null)])]])]),
    (.str "spacing", writtenFamily [("regular", writtenScale 8 (.int 2))]),
    (.str "gap", writtenFamily
      [("wide", [(.str "spacing_mode", .str "regular"),
        (.str "s", .int 2)])])]

theorem looseTheme_regenerated :
    ∃ generated system, generate looseTheme .null = .ok generated ∧
      DesignSystem.read looseTheme = .accepted system ∧
      generate system.toValue .null = .ok generated := by
  have colors (tokens : Entries)
      (gives : GivesTokens looseTheme .color tokens) :
      ∀ entry ∈ tokens, ∀ built, entry.2 ≠ .color built := by
    rw [gives.eq_of_single rfl rfl rfl]
    simp
  have references (family : Family) (refers : family ∈ referringFamilies)
      (tokens : Entries) (gives : GivesTokens looseTheme family tokens) :
      SpelledOnce tokens := by
    rcases List.mem_pair.1 refers with rfl | rfl
    · rw [gives.eq_of_single rfl rfl rfl]
      exact .inl rfl
    · obtain ⟨_, _, same, found, _⟩ := gives
      cases same
      cases found
  have made : ∃ generated, generate looseTheme .null = .ok generated :=
    ⟨_, rfl⟩
  obtain ⟨generated, made⟩ := made
  obtain ⟨system, read, again⟩ := generate_toValue colors references made
  exact ⟨generated, system, made, read, again⟩

end DesignTokens
