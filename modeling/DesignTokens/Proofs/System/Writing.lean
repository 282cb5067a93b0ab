import DesignTokens.Proofs.Schema.Writing
import DesignTokens.Proofs.System.References
import DesignTokens.System.Reading
import DesignTokens.System.Writing

/-!
# Design systems are read back

A design system that is written and read again is the same one, but for flags
that were null: they are left out, so that they are read as false.
-/

namespace DesignTokens

open Grammar Schema Schema.Checked

/-! ## Flags that are given -/

/-- A mode whose flag is given. -/
def Mode.settled {alpha : Type} (mode : Mode alpha) : Mode alpha :=
  { mode with isDefault := some (mode.isDefault.getD false) }

def Modes.settled {alpha : Type} (modes : Modes alpha) : Modes alpha :=
  modes.map Mode.settled

def ColorFamily.settled (family : ColorFamily) : ColorFamily :=
  { family with modes := Modes.settled family.modes }

def Border.settled (border : Border) : Border :=
  ⟨border.radius.map Modes.settled, border.width.map Modes.settled⟩

/-- A design system in which the flag of every mode is given. -/
def DesignSystem.settled (system : DesignSystem) : DesignSystem :=
  { colors := system.colors.map ColorFamily.settled
    spacing := system.spacing.map Modes.settled
    gap := system.gap.map Modes.settled
    typography := system.typography.map Modes.settled
    border := system.border.map Border.settled
    time := system.time.map Modes.settled }

/-! ## Modes -/

section Modes

variable {alpha : Type} {readContent : Entries → Checked alpha}
  {write : alpha → Entries}

/-- The fields of a written mode. -/
def Mode.fields (write : alpha → Entries) (mode : Mode alpha) : Entries :=
  Value.entry "name" (.str mode.name) ::
    (Value.entryOf "isDefault" .bool mode.isDefault ++ write mode.content)

/-- A mode whose content is read back from its fields. The content has no
field that could be taken for a flag. -/
structure ReadsBack (readContent : Entries → Checked alpha)
    (write : alpha → Entries) (mode : Mode alpha) : Prop where
  flagless : spelled "isDefault" "is_default" (write mode.content) = none
  content : readContent (mode.fields write) = .accepted mode.content

theorem spelled_flag_fields {mode : Mode alpha}
    (flagless : spelled "isDefault" "is_default" (write mode.content) =
      none) :
    spelled "isDefault" "is_default" (mode.fields write) =
      mode.isDefault.map .bool := by
  have absent := Option.or_eq_none_iff.1 flagless
  simp [spelled, Mode.fields, absent]

theorem Mode.read_toValue {mode : Mode alpha}
    (back : ReadsBack readContent write mode) :
    Mode.read readContent (mode.toValue write) =
      .accepted mode.settled := by
  have name : field "name" "name" text (mode.fields write) =
      .accepted mode.name :=
    field_eq_of_spelled (by simp [spelled, Mode.fields]) (text_str _)
  have flag : fieldOr "isDefault" "is_default" (some false)
      (nullable Schema.flag) (mode.fields write) =
        .accepted (some (mode.isDefault.getD false)) := by
    have written := spelled_flag_fields back.flagless
    cases given : mode.isDefault with
    | none =>
        rw [given] at written
        exact fieldOr_eq_accepted.2 (.inl ⟨written, rfl⟩)
    | some held =>
        rw [given] at written
        exact fieldOr_eq_of_spelled written (nullable_flag_bool held)
  change Mode.mk <$> field "name" "name" text (mode.fields write) <*>
    fieldOr "isDefault" "is_default" (some false) (nullable Schema.flag)
      (mode.fields write) <*> readContent (mode.fields write) = _
  rw [name, flag, back.content]
  rfl

theorem listOf_modes {modes : Modes alpha}
    (back : ∀ mode ∈ modes, ReadsBack readContent write mode) :
    listOf (Mode.read readContent)
      (.list (modes.map (Mode.toValue write))) =
        .accepted modes.settled :=
  listOf_map fun mode member => Mode.read_toValue (back mode member)

theorem Modes.read_toValue {modes : Modes alpha}
    (back : ∀ mode ∈ modes, ReadsBack readContent write mode) :
    Modes.read readContent (Modes.toValue write modes) =
      .accepted modes.settled := by
  rw [Modes.read, Modes.toValue, model]
  exact field_eq_of_spelled (by simp [spelled]) (listOf_modes back)

theorem nullable_modes {modes : Modes alpha}
    (back : ∀ mode ∈ modes, ReadsBack readContent write mode) :
    nullable (Modes.read readContent) (Modes.toValue write modes) =
      .accepted (some modes.settled) :=
  nullable_of_map (Modes.read_toValue back)

end Modes

/-! ## Colours -/

theorem nullable_real_float (x : Float) :
    nullable real (.float x) = .accepted (some x) := rfl

theorem Oklch.read_toValue (color : Oklch) :
    Oklch.read color.toValue = .accepted color := by
  have channels (entries : Entries)
      (space : spelled "mode" "mode" entries = some (.str "oklch"))
      (lightness : spelled "l" "l" entries =
        some (.float color.lightness))
      (chroma : spelled "c" "c" entries = some (.float color.chroma))
      (hue : spelled "h" "h" entries = color.hue.map .float) :
      Oklch.readEntries entries = .accepted color := by
    have isSpace : constant "oklch" (.str "oklch") = .accepted () := rfl
    have isReal (x : Float) : real (.float x) = .accepted x := rfl
    rw [Oklch.readEntries, fieldOr_eq_of_spelled space isSpace,
      field_eq_of_spelled lightness (isReal _),
      field_eq_of_spelled chroma (isReal _),
      fieldOr_eq_of_written hue nullable_real_float]
    rfl
  apply channels
  all_goals simp [spelled]

theorem nullable_colorValue (color : Option Oklch) :
    nullable Oklch.read (Palette.colorValue color) = .accepted color := by
  cases color with
  | none => rfl
  | some held => exact nullable_of_map held.read_toValue

theorem readSchedule_of_spelled {entries : Entries}
    {schedule : Option AlphaSchedule}
    (found : spelled "alphaSchedule" "alpha_schedule" entries =
      schedule.map AlphaSchedule.toValue) :
    readSchedule entries = .accepted schedule :=
  fieldOr_eq_of_written found fun _ =>
    nullable_of_map (recordOf_toValue_self fun _ _ => rfl)

theorem readsBack_palette (mode : Mode Palette) :
    ReadsBack Palette.read Palette.toEntries mode := by
  have colors : recordOf (nullable Oklch.read)
      (Record.toValue Palette.colorValue mode.content.colors) =
        .accepted mode.content.colors :=
    recordOf_toValue_self fun entry _ => nullable_colorValue entry.2
  refine ⟨by simp [spelled, Palette.toEntries], ?_⟩
  rw [Palette.read, fieldOr_eq_of_spelled _ colors, readSchedule_of_spelled]
  · rfl
  · simp [spelled, Mode.fields, Palette.toEntries]
  · simp [spelled, Mode.fields, Palette.toEntries]

theorem ColorFamily.read_toValue (family : ColorFamily) :
    ColorFamily.read family.toValue = .accepted family.settled := by
  have modes := listOf_modes fun mode (_ : mode ∈ family.modes) =>
    readsBack_palette mode
  change ColorFamily.mk <$> _ <*> _ = _
  rw [field_eq_of_spelled _ modes, readSchedule_of_spelled]
  · rfl
  · simp [spelled]
  · simp [spelled]

/-! ## Scales and widths -/

theorem readTokens_of_fields {alpha : Type} {read : Reader alpha}
    {write : alpha → Entries} {mode : Mode alpha} {tokens : Value}
    (written : write mode.content = [Value.entry "tokens" tokens])
    (accepted : read tokens = .accepted mode.content) :
    ReadsBack (readTokens read) write mode := by
  refine ⟨by simp [written, spelled], ?_⟩
  exact field_eq_of_spelled (by simp [spelled, Mode.fields, written])
    accepted

theorem readsBack_scale (mode : Mode Scale) :
    ReadsBack (readTokens Scale.read) Scale.toEntries mode :=
  readTokens_of_fields rfl rfl

theorem readsBack_typeScale (mode : Mode TypeScale) :
    ReadsBack (readTokens TypeScale.read) TypeScale.toEntries mode :=
  readTokens_of_fields rfl rfl

theorem readsBack_width (mode : Mode Width) :
    ReadsBack (readTokens Width.read) Width.toEntries mode :=
  readTokens_of_fields rfl rfl

/-! ## References -/

/-- References that can be written: entries that refer to a step of a scale,
none of them under a key that configures references. -/
structure References.IsWritable (references : References) : Prop where
  names : ∀ entry ∈ references.entries,
    entry.1 ∉ Acceptance.configurationKeys
  values : ∀ entry ∈ references.entries, IsReference entry.2

theorem referenceEntries_eq {entries : Record Value}
    (values : ∀ entry ∈ entries, IsReference entry.2) :
    References.referenceEntries entries =
      entries.map fun entry => Value.entry entry.1 entry.2 := by
  induction entries with
  | nil => rfl
  | cons first rest inductionHypothesis =>
      obtain ⟨name, value⟩ := first
      obtain ⟨here, later⟩ := List.forall_mem_cons.1 values
      have kept : value.isNull = false ∧ value.spelledOut = value := by
        rcases here with rfl | ⟨n, rfl⟩
        · exact ⟨rfl, rfl⟩
        · exact ⟨rfl, rfl⟩
      rw [References.referenceEntries, kept.1, kept.2,
        inductionHypothesis later]
      rfl

theorem readEntries_of_names {spelling : String} {entries : Record Value}
    (names : ∀ entry ∈ entries, ¬ (entry.1 = "unit" ∨ entry.1 = spelling)) :
    References.readEntries spelling
      (entries.map fun entry => Value.entry entry.1 entry.2) =
        .accepted entries := by
  induction entries with
  | nil => rfl
  | cons first rest inductionHypothesis =>
      obtain ⟨here, later⟩ := List.forall_mem_cons.1 names
      rw [List.map_cons, Value.entry, References.readEntries, if_neg here,
        inductionHypothesis later]
      rfl

/-- Fields that configure references are no entries. -/
theorem readEntries_entryOf {spelling name : String} {part : Option String}
    {rest : Entries}
    (skipped : part ≠ none → name = "unit" ∨ name = spelling) :
    References.readEntries spelling
      (Value.entryOf name .str part ++ rest) =
        References.readEntries spelling rest := by
  cases part with
  | none => rfl
  | some held =>
      change References.readEntries spelling
        ((.str name, .str held) :: rest) = _
      rw [References.readEntries, if_pos (skipped (Option.some_ne_none _))]

theorem get?_names {key : String} {entries : Record Value}
    (absent : key ∉ entries.names) :
    Entries.get? key
      (entries.map fun entry => Value.entry entry.1 entry.2) = none := by
  induction entries with
  | nil => rfl
  | cons first rest inductionHypothesis =>
      have different : first.1 ≠ key :=
        (List.ne_of_not_mem_cons absent).symm
      rw [List.map_cons, Entries.get?_entry, if_neg different]
      exact inductionHypothesis (List.not_mem_of_not_mem_cons absent)

theorem References.IsWritable.not_mem_names {references : References}
    (writable : references.IsWritable) {key : String}
    (configures : key ∈ Acceptance.configurationKeys) :
    key ∉ references.entries.names := by
  intro listed
  obtain ⟨entry, member, rfl⟩ := List.mem_map.1 listed
  exact writable.names entry member configures

/-- The entries leave the fields that configure references open. -/
theorem References.IsWritable.get?_entries {references : References}
    (writable : references.IsWritable) {key : String}
    (configures : key ∈ Acceptance.configurationKeys) :
    Entries.get? key (References.referenceEntries references.entries) =
      none := by
  rw [referenceEntries_eq writable.values]
  exact get?_names (writable.not_mem_names configures)

theorem readEntries_written {references : References} {tokens : Entries}
    (writable : references.IsWritable)
    (spelledFirst : Entries.get? "spacingMode" tokens =
      references.spacingMode.map .str) :
    References.readEntries (References.modeSpelling tokens)
      (Value.entryOf "unit" .str references.unit ++
        (Value.entryOf "spacingMode" .str references.spacingMode ++
          References.referenceEntries references.entries)) =
        .accepted references.entries := by
  have inUse (given : references.spacingMode ≠ none) :
      "spacingMode" = References.modeSpelling tokens := by
    obtain ⟨name, held⟩ := Option.ne_none_iff_exists'.1 given
    rw [References.modeSpelling, spelledFirst, held]
    rfl
  rw [readEntries_entryOf fun _ => .inl rfl,
    readEntries_entryOf fun given => .inr (inUse given),
    referenceEntries_eq writable.values]
  apply readEntries_of_names
  intro entry member configures
  apply writable.names entry member
  rcases configures with same | same
  · rw [same]
    decide
  · rw [same]
    exact modeSpelling_configures tokens

theorem readsBack_references {mode : Mode References}
    (writable : mode.content.IsWritable) :
    ReadsBack (readTokens References.read) References.toEntries mode := by
  apply readTokens_of_fields rfl
  have noUnit := writable.get?_entries (show "unit" ∈ _ by decide)
  have noFirst := writable.get?_entries (show "spacingMode" ∈ _ by decide)
  have noSecond := writable.get?_entries (show "spacing_mode" ∈ _ by decide)
  rw [References.read, model, List.append_assoc,
    readEntries_written writable (by simp [noFirst]),
    fieldOr_eq_of_written _ nullable_text_str,
    fieldOr_eq_of_written _ nullable_text_str]
  · rfl
  · simp [spelled, noFirst, noSecond]
  · simp [spelled, noUnit]

/-! ## Design systems -/

/-- A design system whose references can be written. -/
structure DesignSystem.IsWritable (system : DesignSystem) : Prop where
  gap : ∀ modes, system.gap = some modes →
    ∀ mode ∈ modes, mode.content.IsWritable
  radius : ∀ modes, system.border.bind Border.radius = some modes →
    ∀ mode ∈ modes, mode.content.IsWritable

theorem Border.read_toValue {border : Border}
    (writable : ∀ modes, border.radius = some modes →
      ∀ mode ∈ modes, mode.content.IsWritable) :
    Border.read border.toValue = .accepted border.settled := by
  have radii (modes : Modes References)
      (given : border.radius = some modes) :=
    nullable_modes fun mode member =>
      readsBack_references (writable modes given mode member)
  have widths (modes : Modes Width) (_ : border.width = some modes) :=
    nullable_modes fun mode (_ : mode ∈ modes) => readsBack_width mode
  rw [Border.read, Border.toValue, model, fieldOr_eq_of_map _ radii,
    fieldOr_eq_of_map _ widths]
  · rfl
  · simp [spelled]
  · simp [spelled]

/-- The fields of a written design system. -/
def DesignSystem.fields (system : DesignSystem) : Entries :=
  Value.entryOf "colors" ColorFamily.toValue system.colors ++
    Value.entryOf "spacing" (Modes.toValue Scale.toEntries) system.spacing ++
    Value.entryOf "gap" (Modes.toValue References.toEntries) system.gap ++
    Value.entryOf "typography" (Modes.toValue TypeScale.toEntries)
      system.typography ++
    Value.entryOf "border" Border.toValue system.border ++
    Value.entryOf "time" (Modes.toValue Scale.toEntries) system.time

theorem DesignSystem.toValue_eq (system : DesignSystem) :
    system.toValue = .map system.fields := rfl

/-- A written design system is read back, with a flag for every mode. -/
theorem DesignSystem.read_toValue {system : DesignSystem}
    (writable : system.IsWritable) :
    DesignSystem.read system.toValue = .accepted system.settled := by
  have colors (family : ColorFamily) (_ : system.colors = some family) :
      nullable ColorFamily.read family.toValue =
        .accepted (some family.settled) :=
    nullable_of_map family.read_toValue
  have scales {given : Option (Modes Scale)} (modes : Modes Scale)
      (_ : given = some modes) :=
    nullable_modes fun mode (_ : mode ∈ modes) => readsBack_scale mode
  have gaps (modes : Modes References) (given : system.gap = some modes) :=
    nullable_modes fun mode member =>
      readsBack_references (writable.gap modes given mode member)
  have typography (modes : Modes TypeScale)
      (_ : system.typography = some modes) :=
    nullable_modes fun mode (_ : mode ∈ modes) => readsBack_typeScale mode
  have borders (border : Border) (given : system.border = some border) :
      nullable Border.read border.toValue =
        .accepted (some border.settled) :=
    nullable_of_map (Border.read_toValue fun modes held =>
      writable.radius modes (by rw [given, Option.bind_some, held]))
  rw [DesignSystem.read, DesignSystem.toValue_eq, model,
    fieldOr_eq_of_map _ colors, fieldOr_eq_of_map _ scales,
    fieldOr_eq_of_map _ gaps, fieldOr_eq_of_map _ typography,
    fieldOr_eq_of_map _ borders, fieldOr_eq_of_map _ scales]
  · rfl
  all_goals simp [spelled, DesignSystem.fields]

end DesignTokens
