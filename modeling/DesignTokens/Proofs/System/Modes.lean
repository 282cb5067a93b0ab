import DesignTokens.Expansion.Result
import DesignTokens.Proofs.Acceptance.Whole
import DesignTokens.Proofs.Schema.Reading
import DesignTokens.System.Reading

/-!
# Plain and typed modes

A design system that is read from an accepted configuration has the modes that
were accepted, in the same order and with the same names and flags.
-/

namespace DesignTokens

open Acceptance (PlainMode)
open Grammar Schema Schema.Checked

/-! ## Modes -/

section Modes

variable {alpha : Type} {readContent : Entries → Checked alpha}

/-- A typed mode that is read from a plain one. -/
structure Typed (readContent : Entries → Checked alpha) (mode : PlainMode)
    (typed : Mode alpha) : Prop where
  name : typed.name = mode.name
  flag : Modes.flagged typed = mode.flagged
  content : readContent mode.entries = .accepted typed.content

theorem flagged_of_read {mode : PlainMode} {item : Value}
    (isMode : IsMode item mode) {flag : Option Bool}
    (read : fieldOr "isDefault" "is_default" (some false)
      (nullable Schema.flag) mode.entries = .accepted flag) :
    decide (flag = some true) = mode.flagged := by
  rw [PlainMode.flagged, Acceptance.flagValue_eq_spelled]
  rcases fieldOr_eq_accepted.1 read with ⟨absent, rfl⟩ | ⟨value, found, held⟩
  · rw [absent]
    rfl
  · rw [found]
    rcases isMode.flag value found with rfl | ⟨stated, rfl⟩
    · cases held
      rfl
    · cases held
      cases stated <;> rfl

theorem typed_of_read {item : Value} {mode : PlainMode}
    {typed : Mode alpha} (isMode : IsMode item mode)
    (read : Mode.read readContent item = .accepted typed) :
    Typed readContent mode typed := by
  rw [isMode.mapping, Mode.read, model] at read
  obtain ⟨_, content, first, held, equal⟩ := seq_eq_accepted.1 read
  obtain ⟨_, flag, second, flagRead, rfl⟩ := seq_eq_accepted.1 first
  obtain ⟨name, nameRead, rfl⟩ := map_eq_accepted.1 second
  cases equal
  obtain ⟨value, found, name⟩ := field_eq_accepted.1 nameRead
  rw [spelled_self, isMode.name] at found
  cases found
  cases name
  exact ⟨rfl, flagged_of_read isMode flagRead, held⟩

theorem typed_of_readItems {items : List Value} {modes : List PlainMode}
    {typed : List (Mode alpha)} (areModes : List.Forall₂ IsMode items modes)
    (read : List.Forall₂
      (fun item result => Mode.read readContent item = .accepted result)
      items typed) :
    List.Forall₂ (Typed readContent) modes typed := by
  induction areModes generalizing typed with
  | nil =>
      cases read
      exact .nil
  | cons isMode _ inductionHypothesis =>
      cases read with
      | cons first others =>
          exact .cons (typed_of_read isMode first)
            (inductionHypothesis others)

theorem typed_of_readModes {spacing : List String} {family : Family}
    {entries : Entries} {modes : List PlainMode} {typed : List (Mode alpha)}
    (isFamily : IsFamily spacing family entries modes)
    (read : field "modes" "modes" (listOf (Mode.read readContent)) entries =
      .accepted typed) :
    List.Forall₂ (Typed readContent) modes typed := by
  obtain ⟨value, given, items, listed, areModes⟩ := isFamily.listed
  obtain ⟨found, same, held⟩ := field_eq_accepted.1 read
  rw [spelled_self, given] at same
  cases same
  rw [listOf_of_lists listed, readItems_eq_accepted] at held
  exact typed_of_readItems areModes held

/-- The content of a typed mode is read from the tokens of the plain one. -/
theorem tokens_of_typed {read : Reader alpha} {item : Value}
    {mode : PlainMode} {typed : Mode alpha} (isMode : IsMode item mode)
    (isTyped : Typed (readTokens read) mode typed) :
    read (.map mode.tokens) = .accepted typed.content := by
  obtain ⟨value, found, accepted⟩ := field_eq_accepted.1 isTyped.content
  rw [spelled_self, isMode.tokens] at found
  cases found
  exact accepted

end Modes

theorem names_of_typed {alpha : Type} {readContent : Entries → Checked alpha}
    {plain : List PlainMode} {typed : Modes alpha}
    (areTyped : List.Forall₂ (Typed readContent) plain typed) :
    typed.map Mode.name = plain.map PlainMode.name := by
  induction areTyped with
  | nil => rfl
  | cons isTyped _ inductionHypothesis =>
      rw [List.map_cons, List.map_cons, isTyped.name, inductionHypothesis]

/-! ## Families -/

/-- The modes of a family that may be missing. -/
inductive Matches {alpha : Type} (readContent : Entries → Checked alpha) :
    List PlainMode → Option (Modes alpha) → Prop
  | absent : Matches readContent [] none
  | present {modes : List PlainMode} {typed : Modes alpha} :
      modes ≠ [] → List.Forall₂ (Typed readContent) modes typed →
        Matches readContent modes (some typed)

theorem Matches.of_none {alpha : Type}
    {readContent : Entries → Checked alpha} {plain : List PlainMode}
    (matched : Matches readContent plain none) : plain = [] := by
  cases matched
  rfl

theorem Matches.of_some {alpha : Type}
    {readContent : Entries → Checked alpha} {plain : List PlainMode}
    {typed : Modes alpha} (matched : Matches readContent plain (some typed)) :
    List.Forall₂ (Typed readContent) plain typed := by
  cases matched with
  | present _ areTyped => exact areTyped

theorem Matches.exists_typed {alpha : Type}
    {readContent : Entries → Checked alpha} {plain : List PlainMode}
    {given : Option (Modes alpha)} (matched : Matches readContent plain given)
    {mode : PlainMode} (member : mode ∈ plain) :
    ∃ typed, given = some typed ∧
      ∃ other ∈ typed, Typed readContent mode other := by
  cases matched with
  | absent => cases member
  | present _ areTyped =>
      exact ⟨_, rfl, Success.exists_right_of_mem areTyped member⟩

/-- A design system that is read from these modes. -/
structure ReadFrom (modes : Family → List PlainMode) (system : DesignSystem) :
    Prop where
  color : Matches Palette.read (modes .color)
    (system.colors.map ColorFamily.modes)
  spacing : Matches (readTokens Scale.read) (modes .spacing) system.spacing
  gap : Matches (readTokens References.read) (modes .gap) system.gap
  typography : Matches (readTokens TypeScale.read) (modes .typography)
    system.typography
  borderRadius : Matches (readTokens References.read) (modes .borderRadius)
    (system.border.bind Border.radius)
  borderWidth : Matches (readTokens Width.read) (modes .borderWidth)
    (system.border.bind Border.width)
  time : Matches (readTokens Scale.read) (modes .time) system.time

theorem given_eq_accepted {alpha : Type} {name : String}
    {read : Reader alpha} {entries : Entries} {result : Option alpha}
    (accepted : fieldOr name name none (nullable read) entries =
      .accepted result) :
    (Entries.given? name entries = none ∧ result = none) ∨
      ∃ value held, Entries.given? name entries = some value ∧
        read value = .accepted held ∧ result = some held := by
  rcases fieldOr_eq_accepted.1 accepted with
    ⟨absent, rfl⟩ | ⟨value, found, accepted⟩
  · rw [spelled_self] at absent
    exact .inl ⟨given?_of_absent absent, rfl⟩
  · rw [spelled_self] at found
    by_cases null : value = .null
    · subst null
      cases accepted
      exact .inl ⟨given?_of_null found, rfl⟩
    · obtain ⟨held, read, rfl⟩ := (nullable_eq_accepted null).1 accepted
      exact .inr ⟨value, held, given?_eq_some_iff.2 ⟨found, null⟩, read, rfl⟩

/-- The parts of a border, each read from its field. -/
structure Border.ReadParts (entries : Entries) (border : Border) : Prop where
  radius : fieldOr "radius" "radius" none
    (nullable (Modes.read (readTokens References.read))) entries =
      .accepted border.radius
  width : fieldOr "width" "width" none
    (nullable (Modes.read (readTokens Width.read))) entries =
      .accepted border.width

theorem Border.read_eq_accepted {entries : Entries} {border : Border} :
    Border.read (.map entries) = .accepted border ↔
      Border.ReadParts entries border := by
  constructor
  · intro read
    obtain ⟨_, width, first, widthRead, rfl⟩ := seq_eq_accepted.1 read
    obtain ⟨radius, radiusRead, rfl⟩ := map_eq_accepted.1 first
    exact ⟨radiusRead, widthRead⟩
  · intro parts
    rw [Border.read, model, parts.radius, parts.width]
    rfl

/-- The parts of a design system, each read from its field. -/
structure DesignSystem.ReadParts (config : Entries) (system : DesignSystem) :
    Prop where
  colors : fieldOr "colors" "colors" none (nullable ColorFamily.read)
    config = .accepted system.colors
  spacing : fieldOr "spacing" "spacing" none
    (nullable (Modes.read (readTokens Scale.read))) config =
      .accepted system.spacing
  gap : fieldOr "gap" "gap" none
    (nullable (Modes.read (readTokens References.read))) config =
      .accepted system.gap
  typography : fieldOr "typography" "typography" none
    (nullable (Modes.read (readTokens TypeScale.read))) config =
      .accepted system.typography
  border : fieldOr "border" "border" none (nullable Border.read) config =
    .accepted system.border
  time : fieldOr "time" "time" none
    (nullable (Modes.read (readTokens Scale.read))) config =
      .accepted system.time

theorem DesignSystem.read_eq_accepted {config : Entries}
    {system : DesignSystem} :
    DesignSystem.read (.map config) = .accepted system ↔
      DesignSystem.ReadParts config system := by
  constructor
  · intro read
    obtain ⟨_, time, upToBorder, timeRead, rfl⟩ := seq_eq_accepted.1 read
    obtain ⟨_, border, upToTypography, borderRead, rfl⟩ :=
      seq_eq_accepted.1 upToBorder
    obtain ⟨_, typography, upToGap, typographyRead, rfl⟩ :=
      seq_eq_accepted.1 upToTypography
    obtain ⟨_, gap, upToSpacing, gapRead, rfl⟩ := seq_eq_accepted.1 upToGap
    obtain ⟨_, spacing, upToColors, spacingRead, rfl⟩ :=
      seq_eq_accepted.1 upToSpacing
    obtain ⟨colors, colorsRead, rfl⟩ := map_eq_accepted.1 upToColors
    exact ⟨colorsRead, spacingRead, gapRead, typographyRead, borderRead,
      timeRead⟩
  · intro parts
    rw [DesignSystem.read, model, parts.colors, parts.spacing, parts.gap,
      parts.typography, parts.border, parts.time]
    rfl

/-- The families whose tokens refer to spacing. -/
def referringFamilies : List Family :=
  [.gap, .borderRadius]

theorem isReferences_congr {spacing others : List String} {tokens : Entries}
    (kept : ∀ name ∈ spacing, name ∈ others)
    (isReferences : IsReferences spacing tokens) :
    IsReferences others tokens := by
  refine ⟨isReferences.unit, ?_, isReferences.entries⟩
  intro value found
  apply (isReferences.spacingMode value found).imp_right
  rintro ⟨name, listed, equal⟩
  exact ⟨name, kept name listed, equal⟩

theorem isReferences_of_content {spacing : List String} {family : Family}
    {mode : PlainMode} (refers : family ∈ referringFamilies)
    (content : Content spacing family mode) :
    IsReferences spacing mode.tokens := by
  rcases List.mem_pair.1 refers with rfl | rfl
  · exact content
  · exact content

/-- What a mode holds depends on the spacing modes there are only where it
refers to them. -/
theorem content_congr {spacing others : List String} {family : Family}
    {mode : PlainMode}
    (kept : family ∈ referringFamilies → ∀ name ∈ spacing, name ∈ others)
    (content : Content spacing family mode) : Content others family mode := by
  cases family with
  | gap => exact isReferences_congr (kept (by decide)) content
  | borderRadius => exact isReferences_congr (kept (by decide)) content
  | _ => exact content

theorem isFamily_congr {spacing others : List String} {family : Family}
    {entries : Entries} {modes : List PlainMode}
    (kept : family ∈ referringFamilies → ∀ name ∈ spacing, name ∈ others)
    (isFamily : IsFamily spacing family entries modes) :
    IsFamily others family entries modes :=
  ⟨isFamily.listed, isFamily.nonempty, isFamily.distinct, isFamily.schedule,
    fun mode member => content_congr kept (isFamily.content mode member)⟩

section Families

variable {config : Entries} {modes : Family → List PlainMode}

theorem matches_of_field {alpha : Type}
    {readContent : Entries → Checked alpha} {family : Family} {name : String}
    {entries : Entries} {result : Option (Modes alpha)}
    (wellFormed : WellFormed config modes)
    (place : familyValue config family = Entries.given? name entries)
    (read : fieldOr name name none (nullable (Modes.read readContent))
      entries = .accepted result) :
    Matches readContent (modes family) result := by
  rcases given_eq_accepted read with
    ⟨absent, rfl⟩ | ⟨value, held, found, read, rfl⟩
  · rw [wellFormed.absent family (place.trans absent)]
    exact .absent
  · obtain ⟨fields, rfl, isFamily⟩ :=
      wellFormed.present family value (place.trans found)
    exact .present isFamily.nonempty (typed_of_readModes isFamily read)

theorem matches_of_colors {result : Option ColorFamily}
    (wellFormed : WellFormed config modes)
    (read : fieldOr "colors" "colors" none (nullable ColorFamily.read)
      config = .accepted result) :
    Matches Palette.read (modes .color) (result.map ColorFamily.modes) := by
  rcases given_eq_accepted read with
    ⟨absent, rfl⟩ | ⟨value, held, found, read, rfl⟩
  · rw [wellFormed.absent .color absent]
    exact .absent
  · obtain ⟨fields, rfl, isFamily⟩ := wellFormed.present .color value found
    obtain ⟨_, schedule, first, _, rfl⟩ := seq_eq_accepted.1 read
    obtain ⟨typed, modesRead, rfl⟩ := map_eq_accepted.1 first
    exact .present isFamily.nonempty (typed_of_readModes isFamily modesRead)

theorem matches_of_border {result : Option Border}
    (wellFormed : WellFormed config modes)
    (read : fieldOr "border" "border" none (nullable Border.read) config =
      .accepted result) :
    Matches (readTokens References.read) (modes .borderRadius)
        (result.bind Border.radius) ∧
      Matches (readTokens Width.read) (modes .borderWidth)
        (result.bind Border.width) := by
  rcases given_eq_accepted read with
    ⟨absent, rfl⟩ | ⟨value, held, found, borderRead, rfl⟩
  · rw [wellFormed.absent .borderRadius (by simp [familyValue, absent]),
      wellFormed.absent .borderWidth (by simp [familyValue, absent])]
    exact ⟨.absent, .absent⟩
  · obtain ⟨entries, rfl, _⟩ := model_eq_accepted.1 borderRead
    have parts := Border.read_eq_accepted.1 borderRead
    exact ⟨matches_of_field wellFormed
        (by simp [familyValue, found, Value.entries?]) parts.radius,
      matches_of_field wellFormed
        (by simp [familyValue, found, Value.entries?]) parts.width⟩

/-- A design system has the modes of the configuration that it is read
from. -/
theorem readFrom_of_read {system : DesignSystem}
    (wellFormed : WellFormed config modes)
    (read : DesignSystem.read (.map config) = .accepted system) :
    ReadFrom modes system := by
  have parts := DesignSystem.read_eq_accepted.1 read
  obtain ⟨borderRadius, borderWidth⟩ :=
    matches_of_border wellFormed parts.border
  exact {
    color := matches_of_colors wellFormed parts.colors
    spacing := matches_of_field wellFormed rfl parts.spacing
    gap := matches_of_field wellFormed rfl parts.gap
    typography := matches_of_field wellFormed rfl parts.typography
    borderRadius := borderRadius
    borderWidth := borderWidth
    time := matches_of_field wellFormed rfl parts.time }

/-- A family is missing and has no modes, or it has typed modes. -/
theorem given_cases {alpha : Type}
    {readContent : Entries → Checked alpha} {family : Family}
    {given : Option (Modes alpha)} (wellFormed : WellFormed config modes)
    (matched : Matches readContent (modes family) given) :
    (given = none ∧ modes family = []) ∨ ∃ typed entries,
      given = some typed ∧ typed ≠ [] ∧
        IsFamily ((modes .spacing).map PlainMode.name) family entries
          (modes family) ∧
        List.Forall₂ (Typed readContent) (modes family) typed := by
  generalize plainly : modes family = plain at matched
  cases matched with
  | absent => exact .inl ⟨rfl, rfl⟩
  | present nonempty areTyped =>
      rename_i typed
      have typedNonempty : typed ≠ [] := by
        rintro rfl
        cases areTyped
        exact nonempty rfl
      cases valued : familyValue config family with
      | none =>
          exact absurd (plainly.symm.trans (wellFormed.absent family valued))
            nonempty
      | some value =>
          obtain ⟨entries, _, isFamily⟩ :=
            wellFormed.present family value valued
          rw [plainly] at isFamily
          exact .inr ⟨typed, entries, rfl, typedNonempty, isFamily, areTyped⟩

/-- The typed modes of a family have names of their own. -/
theorem nodup_of_matches {alpha : Type}
    {readContent : Entries → Checked alpha} {family : Family}
    {typed : Modes alpha} (wellFormed : WellFormed config modes)
    (matched : Matches readContent (modes family) (some typed)) :
    (typed.map Mode.name).Nodup := by
  rw [names_of_typed matched.of_some]
  exact wellFormed.distinct family

/-- A typed mode is read from the tokens of a plain one. -/
theorem exists_plain_of_mem {alpha : Type} {read : Reader alpha}
    {family : Family} {typed : Modes alpha} {mode : Mode alpha}
    (wellFormed : WellFormed config modes)
    (matched : Matches (readTokens read) (modes family) (some typed))
    (member : mode ∈ typed) :
    ∃ plain ∈ modes family,
      Content ((modes .spacing).map PlainMode.name) family plain ∧
        read (.map plain.tokens) = .accepted mode.content := by
  obtain ⟨plain, inside, isTyped⟩ :=
    Success.exists_left_of_mem matched.of_some member
  obtain ⟨_, isMode⟩ := wellFormed.exists_isMode inside
  exact ⟨plain, inside, wellFormed.content_of_mem inside,
    tokens_of_typed isMode isTyped⟩

/-- Where there are references, there is spacing to refer to. -/
theorem spacing_nonempty {family : Family}
    (wellFormed : WellFormed config modes)
    (refers : family ∈ referringFamilies) (nonempty : modes family ≠ []) :
    modes .spacing ≠ [] := by
  have given : familyValue config .spacing ≠ none :=
    wellFormed.needsSpacing family refers
      (mt (wellFormed.absent family) nonempty)
  obtain ⟨value, found⟩ := Option.ne_none_iff_exists'.1 given
  obtain ⟨_, _, isFamily⟩ := wellFormed.present .spacing value found
  exact isFamily.nonempty

end Families

end DesignTokens
