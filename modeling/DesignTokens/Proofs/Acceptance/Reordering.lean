import DesignTokens.Proofs.Acceptance.Changing
import DesignTokens.Proofs.System.Modes

/-!
# Configurations with reordered modes

The modes of each family of a configuration are listed in another order, in
which the same mode is the default. What was accepted and read before is
accepted and read again, with the same modes.
-/

namespace DesignTokens

open Acceptance (PlainMode)
open Grammar Schema Schema.Checked Success

/-! ## Reordered configurations -/

/-- An order for the modes of each family. -/
abbrev Order := Family → List Value → List Value

/-- A family with its modes in another order. -/
def reorderedFamily (change : List Value → List Value) : Value → Value :=
  Value.mapped (Entries.changed "modes" (Value.relisted change))

/-- A border with the modes of its families in another order. -/
def reorderedBorder (order : Order) : Value → Value :=
  Value.mapped fun border =>
    Entries.changed "width" (reorderedFamily (order .borderWidth)) <|
    Entries.changed "radius" (reorderedFamily (order .borderRadius)) border

/-- A configuration with the modes of each family in another order. -/
def reordered (order : Order) (config : Entries) : Entries :=
  Entries.changed "colors" (reorderedFamily (order .color)) <|
  Entries.changed "spacing" (reorderedFamily (order .spacing)) <|
  Entries.changed "gap" (reorderedFamily (order .gap)) <|
  Entries.changed "typography" (reorderedFamily (order .typography)) <|
  Entries.changed "border" (reorderedBorder order) <|
  Entries.changed "time" (reorderedFamily (order .time)) config

theorem isNull_reorderedFamily (change : List Value → List Value)
    (value : Value) :
    (reorderedFamily change value).isNull = value.isNull :=
  Value.isNull_mapped _ value

theorem isNull_reorderedBorder (order : Order) (value : Value) :
    (reorderedBorder order value).isNull = value.isNull :=
  Value.isNull_mapped _ value

theorem familyValue_reordered (order : Order) (config : Entries)
    (family : Family) :
    familyValue (reordered order config) family =
      (familyValue config family).map (reorderedFamily (order family)) :=
  familyValue_changedFamilies
    (fun family => isNull_reorderedFamily (order family)) config family

/-! ## Orders that keep the default -/

/-- Whether a mode is flagged as the default, as far as it is written. -/
def itemFlag (item : Value) : Bool :=
  match item.entries?.bind PlainMode.flagValue with
  | some (.bool held) => held
  | _ => false

/-- The name of a mode, as far as it is written. -/
def itemName (item : Value) : Option Value :=
  item.entries?.bind (Entries.get? "name")

/-- The name of the default among written modes. -/
def defaultName? (items : List Value) : Option (Option Value) :=
  (Selection.default? itemFlag items).map itemName

/-- Some family lists these modes. -/
def ListsModes (config : Entries) (family : Family) (items : List Value) :
    Prop :=
  ∃ value, familyValue config family = some value ∧
    Inside "modes" (fun listing => Lists listing items) value

/-- An order lists the same modes, and the default keeps its name. -/
structure Order.Keeps (order : Order) (config : Entries) : Prop where
  perm : ∀ family items, ListsModes config family items →
    items.Perm (order family items)
  default : ∀ family items, ListsModes config family items →
    defaultName? (order family items) = defaultName? items

theorem label_of_isMode {item : Value} {mode : PlainMode}
    (isMode : IsMode item mode) :
    itemName item = some (.str mode.name) ∧
      itemFlag item = mode.flagged := by
  rw [itemName, itemFlag, isMode.mapping]
  exact ⟨isMode.name, rfl⟩

/-- What is made of the modes one by one, with their names and flags, is made
of them in any order. -/
theorem exists_reordered {beta : Type} {related : Value → beta → Prop}
    (name : beta → String) (flag : beta → Bool) {items others : List Value}
    {results : List beta}
    (labels : ∀ item result, related item result →
      itemName item = some (.str (name result)) ∧
        itemFlag item = flag result)
    (all : List.Forall₂ related items results)
    (distinct : (results.map name).Nodup) (perm : items.Perm others)
    (default : defaultName? others = defaultName? items) :
    ∃ more, List.Forall₂ related others more ∧
      Selection.Reordered flag results more := by
  obtain ⟨more, same, relatedMore⟩ := exists_of_perm perm all
  refine ⟨more, relatedMore, Selection.reordered_of_names same distinct ?_⟩
  -- The choice depends on flags alone, so that it can be made on the written
  -- modes as well as on what is made of them.
  have names {items : List Value} {results : List beta}
      (all : List.Forall₂ related items results) :
      defaultName? items = (Selection.default? flag results).map
        fun result => some (.str (name result)) :=
    Selection.map_default?_eq (all.imp labels)
  have both := default
  rw [names relatedMore, names all] at both
  have injective : Function.Injective fun held : String =>
      some (Value.str held) := by
    intro first second equal
    simpa using equal
  apply Option.map_injective injective
  rw [Option.map_map, Option.map_map]
  exact both.symm

/-! ## Acceptance -/

section Systems

variable {config : Entries} {order : Order}
  {modes : Family → List PlainMode}

theorem isFamily_reordered {spacing : List String} {family : Family}
    {entries : Entries} {plain : List PlainMode} (keeps : order.Keeps config)
    (given : familyValue config family = some (.map entries))
    (isFamily : IsFamily spacing family entries plain) :
    ∃ others, IsFamily spacing family
        (Entries.changed "modes" (Value.relisted (order family)) entries)
        others ∧
      Selection.Reordered PlainMode.flagged plain others := by
  obtain ⟨value, found, items, listed, areModes⟩ := isFamily.listed
  have lists : ListsModes config family items :=
    ⟨_, given, entries, rfl, value, found, listed⟩
  obtain ⟨others, areOthers, same⟩ := exists_reordered PlainMode.name
    PlainMode.flagged (fun _ _ => label_of_isMode) areModes isFamily.distinct
    (keeps.perm family items lists) (keeps.default family items lists)
  refine ⟨others, ⟨?_, ?_, ?_, ?_, ?_⟩, same⟩
  · refine ⟨value.relisted (order family), ?_, _,
      lists_relisted listed (order family), areOthers⟩
    rw [Entries.get?_changed, if_pos rfl, found]
    rfl
  · intro empty
    have perm := same.perm
    rw [empty] at perm
    exact isFamily.nonempty perm.eq_nil
  · exact (same.perm.map PlainMode.name).nodup_iff.1 isFamily.distinct
  · intro color
    have hasSchedule := isFamily.schedule color
    rwa [HasSchedule, spelled, Entries.get?_changed, if_neg (by decide),
      Entries.get?_changed, if_neg (by decide)]
  · exact fun mode member =>
      isFamily.content mode (same.perm.mem_iff.2 member)

/-- A family that is given and has these modes in another order, or that is
missing with no modes. -/
structure ReorderedModes (spacing : List String) (family : Family)
    (value : Option Value) (modes others : List PlainMode) : Prop where
  absent : value = none → others = []
  present : ∀ held, value = some held → ∃ entries, held = .map entries ∧
    IsFamily spacing family entries others
  same : Selection.Reordered PlainMode.flagged modes others

theorem exists_reorderedModes (wellFormed : WellFormed config modes)
    (keeps : order.Keeps config) (family : Family) :
    ∃ others, ReorderedModes ((modes .spacing).map PlainMode.name) family
      (familyValue (reordered order config) family) (modes family)
        others := by
  rw [familyValue_reordered]
  cases given : familyValue config family with
  | none =>
      rw [wellFormed.absent family given]
      exact ⟨[], fun _ => rfl, nofun, .refl [], rfl⟩
  | some value =>
      obtain ⟨entries, rfl, isFamily⟩ :=
        wellFormed.present family value given
      obtain ⟨others, isFamily, same⟩ :=
        isFamily_reordered keeps given isFamily
      refine ⟨others, nofun, ?_, same⟩
      rintro _ ⟨⟩
      exact ⟨_, rfl, isFamily⟩

theorem exists_given_reordered
    (given : ∃ field ∈
      ["colors", "spacing", "gap", "typography", "border", "time"],
      ∃ value, Entries.given? field config = some value) :
    ∃ field ∈
      ["colors", "spacing", "gap", "typography", "border", "time"],
      ∃ value,
        Entries.given? field (reordered order config) = some value := by
  obtain ⟨field, listed, value, found⟩ := given
  refine ⟨field, listed, Option.isSome_iff_exists.1 ?_⟩
  have same := isSome_given?_changedFamilies
    (fun family => isNull_reorderedFamily (order family)) config listed
  rw [found] at same
  exact same

theorem border_reordered
    (border : Optionally (fun value => ∃ entries, value = .map entries)
      (Entries.get? "border" config)) :
    Optionally (fun value => ∃ entries, value = .map entries)
      (Entries.get? "border" (reordered order config)) := by
  have found : Entries.get? "border" (reordered order config) =
      (Entries.get? "border" config).map (reorderedBorder order) := by
    simp [reordered, Entries.get?_changed]
  rw [found]
  intro value given
  obtain ⟨held, before, rfl⟩ := Option.map_eq_some_iff.1 given
  rcases border held before with rfl | ⟨entries, rfl⟩
  · exact .inl rfl
  · exact .inr ⟨_, rfl⟩

/-- A configuration with reordered modes is accepted. -/
theorem exists_wellFormed_reordered (wellFormed : WellFormed config modes)
    (keeps : order.Keeps config) :
    ∃ others, WellFormed (reordered order config) others := by
  choose others rewritten using exists_reorderedModes wellFormed keeps
  have distinct := wellFormed.distinct
  have overrides (family : Family) (name : String) :
      IsOverride (others family) name ↔ IsOverride (modes family) name := by
    have same := (rewritten family).same
    have apart := (same.perm.map PlainMode.name).nodup_iff.1 (distinct family)
    rw [← Acceptance.mem_overrideNames_iff apart,
      ← Acceptance.mem_overrideNames_iff (distinct family)]
    exact (same.overrides.map PlainMode.name).mem_iff.symm
  refine ⟨others, ⟨exists_given_reordered wellFormed.someFamily,
    border_reordered wellFormed.border, ?_, ?_, ?_, ?_⟩⟩
  · intro family refers given
    rw [familyValue_reordered, Ne, Option.map_eq_none_iff] at given ⊢
    exact wellFormed.needsSpacing family refers given
  · intro family absent
    exact (rewritten family).absent absent
  · intro family value given
    obtain ⟨entries, mapping, isFamily⟩ :=
      (rewritten family).present value given
    refine ⟨entries, mapping, isFamily_congr ?_ isFamily⟩
    intro _ name
    exact ((rewritten .spacing).same.perm.map PlainMode.name).mem_iff.1
  · intro family sized name
    rw [overrides .color, overrides family]
    exact wellFormed.isolated family sized name

end Systems

/-! ## Reading -/

/-- Colours with reordered modes. -/
structure ColorFamily.Reordered (family other : ColorFamily) : Prop where
  schedule : other.alphaSchedule = family.alphaSchedule
  modes : Selection.Reordered Modes.flagged family.modes other.modes

/-- A border with reordered modes. -/
structure Border.Reordered (border other : Border) : Prop where
  radius : Option.Rel (Selection.Reordered Modes.flagged) border.radius
    other.radius
  width : Option.Rel (Selection.Reordered Modes.flagged) border.width
    other.width

/-- A design system with reordered modes. -/
structure DesignSystem.Reordered (system other : DesignSystem) : Prop where
  colors : Option.Rel ColorFamily.Reordered system.colors other.colors
  spacing : Option.Rel (Selection.Reordered Modes.flagged) system.spacing
    other.spacing
  gap : Option.Rel (Selection.Reordered Modes.flagged) system.gap other.gap
  typography : Option.Rel (Selection.Reordered Modes.flagged)
    system.typography other.typography
  border : Option.Rel Border.Reordered system.border other.border
  time : Option.Rel (Selection.Reordered Modes.flagged) system.time other.time

/-- A part that may be absent is read from a changed field. -/
theorem exists_read_changed {alpha : Type} {name : String}
    {read : Reader alpha} {related : alpha → alpha → Prop}
    {change : Value → Value} {entries others : Entries} {part : Option alpha}
    (found : Entries.get? name others = (Entries.get? name entries).map change)
    (nulls : ∀ value, (change value).isNull = value.isNull)
    (each : ∀ value result, Entries.given? name entries = some value →
      read value = .accepted result →
        ∃ other, read (change value) = .accepted other ∧ related result other)
    (accepted : fieldOr name name none (nullable read) entries =
      .accepted part) :
    ∃ other, fieldOr name name none (nullable read) others =
        .accepted other ∧ Option.Rel related part other := by
  have nullIff (value : Value) : change value = .null ↔ value = .null := by
    rw [← isNull_iff, ← isNull_iff, nulls]
  rcases fieldOr_eq_accepted.1 accepted with
    ⟨absent, rfl⟩ | ⟨value, given, accepted⟩
  · rw [spelled_self] at absent
    rw [absent] at found
    exact ⟨none, fieldOr_eq_accepted.2
      (.inl ⟨(spelled_self ..).trans found, rfl⟩), .none⟩
  · rw [spelled_self] at given
    rw [given] at found
    have again := (spelled_self name others).trans found
    by_cases null : value = .null
    · subst null
      cases accepted
      rw [Option.map_some, (nullIff .null).2 rfl] at again
      exact ⟨none, fieldOr_eq_accepted.2 (.inr ⟨.null, again, rfl⟩), .none⟩
    · obtain ⟨result, valueRead, rfl⟩ := (nullable_eq_accepted null).1 accepted
      obtain ⟨other, changed, same⟩ :=
        each value result (given?_eq_some_iff.2 ⟨given, null⟩) valueRead
      have present : change value ≠ .null := mt (nullIff value).1 null
      exact ⟨some other, fieldOr_eq_accepted.2 (.inr ⟨change value, again,
        (nullable_eq_accepted present).2 ⟨other, changed, rfl⟩⟩), .some same⟩

section Modes

variable {alpha : Type} {readContent : Entries → Checked alpha}
  {config : Entries} {order : Order} {modes : Family → List PlainMode}

theorem labelled_of_readItems {items : List Value} {plain : List PlainMode}
    {typed : List (Mode alpha)}
    (areModes : List.Forall₂ IsMode items plain)
    (read : List.Forall₂
      (fun item result => Mode.read readContent item = .accepted result)
      items typed) :
    List.Forall₂ (fun item result =>
      Mode.read readContent item = .accepted result ∧
        itemName item = some (.str result.name) ∧
          itemFlag item = Modes.flagged result) items typed := by
  induction areModes generalizing typed with
  | nil =>
      cases read
      exact .nil
  | cons isMode _ inductionHypothesis =>
      cases read with
      | cons first others =>
          have isTyped := typed_of_read isMode first
          have label := label_of_isMode isMode
          rw [← isTyped.name, ← isTyped.flag] at label
          exact .cons ⟨first, label⟩ (inductionHypothesis others)

theorem readModes_reordered {spacing : List String} {family : Family}
    {entries : Entries} {plain : List PlainMode} {typed : Modes alpha}
    (keeps : order.Keeps config)
    (given : familyValue config family = some (.map entries))
    (isFamily : IsFamily spacing family entries plain)
    (read : field "modes" "modes" (listOf (Mode.read readContent)) entries =
      .accepted typed) :
    ∃ others, field "modes" "modes" (listOf (Mode.read readContent))
        (Entries.changed "modes" (Value.relisted (order family)) entries) =
          .accepted others ∧
      Selection.Reordered Modes.flagged typed others := by
  obtain ⟨value, found, items, listed, areModes⟩ := isFamily.listed
  have lists : ListsModes config family items :=
    ⟨_, given, entries, rfl, value, found, listed⟩
  obtain ⟨again, same, accepted⟩ := field_eq_accepted.1 read
  rw [spelled_self, found] at same
  cases same
  rw [listOf_of_lists listed, readItems_eq_accepted] at accepted
  have distinct : (typed.map Mode.name).Nodup := by
    rw [names_of_typed (typed_of_readItems areModes accepted)]
    exact isFamily.distinct
  obtain ⟨others, labelled, same⟩ := exists_reordered Mode.name
    Modes.flagged (fun _ _ => And.right)
    (labelled_of_readItems areModes accepted) distinct
    (keeps.perm family items lists) (keeps.default family items lists)
  refine ⟨others, field_eq_accepted.2
    ⟨value.relisted (order family), ?_, ?_⟩, same⟩
  · rw [spelled_self, Entries.get?_changed, if_pos rfl, found]
    rfl
  · rw [listOf_of_lists (lists_relisted listed (order family)),
      readItems_eq_accepted]
    exact labelled.imp fun _ _ => And.left

theorem exists_read_modes (family : Family) {name : String}
    {entries : Entries} (others : Entries) {typed : Option (Modes alpha)}
    (wellFormed : WellFormed config modes) (keeps : order.Keeps config)
    (place : familyValue config family = Entries.given? name entries)
    (found : Entries.get? name others =
      (Entries.get? name entries).map (reorderedFamily (order family)))
    (accepted : fieldOr name name none (nullable (Modes.read readContent))
      entries = .accepted typed) :
    ∃ other, fieldOr name name none (nullable (Modes.read readContent))
        others = .accepted other ∧
      Option.Rel (Selection.Reordered Modes.flagged) typed other := by
  apply exists_read_changed found (isNull_reorderedFamily _) ?_ accepted
  intro value result given read
  rw [← place] at given
  obtain ⟨fields, rfl, isFamily⟩ := wellFormed.present family value given
  exact readModes_reordered keeps given isFamily read

theorem exists_read_colors {typed : Option ColorFamily}
    (wellFormed : WellFormed config modes) (keeps : order.Keeps config)
    (accepted : fieldOr "colors" "colors" none (nullable ColorFamily.read)
      config = .accepted typed) :
    ∃ other, fieldOr "colors" "colors" none (nullable ColorFamily.read)
        (reordered order config) = .accepted other ∧
      Option.Rel ColorFamily.Reordered typed other := by
  have found : Entries.get? "colors" (reordered order config) =
      (Entries.get? "colors" config).map
        (reorderedFamily (order .color)) := by
    simp [reordered, Entries.get?_changed]
  apply exists_read_changed found (isNull_reorderedFamily _) ?_ accepted
  intro value result given read
  obtain ⟨fields, rfl, isFamily⟩ := wellFormed.present .color value given
  obtain ⟨_, schedule, first, scheduleRead, rfl⟩ := seq_eq_accepted.1 read
  obtain ⟨plain, modesRead, rfl⟩ := map_eq_accepted.1 first
  have place : familyValue config .color = some (.map fields) := given
  obtain ⟨others, othersRead, same⟩ :=
    readModes_reordered keeps place isFamily modesRead
  have schedules : readSchedule
      (Entries.changed "modes" (Value.relisted (order .color)) fields) =
        .accepted schedule := by
    rw [readSchedule, fieldOr_eq_accepted] at scheduleRead ⊢
    rwa [spelled, Entries.get?_changed, if_neg (by decide),
      Entries.get?_changed, if_neg (by decide)]
  exact ⟨⟨others, schedule⟩, seq_eq_accepted.2 ⟨_, schedule,
    map_eq_accepted.2 ⟨others, othersRead, rfl⟩, schedules, rfl⟩, rfl, same⟩

theorem exists_read_border {typed : Option Border}
    (wellFormed : WellFormed config modes) (keeps : order.Keeps config)
    (accepted : fieldOr "border" "border" none (nullable Border.read)
      config = .accepted typed) :
    ∃ other, fieldOr "border" "border" none (nullable Border.read)
        (reordered order config) = .accepted other ∧
      Option.Rel Border.Reordered typed other := by
  have found : Entries.get? "border" (reordered order config) =
      (Entries.get? "border" config).map (reorderedBorder order) := by
    simp [reordered, Entries.get?_changed]
  apply exists_read_changed found (isNull_reorderedBorder _) ?_ accepted
  intro value result given read
  obtain ⟨fields, rfl, _⟩ := model_eq_accepted.1 read
  have parts := Border.read_eq_accepted.1 read
  let written := Entries.changed "width"
    (reorderedFamily (order .borderWidth))
    (Entries.changed "radius" (reorderedFamily (order .borderRadius)) fields)
  obtain ⟨radius, radiusRead, sameRadius⟩ := exists_read_modes .borderRadius
    written wellFormed keeps (by simp [familyValue, given, Value.entries?])
    (by simp [written, Entries.get?_changed]) parts.radius
  obtain ⟨width, widthRead, sameWidth⟩ := exists_read_modes .borderWidth
    written wellFormed keeps (by simp [familyValue, given, Value.entries?])
    (by simp [written, Entries.get?_changed]) parts.width
  exact ⟨⟨radius, width⟩, Border.read_eq_accepted.2 ⟨radiusRead, widthRead⟩,
    sameRadius, sameWidth⟩

/-- A configuration with reordered modes is read as the design system with
reordered modes. -/
theorem exists_read_reordered {system : DesignSystem}
    (wellFormed : WellFormed config modes) (keeps : order.Keeps config)
    (read : DesignSystem.read (.map config) = .accepted system) :
    ∃ other, DesignSystem.read (.map (reordered order config)) =
        .accepted other ∧ system.Reordered other := by
  have parts := DesignSystem.read_eq_accepted.1 read
  obtain ⟨colors, colorsRead, sameColors⟩ :=
    exists_read_colors wellFormed keeps parts.colors
  obtain ⟨spacing, spacingRead, sameSpacing⟩ := exists_read_modes .spacing
    (reordered order config) wellFormed keeps rfl
    (by simp [reordered, Entries.get?_changed]) parts.spacing
  obtain ⟨gap, gapRead, sameGap⟩ := exists_read_modes .gap
    (reordered order config) wellFormed keeps rfl
    (by simp [reordered, Entries.get?_changed]) parts.gap
  obtain ⟨typography, typographyRead, sameTypography⟩ := exists_read_modes
    .typography (reordered order config) wellFormed keeps rfl
    (by simp [reordered, Entries.get?_changed]) parts.typography
  obtain ⟨border, borderRead, sameBorder⟩ :=
    exists_read_border wellFormed keeps parts.border
  obtain ⟨time, timeRead, sameTime⟩ := exists_read_modes .time
    (reordered order config) wellFormed keeps rfl
    (by simp [reordered, Entries.get?_changed]) parts.time
  exact ⟨⟨colors, spacing, gap, typography, border, time⟩,
    DesignSystem.read_eq_accepted.2 ⟨colorsRead, spacingRead, gapRead,
      typographyRead, borderRead, timeRead⟩,
    ⟨sameColors, sameSpacing, sameGap, sameTypography, sameBorder,
      sameTime⟩⟩

end Modes

end DesignTokens
