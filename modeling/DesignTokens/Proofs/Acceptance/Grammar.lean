import DesignTokens.Acceptance.Whole
import DesignTokens.Proofs.Number.Numeral
import DesignTokens.Proofs.Selection

/-!
# The grammar of configurations

Which configurations are well formed, without the order in which anything is
looked at. Fields with two spellings are read by the first one that is
present, even where it is null.
-/

namespace DesignTokens.Grammar

open Acceptance (PlainMode)

/-! ## Fields -/

/-- A field that is present and holds what it should. -/
def Holds (field : String) (good : Value → Prop) (entries : Entries) : Prop :=
  ∃ value, Entries.get? field entries = some value ∧ good value

/-- What is absent or null, or else what it should be. -/
def Optionally (good : Value → Prop) (given : Option Value) : Prop :=
  ∀ value, given = some value → value = .null ∨ good value

/-- The value of a field that has two spellings. -/
def spelled (name alternative : String) (entries : Entries) : Option Value :=
  (Entries.get? name entries).or (Entries.get? alternative entries)

theorem either?_eq_spelled (name alternative : String) (entries : Entries) :
    Entries.either? name alternative entries =
      spelled name alternative entries := by
  rw [Entries.either?, Entries.spelled?, spelled]
  cases Entries.get? name entries with
  | some value => rfl
  | none => cases Entries.get? alternative entries <;> rfl

theorem spelled_self (name : String) (entries : Entries) :
    spelled name name entries = Entries.get? name entries := by
  rw [spelled, Option.or_self]

theorem isNull_iff (value : Value) : value.isNull = true ↔ value = .null := by
  cases value <;> simp [Value.isNull]

theorem isText_iff (value : Value) (text : String) :
    value.isText text = true ↔ value = .str text := by
  cases value <;> simp [Value.isText]

theorem given?_eq_some_iff {field : String} {entries : Entries}
    {value : Value} :
    Entries.given? field entries = some value ↔
      Entries.get? field entries = some value ∧ value ≠ .null := by
  rw [Entries.given?, Option.filter_eq_some_iff, Bool.not_eq_true',
    ← Bool.not_eq_true, isNull_iff]

theorem given?_of_absent {field : String} {entries : Entries}
    (absent : Entries.get? field entries = none) :
    Entries.given? field entries = none := by
  rw [Entries.given?, absent]
  rfl

theorem given?_of_null {field : String} {entries : Entries}
    (null : Entries.get? field entries = some .null) :
    Entries.given? field entries = none := by
  rw [Entries.given?, null]
  rfl

theorem entries?_eq_some_iff (value : Value) (entries : Entries) :
    value.entries? = some entries ↔ value = .map entries := by
  cases value <;> simp [Value.entries?]

theorem get?_eq_none_iff {key : String} {entries : Entries} :
    Entries.get? key entries = none ↔
      ∀ entry ∈ entries, entry.1 ≠ .str key := by
  induction entries with
  | nil => exact iff_of_true rfl nofun
  | cons first rest inductionHypothesis =>
      obtain ⟨known, held⟩ := first
      rw [List.forall_mem_cons, ← inductionHypothesis]
      cases known with
      | str name =>
          rw [Entries.get?]
          by_cases same : name = key
          · simp [same]
          · simp [same]
      | _ => simp [Entries.get?]

/-- What may be missing is accepted where it is absent or null, or as it should
be. -/
theorem optionally_iff {good : Value → Prop} {given : Option Value}
    {accepted : Prop} (absent : given = none → accepted)
    (null : given = some .null → accepted)
    (present : ∀ value, given = some value → value ≠ .null →
      (accepted ↔ good value)) :
    accepted ↔ Optionally good given := by
  constructor
  · intro held value found
    by_cases isNull : value = .null
    · exact .inl isNull
    · exact .inr ((present value found isNull).1 held)
  · intro optional
    rcases given with _ | value
    · exact absent rfl
    · by_cases isNull : value = .null
      · subst isNull
        exact null rfl
      · exact (present value rfl isNull).2
          ((optional value rfl).resolve_left isNull)

theorem optionally_given_iff {good : Value → Prop} {field : String}
    {entries : Entries} {accepted : Prop}
    (missing : Entries.given? field entries = none → accepted)
    (present : ∀ value, Entries.given? field entries = some value →
      (accepted ↔ good value)) :
    accepted ↔ Optionally good (Entries.get? field entries) :=
  optionally_iff (fun absent => missing (given?_of_absent absent))
    (fun null => missing (given?_of_null null))
    fun value found notNull =>
      present value (given?_eq_some_iff.2 ⟨found, notNull⟩)

/-! ## Scalars and lists -/

/-- A value that is a number stands for it. Flags are no numbers, and neither
are infinite doubles, NaN and whole numbers beyond the doubles. -/
def Denotes (value : Value) (q : ℚ) : Prop :=
  value.numeral?.bind Number.Numeral.value? = some q

/-- A number of a certain kind. -/
def IsNumber (kind : ℚ → Prop) (value : Value) : Prop :=
  ∃ q, Denotes value q ∧ kind q

/-- A positive whole number; it may be written as a double. -/
def IsStepCount (value : Value) : Prop :=
  ∃ n : Int, Denotes value n ∧ 1 ≤ n

/-- A text that is not empty. -/
def IsName (value : Value) : Prop :=
  ∃ held, value = .str held ∧ held ≠ ""

/-- A value is the list or tuple of these items. -/
def Lists (value : Value) (items : List Value) : Prop :=
  value = .list items ∨ value = .tuple items

theorem items?_eq_some_iff (value : Value) (items : List Value) :
    value.items? = some items ↔ Lists value items := by
  cases value <;> simp [Value.items?, Lists]

/-! ## The tokens of a mode -/

/-- The tokens of a scale with this kind of base. -/
structure IsScale (base : ℚ → Prop) (tokens : Entries) : Prop where
  unit : Holds "unit" IsName tokens
  base : Holds "base" (IsNumber base) tokens
  least : Holds "min" (IsNumber (0 ≤ ·)) tokens
  count : Holds "range" IsStepCount tokens

/-- The tokens of an additive scale. -/
structure IsTypeScale (tokens : Entries) : Prop
    extends IsScale (0 < ·) tokens where
  increment : Holds "increment" (IsNumber fun _ => True) tokens

/-- The tokens of a width. -/
structure IsWidth (tokens : Entries) : Prop where
  unit : Holds "unit" IsName tokens
  size : Holds "value" (IsNumber (0 ≤ ·)) tokens

/-- The channels of a colour. -/
structure IsChannels (channels : Entries) : Prop where
  space : ∀ value, Entries.get? "mode" channels = some value →
    value = .str "oklch"
  lightness : Holds "l" (IsNumber fun _ => True) channels
  chroma : Holds "c" (IsNumber fun _ => True) channels
  hue : Optionally (IsNumber fun _ => True) (Entries.get? "h" channels)

/-- A colour: none, one that is already built, or its channels. -/
inductive IsColor : Value → Prop
  | null : IsColor .null
  | built (color : Oklch) : IsColor (.color color)
  | channels {channels : Entries} :
      IsChannels channels → IsColor (.map channels)

/-- Opacities by level: at least one, each between zero and one. -/
def IsSchedule (value : Value) : Prop :=
  ∃ levels, value = .map levels ∧ levels ≠ [] ∧
    ∀ entry ∈ levels, IsName entry.1 ∧
      IsNumber (fun q => 0 ≤ q ∧ q ≤ 1) entry.2

/-- Fields that hold opacities, or none. -/
def HasSchedule (entries : Entries) : Prop :=
  Optionally IsSchedule (spelled "alphaSchedule" "alpha_schedule" entries)

/-- A reference to a step of a spacing scale. -/
def IsReference (value : Value) : Prop :=
  value = .str "min" ∨ ∃ n : Nat, value = .int n

/-- References to the spacing modes of these names. -/
structure IsReferences (spacing : List String) (tokens : Entries) : Prop where
  unit : Optionally IsName (Entries.get? "unit" tokens)
  spacingMode : Optionally (fun value => ∃ name ∈ spacing, value = .str name)
    (spelled "spacingMode" "spacing_mode" tokens)
  entries : ∀ entry ∈ tokens, ∃ name, entry.1 = .str name ∧ name ≠ "" ∧
    (name ∈ ["unit", "spacingMode", "spacing_mode"] ∨ IsReference entry.2)

/-- What a mode of a family holds. -/
def Content (spacing : List String) : Family → PlainMode → Prop
  | .color => fun mode =>
      (∀ entry ∈ mode.tokens, IsName entry.1 ∧ IsColor entry.2) ∧
        HasSchedule mode.entries
  | .spacing => fun mode => IsScale (0 < ·) mode.tokens
  | .gap | .borderRadius => fun mode => IsReferences spacing mode.tokens
  | .typography => fun mode => IsTypeScale mode.tokens
  | .borderWidth => fun mode => IsWidth mode.tokens
  | .time => fun mode => IsScale (0 ≤ ·) mode.tokens

/-! ## Families -/

/-- A mode is a mapping with a name, possibly a flag, and tokens. -/
structure IsMode (value : Value) (mode : PlainMode) : Prop where
  mapping : value = .map mode.entries
  name : Entries.get? "name" mode.entries = some (.str mode.name)
  named : mode.name ≠ ""
  flag : Optionally (fun given => ∃ held, given = .bool held)
    (spelled "isDefault" "is_default" mode.entries)
  tokens : Entries.get? "tokens" mode.entries = some (.map mode.tokens)

/-- A family with these modes. -/
structure IsFamily (spacing : List String) (family : Family)
    (entries : Entries) (modes : List PlainMode) : Prop where
  listed : Holds "modes"
    (fun value => ∃ items, Lists value items ∧ List.Forall₂ IsMode items modes)
    entries
  nonempty : modes ≠ []
  distinct : (modes.map PlainMode.name).Nodup
  schedule : family = .color → HasSchedule entries
  content : ∀ mode ∈ modes, Content spacing family mode

theorem IsFamily.exists_isMode {spacing : List String} {family : Family}
    {entries : Entries} {modes : List PlainMode}
    (isFamily : IsFamily spacing family entries modes) {mode : PlainMode}
    (member : mode ∈ modes) : ∃ item, IsMode item mode := by
  obtain ⟨_, _, items, listed, areModes⟩ := isFamily.listed
  clear isFamily listed
  induction areModes with
  | nil => cases member
  | cons isMode _ inductionHypothesis =>
      rcases List.mem_cons.1 member with rfl | later
      · exact ⟨_, isMode⟩
      · exact inductionHypothesis later

/-- The default mode: the first one that is flagged, or the first one of all
where none is. -/
def IsDefault (modes : List PlainMode) (mode : PlainMode) : Prop :=
  ∃ earlier later,
    Selection.Split PlainMode.flagged modes earlier mode later

/-- The name of a mode that is not the default. -/
def IsOverride (modes : List PlainMode) (name : String) : Prop :=
  ∃ mode ∈ modes, mode.name = name ∧ ¬ IsDefault modes mode

/-! ## Configurations -/

/-- The value of a family in a configuration, unless it is null. -/
def familyValue (config : Entries) : Family → Option Value
  | .color => Entries.given? "colors" config
  | .spacing => Entries.given? "spacing" config
  | .gap => Entries.given? "gap" config
  | .typography => Entries.given? "typography" config
  | .borderRadius => (Entries.given? "border" config).bind fun border =>
      border.entries?.bind (Entries.given? "radius")
  | .borderWidth => (Entries.given? "border" config).bind fun border =>
      border.entries?.bind (Entries.given? "width")
  | .time => Entries.given? "time" config

/-- A configuration whose families have these modes. -/
structure WellFormed (config : Entries) (modes : Family → List PlainMode) :
    Prop where
  someFamily : ∃ field ∈
    ["colors", "spacing", "gap", "typography", "border", "time"],
    ∃ value, Entries.given? field config = some value
  border : Optionally (fun value => ∃ entries, value = .map entries)
    (Entries.get? "border" config)
  needsSpacing : ∀ family ∈ [Family.gap, .borderRadius],
    familyValue config family ≠ none → familyValue config .spacing ≠ none
  absent : ∀ family, familyValue config family = none → modes family = []
  present : ∀ family value, familyValue config family = some value →
    ∃ entries, value = .map entries ∧
      IsFamily ((modes .spacing).map PlainMode.name) family entries
        (modes family)
  isolated : ∀ family ∈ Category.size.families, ∀ name,
    IsOverride (modes .color) name → ¬ IsOverride (modes family) name

/-- The modes of a family have names of their own, if only because there are
none. -/
theorem names_nodup {spacing : List String} {family : Family}
    {given : Option Value} {modes : List PlainMode}
    (absent : given = none → modes = [])
    (present : ∀ value, given = some value → ∃ entries,
      value = .map entries ∧ IsFamily spacing family entries modes) :
    (modes.map PlainMode.name).Nodup := by
  cases given with
  | none =>
      rw [absent rfl]
      exact List.nodup_nil
  | some value =>
      obtain ⟨_, _, isFamily⟩ := present value rfl
      exact isFamily.distinct

namespace WellFormed

variable {config : Entries} {modes : Family → List PlainMode}

/-- A mode is a mode of a family that is given. -/
theorem isFamily_of_mem (wellFormed : WellFormed config modes)
    {family : Family} {mode : PlainMode} (member : mode ∈ modes family) :
    ∃ entries, familyValue config family = some (.map entries) ∧
      IsFamily ((modes .spacing).map PlainMode.name) family entries
        (modes family) := by
  cases given : familyValue config family with
  | none =>
      rw [wellFormed.absent family given] at member
      cases member
  | some value =>
      obtain ⟨entries, rfl, isFamily⟩ :=
        wellFormed.present family value given
      exact ⟨entries, rfl, isFamily⟩

theorem exists_isMode (wellFormed : WellFormed config modes)
    {family : Family} {mode : PlainMode} (member : mode ∈ modes family) :
    ∃ item, IsMode item mode := by
  obtain ⟨_, _, isFamily⟩ := wellFormed.isFamily_of_mem member
  exact isFamily.exists_isMode member

/-- What the modes of a family hold. -/
theorem content_of_mem (wellFormed : WellFormed config modes)
    {family : Family} {mode : PlainMode} (member : mode ∈ modes family) :
    Content ((modes .spacing).map PlainMode.name) family mode := by
  obtain ⟨_, _, isFamily⟩ := wellFormed.isFamily_of_mem member
  exact isFamily.content mode member

theorem distinct (wellFormed : WellFormed config modes) (family : Family) :
    ((modes family).map PlainMode.name).Nodup :=
  names_nodup (wellFormed.absent family) (wellFormed.present family)

end WellFormed

/-! ## Tokens inside a configuration -/

/-- A mapping with a field that holds what it should. -/
def Inside (field : String) (good : Value → Prop) (value : Value) : Prop :=
  ∃ entries, value = .map entries ∧ Holds field good entries

/-- Some mode of a family has these tokens. -/
def GivesTokens (config : Value) (family : Family) (tokens : Entries) :
    Prop :=
  ∃ entries value, config = .map entries ∧
    familyValue entries family = some value ∧
      Inside "modes" (fun listing => ∃ items, Lists listing items ∧
        ∃ mode ∈ items, Inside "tokens" (· = .map tokens) mode) value

/-- A family with one mode gives the tokens of that mode. -/
theorem GivesTokens.eq_of_single {config fields mode : Entries}
    {family : Family} {tokens own : Entries}
    (gives : GivesTokens (.map config) family tokens)
    (given : familyValue config family = some (.map fields))
    (listed : Entries.get? "modes" fields = some (.list [.map mode]))
    (held : Entries.get? "tokens" mode = some (.map own)) : tokens = own := by
  obtain ⟨_, _, same, found, _, rfl, listing, modes, items, lists, item,
    member, _, rfl, _, isHeld, rfl⟩ := gives
  cases same
  rw [given] at found
  cases found
  rw [listed] at modes
  cases modes
  rw [← items?_eq_some_iff] at lists
  cases lists
  cases List.mem_singleton.1 member
  rw [held] at isHeld
  cases isHeld
  rfl

/-- What holds of some written mode holds of some accepted one. -/
theorem inside_modes_iff {spacing : List String} {family : Family}
    {entries : Entries} {modes : List PlainMode}
    (isFamily : IsFamily spacing family entries modes)
    {good : Value → Prop} {accepted : PlainMode → Prop}
    (each : ∀ item mode, IsMode item mode → (good item ↔ accepted mode)) :
    Inside "modes" (fun listing => ∃ items, Lists listing items ∧
        ∃ mode ∈ items, good mode) (.map entries) ↔
      ∃ mode ∈ modes, accepted mode := by
  obtain ⟨listing, given, items, listed, areModes⟩ := isFamily.listed
  have members : (∃ item ∈ items, good item) ↔
      ∃ mode ∈ modes, accepted mode := by
    clear listed isFamily
    induction areModes with
    | nil => simp
    | cons isMode _ inductionHypothesis =>
        simp [inductionHypothesis, each _ _ isMode]
  rw [← members]
  constructor
  · rintro ⟨_, same, value, found, others, again, wide⟩
    cases same
    rw [given] at found
    cases found
    rw [← items?_eq_some_iff] at listed again
    rwa [Option.some.inj (listed.symm.trans again)]
  · intro wide
    exact ⟨entries, rfl, listing, given, items, listed, wide⟩

theorem WellFormed.inside_family_iff {config : Entries}
    {modes : Family → List PlainMode} (wellFormed : WellFormed config modes)
    {family : Family} {good : Value → Prop} {accepted : PlainMode → Prop}
    (each : ∀ item mode, IsMode item mode → (good item ↔ accepted mode)) :
    (∃ entries value, Value.map config = .map entries ∧
      familyValue entries family = some value ∧
        Inside "modes" (fun listing => ∃ items, Lists listing items ∧
          ∃ mode ∈ items, good mode) value) ↔
      ∃ mode ∈ modes family, accepted mode := by
  simp only [Value.map.injEq, exists_and_left, exists_eq_left']
  cases given : familyValue config family with
  | none => simp [wellFormed.absent family given]
  | some value =>
      obtain ⟨entries, rfl, isFamily⟩ :=
        wellFormed.present family value given
      simp only [Option.some.injEq, exists_eq_left']
      exact inside_modes_iff isFamily each

theorem WellFormed.givesTokens_iff {config : Entries}
    {modes : Family → List PlainMode} (wellFormed : WellFormed config modes)
    (family : Family) (tokens : Entries) :
    GivesTokens (.map config) family tokens ↔
      ∃ mode ∈ modes family, mode.tokens = tokens :=
  wellFormed.inside_family_iff fun item mode isMode => by
    simp [Inside, Holds, isMode.mapping, isMode.tokens]

/-- Some mode of a family has this name and these tokens. -/
def GivesMode (config : Value) (family : Family) (name : String)
    (tokens : Entries) : Prop :=
  ∃ entries value, config = .map entries ∧
    familyValue entries family = some value ∧
      Inside "modes" (fun listing => ∃ items, Lists listing items ∧
        ∃ mode ∈ items, Inside "name" (· = .str name) mode ∧
          Inside "tokens" (· = .map tokens) mode) value

theorem WellFormed.givesMode_iff {config : Entries}
    {modes : Family → List PlainMode} (wellFormed : WellFormed config modes)
    (family : Family) (name : String) (tokens : Entries) :
    GivesMode (.map config) family name tokens ↔
      ∃ mode ∈ modes family, mode.name = name ∧ mode.tokens = tokens :=
  wellFormed.inside_family_iff fun item mode isMode => by
    simp [Inside, Holds, isMode.mapping, isMode.name, isMode.tokens]

/-! ## Configurations written out -/

/-- A family whose modes have these names and tokens. -/
def writtenFamily (modes : List (String × Entries)) : Value :=
  .map [(.str "modes", .list (modes.map fun mode =>
    .map [(.str "name", .str mode.1), (.str "tokens", .map mode.2)]))]

/-- The tokens of a scale in pixels. -/
def writtenScale (base : Int) (range : Value) : Entries :=
  [(.str "unit", .str "px"), (.str "base", .int base), (.str "min", .int 2),
    (.str "range", range)]

end DesignTokens.Grammar
