import DesignTokens.Proofs.Schema.Writing

/-!
# Token sheets are read back

A token sheet that is written and read again is the same sheet, if all of its
numbers are finite. A number that is not finite is lost.
-/

namespace DesignTokens

open Grammar Schema Schema.Checked

/-! ## Scalars -/

theorem nullable_real_ofRaw (x : Float) :
    nullable real (Value.ofRaw x) =
      .accepted (if x.isFinite then some x else none) := by
  rw [Value.ofRaw]
  split
  · rfl
  · rfl

theorem choice_family (family : Family) :
    choice Family.choices (.str family.name) = .accepted family := by
  cases family <;> rfl

/-! ## Tokens -/

/-- The number of a token, unless it is infinite or NaN. -/
def Token.finiteNumber (token : Token) : Option Float :=
  token.rawValue.bind fun x => if x.isFinite then some x else none

/-- A token without a number that is not finite. -/
def Token.settled (token : Token) : Token :=
  { token with rawValue := token.finiteNumber }

section Fields

variable {entries : Entries}

theorem Metadata.read_of_fields {metadata : Metadata}
    (variant : spelled "isAlphaVariant" "is_alpha_variant" entries =
      metadata.isAlphaVariant.map .bool)
    (level : spelled "alphaLevel" "alpha_level" entries =
      metadata.alphaLevel.map .str)
    (color : spelled "baseColor" "base_color" entries =
      metadata.baseColor.map .str)
    (category : spelled "timeCategory" "time_category" entries =
      metadata.timeCategory.map .str) :
    Metadata.read (.map entries) = .accepted metadata := by
  rw [Metadata.read, model,
    fieldOr_eq_of_written variant nullable_flag_bool,
    fieldOr_eq_of_written level nullable_text_str,
    fieldOr_eq_of_written color nullable_text_str,
    fieldOr_eq_of_written category nullable_text_str]
  rfl

theorem Metadata.read_toValue (metadata : Metadata) :
    Metadata.read metadata.toValue = .accepted metadata := by
  apply Metadata.read_of_fields
  all_goals simp [spelled]

theorem Token.read_of_fields {token : Token}
    (family : spelled "family" "family" entries =
      some (.str token.family.name))
    (name : spelled "name" "name" entries = some (.str token.name))
    (value : spelled "value" "value" entries = some (.str token.value))
    (number : spelled "rawValue" "raw_value" entries =
      token.rawValue.map Value.ofRaw)
    (unit : spelled "unit" "unit" entries = token.unit.map .str)
    (reference : spelled "reference" "reference" entries =
      token.reference.map .str)
    (metadata : spelled "metadata" "metadata" entries =
      token.metadata.map Metadata.toValue) :
    Token.read (.map entries) = .accepted token.settled := by
  have described (held : Metadata) :
      nullable Metadata.read held.toValue = .accepted (some held) :=
    nullable_of_map held.read_toValue
  rw [Token.read, model, field_eq_of_spelled family (choice_family _),
    field_eq_of_spelled name (text_str _),
    field_eq_of_spelled value (text_str _),
    fieldOr_eq_of_part number fun _ _ => nullable_real_ofRaw _,
    fieldOr_eq_of_written unit nullable_text_str,
    fieldOr_eq_of_written reference nullable_text_str,
    fieldOr_eq_of_written metadata described]
  rfl

/-- A written token is read back, less a number that is not finite. -/
theorem Token.read_toValue (token : Token) :
    Token.read token.toValue = .accepted token.settled := by
  apply Token.read_of_fields
  all_goals simp [spelled]

/-! ## Modes -/

theorem ModeInfo.read_of_fields {info : ModeInfo}
    (default : spelled "default" "default" entries =
      some (.str info.default))
    (overrides : spelled "overrides" "overrides" entries =
      some (.list (info.overrides.map .str))) :
    ModeInfo.read (.map entries) = .accepted info := by
  have listed : listOf text (.list (info.overrides.map .str)) =
      .accepted info.overrides :=
    listOf_map_self fun name _ => text_str name
  rw [ModeInfo.read, model, fieldOr_eq_of_spelled default (text_str _),
    fieldOr_eq_of_spelled overrides listed]
  rfl

theorem ModeInfo.read_toValue (info : ModeInfo) :
    ModeInfo.read info.toValue = .accepted info := by
  apply ModeInfo.read_of_fields
  all_goals simp [spelled]

theorem ModeTable.read_of_fields {modes : ModeTable}
    (color : spelled "color" "color" entries = some modes.color.toValue)
    (size : spelled "size" "size" entries = some modes.size.toValue)
    (time : spelled "time" "time" entries = some modes.time.toValue) :
    ModeTable.read (.map entries) = .accepted modes := by
  rw [ModeTable.read, model,
    fieldOr_eq_of_spelled color modes.color.read_toValue,
    fieldOr_eq_of_spelled size modes.size.read_toValue,
    fieldOr_eq_of_spelled time modes.time.read_toValue]
  rfl

theorem ModeTable.read_toValue (modes : ModeTable) :
    ModeTable.read modes.toValue = .accepted modes := by
  apply ModeTable.read_of_fields
  all_goals simp [spelled]

/-! ## Sheets -/

/-- A token sheet without numbers that are not finite. -/
def TokenSheet.settled (sheet : TokenSheet) : TokenSheet :=
  { sheet with
    tokens := Record.mapValues Token.settled sheet.tokens
    overrides := Record.mapValues (Record.mapValues Token.settled)
      sheet.overrides }

theorem TokenSheet.read_of_fields {sheet : TokenSheet}
    (tokens : spelled "tokens" "tokens" entries =
      some (Record.toValue Token.toValue sheet.tokens))
    (modes : spelled "modes" "modes" entries = some sheet.modes.toValue)
    (overrides : spelled "overrideTokens" "override_tokens" entries =
      some (Record.toValue (Record.toValue Token.toValue)
        sheet.overrides)) :
    TokenSheet.read (.map entries) = .accepted sheet.settled := by
  have record (held : Record Token) :
      recordOf Token.read (Record.toValue Token.toValue held) =
        .accepted (Record.mapValues Token.settled held) :=
    recordOf_toValue fun entry _ => entry.2.read_toValue
  have nested : recordOf (recordOf Token.read)
      (Record.toValue (Record.toValue Token.toValue) sheet.overrides) =
        .accepted (Record.mapValues (Record.mapValues Token.settled)
          sheet.overrides) :=
    recordOf_toValue fun entry _ => record entry.2
  rw [TokenSheet.read, model, fieldOr_eq_of_spelled tokens (record _),
    fieldOr_eq_of_spelled modes sheet.modes.read_toValue,
    fieldOr_eq_of_spelled overrides nested]
  rfl

/-- A written sheet is read back, less the numbers that are not finite. -/
theorem TokenSheet.read_toValue_settled (sheet : TokenSheet) :
    TokenSheet.read sheet.toValue = .accepted sheet.settled := by
  apply TokenSheet.read_of_fields
  all_goals simp [spelled]

end Fields

/-! ## Finite numbers -/

/-- A token that has no number or a finite one. -/
def Token.IsFinite (token : Token) : Prop :=
  ∀ x, token.rawValue = some x → x.isFinite = true

theorem Token.settled_eq_iff (token : Token) :
    token.settled = token ↔ token.IsFinite := by
  obtain ⟨family, name, value, rawValue, unit, reference, metadata⟩ := token
  cases rawValue with
  | none => simp [settled, finiteNumber, IsFinite]
  | some x =>
      by_cases finite : x.isFinite = true
      · simp [settled, finiteNumber, IsFinite, finite]
      · simp [settled, finiteNumber, IsFinite, finite]

/-- A token sheet in which every number is finite. -/
structure TokenSheet.IsFinite (sheet : TokenSheet) : Prop where
  tokens : ∀ entry ∈ sheet.tokens, entry.2.IsFinite
  overrides : ∀ mode ∈ sheet.overrides, ∀ entry ∈ mode.2,
    entry.2.IsFinite

theorem TokenSheet.settled_eq_iff (sheet : TokenSheet) :
    sheet.settled = sheet ↔ sheet.IsFinite := by
  have parts : sheet.settled = sheet ↔
      Record.mapValues Token.settled sheet.tokens = sheet.tokens ∧
        Record.mapValues (Record.mapValues Token.settled) sheet.overrides =
          sheet.overrides := by
    rw [settled]
    obtain ⟨tokens, modes, overrides⟩ := sheet
    simp
  rw [parts]
  simp only [Record.mapValues_eq_self_iff, Token.settled_eq_iff]
  exact ⟨fun ⟨tokens, overrides⟩ => ⟨tokens, overrides⟩,
    fun finite => ⟨finite.tokens, finite.overrides⟩⟩

/-- A written sheet can always be read. It comes back as it was, with every
name, mode and token in its place, exactly where all of its numbers are
finite. -/
theorem TokenSheet.read_toValue_iff (sheet : TokenSheet) :
    (∃ result, TokenSheet.read sheet.toValue = .accepted result) ∧
      (TokenSheet.read sheet.toValue = .accepted sheet ↔ sheet.IsFinite) := by
  rw [TokenSheet.read_toValue_settled]
  refine ⟨⟨sheet.settled, rfl⟩, ?_⟩
  rw [Checked.accepted.injEq, TokenSheet.settled_eq_iff]

/-- Metadata without content is no absent metadata, and a mode without tokens
keeps its entry. -/
example :
    let ink : Token :=
      { family := .color, name := "ink", value := "", metadata := some {} }
    let sheet : TokenSheet :=
      { tokens := [("first", ink), ("second", { ink with metadata := none })]
        overrides := [("dark", [])] }
    TokenSheet.read sheet.toValue = .accepted sheet := rfl

end DesignTokens
