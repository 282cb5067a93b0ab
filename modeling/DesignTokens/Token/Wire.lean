import DesignTokens.Schema.Field
import DesignTokens.Token.Sheet

/-!
# Token sheets as configuration values

A token sheet is written as nested mappings and read back. Absent parts are
left out; a number that is not finite is written as null.
-/

namespace DesignTokens

/-! ## Writing -/

/-- An entry under a key that is a text. -/
def Value.entry (key : String) (value : Value) : Value × Value :=
  (.str key, value)

/-- An entry for a part that may be absent. -/
def Value.entryOf {alpha : Type} (key : String) (write : alpha → Value) :
    Option alpha → Entries
  | none => []
  | some part => [Value.entry key (write part)]

/-- A record as a mapping. -/
def Record.toValue {alpha : Type} (write : alpha → Value)
    (record : Record alpha) : Value :=
  .map (record.map fun entry => Value.entry entry.1 (write entry.2))

/-- A number; null where it is not finite. -/
def Value.ofRaw (x : Float) : Value :=
  if x.isFinite then .float x else .null

/-- Metadata as a mapping. -/
def Metadata.toValue (metadata : Metadata) : Value :=
  .map <|
    Value.entryOf "isAlphaVariant" .bool metadata.isAlphaVariant ++
    Value.entryOf "alphaLevel" .str metadata.alphaLevel ++
    Value.entryOf "baseColor" .str metadata.baseColor ++
    Value.entryOf "timeCategory" .str metadata.timeCategory

/-- A token as a mapping. -/
def Token.toValue (token : Token) : Value :=
  .map <|
    [Value.entry "family" (.str token.family.name),
      Value.entry "name" (.str token.name),
      Value.entry "value" (.str token.value)] ++
    Value.entryOf "rawValue" Value.ofRaw token.rawValue ++
    Value.entryOf "unit" .str token.unit ++
    Value.entryOf "reference" .str token.reference ++
    Value.entryOf "metadata" Metadata.toValue token.metadata

/-- The modes of a category as a mapping. -/
def ModeInfo.toValue (info : ModeInfo) : Value :=
  .map [Value.entry "default" (.str info.default),
    Value.entry "overrides" (.list (info.overrides.map .str))]

/-- The modes of all categories as a mapping. -/
def ModeTable.toValue (modes : ModeTable) : Value :=
  .map [Value.entry "color" modes.color.toValue,
    Value.entry "size" modes.size.toValue,
    Value.entry "time" modes.time.toValue]

def TokenSheet.toValue (sheet : TokenSheet) : Value :=
  .map [Value.entry "tokens" (Record.toValue Token.toValue sheet.tokens),
    Value.entry "modes" sheet.modes.toValue,
    Value.entry "overrideTokens"
      (Record.toValue (Record.toValue Token.toValue) sheet.overrides)]

/-! ## Reading -/

open Schema

def Metadata.read : Reader Metadata := model fun entries =>
  Metadata.mk
    <$> fieldOr "isAlphaVariant" "is_alpha_variant" none (nullable flag)
      entries
    <*> fieldOr "alphaLevel" "alpha_level" none (nullable text) entries
    <*> fieldOr "baseColor" "base_color" none (nullable text) entries
    <*> fieldOr "timeCategory" "time_category" none (nullable text) entries

def Token.read : Reader Token := model fun entries =>
  Token.mk
    <$> field "family" "family" (choice Family.choices) entries
    <*> field "name" "name" text entries
    <*> field "value" "value" text entries
    <*> fieldOr "rawValue" "raw_value" none (nullable real) entries
    <*> fieldOr "unit" "unit" none (nullable text) entries
    <*> fieldOr "reference" "reference" none (nullable text) entries
    <*> fieldOr "metadata" "metadata" none (nullable Metadata.read) entries

/-- Read the modes of a category. -/
def ModeInfo.read : Reader ModeInfo := model fun entries =>
  ModeInfo.mk
    <$> fieldOr "default" "default" "" text entries
    <*> fieldOr "overrides" "overrides" [] (listOf text) entries

/-- Read the modes of all categories. -/
def ModeTable.read : Reader ModeTable := model fun entries =>
  ModeTable.mk
    <$> fieldOr "color" "color" {} ModeInfo.read entries
    <*> fieldOr "size" "size" {} ModeInfo.read entries
    <*> fieldOr "time" "time" {} ModeInfo.read entries

def TokenSheet.read : Reader TokenSheet := model fun entries =>
  TokenSheet.mk
    <$> fieldOr "tokens" "tokens" [] (recordOf Token.read) entries
    <*> fieldOr "modes" "modes" {} ModeTable.read entries
    <*> fieldOr "overrideTokens" "override_tokens" []
      (recordOf (recordOf Token.read)) entries

end DesignTokens
