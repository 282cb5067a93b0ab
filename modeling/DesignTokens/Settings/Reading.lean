import DesignTokens.Schema.Pairs
import DesignTokens.Settings.Basic

/-!
# Reading and writing settings

Settings are given as partial mappings or as pairs; what is left out keeps its
default. A style sheet may also be told that it has no header by a
`fileHeader` that is false.
-/

namespace DesignTokens

open Schema

/-! ## Reading -/

def Prefixes.read : Reader Prefixes := model fun entries =>
  let absent : Prefixes := {}
  Prefixes.mk
    <$> fieldOr "color" "color" absent.color text entries
    <*> fieldOr "spacing" "spacing" absent.spacing text entries
    <*> fieldOr "gap" "gap" absent.gap text entries
    <*> fieldOr "typography" "typography" absent.typography text entries
    <*> fieldOr "borderRadius" "border_radius" absent.borderRadius text
      entries
    <*> fieldOr "borderWidth" "border_width" absent.borderWidth text entries
    <*> fieldOr "time" "time" absent.time text entries

def Separators.read : Reader Separators := model fun entries =>
  let absent : Separators := {}
  Separators.mk
    <$> fieldOr "modifier" "modifier" absent.modifier text entries
    <*> fieldOr "value" "value" absent.value text entries

def ColorFormat.read : Reader ColorFormat := model fun entries =>
  let absent : ColorFormat := {}
  ColorFormat.mk
    <$> fieldOr "base" "base" absent.base (choice OpaqueEncoding.choices)
      entries
    <*> fieldOr "alpha" "alpha" absent.alpha (choice AlphaEncoding.choices)
      entries
    <*> fieldOr "alphaModifier" "alpha_modifier" absent.alphaModifier text
      entries

def Settings.read : Reader Settings := model fun entries =>
  Settings.mk
    <$> fieldOr "prefixes" "prefixes" {} Prefixes.read entries
    <*> fieldOr "separators" "separators" {} Separators.read entries
    <*> fieldOr "colorFormat" "color_format" {} ColorFormat.read entries
    <*> fieldOr "selectors" "selectors" {} Selectors.read entries

/-- Settings that may be left out altogether. -/
def Settings.readGiven : Value → Except ReadFault Settings :=
  Schema.readGiven {} Settings.read

/-- Whether a value is the flag false itself. -/
private def isFalse : Value → Bool
  | .bool held => !held
  | _ => false

/-- Whether the entries of style sheet settings switch the header off. -/
def SheetSettings.declinesHeader (entries : Entries) : Bool :=
  ((Entries.get? "fileHeader" entries).map isFalse).getD false ||
    ((Entries.get? "file_header" entries).map isFalse).getD false

def SheetSettings.readEntries (entries : Entries) : Checked SheetSettings :=
  SheetSettings.mk
    <$> fieldOr "selectors" "selectors" {} Selectors.read entries
    <*> (if SheetSettings.declinesHeader entries then .accepted none
      else fieldOr "fileHeader" "file_header" none
        (nullable FileHeader.read) entries)

def SheetSettings.read : Reader SheetSettings :=
  model SheetSettings.readEntries

/-- Style sheet settings that may be left out altogether. -/
def SheetSettings.readGiven : Value → Except ReadFault SheetSettings :=
  Schema.readGiven {} SheetSettings.read

/-! ## Writing -/

/-- Prefixes as a mapping. -/
def Prefixes.toValue (prefixes : Prefixes) : Value :=
  .map [(.str "color", .str prefixes.color),
    (.str "spacing", .str prefixes.spacing),
    (.str "gap", .str prefixes.gap),
    (.str "typography", .str prefixes.typography),
    (.str "borderRadius", .str prefixes.borderRadius),
    (.str "borderWidth", .str prefixes.borderWidth),
    (.str "time", .str prefixes.time)]

/-- Separators as a mapping. -/
def Separators.toValue (separators : Separators) : Value :=
  .map [(.str "modifier", .str separators.modifier),
    (.str "value", .str separators.value)]

/-- A colour format as a mapping. -/
def ColorFormat.toValue (format : ColorFormat) : Value :=
  .map [(.str "base", .str format.base.name),
    (.str "alpha", .str format.alpha.name),
    (.str "alphaModifier", .str format.alphaModifier)]

/-- Settings as a mapping. -/
def Settings.toValue (settings : Settings) : Value :=
  .map [(.str "prefixes", settings.prefixes.toValue),
    (.str "separators", settings.separators.toValue),
    (.str "colorFormat", settings.colorFormat.toValue),
    (.str "selectors", settings.selectors.toValue)]

/-- Style sheet settings as a mapping. -/
def SheetSettings.toValue (settings : SheetSettings) : Value :=
  .map [(.str "selectors", settings.selectors.toValue),
    (.str "fileHeader",
      (settings.fileHeader.map FileHeader.toValue).getD .null)]

end DesignTokens
