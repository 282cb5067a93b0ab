import DesignTokens.System.Basic
import DesignTokens.Token.Wire

/-!
# Writing design systems

A typed design system as the configuration value that it can be read from.
Fields without a value are left out.
-/

namespace DesignTokens

/-- A colour as a mapping. -/
def Oklch.toValue (color : Oklch) : Value :=
  .map <|
    [Value.entry "mode" (.str "oklch"),
      Value.entry "l" (.float color.lightness),
      Value.entry "c" (.float color.chroma)] ++
    Value.entryOf "h" .float color.hue

mutual

/-- A value in which every built colour is written out as a mapping. -/
def Value.spelledOut : Value → Value
  | .color built => built.toValue
  | .list items => .list (Value.spelledOutItems items)
  | .tuple items => .tuple (Value.spelledOutItems items)
  | .map entries => .map (Value.spelledOutEntries entries)
  | value => value

/-- `Value.spelledOut` item by item. -/
def Value.spelledOutItems : List Value → List Value
  | [] => []
  | item :: rest => item.spelledOut :: Value.spelledOutItems rest

/-- `Value.spelledOut` entry by entry; keys stay as they are. -/
def Value.spelledOutEntries : List (Value × Value) → List (Value × Value)
  | [] => []
  | (key, value) :: rest =>
      (key, value.spelledOut) :: Value.spelledOutEntries rest

end

/-- Opacities as a mapping. -/
def AlphaSchedule.toValue (schedule : AlphaSchedule) : Value :=
  Record.toValue .float schedule

/-- A mode as a mapping. -/
def Mode.toValue {alpha : Type} (write : alpha → Entries)
    (mode : Mode alpha) : Value :=
  .map <|
    Value.entry "name" (.str mode.name) ::
    (Value.entryOf "isDefault" .bool mode.isDefault ++ write mode.content)

/-- A family that is a list of modes as a mapping. -/
def Modes.toValue {alpha : Type} (write : alpha → Entries)
    (modes : Modes alpha) : Value :=
  .map [Value.entry "modes" (.list (modes.map (Mode.toValue write)))]

/-- A colour that may be absent, as a mapping or null. -/
def Palette.colorValue (color : Option Oklch) : Value :=
  (color.map Oklch.toValue).getD .null

/-- The colours of a mode as fields. -/
def Palette.toEntries (palette : Palette) : Entries :=
  Value.entry "tokens" (Record.toValue Palette.colorValue palette.colors) ::
    Value.entryOf "alphaSchedule" AlphaSchedule.toValue
      palette.alphaSchedule

/-- The colours of a design system as a mapping. -/
def ColorFamily.toValue (family : ColorFamily) : Value :=
  .map <|
    Value.entry "modes"
      (.list (family.modes.map (Mode.toValue Palette.toEntries))) ::
    Value.entryOf "alphaSchedule" AlphaSchedule.toValue family.alphaSchedule

/-- A multiplicative scale as fields. -/
def Scale.toEntries (scale : Scale) : Entries :=
  [Value.entry "tokens" <| .map
    [Value.entry "unit" (.str scale.unit),
      Value.entry "base" (.float scale.base),
      Value.entry "min" (.float scale.minimum),
      Value.entry "range" (.int scale.count)]]

/-- An additive scale as fields. -/
def TypeScale.toEntries (scale : TypeScale) : Entries :=
  [Value.entry "tokens" <| .map
    [Value.entry "unit" (.str scale.unit),
      Value.entry "base" (.float scale.base),
      Value.entry "min" (.float scale.minimum),
      Value.entry "increment" (.float scale.increment),
      Value.entry "range" (.int scale.count)]]

/-- A single width as fields. -/
def Width.toEntries (width : Width) : Entries :=
  [Value.entry "tokens" <| .map
    [Value.entry "unit" (.str width.unit),
      Value.entry "value" (.float width.size)]]

/-- The references that have a value, as entries. -/
def References.referenceEntries : Record Value → Entries
  | [] => []
  | (name, value) :: rest =>
      if value.isNull then referenceEntries rest
      else Value.entry name value.spelledOut :: referenceEntries rest

/-- References as fields. -/
def References.toEntries (references : References) : Entries :=
  [Value.entry "tokens" <| .map <|
    Value.entryOf "unit" .str references.unit ++
    Value.entryOf "spacingMode" .str references.spacingMode ++
    References.referenceEntries references.entries]

/-- The families of a border as a mapping. -/
def Border.toValue (border : Border) : Value :=
  .map <|
    Value.entryOf "radius" (Modes.toValue References.toEntries)
      border.radius ++
    Value.entryOf "width" (Modes.toValue Width.toEntries) border.width

def DesignSystem.toValue (system : DesignSystem) : Value :=
  .map <|
    Value.entryOf "colors" ColorFamily.toValue system.colors ++
    Value.entryOf "spacing" (Modes.toValue Scale.toEntries) system.spacing ++
    Value.entryOf "gap" (Modes.toValue References.toEntries) system.gap ++
    Value.entryOf "typography" (Modes.toValue TypeScale.toEntries)
      system.typography ++
    Value.entryOf "border" Border.toValue system.border ++
    Value.entryOf "time" (Modes.toValue Scale.toEntries) system.time

end DesignTokens
