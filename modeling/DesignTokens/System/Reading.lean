import DesignTokens.Schema.Field
import DesignTokens.System.Basic

/-!
# Reading design systems

Configuration values as typed design systems. Every issue is collected;
unknown fields are ignored, except among references, where every further field
is an entry.
-/

namespace DesignTokens

open Schema

/-! ## Colours -/

/-- Read the channels of a colour. -/
def Oklch.readEntries (entries : Entries) : Checked Oklch :=
  (fun _ lightness chroma hue => Oklch.mk lightness chroma hue)
    <$> fieldOr "mode" "mode" () (constant "oklch") entries
    <*> field "l" "l" real entries
    <*> field "c" "c" real entries
    <*> fieldOr "h" "h" none (nullable real) entries

/-- Read a colour; a colour that is already built is taken as it is. -/
def Oklch.read : Reader Oklch
  | .color built => .accepted built
  | value => model Oklch.readEntries value

/-! ## Modes -/

/-- Read a mode, whose content is read from all of its fields. -/
def Mode.read {alpha : Type} (readContent : Entries → Checked alpha) :
    Reader (Mode alpha) := model fun entries =>
  Mode.mk
    <$> field "name" "name" text entries
    <*> fieldOr "isDefault" "is_default" (some false) (nullable flag) entries
    <*> readContent entries

def readTokens {alpha : Type} (read : Reader alpha) :
    Entries → Checked alpha :=
  field "tokens" "tokens" read

/-- Read a family that is a list of modes. -/
def Modes.read {alpha : Type} (readContent : Entries → Checked alpha) :
    Reader (Modes alpha) := model fun entries =>
  field "modes" "modes" (listOf (Mode.read readContent)) entries

/-- Read the opacities of a family or mode. -/
def readSchedule (entries : Entries) : Checked (Option AlphaSchedule) :=
  fieldOr "alphaSchedule" "alpha_schedule" none (nullable (recordOf real))
    entries

/-- Read the colours of a mode. -/
def Palette.read (entries : Entries) : Checked Palette :=
  Palette.mk
    <$> fieldOr "tokens" "tokens" [] (recordOf (nullable Oklch.read)) entries
    <*> readSchedule entries

/-- Read the colours of a design system. -/
def ColorFamily.read : Reader ColorFamily := model fun entries =>
  ColorFamily.mk
    <$> field "modes" "modes" (listOf (Mode.read Palette.read)) entries
    <*> readSchedule entries

/-! ## Scales, references and widths -/

/-- Read a multiplicative scale. -/
def Scale.read : Reader Scale := model fun entries =>
  Scale.mk
    <$> field "unit" "unit" text entries
    <*> field "base" "base" real entries
    <*> field "min" "min" real entries
    <*> field "range" "range" whole entries

/-- Read an additive scale. -/
def TypeScale.read : Reader TypeScale := model fun entries =>
  TypeScale.mk
    <$> field "unit" "unit" text entries
    <*> field "base" "base" real entries
    <*> field "min" "min" real entries
    <*> field "increment" "increment" real entries
    <*> field "range" "range" whole entries

/-- Read a single width. -/
def Width.read : Reader Width := model fun entries =>
  Width.mk
    <$> field "unit" "unit" text entries
    <*> field "value" "value" real entries

/-- The spelling of the spacing mode among the fields of references. -/
def References.modeSpelling (entries : Entries) : String :=
  if (Entries.get? "spacingMode" entries).isSome then "spacingMode"
  else "spacing_mode"

/-- Read the entries of references: all fields but the unit and the spacing
mode. -/
def References.readEntries (spelling : String) :
    Entries → Checked (Record Value)
  | [] => .accepted []
  | (.str name, value) :: rest =>
      if name = "unit" ∨ name = spelling then
        References.readEntries spelling rest
      else
        ((name, value) :: ·) <$> References.readEntries spelling rest
  | (key, _) :: rest =>
      (fun _ more => more)
        <$> (Checked.refused [⟨[keyStep key], .keyNotText⟩] : Checked Unit)
        <*> References.readEntries spelling rest

def References.read : Reader References := model fun entries =>
  References.mk
    <$> fieldOr "unit" "unit" none (nullable text) entries
    <*> fieldOr "spacingMode" "spacing_mode" none (nullable text) entries
    <*> References.readEntries (References.modeSpelling entries) entries

/-! ## Families -/

def Border.read : Reader Border := model fun entries =>
  Border.mk
    <$> fieldOr "radius" "radius" none
      (nullable (Modes.read (readTokens References.read))) entries
    <*> fieldOr "width" "width" none
      (nullable (Modes.read (readTokens Width.read))) entries

def DesignSystem.read : Reader DesignSystem := model fun entries =>
  DesignSystem.mk
    <$> fieldOr "colors" "colors" none (nullable ColorFamily.read) entries
    <*> fieldOr "spacing" "spacing" none
      (nullable (Modes.read (readTokens Scale.read))) entries
    <*> fieldOr "gap" "gap" none
      (nullable (Modes.read (readTokens References.read))) entries
    <*> fieldOr "typography" "typography" none
      (nullable (Modes.read (readTokens TypeScale.read))) entries
    <*> fieldOr "border" "border" none (nullable Border.read) entries
    <*> fieldOr "time" "time" none
      (nullable (Modes.read (readTokens Scale.read))) entries

end DesignTokens
