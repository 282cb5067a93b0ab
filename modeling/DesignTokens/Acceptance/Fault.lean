import DesignTokens.Token.Basic
import DesignTokens.Value.Text

/-!
# Faults of a configuration

The first thing that is wrong with a configuration, the message for it and the
dotted path to the place. Paths name modes by index until their names are
known, and by name after that.
-/

namespace DesignTokens.Acceptance

open DesignTokens.Number (Numeral)

/-- What is wrong with opacities by level. -/
inductive ScheduleFault where
  | notMapping
  | empty
  | levelName (key : Value)
  | notNumber (level : String)
  | outOfRange (level : String) (opacity : Numeral)

/-- What is wrong with a colour. -/
inductive ColorFault where
  | notColor
  | wrongSpace (given : Value)
  | channel (name : String)

/-- What a number has to be. -/
inductive Need where
  | number
  | positive
  | nonNegative
  deriving DecidableEq, Repr

/-- What is wrong with the tokens of a mode. -/
inductive ContentFault where
  | colorName (key : Value)
  | color (name : String) (fault : ColorFault)
  | unit
  | field (name : String) (need : Need)
  | range (given : Value)
  | spacingModeNotText
  | spacingModeUnknown (name : String)
  | tokenName (key : Value)
  | reference (name : String) (given : Value)

/-- What is wrong with a mode whose name is not yet known to be good. -/
inductive ShapeFault where
  | notMapping
  | unnamed
  | repeated (name : String)
  deriving DecidableEq, Repr

/-- What is wrong with a family. -/
inductive FamilyFault where
  | notMapping
  | modesNotList
  | noModes
  | shape (index : Nat) (fault : ShapeFault)
  | flag (mode : String)
  | noTokens (mode : String)
  | schedule (mode : Option String) (fault : ScheduleFault)
  | content (mode : String) (fault : ContentFault)

/-- What is wrong with a configuration. -/
inductive Fault where
  | notMapping
  | noFamily
  | borderNotMapping
  | needsSpacing (family : Family)
  | inFamily (family : Family) (fault : FamilyFault)
  | sharedOverride (family : Family) (mode : String)

/-! ## Names and paths -/

def familyPath : Family → String
  | .color => "colors"
  | .spacing => "spacing"
  | .gap => "gap"
  | .typography => "typography"
  | .borderRadius => "border.radius"
  | .borderWidth => "border.width"
  | .time => "time"

/-- A family in the words of a message. -/
def familyLabel : Family → String
  | .color => "Color"
  | .spacing => "Spacing"
  | .gap => "Gap"
  | .typography => "Typography"
  | .borderRadius => "Border radius"
  | .borderWidth => "Border width"
  | .time => "Time"

/-- The fields under which families are given. -/
def familyFields : List String :=
  ["colors", "spacing", "gap", "typography", "border", "time"]

/-- The path to a named mode. -/
def modePath (family : Family) (mode : String) : String :=
  familyPath family ++ ".modes[\"" ++ mode ++ "\"]"

/-- The path to a mode in a position. -/
def indexPath (family : Family) (index : Nat) : String :=
  familyPath family ++ ".modes[" ++ Number.wholeText index ++ "]"

/-- A named mode in the words of a message. -/
def modeLabel (family : Family) (mode : String) : String :=
  familyLabel family ++ " mode \"" ++ mode ++ "\""

/-- The path to the opacities of a family or of one of its modes. -/
def schedulePath (family : Family) : Option String → String
  | none => familyPath family ++ ".alphaSchedule"
  | some mode => modePath family mode ++ ".alphaSchedule"

/-- The given value in the words of a message. -/
def got (given : Value) : String :=
  "(got " ++ given.quoted ++ ")"

/-! ## Messages -/

namespace ScheduleFault

/-- The path to a fault in the opacities at `path`. -/
def path (path : String) : ScheduleFault → String
  | .notMapping | .empty => path
  | .levelName key => path ++ "." ++ key.plain
  | .notNumber level | .outOfRange level _ => path ++ "." ++ level

/-- The message for a fault in the opacities at `path`. -/
def message (path : String) : ScheduleFault → String
  | .notMapping => path ++ " must be a mapping of level -> alpha"
  | .empty => path ++ " must have at least one alpha level"
  | .levelName key =>
      path ++ " alpha level must be a non-empty string " ++ got key
  | .notNumber level => path ++ "." ++ level ++ " must be a number"
  | .outOfRange level opacity =>
      path ++ "." ++ level ++ " must be between 0 and 1 (got "
        ++ opacity.text ++ ")"

end ScheduleFault

namespace ColorFault

/-- The path to a fault in the colour at `path`. -/
def path (path : String) : ColorFault → String
  | .notColor => path
  | .wrongSpace _ => path ++ ".mode"
  | .channel name => path ++ "." ++ name

/-- The message for a fault in the colour at `path`. -/
def message (path : String) : ColorFault → String
  | .notColor => path ++ " must be an OKLCH color \x7bl, c, h\x7d"
  | .wrongSpace given => path ++ ".mode must be \"oklch\" " ++ got given
  | .channel name => path ++ "." ++ name ++ " must be a number"

end ColorFault

/-- What a number has to be, in the words of a message. -/
def Need.text : Need → String
  | .number => "a number"
  | .positive => "a positive number"
  | .nonNegative => "a non-negative number"

namespace ContentFault

/-- The path to a fault in the tokens at `path`. -/
def path (path : String) : ContentFault → String
  | .colorName key | .tokenName key => path ++ "." ++ key.plain
  | .color name fault => fault.path (path ++ "." ++ name)
  | .unit => path ++ ".unit"
  | .field name _ => path ++ "." ++ name
  | .range _ => path ++ ".range"
  | .spacingModeNotText | .spacingModeUnknown _ => path ++ ".spacingMode"
  | .reference name _ => path ++ "." ++ name

/-- The message for a fault in the tokens at `path` of the mode that messages
call `label`. -/
def message (path label : String) : ContentFault → String
  | .colorName key =>
      path ++ " color name must be a non-empty string " ++ got key
  | .color name fault => fault.message (path ++ "." ++ name)
  | .unit => label ++ " must have a unit string"
  | .field name need => label ++ " " ++ name ++ " must be " ++ need.text
  | .range given =>
      label ++ " range must be a positive integer " ++ got given
  | .spacingModeNotText => label ++ " spacingMode must be a string"
  | .spacingModeUnknown name =>
      label ++ " references unknown spacing mode \"" ++ name ++ "\""
  | .tokenName key =>
      path ++ " token name must be a non-empty string " ++ got key
  | .reference name given =>
      label ++ " " ++ name ++ " must be \"min\" or a non-negative integer "
        ++ got given

end ContentFault

namespace FamilyFault

def path (family : Family) : FamilyFault → String
  | .notMapping => familyPath family
  | .modesNotList | .noModes => familyPath family ++ ".modes"
  | .shape index .notMapping => indexPath family index
  | .shape index _ => indexPath family index ++ ".name"
  | .flag mode => modePath family mode ++ ".isDefault"
  | .noTokens mode => modePath family mode ++ ".tokens"
  | .schedule mode fault => fault.path (schedulePath family mode)
  | .content mode fault => fault.path (modePath family mode ++ ".tokens")

def message (family : Family) : FamilyFault → String
  | .notMapping =>
      familyPath family ++ " must be a mapping with a modes list"
  | .modesNotList => familyPath family ++ ".modes must be an array"
  | .noModes => familyPath family ++ ".modes must have at least one mode"
  | .shape index .notMapping =>
      familyLabel family ++ " mode at index " ++ Number.wholeText index
        ++ " must be a mapping"
  | .shape index .unnamed =>
      familyLabel family ++ " mode at index " ++ Number.wholeText index
        ++ " must have a name"
  | .shape _ (.repeated name) =>
      familyLabel family ++ " mode name \"" ++ name
        ++ "\" is used more than once"
  | .flag mode => modeLabel family mode ++ " isDefault must be a boolean"
  | .noTokens mode => modeLabel family mode ++ " must have tokens"
  | .schedule mode fault => fault.message (schedulePath family mode)
  | .content mode fault =>
      fault.message (modePath family mode ++ ".tokens")
        (modeLabel family mode)

end FamilyFault

namespace Fault

/-- The path to a fault, where it has a place. -/
def path : Fault → Option String
  | .notMapping | .noFamily => none
  | .borderNotMapping => some "border"
  | .needsSpacing family => some (familyPath family)
  | .inFamily family fault => some (fault.path family)
  | .sharedOverride family mode => some (modePath family mode ++ ".name")

def message : Fault → String
  | .notMapping => "Design system must be a mapping of token families"
  | .noFamily =>
      "At least one token family must be provided ("
        ++ String.intercalate ", " familyFields ++ ")"
  | .borderNotMapping => "border must be a mapping of radius/width"
  | .needsSpacing family =>
      let values := if family = .gap then "gap" else "radius"
      familyLabel family ++ " requires spacing (" ++ values
        ++ " values reference spacing tokens)"
  | .inFamily family fault => fault.message family
  | .sharedOverride _ mode =>
      "Mode \"" ++ mode
        ++ "\" is an override in both the color and size categories; "
        ++ "override mode names must be unique across categories"

end Fault

end DesignTokens.Acceptance
