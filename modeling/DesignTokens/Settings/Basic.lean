import DesignTokens.Color.Encoding
import DesignTokens.Stylesheet.Comment
import DesignTokens.Stylesheet.Selector

/-!
# Settings

How tokens are named, how colours are written, and how a style sheet is laid
out. Every setting has a default.
-/

namespace DesignTokens

/-- The first part of the token names of each family. -/
structure Prefixes where
  color : String := "clr"
  spacing : String := "sp"
  gap : String := "gap"
  typography : String := "fs"
  borderRadius : String := "bdr"
  borderWidth : String := "bdw"
  time : String := "t"
  deriving DecidableEq, Repr

/-- What stands before the alpha marker and before the alpha level in the name
of an alpha variant. -/
structure Separators where
  modifier : String := "-"
  value : String := "-"
  deriving DecidableEq, Repr

/-- The notations of colours and the marker in the name of an alpha
variant. -/
structure ColorFormat where
  base : OpaqueEncoding := .oklch
  alpha : AlphaEncoding := .oklch
  alphaModifier : String := "a"
  deriving DecidableEq, Repr

/-- The settings of token generation. -/
structure Settings where
  prefixes : Prefixes := {}
  separators : Separators := {}
  colorFormat : ColorFormat := {}
  selectors : Selectors := {}
  deriving DecidableEq, Repr

/-- The settings of a style sheet. -/
structure SheetSettings where
  selectors : Selectors := {}
  fileHeader : Option FileHeader := none
  deriving DecidableEq, Repr

/-- The name prefix of a family. -/
def Prefixes.ofFamily (prefixes : Prefixes) : Family → String
  | .color => prefixes.color
  | .spacing => prefixes.spacing
  | .gap => prefixes.gap
  | .typography => prefixes.typography
  | .borderRadius => prefixes.borderRadius
  | .borderWidth => prefixes.borderWidth
  | .time => prefixes.time

end DesignTokens
