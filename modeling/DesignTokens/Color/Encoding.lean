/-!
# Colour encodings

The notations in which a colour is written, without and with an opacity.
-/

namespace DesignTokens

/-- Notations for an opaque colour. -/
inductive OpaqueEncoding where
  | oklch
  | rgb
  | hex
  deriving DecidableEq, Repr

/-- Notations for a colour with an opacity. -/
inductive AlphaEncoding where
  | oklch
  | rgba
  | hexa
  deriving DecidableEq, Repr

namespace OpaqueEncoding

/-- The name of a notation. -/
def name : OpaqueEncoding → String
  | .oklch => "oklch"
  | .rgb => "rgb"
  | .hex => "hex"

/-- All notations by name. -/
def choices : List (String × OpaqueEncoding) :=
  [.oklch, .rgb, .hex].map fun encoding => (name encoding, encoding)

/-- What the choice between the notations is called. -/
def kind : String := "ColorEncoding"

end OpaqueEncoding

namespace AlphaEncoding

/-- The name of a notation. -/
def name : AlphaEncoding → String
  | .oklch => "oklch"
  | .rgba => "rgba"
  | .hexa => "hexa"

/-- All notations by name. -/
def choices : List (String × AlphaEncoding) :=
  [.oklch, .rgba, .hexa].map fun encoding => (name encoding, encoding)

/-- What the choice between the notations is called. -/
def kind : String := "AlphaColorEncoding"

end AlphaEncoding

end DesignTokens
