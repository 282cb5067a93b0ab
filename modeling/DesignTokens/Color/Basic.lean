/-!
# OKLCH colours

A colour is given by lightness, chroma and hue in the OKLCH space.
-/

namespace DesignTokens

/-- A colour: lightness from 0 (black) to 1 (white), chroma from 0 to roughly
0.4, and a hue angle in degrees that an achromatic colour leaves out. -/
structure Oklch where
  lightness : Float
  chroma : Float
  hue : Option Float

namespace Oklch

/-- The hue angle; zero where there is none. A negative zero counts as
zero. -/
def hueAngle (color : Oklch) : Float :=
  match color.hue with
  | none => 0
  | some hue => if hue == 0 then 0 else hue

end Oklch

end DesignTokens
