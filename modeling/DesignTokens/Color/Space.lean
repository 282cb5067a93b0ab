import DesignTokens.Color.Basic
import DesignTokens.Number.Hypotenuse
import DesignTokens.Number.Rounding

/-!
# Colour spaces

Conversions between OKLCH, OKLab, linear and gamma-encoded sRGB. A power of
finite numbers that is infinite and the cosine of an infinite angle have no
result.
-/

namespace DesignTokens.ColorSpace

open DesignTokens.Number (ArithmeticFault)

/-- A result of colour arithmetic. -/
abbrev Outcome (alpha : Type) := Except ArithmeticFault alpha

/-- A colour by lightness, chroma and hue angle in degrees. -/
structure Lch where
  lightness : Float
  chroma : Float
  hue : Float

/-- A colour by lightness and two opponent axes. -/
structure Lab where
  lightness : Float
  a : Float
  b : Float

/-- A colour by its red, green and blue channels. -/
structure Channels (alpha : Type) where
  red : alpha
  green : alpha
  blue : alpha

/-- The OKLCH channels of a colour. -/
def Lch.ofColor (color : Oklch) : Lch :=
  ⟨color.lightness, color.chroma, color.hueAngle⟩

/-! ## Elementary functions -/

/-- A power of a double. One stays one, and zero stays zero under a positive
exponent. -/
def rawPower (base exponent : Float) : Float :=
  if base == 1 then 1
  else if base == 0 && !Number.signBit base && 0 < exponent then 0
  else Float.pow base exponent

/-- A power; finite numbers must not have an infinite one. -/
def power (base exponent : Float) : Outcome Float :=
  let result := rawPower base exponent
  if result.isInf && base.isFinite && exponent.isFinite then
    .error .overflow
  else .ok result

/-- The cosine of a finite angle. -/
def cosine (angle : Float) : Outcome Float :=
  if angle.isInf then .error .undefined
  else .ok (if angle == 0 then 1 else angle.cos)

/-- The sine of a finite angle. -/
def sine (angle : Float) : Outcome Float :=
  if angle.isInf then .error .undefined
  else .ok (if angle == 0 then angle else angle.sin)

/-- The ratio of a circle's circumference to its diameter. -/
def circleRatio : Float := 3.141592653589793

def radians (degrees : Float) : Float :=
  degrees * (circleRatio / 180)

def degrees (radians : Float) : Float :=
  radians * (180 / circleRatio)

/-- An angle between a negative and a positive half turn as one between zero
and a full turn. -/
def fullTurn (angle : Float) : Float :=
  if angle < 0 then angle + 360
  else if angle == 0 then 0
  else angle

/-- The power of a magnitude, with the sign of the number. -/
def signedPower (x exponent : Float) : Outcome Float := do
  let magnitude ← power x.abs exponent
  return Number.withSignOf magnitude x

/-! ## Conversions -/

/-- OKLCH to OKLab. -/
def Lch.toLab (color : Lch) : Outcome Lab := do
  let angle := radians color.hue
  let cosine ← cosine angle
  let sine ← sine angle
  return ⟨color.lightness, color.chroma * cosine, color.chroma * sine⟩

/-- OKLab to OKLCH; the hue of a colour without chroma is zero. -/
def Lab.toLch (color : Lab) : Lch :=
  let chroma := Number.hypotenuse color.a color.b
  let hue :=
    if chroma == 0 then 0
    else fullTurn (degrees (Float.atan2 color.b color.a))
  ⟨color.lightness, chroma, hue⟩

/-- OKLab to linear sRGB. -/
def Lab.toLinear (color : Lab) : Outcome (Channels Float) := do
  let long := color.lightness + 0.3963377774 * color.a
    + 0.2158037573 * color.b
  let medium := color.lightness - 0.1055613458 * color.a
    - 0.0638541728 * color.b
  let short := color.lightness - 0.0894841775 * color.a
    - 1.2914855480 * color.b
  let long ← power long 3
  let medium ← power medium 3
  let short ← power short 3
  return {
    red := 4.0767416621 * long - 3.3077115913 * medium
      + 0.2309699292 * short
    green := -1.2684380046 * long + 2.6097574011 * medium
      - 0.3413193965 * short
    blue := -0.0041960863 * long - 0.7034186147 * medium
      + 1.7076147010 * short }

/-- Linear sRGB to OKLab. -/
def Lab.ofLinear (color : Channels Float) : Outcome Lab := do
  let third : Float := 1 / 3
  let long ← signedPower
    (0.4122214708 * color.red + 0.5363325363 * color.green
      + 0.0514459929 * color.blue) third
  let medium ← signedPower
    (0.2119034982 * color.red + 0.6806995451 * color.green
      + 0.1073969566 * color.blue) third
  let short ← signedPower
    (0.0883024619 * color.red + 0.2817188376 * color.green
      + 0.6299787005 * color.blue) third
  return {
    lightness := 0.2104542553 * long + 0.7936177850 * medium
      - 0.0040720468 * short
    a := 1.9779984951 * long - 2.4285922050 * medium
      + 0.4505937099 * short
    b := 0.0259040371 * long + 0.7827717662 * medium
      - 0.8086757660 * short }

/-- A linear channel, gamma-encoded. -/
def gammaEncoded (channel : Float) : Outcome Float := do
  if channel.abs ≤ 0.0031308 then return 12.92 * channel
  let magnitude ← power channel.abs (1 / 2.4)
  return Number.withSignOf (1.055 * magnitude - 0.055) channel

/-- A gamma-encoded channel, made linear. -/
def gammaDecoded (channel : Float) : Outcome Float := do
  if channel.abs ≤ 0.04045 then return channel / 12.92
  let magnitude ← power ((channel.abs + 0.055) / 1.055) 2.4
  return Number.withSignOf magnitude channel

/-- Convert each channel. -/
def Channels.mapOutcome (f : Float → Outcome Float)
    (color : Channels Float) : Outcome (Channels Float) := do
  let red ← f color.red
  let green ← f color.green
  let blue ← f color.blue
  return ⟨red, green, blue⟩

/-- OKLCH to gamma-encoded sRGB; channels may lie outside `[0, 1]`. -/
def Lch.toSrgb (color : Lch) : Outcome (Channels Float) := do
  let lab ← color.toLab
  let linear ← lab.toLinear
  linear.mapOutcome gammaEncoded

/-- Gamma-encoded sRGB to OKLab. -/
def Lab.ofSrgb (color : Channels Float) : Outcome Lab := do
  let linear ← color.mapOutcome gammaDecoded
  Lab.ofLinear linear

/-- Gamma-encoded sRGB to OKLCH. -/
def Lch.ofSrgb (color : Channels Float) : Outcome Lch := do
  let lab ← Lab.ofSrgb color
  return lab.toLch

/-- The Euclidean distance of two colours in OKLab. -/
def Lab.distance (first second : Lab) : Outcome Float := do
  let lightness ← power (first.lightness - second.lightness) 2
  let a ← power (first.a - second.a) 2
  let b ← power (first.b - second.b) 2
  return (lightness + a + b).sqrt

end DesignTokens.ColorSpace
