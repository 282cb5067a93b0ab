import DesignTokens.Color.Encoding
import DesignTokens.Color.Gamut
import DesignTokens.Number.Numeral
import DesignTokens.Text.Quoted

/-!
# Colours in a style sheet

A colour in each of its notations, without and with an opacity.
-/

namespace DesignTokens.Oklch

open DesignTokens.ColorSpace DesignTokens.Number

/-- The displayable channels on the scale from 0 to 255. -/
def channels255 (color : Oklch) : Outcome (Channels Int) := do
  let shown ← (Lch.ofColor color).toGamut
  let red ← toWhole (shown.red * 255)
  let green ← toWhole (shown.green * 255)
  let blue ← toWhole (shown.blue * 255)
  return ⟨red, green, blue⟩

/-- Two hexadecimal digits, or more where the number needs them. -/
def hexPair (n : Int) : List Char :=
  if n < 0 then '-' :: Text.hexDigits 1 n.natAbs
  else Text.hexDigits 2 n.natAbs

/-- Channels as hexadecimal digits. -/
def hexText (channels : Channels Int) : String :=
  String.ofList ('#' :: hexPair channels.red ++ hexPair channels.green
    ++ hexPair channels.blue)

def decimalText (channels : Channels Int) : String :=
  String.intercalate ", " [wholeText channels.red, wholeText channels.green,
    wholeText channels.blue]

/-- Lightness, chroma and hue of the displayable colour. -/
def lchText (color : Oklch) : Outcome String := do
  let shown ← (Lch.ofColor color).displayable
  return String.intercalate " " [fixedText 4 shown.lightness,
    fixedText 4 shown.chroma, fixedText 2 shown.hue]

/-- An opacity on the scale from 0 to 255. -/
def opacity255 : Numeral → Outcome Int
  | .whole n => .ok (n * 255)
  | .real x => toWhole (x * 255)

/-- A colour without an opacity. -/
def style (color : Oklch) : OpaqueEncoding → Outcome String
  | .oklch => do
      let body ← color.lchText
      return "oklch(" ++ body ++ ")"
  | .rgb => do
      let channels ← color.channels255
      return "rgb(" ++ decimalText channels ++ ")"
  | .hex => do
      let channels ← color.channels255
      return hexText channels

/-- A colour with an opacity. -/
def styleWithAlpha (color : Oklch) (opacity : Numeral) :
    AlphaEncoding → Outcome String
  | .oklch => do
      let body ← color.lchText
      let alpha ← opacity.fixedText 4
      return "oklch(" ++ body ++ " / " ++ alpha ++ ")"
  | .rgba => do
      let channels ← color.channels255
      let alpha ← opacity.trimmedText 4
      return "rgba(" ++ decimalText channels ++ ", " ++ alpha ++ ")"
  | .hexa => do
      let channels ← color.channels255
      let alpha ← opacity255 opacity
      return hexText channels ++ String.ofList (hexPair alpha)

end DesignTokens.Oklch
