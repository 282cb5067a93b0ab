import DesignTokens.Color.Style
import DesignTokens.Value.Basic

/-!
# Opacities that are given as values

A colour may be written with an opacity that is no number. Null is no opacity
at all, which only the notation by lightness, chroma and hue can express.
-/

namespace DesignTokens

/-- Why a colour cannot be written with an opacity. -/
inductive OpacityFault where
  /-- The colour or the number cannot be computed. -/
  | arithmetic (fault : Number.ArithmeticFault)
  /-- A text stands where a number is written out. -/
  | text
  /-- The value is no number. -/
  | notNumber
  deriving DecidableEq, Repr

namespace AlphaEncoding

/-- The notation for the same colour without an opacity. -/
def opaqueForm : AlphaEncoding → OpaqueEncoding
  | .oklch => .oklch
  | .rgba => .rgb
  | .hexa => .hex

/-- The fault of an opacity that is no number: the notation in hexadecimal
digits computes with it, the others write it out. -/
def faultOf (encoding : AlphaEncoding) (opacity : Value) : OpacityFault :=
  match encoding, opacity with
  | .hexa, _ => .notNumber
  | _, .str _ => .text
  | _, _ => .notNumber

end AlphaEncoding

/-- A colour with an opacity that is given as a value. The colour is written
first, so that its faults come first. -/
def Oklch.styleWithValue (color : Oklch) (opacity : Value)
    (encoding : AlphaEncoding) : Except OpacityFault String :=
  match opacity.counted? with
  | some number =>
      (color.styleWithAlpha number encoding).mapError .arithmetic
  | none => do
      let text ← (color.style encoding.opaqueForm).mapError .arithmetic
      if encoding = .oklch && opacity.isNull then return text
      else .error (encoding.faultOf opacity)

end DesignTokens
