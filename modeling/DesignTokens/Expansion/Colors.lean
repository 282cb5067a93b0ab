import DesignTokens.Color.Style
import DesignTokens.Expansion.Result
import DesignTokens.Settings.Basic

/-!
# Expanding colours

Every colour gives a base token and, for every level of the opacities that
apply, a variant. An override mode gives tokens only for the colours that it
lists; one that gives none is left out.
-/

namespace DesignTokens

/-- The opacities that apply to a mode: its own, unless it has none or an
empty list of them. -/
def Palette.schedule (palette : Palette)
    (shared : Option AlphaSchedule) : AlphaSchedule :=
  match palette.alphaSchedule with
  | some (level :: rest) => level :: rest
  | _ => shared.getD []

/-- A result of colour arithmetic as a result of an expansion. -/
def ColorSpace.Outcome.lift {alpha : Type}
    (outcome : ColorSpace.Outcome alpha) : Except ExpansionFault alpha :=
  outcome.mapError .arithmetic

/-- The name of a colour's base token. -/
def Settings.colorName (settings : Settings) (color : String) : String :=
  settings.prefixes.color ++ "-" ++ color

def Settings.variantName (settings : Settings) (color level : String) :
    String :=
  settings.colorName color ++ settings.separators.modifier
    ++ settings.colorFormat.alphaModifier ++ settings.separators.value
    ++ level

/-- The base token of a colour. -/
def Token.ofColor (settings : Settings) (name : String) (color : Oklch) :
    Except ExpansionFault Token := do
  let value ← (color.style settings.colorFormat.base).lift
  return {
    family := .color
    name := settings.colorName name
    value := value
    metadata := some { baseColor := some name } }

def Token.ofVariant (settings : Settings) (name : String) (color : Oklch)
    (level : String × Float) : Except ExpansionFault Token := do
  let value ← (color.styleWithAlpha (.real level.2)
    settings.colorFormat.alpha).lift
  return {
    family := .color
    name := settings.variantName name level.1
    value := value
    rawValue := some level.2
    metadata := some
      { isAlphaVariant := some true
        alphaLevel := some level.1
        baseColor := some name } }

/-- The tokens of one colour: base and variants. -/
def Token.ofNamedColor (settings : Settings) (schedule : AlphaSchedule)
    (name : String) (color : Oklch) :
    Except ExpansionFault (List Token) := do
  let base ← Token.ofColor settings name color
  let variants ← schedule.mapM (Token.ofVariant settings name color)
  return base :: variants

/-- The tokens of colours; a colour without a value has none. -/
def Token.ofColors (settings : Settings) (schedule : AlphaSchedule) :
    Record (Option Oklch) → Except ExpansionFault (List Token)
  | [] => .ok []
  | (_, none) :: rest => Token.ofColors settings schedule rest
  | (name, some color) :: rest => do
      let tokens ← Token.ofNamedColor settings schedule name color
      let others ← Token.ofColors settings schedule rest
      return tokens ++ others

/-- Expand the colours. -/
def expandColors (settings : Settings) (family : ColorFamily) :
    Except ExpansionFault Expansion := do
  let expandMode (mode : Mode Palette) :=
    Token.ofColors settings (mode.content.schedule family.alphaSchedule)
      mode.content.colors
  let default ← Modes.default family.modes
  let defaults ← expandMode default
  let overrides ← (Modes.overrides family.modes).mapM fun mode => do
    let tokens ← expandMode mode
    return (mode.name, tokens)
  return {
    defaults := defaults
    overrides := Record.ofList
      (overrides.filter fun entry => !entry.2.isEmpty)
    modes := Modes.info family.modes default
    notices := Modes.notices family.modes }

end DesignTokens
