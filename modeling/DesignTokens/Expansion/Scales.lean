import DesignTokens.Expansion.Result
import DesignTokens.Number.Numeral
import DesignTokens.Settings.Basic

/-!
# Expanding scales and widths

A scale has its least value and its numbered steps. Spacing and time multiply
their base, type sizes add to it, and a width is a single token. All time
scales are in use at once: the default scale under the plain prefix, every
other one under its own name as well.
-/

namespace DesignTokens

open DesignTokens.Number (ArithmeticFault Numeral)

/-- The numbers of the steps of a scale, from one on. -/
def stepNumbers (count : Int) : List Nat :=
  (List.range count.toNat).map (· + 1)

/-- The values of a scale by label: the least one and the steps. -/
def labelledValues (minimum : Float) (count : Int)
    (step : Int → Except ArithmeticFault Float) :
    Except ArithmeticFault (List (String × Float)) := do
  let steps ← (stepNumbers count).mapM fun (n : Nat) => do
    let size ← step n
    return (Number.wholeText n, size)
  return ("min", minimum) :: steps

namespace Scale

/-- The value of a step; a step whose number is no double overflows. -/
def step (scale : Scale) (n : Int) : Except ArithmeticFault Float := do
  let factor ← (Numeral.whole n).toFloat
  return scale.base * factor

/-- The values of a scale by label: the least one and the steps. -/
def values (scale : Scale) :
    Except ArithmeticFault (List (String × Float)) :=
  labelledValues scale.minimum scale.count scale.step

end Scale

namespace TypeScale

/-- The value of a step: the base, and an increment for every further
step. -/
def step (scale : TypeScale) (n : Int) : Except ArithmeticFault Float :=
  if n = 1 then .ok scale.base
  else do
    let factor ← (Numeral.whole (n - 1)).toFloat
    return scale.base + scale.increment * factor

/-- The values of a scale by label: the least one and the steps. -/
def values (scale : TypeScale) :
    Except ArithmeticFault (List (String × Float)) :=
  labelledValues scale.minimum scale.count scale.step

end TypeScale

def Token.dimension (family : Family) (name digits unit : String)
    (size : Float) : Token :=
  { family := family
    name := name
    value := digits ++ unit
    rawValue := some size
    unit := some unit }

def scaleTokens (token : String × Float → Token)
    (values : Except ArithmeticFault (List (String × Float))) :
    Except ExpansionFault (List Token) :=
  (values.map (List.map token)).mapError .arithmetic

def Scale.spacingTokens (stem : String) (scale : Scale) :
    Except ExpansionFault (List Token) :=
  scale.values |> scaleTokens fun entry =>
    Token.dimension .spacing (stem ++ "-" ++ entry.1)
      (Number.plainText entry.2) scale.unit entry.2

def TypeScale.tokens (stem : String) (scale : TypeScale) :
    Except ExpansionFault (List Token) :=
  scale.values |> scaleTokens fun entry =>
    Token.dimension .typography (stem ++ "-" ++ entry.1)
      (Number.trimmedText 4 entry.2) scale.unit entry.2

def Width.tokens (stem : String) (width : Width) : List Token :=
  [Token.dimension .borderWidth stem (Number.plainText width.size) width.unit
    width.size]

def Scale.timeTokens (stem category : String) (scale : Scale) :
    Except ExpansionFault (List Token) :=
  scale.values |> scaleTokens fun entry =>
    { Token.dimension .time (stem ++ "-" ++ entry.1)
        (Number.plainText entry.2) scale.unit entry.2 with
      metadata := some { timeCategory := some category } }

/-! ## Families -/

def expandSpacing (settings : Settings) (modes : Modes Scale) :
    Except ExpansionFault Expansion :=
  modes.expand fun mode =>
    mode.content.spacingTokens settings.prefixes.spacing

def expandTypography (settings : Settings) (modes : Modes TypeScale) :
    Except ExpansionFault Expansion :=
  modes.expand fun mode =>
    mode.content.tokens settings.prefixes.typography

def expandBorderWidth (settings : Settings) (modes : Modes Width) :
    Except ExpansionFault Expansion :=
  modes.expand fun mode =>
    .ok (mode.content.tokens settings.prefixes.borderWidth)

/-- The part of a time token's name that stands for the scale. -/
def timeStem (settings : Settings) (mode : Mode Scale) (isDefault : Bool) :
    String :=
  if isDefault then settings.prefixes.time
  else settings.prefixes.time ++ "-" ++ mode.name

/-- Expand the time family; it has no overrides. -/
def expandTime (settings : Settings) (modes : Modes Scale) :
    Except ExpansionFault Expansion := do
  let default ← modes.default
  let tokens ← (Selection.marked Modes.flagged modes).mapM fun entry =>
    entry.1.content.timeTokens (timeStem settings entry.1 entry.2)
      entry.1.name
  return {
    defaults := tokens.flatten
    modes := { default := default.name }
    notices := modes.notices }

end DesignTokens
