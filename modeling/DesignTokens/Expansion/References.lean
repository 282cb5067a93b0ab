import DesignTokens.Expansion.Scales
import DesignTokens.Value.Text

/-!
# Expanding references to spacing

Gaps and corner radii refer to the steps of a spacing scale. The value of the
step is written out, so that it stays right wherever the token is used.
-/

namespace DesignTokens

/-! ## The spacing mode -/

def Modes.named? {alpha : Type} (modes : Modes alpha) (name : String) :
    Option (Mode alpha) :=
  modes.find? fun mode => mode.name = name

/-- The spacing mode that references name, by a text that is not empty. -/
def References.chosenMode? (references : References)
    (spacing : Modes Scale) : Option (Mode Scale) :=
  match references.spacingMode with
  | some name => if name = "" then none else spacing.named? name
  | none => none

/-- The spacing mode that goes with a mode: the one it names, or else the one
of the same name. -/
def Mode.matching? (mode : Mode References) (spacing : Modes Scale) :
    Option (Mode Scale) :=
  match mode.content.chosenMode? spacing with
  | some chosen => some chosen
  | none => spacing.named? mode.name

/-- The spacing mode that a mode refers to; the default where none goes with
it. -/
def Mode.spacingMode (mode : Mode References) (spacing : Modes Scale) :
    Except ExpansionFault (Mode Scale) :=
  match mode.matching? spacing with
  | some found => .ok found
  | none => spacing.default

/-- The notices of looking up the spacing mode of a mode. -/
def Mode.spacingNotices (mode : Mode References) (spacing : Modes Scale) :
    List Notice :=
  match mode.matching? spacing with
  | some _ => []
  | none => spacing.notices

/-! ## Values -/

/-- The value that a reference stands for on a scale: the least one, or a
number of bases. -/
def Scale.resolve (scale : Scale) (reference : Value) :
    Except ExpansionFault Float :=
  if reference.isText "min" then .ok scale.minimum
  else
    match reference.counted? with
    | some number =>
        (number.toFloat.map (· * scale.base)).mapError .arithmetic
    | none => .error .notCountable

/-- The unit of references; that of the scale where they have none. -/
def References.unitOn (references : References) (scale : Scale) : String :=
  match references.unit with
  | some unit => if unit = "" then scale.unit else unit
  | none => scale.unit

def Token.referring (family : Family) (stem spacingStem unit : String)
    (scale : Scale) (entry : String × Value) :
    Except ExpansionFault Token := do
  let size ← scale.resolve entry.2
  return { Token.dimension family (stem ++ "-" ++ entry.1)
      (Number.plainText size) unit size with
    reference := some (spacingStem ++ "-" ++ entry.2.plain) }

def References.tokens (family : Family) (settings : Settings)
    (scale : Scale) (references : References) :
    Except ExpansionFault (List Token) :=
  references.entries.mapM
    (Token.referring family (settings.prefixes.ofFamily family)
      settings.prefixes.spacing (references.unitOn scale) scale)

/-! ## Families -/

def expandReferences (family : Family) (settings : Settings)
    (spacing : Modes Scale) (modes : Modes References) :
    Except ExpansionFault Expansion := do
  let expansion ← modes.expand fun mode => do
    let found ← mode.spacingMode spacing
    mode.content.tokens family settings found.content
  let default ← modes.default
  let lookups := (default :: modes.overrides).flatMap fun mode =>
    mode.spacingNotices spacing
  return { expansion with notices := expansion.notices ++ lookups }

end DesignTokens
