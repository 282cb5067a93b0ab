import DesignTokens.Number.Rounding
import DesignTokens.Selection
import DesignTokens.System.Basic
import DesignTokens.Text.Quoted
import DesignTokens.Token.Sheet

/-!
# Expanded families

The tokens of one family, for its default mode and for its overrides, with
whatever is worth a notice. A family whose mode list is empty has no default
mode and cannot be expanded.
-/

namespace DesignTokens

open DesignTokens.Number (ArithmeticFault)

/-- Something that the author of a design system should know. -/
inductive Notice where
  /-- Several modes are flagged as the default; the first one is chosen. -/
  | severalDefaults (chosen : String) (others : List String)
  /-- A token is dropped, because an earlier one has its name. -/
  | collision (name : String) (dropped kept : Family)
  deriving DecidableEq, Repr

/-- The text of a notice. -/
def Notice.message : Notice → String
  | .severalDefaults chosen others =>
      "Modes " ++ String.intercalate ", "
        ((chosen :: others).map Text.quoted)
        ++ " are all flagged as default; using '" ++ chosen ++ "'"
  | .collision name dropped kept =>
      "Token name collision on '" ++ name ++ "': dropping " ++ dropped.name
        ++ " token, keeping earlier " ++ kept.name ++ " token"

/-- Why a family cannot be expanded. -/
inductive ExpansionFault where
  /-- There is no mode to be the default. -/
  | noModes
  /-- A reference is neither a number nor the least step. -/
  | notCountable
  /-- A number has no value. -/
  | arithmetic (fault : ArithmeticFault)
  deriving DecidableEq, Repr

/-- The message for an empty list of modes. -/
def ExpansionFault.noModesMessage : String :=
  "Cannot select a default mode from an empty mode list"

/-- The tokens of one family. -/
structure Expansion where
  defaults : List Token := []
  overrides : Record (List Token) := []
  modes : ModeInfo := {}
  notices : List Notice := []

namespace Modes

variable {alpha : Type}

/-- Whether a mode is flagged as the default. -/
def flagged (mode : Mode alpha) : Bool :=
  mode.isDefault = some true

def default (modes : Modes alpha) : Except ExpansionFault (Mode alpha) :=
  match Selection.default? flagged modes with
  | some mode => .ok mode
  | none => .error .noModes

/-- The modes that are not the default. -/
def overrides (modes : Modes alpha) : Modes alpha :=
  Selection.overrides flagged modes

/-- The notice that several modes are flagged, if they are. -/
def notices (modes : Modes alpha) : List Notice :=
  match Selection.contenders flagged modes with
  | some (chosen, others) =>
      [.severalDefaults chosen.name (others.map Mode.name)]
  | none => []

/-- The names of the default mode and of the overrides. -/
def info (modes : Modes alpha) (default : Mode alpha) : ModeInfo :=
  ⟨default.name, modes.overrides.map Mode.name⟩

/-- Expand every mode of a family on its own, the default mode first. -/
def expand (modes : Modes alpha)
    (expandMode : Mode alpha → Except ExpansionFault (List Token)) :
    Except ExpansionFault Expansion := do
  let default ← modes.default
  let defaults ← expandMode default
  let overrides ← modes.overrides.mapM fun mode => do
    let tokens ← expandMode mode
    return (mode.name, tokens)
  return {
    defaults := defaults
    overrides := Record.ofList overrides
    modes := modes.info default
    notices := modes.notices }

end Modes

end DesignTokens
