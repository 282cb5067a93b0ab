import DesignTokens.Expansion.Colors
import DesignTokens.Expansion.References

/-!
# Expanding a design system

The families are expanded one by one and put together. Of several tokens with
one name the first is kept.
-/

namespace DesignTokens

/-! ## Families of a design system -/

/-- Expand a family that is given; one that is not has no tokens. -/
def expandGiven {alpha : Type}
    (expand : alpha → Except ExpansionFault Expansion) :
    Option alpha → Except ExpansionFault Expansion
  | some family => expand family
  | none => .ok {}

/-- Expand a family of references where there is spacing to refer to. -/
def expandReferring (family : Family) (settings : Settings)
    (spacing : Option (Modes Scale)) (modes : Option (Modes References)) :
    Except ExpansionFault Expansion :=
  match spacing with
  | some scale => expandGiven (expandReferences family settings scale) modes
  | none => .ok {}

def DesignSystem.expandFamily (settings : Settings) (system : DesignSystem) :
    Family → Except ExpansionFault Expansion
  | .color => expandGiven (expandColors settings) system.colors
  | .spacing => expandGiven (expandSpacing settings) system.spacing
  | .gap => expandReferring .gap settings system.spacing system.gap
  | .typography => expandGiven (expandTypography settings) system.typography
  | .borderRadius =>
      expandReferring .borderRadius settings system.spacing
        (system.border.bind Border.radius)
  | .borderWidth =>
      expandGiven (expandBorderWidth settings)
        (system.border.bind Border.width)
  | .time => expandGiven (expandTime settings) system.time

/-- The expansions of all families. -/
structure Expansions where
  color : Expansion := {}
  spacing : Expansion := {}
  gap : Expansion := {}
  typography : Expansion := {}
  borderRadius : Expansion := {}
  borderWidth : Expansion := {}
  time : Expansion := {}

namespace Expansions

def ofFamily (expansions : Expansions) : Family → Expansion
  | .color => expansions.color
  | .spacing => expansions.spacing
  | .gap => expansions.gap
  | .typography => expansions.typography
  | .borderRadius => expansions.borderRadius
  | .borderWidth => expansions.borderWidth
  | .time => expansions.time

/-- The order in which the families are expanded: spacing comes first, since
others refer to it. -/
def expansionOrder : List Family :=
  [.spacing, .color, .gap, .typography, .borderRadius, .borderWidth, .time]

/-- The notices of all families, in the order of their expansion. -/
def notices (expansions : Expansions) : List Notice :=
  expansionOrder.flatMap fun family => (expansions.ofFamily family).notices

def ofSystem (settings : Settings) (system : DesignSystem) :
    Except ExpansionFault Expansions := do
  let spacing ← system.expandFamily settings .spacing
  let color ← system.expandFamily settings .color
  let gap ← system.expandFamily settings .gap
  let typography ← system.expandFamily settings .typography
  let borderRadius ← system.expandFamily settings .borderRadius
  let borderWidth ← system.expandFamily settings .borderWidth
  let time ← system.expandFamily settings .time
  return {
    color := color
    spacing := spacing
    gap := gap
    typography := typography
    borderRadius := borderRadius
    borderWidth := borderWidth
    time := time }

end Expansions

/-! ## Merging -/

/-- Add tokens to a record under their names. A token whose name is taken is
dropped with a notice. -/
def mergeInto (record : Record Token) :
    List Token → Record Token × List Notice
  | [] => (record, [])
  | token :: rest =>
      match record.lookup token.name with
      | some kept =>
          let (merged, notices) := mergeInto record rest
          (merged,
            .collision token.name token.family kept.family :: notices)
      | none => mergeInto (record ++ [(token.name, token)]) rest

/-- Tokens by name. -/
def mergeTokens (tokens : List Token) : Record Token × List Notice :=
  mergeInto [] tokens

/-! ## Assembly -/

/-- A token sheet and the notices of making it. -/
structure Generated where
  sheet : TokenSheet
  notices : List Notice

namespace Expansions

/-- The default tokens of all families, in the order of output. -/
def defaults (expansions : Expansions) : List Token :=
  Family.all.flatMap fun family => (expansions.ofFamily family).defaults

def overridesOf (expansions : Expansions) (mode : String) : List Token :=
  Family.all.flatMap fun family =>
    ((expansions.ofFamily family).overrides.lookup mode).getD []

/-- The names of the override modes of some families, each once. -/
def overrideNames (expansions : Expansions) (families : List Family) :
    List String :=
  (families.flatMap fun family =>
    (expansions.ofFamily family).modes.overrides).eraseDups

/-- The modes of a category. -/
def modeInfo (expansions : Expansions) (category : Category) : ModeInfo :=
  ⟨(expansions.ofFamily category.leading).modes.default,
    expansions.overrideNames category.families⟩

/-- The modes of all categories. -/
def modeTable (expansions : Expansions) : ModeTable :=
  ⟨expansions.modeInfo .color, expansions.modeInfo .size,
    expansions.modeInfo .time⟩

/-- The override modes that have tokens, with their merged tokens. -/
def mergedOverrides (expansions : Expansions) :
    List (String × Record Token × List Notice) :=
  ((expansions.overrideNames Family.all).map fun mode =>
      (mode, expansions.overridesOf mode)).filterMap fun entry =>
    if entry.2.isEmpty then none
    else some (entry.1, mergeTokens entry.2)

/-- Put the expansions of all families together. -/
def assemble (expansions : Expansions) : Generated :=
  let (tokens, collisions) := mergeTokens expansions.defaults
  let overrides := expansions.mergedOverrides
  { sheet :=
      { tokens := tokens
        modes := expansions.modeTable
        overrides := overrides.map fun entry => (entry.1, entry.2.1) }
    notices := expansions.notices ++ collisions
      ++ overrides.flatMap fun entry => entry.2.2 }

end Expansions

end DesignTokens
