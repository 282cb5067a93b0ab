import DesignTokens.Acceptance.Content

/-!
# Accepting a configuration

Only the families that are given are looked at. Gaps and corner radii need
spacing, and the name of an override belongs to one category alone.
-/

namespace DesignTokens.Acceptance

def acceptFamily (accept : Entries → Except ContentFault Unit)
    (family : Value) : Except FamilyFault (List PlainMode) := do
  let (_, modes) ← acceptModes family
  modes.forM fun mode =>
    (accept mode.tokens).mapError (.content mode.name)
  return modes

/-- Accept the colours. -/
def acceptColorFamily (family : Value) :
    Except FamilyFault (List PlainMode) := do
  let (entries, modes) ← acceptModes family
  acceptScheduleField none entries
  modes.forM acceptColorMode
  return modes

/-- The border, which may be missing or null. -/
def borderEntries (config : Entries) : Except Fault Entries :=
  match Entries.given? "border" config with
  | none => .ok []
  | some (.map entries) => .ok entries
  | some _ => .error .borderNotMapping

/-- A family that refers to spacing, where there is none, is a fault. -/
def needSpacing (family : Family) (spacing given : Option Value) :
    Except Fault Unit :=
  if given.isSome && spacing.isNone then .error (.needsSpacing family)
  else .ok ()

/-- Accept a family if it is given; otherwise it has no modes. -/
def acceptGiven (family : Family)
    (accept : Value → Except FamilyFault (List PlainMode)) :
    Option Value → Except Fault (List PlainMode)
  | none => .ok []
  | some value => (accept value).mapError (.inFamily family)

/-- No override of a family may have one of the `taken` names. -/
def acceptOverrides (taken : List String) (family : Family)
    (modes : List PlainMode) : Except Fault Unit :=
  match (overrideNames modes).find? taken.contains with
  | some name => .error (.sharedOverride family name)
  | none => .ok ()

def acceptEntries (config : Entries) : Except Fault Unit := do
  if !familyFields.any fun name => (Entries.given? name config).isSome then
    throw .noFamily
  let border ← borderEntries config
  let spacing := Entries.given? "spacing" config
  let gap := Entries.given? "gap" config
  let radius := Entries.given? "radius" border
  needSpacing .gap spacing gap
  needSpacing .borderRadius spacing radius
  let colorModes ← acceptGiven .color acceptColorFamily
    (Entries.given? "colors" config)
  let spacingModes ← acceptGiven .spacing (acceptFamily (acceptScale .positive))
    spacing
  let names := spacingModes.map PlainMode.name
  let gapModes ← acceptGiven .gap (acceptFamily (acceptReferences names)) gap
  let typographyModes ← acceptGiven .typography
    (acceptFamily acceptTypography) (Entries.given? "typography" config)
  let radiusModes ← acceptGiven .borderRadius
    (acceptFamily (acceptReferences names)) radius
  let widthModes ← acceptGiven .borderWidth (acceptFamily acceptWidth)
    (Entries.given? "width" border)
  let _ ← acceptGiven .time (acceptFamily (acceptScale .nonNegative))
    (Entries.given? "time" config)
  let taken := overrideNames colorModes
  acceptOverrides taken .spacing spacingModes
  acceptOverrides taken .gap gapModes
  acceptOverrides taken .typography typographyModes
  acceptOverrides taken .borderRadius radiusModes
  acceptOverrides taken .borderWidth widthModes

/-- Accept a configuration, or report the first fault. -/
def accept : Value → Except Fault Unit
  | .map config => acceptEntries config
  | _ => .error .notMapping

end DesignTokens.Acceptance
