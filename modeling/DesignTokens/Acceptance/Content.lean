import DesignTokens.Acceptance.Modes

/-!
# Accepting the content of families

What the tokens of each family have to hold. The first fault is reported, in
the order in which modes and fields are looked at.
-/

namespace DesignTokens.Acceptance

/-! ## Numbers and names -/

/-- The number under a field, if it is a finite one. -/
def finiteField? (name : String) (entries : Entries) :
    Option Number.Numeral :=
  ((Entries.get? name entries).bind Value.numeral?).filter
    Number.Numeral.isFinite

/-- Whether a finite number meets a need. -/
def Need.meets (need : Need) (number : Number.Numeral) : Bool :=
  match need with
  | .number => true
  | .positive => !number.atMostZero
  | .nonNegative => !number.belowZero

/-- A field that must hold a finite number. -/
def acceptNumber (name : String) (need : Need) (tokens : Entries) :
    Except ContentFault Unit :=
  match finiteField? name tokens with
  | some number =>
      if need.meets number then .ok () else .error (.field name need)
  | none => .error (.field name need)

/-- Whether a value is a text that is not empty. -/
def isName : Value → Bool
  | .str held => held ≠ ""
  | _ => false

/-- A field that must hold the unit. -/
def acceptUnit (tokens : Entries) : Except ContentFault Unit :=
  if ((Entries.get? "unit" tokens).map isName).getD false then .ok ()
  else .error .unit

/-- Whether a value is a number of steps. -/
def isStepCount (value : Value) : Bool :=
  match value.numeral? with
  | some number => number.isIntegral && !number.belowOne
  | none => false

/-- A field that must hold the number of steps. -/
def acceptRange (tokens : Entries) : Except ContentFault Unit :=
  let given := (Entries.get? "range" tokens).getD .null
  if isStepCount given then .ok () else .error (.range given)

/-! ## Colours -/

/-- Accept the opacities of an entry list. -/
def acceptLevels : Entries → Except ScheduleFault Unit
  | [] => .ok ()
  | (key, value) :: rest =>
      match key with
      | .str level =>
          if level = "" then .error (.levelName key)
          else
            match value.numeral?.filter Number.Numeral.isFinite with
            | none => .error (.notNumber level)
            | some opacity =>
                if opacity.belowZero || opacity.aboveOne then
                  .error (.outOfRange level opacity)
                else acceptLevels rest
      | _ => .error (.levelName key)

/-- Accept opacities by level. -/
def acceptSchedule (schedule : Value) : Except ScheduleFault Unit :=
  match schedule.entries? with
  | none => .error .notMapping
  | some [] => .error .empty
  | some levels => acceptLevels levels

/-- Accept the opacities of a family or mode, if it has any. -/
def acceptScheduleField (mode : Option String) (entries : Entries) :
    Except FamilyFault Unit :=
  match Entries.either? "alphaSchedule" "alpha_schedule" entries with
  | none | some .null => .ok ()
  | some schedule => (acceptSchedule schedule).mapError (.schedule mode)

/-- Accept the space that a colour names, if it names one. -/
def acceptSpace (channels : Entries) : Except ColorFault Unit :=
  match Entries.get? "mode" channels with
  | none => .ok ()
  | some given =>
      if given.isText "oklch" then .ok () else .error (.wrongSpace given)

/-- Accept a channel that must be given. -/
def acceptChannel (name : String) (channels : Entries) :
    Except ColorFault Unit :=
  match finiteField? name channels with
  | some _ => .ok ()
  | none => .error (.channel name)

/-- Accept the hue, which may be missing or null. -/
def acceptHue (channels : Entries) : Except ColorFault Unit :=
  match Entries.given? "h" channels with
  | none => .ok ()
  | some _ => acceptChannel "h" channels

/-- Accept a colour. -/
def acceptColor (value : Value) : Except ColorFault Unit :=
  match value with
  | .null | .color _ => .ok ()
  | .map channels => do
      acceptSpace channels
      acceptChannel "l" channels
      acceptChannel "c" channels
      acceptHue channels
  | _ => .error .notColor

/-- Accept the colours of a mode. -/
def acceptColors : Entries → Except ContentFault Unit
  | [] => .ok ()
  | (key, value) :: rest =>
      match key with
      | .str name =>
          if name = "" then .error (.colorName key)
          else do
            (acceptColor value).mapError (.color name)
            acceptColors rest
      | _ => .error (.colorName key)

def acceptColorMode (mode : PlainMode) : Except FamilyFault Unit := do
  (acceptColors mode.tokens).mapError (.content mode.name)
  acceptScheduleField (some mode.name) mode.entries

/-! ## Scales and widths -/

/-- Accept the tokens of a scale whose base meets this need. -/
def acceptScale (base : Need) (tokens : Entries) :
    Except ContentFault Unit := do
  acceptUnit tokens
  acceptNumber "base" base tokens
  acceptNumber "min" .nonNegative tokens
  acceptRange tokens

def acceptTypography (tokens : Entries) : Except ContentFault Unit := do
  acceptUnit tokens
  acceptNumber "base" .positive tokens
  acceptNumber "min" .nonNegative tokens
  acceptNumber "increment" .number tokens
  acceptRange tokens

/-- Accept the tokens of a border width mode. -/
def acceptWidth (tokens : Entries) : Except ContentFault Unit := do
  acceptUnit tokens
  acceptNumber "value" .nonNegative tokens

/-! ## References -/

/-- The keys among references that name no token. -/
def configurationKeys : List String :=
  ["unit", "spacingMode", "spacing_mode"]

/-- Whether a value refers to a step of a spacing scale. -/
def isReference (value : Value) : Bool :=
  match value with
  | .str held => held = "min"
  | .int n => 0 ≤ n
  | _ => false

/-- Accept the unit of references, which may be missing or null. -/
def acceptOptionalUnit (tokens : Entries) : Except ContentFault Unit :=
  match Entries.given? "unit" tokens with
  | none => .ok ()
  | some _ => acceptUnit tokens

/-- Accept the spacing mode that references name, if they name one. -/
def acceptSpacingMode (spacing : List String) (tokens : Entries) :
    Except ContentFault Unit :=
  match Entries.either? "spacingMode" "spacing_mode" tokens with
  | none | some .null => .ok ()
  | some (.str name) =>
      if spacing.contains name then .ok ()
      else .error (.spacingModeUnknown name)
  | some _ => .error .spacingModeNotText

def acceptReferenceEntries : Entries → Except ContentFault Unit
  | [] => .ok ()
  | (key, value) :: rest =>
      match key with
      | .str name =>
          if name = "" then .error (.tokenName key)
          else if configurationKeys.contains name || isReference value then
            acceptReferenceEntries rest
          else .error (.reference name value)
      | _ => .error (.tokenName key)

/-- Accept references to the spacing modes of these names. -/
def acceptReferences (spacing : List String) (tokens : Entries) :
    Except ContentFault Unit := do
  acceptOptionalUnit tokens
  acceptSpacingMode spacing tokens
  acceptReferenceEntries tokens

end DesignTokens.Acceptance
