import DesignTokens.Record
import DesignTokens.Value.Basic

/-!
# Design systems

A design system gives, for each family it has, a list of modes. One mode of a
family is its default; the others override it.
-/

namespace DesignTokens

/-- A named mode of a family. -/
structure Mode (alpha : Type) where
  name : String
  isDefault : Option Bool
  content : alpha

/-- The modes of a family, in declaration order. -/
abbrev Modes (alpha : Type) := List (Mode alpha)

/-- Opacities by level. -/
abbrev AlphaSchedule := Record Float

/-- The colours of a mode. A colour without a value is left out, and a mode
may have its own opacities. -/
structure Palette where
  colors : Record (Option Oklch)
  alphaSchedule : Option AlphaSchedule

/-- The modes of the colours and the opacities of modes without their own. -/
structure ColorFamily where
  modes : Modes Palette
  alphaSchedule : Option AlphaSchedule

/-- A multiplicative scale: step `n` is `base * n`, for `n` from one to
`count`. -/
structure Scale where
  unit : String
  base : Float
  minimum : Float
  count : Int

/-- An additive scale: step one is `base`, every further step adds
`increment`. -/
structure TypeScale where
  unit : String
  base : Float
  minimum : Float
  increment : Float
  count : Int

/-- A single width. -/
structure Width where
  unit : String
  size : Float

/-- Named references to the steps of a spacing scale. -/
structure References where
  unit : Option String
  spacingMode : Option String
  entries : Record Value

/-- Corner radii and line widths. -/
structure Border where
  radius : Option (Modes References)
  width : Option (Modes Width)

/-- A design system, of which every family is optional. -/
structure DesignSystem where
  colors : Option ColorFamily := none
  spacing : Option (Modes Scale) := none
  gap : Option (Modes References) := none
  typography : Option (Modes TypeScale) := none
  border : Option Border := none
  time : Option (Modes Scale) := none

namespace DesignSystem

/-- A design system without the family of this name, if there is one. -/
def drop (system : DesignSystem) (family : String) : DesignSystem :=
  match family with
  | "colors" => { system with colors := none }
  | "spacing" => { system with spacing := none }
  | "gap" => { system with gap := none }
  | "typography" => { system with typography := none }
  | "border" => { system with border := none }
  | "time" => { system with time := none }
  | _ => system

end DesignSystem

end DesignTokens
