import DesignTokens.Record
import DesignTokens.Token.Basic

/-!
# Token sheets

A token sheet is a fully expanded design system: the tokens of all default
modes, the modes of each category, and for every other mode the tokens that it
changes.
-/

namespace DesignTokens

/-- The default mode of a category or family and the names of the others. -/
structure ModeInfo where
  default : String := ""
  overrides : List String := []
  deriving DecidableEq, Repr

/-- The modes of each category. -/
structure ModeTable where
  color : ModeInfo := {}
  size : ModeInfo := {}
  time : ModeInfo := {}
  deriving DecidableEq, Repr

def ModeTable.ofCategory (modes : ModeTable) : Category → ModeInfo
  | .color => modes.color
  | .size => modes.size
  | .time => modes.time

/-- A fully expanded design system. -/
structure TokenSheet where
  tokens : Record Token := []
  modes : ModeTable := {}
  overrides : Record (Record Token) := []

namespace TokenSheet

/-- The first category in which a mode is listed as an override. -/
def categoryOf (sheet : TokenSheet) (mode : String) : Option Category :=
  Category.all.find? fun category =>
    (sheet.modes.ofCategory category).overrides.contains mode

/-- The tokens that a mode changes. -/
def overridesOf (sheet : TokenSheet) (mode : String) : Record Token :=
  (sheet.overrides.lookup mode).getD []

/-- All tokens as they stand in a mode: the default tokens with the mode's own
tokens written over them. An unknown mode changes nothing. -/
def resolve (sheet : TokenSheet) (mode : String) : Record Token :=
  Record.overlay sheet.tokens (sheet.overridesOf mode)

end TokenSheet

end DesignTokens
