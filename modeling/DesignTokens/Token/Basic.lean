/-!
# Tokens

A token is one named value of a design system. Tokens come in families, and
families that change together share a category of modes.
-/

namespace DesignTokens

/-- What a token describes. -/
inductive Family where
  | color
  | spacing
  | gap
  | typography
  | borderRadius
  | borderWidth
  | time
  deriving DecidableEq, Repr

/-- The axes along which modes are switched. -/
inductive Category where
  | color
  | size
  | time
  deriving DecidableEq, Repr

namespace Family

def name : Family → String
  | .color => "color"
  | .spacing => "spacing"
  | .gap => "gap"
  | .typography => "typography"
  | .borderRadius => "borderRadius"
  | .borderWidth => "borderWidth"
  | .time => "time"

/-- All families, in the order in which their tokens are put out. -/
def all : List Family :=
  [.color, .spacing, .gap, .typography, .borderRadius, .borderWidth, .time]

/-- All families by name. -/
def choices : List (String × Family) :=
  all.map fun family => (name family, family)

end Family

namespace Category

def name : Category → String
  | .color => "color"
  | .size => "size"
  | .time => "time"

/-- All categories, in the order in which a mode is looked up. -/
def all : List Category :=
  [.color, .size, .time]

/-- All categories by name. -/
def choices : List (String × Category) :=
  all.map fun category => (name category, category)

/-- What the choice between the categories is called. -/
def kind : String := "ModeCategory"

/-- The family that names the default mode of a category. -/
def leading : Category → Family
  | .color => .color
  | .size => .spacing
  | .time => .time

/-- The other families of a category. -/
def following : Category → List Family
  | .size => [.gap, .typography, .borderRadius, .borderWidth]
  | _ => []

def families (category : Category) : List Family :=
  category.leading :: category.following

end Category

/-- What else is known about a token. -/
structure Metadata where
  isAlphaVariant : Option Bool := none
  alphaLevel : Option String := none
  baseColor : Option String := none
  timeCategory : Option String := none
  deriving DecidableEq, Repr

/-- A token: its name, the text of its value and, where it has them, the
number behind the text, the unit and the token it is derived from. -/
structure Token where
  family : Family
  name : String
  value : String
  rawValue : Option Float := none
  unit : Option String := none
  reference : Option String := none
  metadata : Option Metadata := none

end DesignTokens
