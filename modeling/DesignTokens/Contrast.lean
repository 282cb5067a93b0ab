import DesignTokens.Schema.Pairs
import DesignTokens.System.Reading

/-!
# Contrast of colour groups

Background and foreground colours have to be far enough apart in lightness to
stay readable. The judgement is written for any kind of number; it tells, for
every colour, how much room is left before the constraint breaks.
-/

namespace DesignTokens.Contrast

/-- Which group is the darker one. -/
inductive Polarity where
  /-- Dark backgrounds and light foregrounds. -/
  | negative
  /-- Light backgrounds and dark foregrounds. -/
  | positive
  deriving DecidableEq, Repr

/-- The two groups of colours. -/
inductive Group where
  | background
  | foreground
  deriving DecidableEq, Repr

/-- The side on which a boundary holds a group. -/
inductive Bound where
  | most
  | least
  deriving DecidableEq, Repr

def Group.name : Group → String
  | .background => "background"
  | .foreground => "foreground"

/-- The name of a side. -/
def Bound.name : Bound → String
  | .most => "max"
  | .least => "min"

/-- The side on which a group is bounded: the darker group must not be too
light, the lighter one not too dark. -/
def Polarity.bound : Polarity → Group → Bound
  | .negative, .background => .most
  | .negative, .foreground => .least
  | .positive, .background => .least
  | .positive, .foreground => .most

/-- What is known about one colour: a negative headroom breaks the
constraint. -/
structure Diagnostic (alpha : Type) where
  group : Group
  lightness : alpha
  headroom : alpha

/-- The outcome of a judgement. -/
structure Verdict (alpha : Type) where
  valid : Bool
  actual : alpha
  required : alpha
  backgroundLimit : alpha
  backgroundBound : Bound
  foregroundLimit : alpha
  foregroundBound : Bound
  colors : Record (Diagnostic alpha)

section Judgement

variable {alpha : Type} [LT alpha] [DecidableLT alpha]

/-- The largest of some numbers: the first one, unless a later one is
greater. -/
def largest (first : alpha) (rest : List alpha) : alpha :=
  rest.foldl (fun best next => if best < next then next else best) first

/-- The smallest of some numbers: the first one, unless a later one is
less. -/
def smallest (first : alpha) (rest : List alpha) : alpha :=
  rest.foldl (fun best next => if next < best then next else best) first

variable [Add alpha] [Sub alpha] [LE alpha] [DecidableLE alpha]
  [OfNat alpha 0]

/-- The room that a colour has within a limit. -/
def headroom (bound : Bound) (limit lightness : alpha) : alpha :=
  match bound with
  | .most => limit - lightness
  | .least => lightness - limit

/-- Diagnose every colour of a group. -/
def diagnose (group : Group) (bound : Bound) (limit : alpha)
    (colors : Record alpha) : Record (Diagnostic alpha) :=
  colors.map fun entry =>
    (entry.1, ⟨group, entry.2, headroom bound limit entry.2⟩)

/-- The verdict where a group is empty. -/
def undecided (polarity : Polarity) (required : alpha) : Verdict alpha :=
  { valid := false
    actual := 0
    required := required
    backgroundLimit := 0
    backgroundBound := polarity.bound .background
    foregroundLimit := 0
    foregroundBound := polarity.bound .foreground
    colors := [] }

/-- The distance between the groups and the limits of the background and of
the foreground. -/
def distances (polarity : Polarity) (required : alpha)
    (background foreground : alpha × List alpha) : alpha × alpha × alpha :=
  match polarity with
  | .negative =>
      let lightest := largest background.1 background.2
      let darkest := smallest foreground.1 foreground.2
      (darkest - lightest, darkest - required, lightest + required)
  | .positive =>
      let darkest := smallest background.1 background.2
      let lightest := largest foreground.1 foreground.2
      (darkest - lightest, lightest + required, darkest - required)

/-- Judge two groups of colours by their lightness. -/
def judge (polarity : Polarity) (required : alpha)
    (background foreground : Record alpha) : Verdict alpha :=
  match background.map Prod.snd, foreground.map Prod.snd with
  | first :: others, other :: rest =>
      let (actual, backgroundLimit, foregroundLimit) :=
        distances polarity required (first, others) (other, rest)
      { valid := required ≤ actual
        actual := actual
        required := required
        backgroundLimit := backgroundLimit
        backgroundBound := polarity.bound .background
        foregroundLimit := foregroundLimit
        foregroundBound := polarity.bound .foreground
        colors := Record.overlay
          (diagnose .background (polarity.bound .background)
            backgroundLimit background)
          (diagnose .foreground (polarity.bound .foreground)
            foregroundLimit foreground) }
  | _, _ => undecided polarity required

end Judgement

/-! ## Colours by key -/

/-- A constraint on two groups of colours. -/
structure Constraint where
  polarity : Polarity
  required : Float
  background : List String
  foreground : List String

/-- All polarities by name. -/
def Polarity.choices : List (String × Polarity) :=
  [("negative", .negative), ("positive", .positive)]

open Schema in
def Constraint.read : Reader Constraint := model fun entries =>
  Constraint.mk
    <$> field "polarity" "polarity" (choice Polarity.choices) entries
    <*> field "minDelta" "min_delta" real entries
    <*> field "backgroundColors" "background_colors" (listOf text) entries
    <*> field "foregroundColors" "foreground_colors" (listOf text) entries

def Constraint.readPairs : Value → Except Schema.ReadFault Constraint :=
  Schema.readPairs Constraint.read

/-- Why colours cannot be judged. -/
inductive Fault where
  /-- A colour cannot be read. -/
  | issues (found : List Schema.Issue)
  /-- The colours are no mapping, or one of them is no colour. -/
  | notColor

/-- The lightness of the colour under a key, if there is one. -/
def lightness? (colors : Value) (key : String) :
    Except Fault (Option Float) :=
  match colors.entries? with
  | none => .error .notColor
  | some entries =>
      match Entries.get? key entries with
      | none | some .null => .ok none
      | some (.color color) => .ok (some color.lightness)
      | some (.map channels) =>
          match Oklch.readEntries channels with
          | .accepted color => .ok (some color.lightness)
          | .refused found => .error (.issues found)
      | some _ => .error .notColor

/-- The lightness of the colours under some keys; keys without a colour are
left out. -/
def lightnesses (colors : Value) :
    Record Float → List String → Except Fault (Record Float)
  | found, [] => .ok found
  | found, key :: rest => do
      match ← lightness? colors key with
      | some lightness =>
          lightnesses colors (Record.put key lightness found) rest
      | none => lightnesses colors found rest

/-- Judge the colours of a mapping under a constraint. -/
def Constraint.check (constraint : Constraint) (colors : Value) :
    Except Fault (Verdict Float) := do
  let background ← lightnesses colors [] constraint.background
  let foreground ← lightnesses colors [] constraint.foreground
  return judge constraint.polarity constraint.required background foreground

end DesignTokens.Contrast
