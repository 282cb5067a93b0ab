import DesignTokens.Color.Space

/-!
# Gamut mapping

A colour that sRGB cannot show is replaced by one of the same lightness and
hue with less chroma. The chroma is found by halving an interval. The search
is written for any kind of number and for any tests of displayability and
closeness.
-/

namespace DesignTokens.ColorSpace

/-- How close a clipped colour is to the colour it stands for. -/
inductive Closeness where
  /-- At the limit of what can be told apart. -/
  | settled
  /-- Not to be told apart. -/
  | close
  /-- Visibly different. -/
  | far
  deriving DecidableEq, Repr

/-- The questions that the search asks about a chroma. -/
structure Trial (alpha epsilon : Type) where
  /-- The channels at a chroma. -/
  encode : alpha → Except epsilon (Channels alpha)
  /-- Whether channels can be shown as they are. -/
  inGamut : Channels alpha → Bool
  /-- How close clipped channels are to the colour at a chroma. -/
  compare : alpha → Channels alpha → Except epsilon Closeness

/-- The search interval, whether its lower end is known to be displayable, and
the last clipped colour. -/
structure SearchState (alpha : Type) where
  low : alpha
  high : alpha
  lowInGamut : Bool
  clipped : Channels alpha

/-- A search is done or goes on from a state. -/
inductive Progress (alpha : Type) where
  | done (result : Channels alpha)
  | ongoing (state : SearchState alpha)

section Search

variable {alpha epsilon : Type} [Add alpha] [Sub alpha] [Div alpha]
  [OfNat alpha 0] [OfNat alpha 1] [OfNat alpha 2] [LT alpha]
  [DecidableLT alpha] [LE alpha] [DecidableLE alpha]

/-- A channel cut off at zero and one. -/
def clipChannel (channel : alpha) : alpha :=
  let raised := if channel < 0 then 0 else channel
  if 1 < raised then 1 else raised

/-- Channels cut off at zero and one. -/
def Channels.clip (color : Channels alpha) : Channels alpha :=
  ⟨clipChannel color.red, clipChannel color.green, clipChannel color.blue⟩

/-- All channels at their least. -/
def Channels.black : Channels alpha := ⟨0, 0, 0⟩

/-- All channels at their most. -/
def Channels.white : Channels alpha := ⟨1, 1, 1⟩

/-- Halve the interval once; an interval within the tolerance ends the
search. -/
def searchStep (trial : Trial alpha epsilon) (tolerance : alpha)
    (state : SearchState alpha) : Except epsilon (Progress alpha) := do
  if tolerance < state.high - state.low then
    let chroma := (state.low + state.high) / 2
    let candidate ← trial.encode chroma
    if state.lowInGamut && trial.inGamut candidate then
      return .ongoing { state with low := chroma }
    let clipped := candidate.clip
    match ← trial.compare chroma clipped with
    | .settled => return .done clipped
    | .close =>
        return .ongoing
          { low := chroma, high := state.high, lowInGamut := false
            clipped := clipped }
    | .far =>
        return .ongoing { state with high := chroma, clipped := clipped }
  else return .done state.clipped

/-- Halve the interval until the search ends, or as often as `steps` says. -/
def searchFor (trial : Trial alpha epsilon) (tolerance : alpha) :
    Nat → SearchState alpha → Except epsilon (Progress alpha)
  | 0, state => .ok (.ongoing state)
  | steps + 1, state => do
      match ← searchStep trial tolerance state with
      | .done result => return .done result
      | .ongoing next => searchFor trial tolerance steps next

/-- Halvings that bring every interval of doubles below the tolerance: its
width is less than `2 ^ 1024`, the tolerance more than `2 ^ -14`. -/
def searchBudget : Nat := 1100

/-- The displayable channels for a colour of the given lightness and chroma:
the colour itself, white or black, or the clipped colour with the largest
chroma that clipping does not visibly change. -/
def reduceChroma (trial : Trial alpha epsilon) (tolerance : alpha)
    (lightness chroma : alpha) : Except epsilon (Channels alpha) := do
  let encoded ← trial.encode chroma
  if trial.inGamut encoded then return encoded.clip
  if 1 ≤ lightness then return .white
  if lightness ≤ 0 then return .black
  match ← trial.compare chroma encoded.clip with
  | .settled | .close => return encoded.clip
  | .far =>
      let start : SearchState alpha :=
        { low := 0, high := chroma, lowInGamut := true
          clipped := encoded.clip }
      match ← searchFor trial tolerance searchBudget start with
      | .done result => return result
      | .ongoing state => return state.clipped

end Search

/-! ## Doubles -/

/-- The smallest visible difference of two colours. -/
def visibleDifference : Float := 0.02

/-- The precision of the search. -/
def searchTolerance : Float := 0.0001

/-- A channel that can be shown, up to a rounding error. -/
def channelInGamut (channel : Float) : Bool :=
  -1e-6 ≤ channel && channel ≤ 1 + 1e-6

/-- Channels that can be shown, up to a rounding error. -/
def Channels.inGamut (color : Channels Float) : Bool :=
  channelInGamut color.red && channelInGamut color.green &&
    channelInGamut color.blue

/-- The visible difference between a colour and channels. -/
def Lch.difference (color : Lch) (channels : Channels Float) :
    Outcome Float := do
  let lab ← color.toLab
  let shown ← Lab.ofSrgb channels
  lab.distance shown

/-- How close two colours of this difference are. -/
def Closeness.ofDifference (difference : Float) : Closeness :=
  if difference < visibleDifference then
    if visibleDifference - difference < searchTolerance then .settled
    else .close
  else .far

/-- The questions about the chroma of a colour of the given lightness and
hue. -/
def chromaTrial (lightness hue : Float) :
    Trial Float Number.ArithmeticFault where
  encode chroma := Lch.toSrgb ⟨lightness, chroma, hue⟩
  inGamut := Channels.inGamut
  compare chroma clipped :=
    (Lch.difference ⟨lightness, chroma, hue⟩ clipped).map
      Closeness.ofDifference

/-- The displayable channels for a colour. -/
def Lch.toGamut (color : Lch) : Outcome (Channels Float) :=
  reduceChroma (chromaTrial color.lightness color.hue) searchTolerance
    color.lightness color.chroma

/-- The colour itself where sRGB can show it, and the colour of its
displayable channels where not. -/
def Lch.displayable (color : Lch) : Outcome Lch := do
  let encoded ← color.toSrgb
  if encoded.inGamut then return color
  let shown ← color.toGamut
  Lch.ofSrgb shown

end DesignTokens.ColorSpace
