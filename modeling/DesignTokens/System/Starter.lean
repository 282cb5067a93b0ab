import DesignTokens.System.Basic

/-!
# The starter design system

A complete design system to start from, and the list of design systems that
come with the library.
-/

namespace DesignTokens.Starter

/-- A mode that is the default of its family. -/
private def standard {alpha : Type} (name : String) (content : alpha) :
    Mode alpha :=
  ⟨name, some true, content⟩

/-- A mode that overrides the default. -/
private def override {alpha : Type} (name : String) (content : alpha) :
    Mode alpha :=
  ⟨name, some false, content⟩

/-- A colour with all three channels. -/
private def shade (lightness chroma hue : Float) : Option Oklch :=
  some ⟨lightness, chroma, some hue⟩

/-- The usual four references, from the least to the largest. -/
private def references (spacingMode : String) (unit : Option String) :
    References :=
  { unit := unit
    spacingMode := some spacingMode
    entries := [("min", .str "min"), ("s", .int 1), ("l", .int 2),
      ("max", .int 3)] }

/-- Opacities from the least to the most opaque. -/
def alphaSchedule : AlphaSchedule :=
  [("min", 0.07), ("lo-x", 0.125), ("lo", 0.25), ("hi", 0.68),
    ("hi-x", 0.85), ("max", 0.93)]

/-- The colours of a dark page. -/
def dark : Palette :=
  { colors :=
      [("bg", shade 0.2603 0.0000 129.63),
        ("ev", shade 0.2935 0.0018 286.29),
        ("primary", shade 0.7969 0.1178 296.37),
        ("neutral", shade 0.9302 0.0371 299.19),
        ("ink", shade 0.9333 0.0371 299.20),
        ("positive", shade 0.7625 0.2030 150.49),
        ("negative", shade 0.6875 0.2113 7.38)]
    alphaSchedule := none }

/-- The colours that change on a light page. -/
def light : Palette :=
  { colors :=
      [("bg", shade 0.9850 0.0020 286.00),
        ("ev", shade 0.9600 0.0040 286.00),
        ("primary", shade 0.5200 0.1600 296.37),
        ("ink", shade 0.2200 0.0200 296.00)]
    alphaSchedule := none }

/-- A dark theme with a light variant and three sizes. -/
def theme : DesignSystem :=
  { colors := some
      { modes := [standard "dark" dark, override "light" light]
        alphaSchedule := some alphaSchedule }
    spacing := some
      [standard "default" ⟨"px", 8, 4, 12⟩,
        override "small" ⟨"px", 4, 2, 12⟩,
        override "large" ⟨"px", 16, 8, 12⟩]
    gap := some
      [standard "default" (references "default" none),
        override "small" (references "small" none),
        override "large" (references "large" none)]
    typography := some
      [standard "default" ⟨"rem", 0.875, 0.625, 0.125, 12⟩,
        override "small" ⟨"rem", 0.75, 0.625, 0.125, 12⟩,
        override "large" ⟨"rem", 1.125, 0.75, 0.5, 12⟩]
    border := some
      { radius := some
          [standard "default" (references "default" (some "px")),
            override "small" (references "small" (some "px")),
            override "large" (references "large" (some "px"))]
        width := some
          [standard "default" ⟨"px", 1⟩, override "small" ⟨"px", 0.5⟩,
            override "large" ⟨"px", 2⟩] }
    time := some
      [standard "default" ⟨"ms", 100, 50, 10⟩,
        override "anim" ⟨"ms", 1000, 500, 10⟩] }

/-- The design systems that come with the library. -/
def all : Record DesignSystem :=
  [("default", theme)]

def named? (name : String) : Option DesignSystem :=
  all.lookup name

end DesignTokens.Starter
