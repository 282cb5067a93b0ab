import DesignTokens.Number.Layout

/-!
# Numerals

A number is a whole number of any size or a double. Comparisons are exact;
arithmetic happens on doubles.
-/

namespace DesignTokens.Number

/-- A number as it is written down: whole, or with a decimal point. -/
inductive Numeral where
  | whole (number : Int)
  | real (number : Float)

/-- The double nearest to a whole number, unless that lies beyond the largest
double. -/
def floatOfInt? (n : Int) : Option Float :=
  let x := Float.ofInt n
  if x.isInf then none else some x

namespace Numeral

/-- The nearest double, unless it lies beyond the largest. -/
def toFloat? : Numeral → Option Float
  | .whole n => floatOfInt? n
  | .real x => some x

/-- The nearest double, or an overflow. -/
def toFloat (numeral : Numeral) : Except ArithmeticFault Float :=
  match numeral.toFloat? with
  | some x => .ok x
  | none => .error .overflow

/-- Finite, and within the range of doubles. -/
def isFinite (numeral : Numeral) : Bool :=
  match numeral.toFloat? with
  | some x => x.isFinite
  | none => false

/-- Finite and whole. -/
def isIntegral (numeral : Numeral) : Bool :=
  match numeral with
  | .whole n => (floatOfInt? n).isSome
  | .real x => (wholeValue? x).isSome

/-- Whether the number is at most zero; a NaN is not. -/
def atMostZero : Numeral → Bool
  | .whole n => n ≤ 0
  | .real x => x ≤ 0

def belowZero : Numeral → Bool
  | .whole n => n < 0
  | .real x => x < 0

def belowOne : Numeral → Bool
  | .whole n => n < 1
  | .real x => x < 1

def aboveOne : Numeral → Bool
  | .whole n => 1 < n
  | .real x => 1 < x

/-- The number as messages show it. -/
def text : Numeral → String
  | .whole n => wholeText n
  | .real x => shortestText x

/-- The number as a style sheet shows it. -/
def plainText : Numeral → Except ArithmeticFault String
  | .whole n =>
      match floatOfInt? n with
      | some _ => .ok (wholeText n)
      | none => .error .overflow
  | .real x => .ok (Number.plainText x)

/-- The number rounded to `places` decimal places, without insignificant
zeros. -/
def trimmedText (places : Nat) (numeral : Numeral) :
    Except ArithmeticFault String :=
  numeral.toFloat.map (Number.trimmedText places)

/-- The number with exactly `places` decimal places. -/
def fixedText (places : Nat) (numeral : Numeral) :
    Except ArithmeticFault String :=
  numeral.toFloat.map (Number.fixedText places)

end Numeral

end DesignTokens.Number
