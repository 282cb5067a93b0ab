import DesignTokens.Number.Binary

/-!
# Shortest decimals

The decimal with the fewest digits that reads back to a given double and, of
those, the one nearest to it. Every step is exact arithmetic on whole numbers.
-/

namespace DesignTokens.Number

/-- The reals that round to one double: bounds and value share a denominator,
and `closed` says whether the bounds themselves belong. -/
structure Band where
  low : Nat
  value : Nat
  high : Nat
  denominator : Nat
  closed : Bool

/-- The band of a positive double. Below a power of two the neighbouring
doubles are twice as close. -/
def Binary.band (number : Binary) : Band :=
  let below :=
    if number.significand = twoTo 52 ∧ number.exponent > -1074 then 1 else 2
  let quarter := number.exponent - 2
  let scale := twoTo quarter.toNat
  { low := (4 * number.significand - below) * scale
    value := 4 * number.significand * scale
    high := (4 * number.significand + 2) * scale
    denominator := twoTo (-quarter).toNat
    closed := number.significand % 2 = 0 }

/-- A decimal `digits * 10 ^ exponent`. -/
structure Decimal where
  digits : Nat
  exponent : Int
  deriving DecidableEq, Repr

namespace Band

/-- Whether `decimal` lies in the band. -/
def contains (band : Band) (decimal : Decimal) : Bool :=
  let up := tenTo (-decimal.exponent).toNat
  let point :=
    decimal.digits * (band.denominator * tenTo decimal.exponent.toNat)
  if band.closed then band.low * up ≤ point ∧ point ≤ band.high * up
  else band.low * up < point ∧ point < band.high * up

/-- The point of the grid `10 ^ exponent` at or below the value, and whether
the value is nearer to the next point; a tie goes to the even one. -/
def neighbours (band : Band) (exponent : Int) : Nat × Bool :=
  let numerator := band.value * tenTo (-exponent).toNat
  let denominator := band.denominator * tenTo exponent.toNat
  let floor := numerator / denominator
  let twice := 2 * (numerator % denominator)
  (floor, twice > denominator ∨ (twice = denominator ∧ floor % 2 = 1))

/-- The better of the value's two neighbours on the grid `10 ^ exponent` that
lie in the band. -/
def onGrid? (band : Band) (exponent : Int) : Option Decimal :=
  let (floor, upper) := band.neighbours exponent
  let first : Decimal := ⟨if upper then floor + 1 else floor, exponent⟩
  let second : Decimal := ⟨if upper then floor else floor + 1, exponent⟩
  if band.contains first then some first
  else if band.contains second then some second
  else none

/-- The exponent of the leading decimal digit of the value. -/
def magnitude (band : Band) : Int :=
  let guess : Int := (Nat.toDigits 10 band.value).length
    - (Nat.toDigits 10 band.denominator).length
  if band.value * tenTo (-guess).toNat
      ≥ band.denominator * tenTo guess.toNat then guess
  else guess - 1

/-- Try finer and finer grids, from `exponent` downwards, until one has a point
in the band; `remaining` bounds the number of trials. -/
def search (band : Band) : Nat → Int → Decimal
  | 0, exponent => ⟨(band.neighbours exponent).1, exponent⟩
  | remaining + 1, exponent =>
      match band.onGrid? exponent with
      | some decimal => decimal
      | none => band.search remaining (exponent - 1)

/-- The shortest decimal of the band; seventeen digits always suffice. -/
def shortest (band : Band) : Decimal :=
  band.search 17 band.magnitude

end Band

/-- Drop trailing zeros of the digits, `remaining` at most. -/
def Decimal.strip : Nat → Decimal → Decimal
  | 0, decimal => decimal
  | remaining + 1, decimal =>
      if decimal.digits ≠ 0 ∧ decimal.digits % 10 = 0 then
        Decimal.strip remaining
          ⟨decimal.digits / 10, decimal.exponent + 1⟩
      else decimal

/-- The shortest decimal of a positive number, without trailing zeros. -/
def Binary.shortest (number : Binary) : Decimal :=
  number.band.shortest.strip 17

end DesignTokens.Number
