/-!
# Doubles as exact numbers

A finite double is a sign, a whole significand and a power of two. All texts
of numbers are computed from this form in exact arithmetic.
-/

namespace DesignTokens.Number

/-- A power of two. -/
def twoTo (exponent : Nat) : Nat :=
  Nat.pow 2 exponent

/-- A power of ten. -/
def tenTo (exponent : Nat) : Nat :=
  Nat.pow 10 exponent

/-- Whether a whole number fits a signed word of 64 bits. -/
def fitsWord (n : Int) : Bool :=
  -(twoTo 63 : Int) ≤ n && n < twoTo 63

/-- The number `significand * 2 ^ exponent`, negated where `negative` holds. -/
structure Binary where
  negative : Bool
  significand : Nat
  exponent : Int
  deriving DecidableEq, Repr

/-- What a double stands for. -/
inductive Meaning where
  | notANumber
  | infinite (negative : Bool)
  | finite (number : Binary)
  deriving DecidableEq, Repr

/-- The exact meaning of a double, read from its bits. -/
def meaning (x : Float) : Meaning :=
  let bits := x.toBits.toNat
  let negative := bits / twoTo 63 % 2 == 1
  let biased : Nat := bits / twoTo 52 % twoTo 11
  let fraction : Nat := bits % twoTo 52
  if biased = twoTo 11 - 1 then
    if fraction = 0 then .infinite negative else .notANumber
  else if biased = 0 then .finite ⟨negative, fraction, -1074⟩
  else .finite ⟨negative, twoTo 52 + fraction, (biased : Int) - 1075⟩

/-- Whether the sign bit of a double is set. -/
def signBit (x : Float) : Bool :=
  x.toBits.toNat / twoTo 63 % 2 == 1

/-- The magnitude of `magnitude` with the sign of `source`. -/
def withSignOf (magnitude source : Float) : Float :=
  if signBit source then -magnitude.abs else magnitude.abs

namespace Binary

/-- The absolute value as a fraction: numerator and positive denominator. -/
def fraction (number : Binary) : Nat × Nat :=
  (number.significand * twoTo number.exponent.toNat,
    twoTo (-number.exponent).toNat)

/-- The number as a whole number, where it is one. -/
def toInt? (number : Binary) : Option Int :=
  let (numerator, denominator) := number.fraction
  if numerator % denominator = 0 then
    let size : Int := (numerator / denominator : Nat)
    some (if number.negative then -size else size)
  else none

end Binary

/-- The whole number that a double is exactly, where it is one. -/
def wholeValue? (x : Float) : Option Int :=
  match meaning x with
  | .finite number => number.toInt?
  | _ => none

end DesignTokens.Number
