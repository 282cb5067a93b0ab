import DesignTokens.Number.Binary

/-!
# Rounding to decimal places and to whole numbers

A half goes to the even neighbour, measured on the exact value.
-/

namespace DesignTokens.Number

/-- `numerator / denominator` to the nearest whole number, a half to the even
one. -/
def roundHalfEven (numerator denominator : Nat) : Nat :=
  let floor := numerator / denominator
  let twice := 2 * (numerator % denominator)
  if twice < denominator then floor
  else if denominator < twice then floor + 1
  else if floor % 2 = 0 then floor
  else floor + 1

namespace Binary

/-- The absolute value in units of the last of `places` decimal places. -/
def inPlaces (number : Binary) (places : Nat) : Nat :=
  let (numerator, denominator) := number.fraction
  roundHalfEven (numerator * tenTo places) denominator

/-- The nearest whole number. -/
def rounded (number : Binary) : Int :=
  let size : Int := number.inPlaces 0
  if number.negative then -size else size

end Binary

/-- Why a computation with doubles has no result. -/
inductive ArithmeticFault where
  /-- The result lies beyond the largest double. -/
  | overflow
  /-- The operation has no value at its argument. -/
  | undefined
  deriving DecidableEq, Repr

/-- The whole number nearest to a double. -/
def toWhole (x : Float) : Except ArithmeticFault Int :=
  match meaning x with
  | .notANumber => .error .undefined
  | .infinite _ => .error .overflow
  | .finite number => .ok number.rounded

end DesignTokens.Number
