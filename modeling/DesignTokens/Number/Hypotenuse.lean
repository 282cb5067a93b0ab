import DesignTokens.Number.Binary

/-!
# The length of a vector

The square root of a sum of two squares, rounded once from the exact value, so
that neither square can overflow.
-/

namespace DesignTokens.Number

/-- The largest number below `2 ^ bits` more than `root` that has a square of
at most `n`, found bit by bit. -/
def rootFrom (n : Nat) : Nat → Nat → Nat
  | 0, root => root
  | bits + 1, root =>
      let candidate := root + twoTo bits
      rootFrom n bits (if candidate * candidate ≤ n then candidate else root)

/-- The square root of a natural number, rounded down. -/
def floorRoot (n : Nat) : Nat :=
  rootFrom n (n.log2 / 2 + 1) 0

/-- The double nearest to `significand * 2 ^ exponent`. -/
def nearestBinary (significand : Nat) (exponent : Int) : Float :=
  Float.ofScientific
    (significand * twoTo exponent.toNat * Nat.pow 5 (-exponent).toNat)
    (exponent < 0) (-exponent).toNat

namespace Binary

/-- The square root of the sum of two squares. Below the last bit of a root of
at least 60 bits, one more bit tells whether the root is exact. -/
def length (x y : Binary) : Float :=
  let exponent := min x.exponent y.exponent
  let first := x.significand * twoTo (x.exponent - exponent).toNat
  let second := y.significand * twoTo (y.exponent - exponent).toNat
  let square := first * first + second * second
  let extra := 60 - square.log2 / 2
  let scaled := square * twoTo (2 * extra)
  let root := floorRoot scaled
  let sticky := if root * root = scaled then 0 else 1
  nearestBinary (2 * root + sticky) (exponent - extra - 1)

end Binary

/-- The length of the vector with the two given sides. -/
def hypotenuse (x y : Float) : Float :=
  match meaning x, meaning y with
  | .infinite _, _ => x.abs
  | _, .infinite _ => y.abs
  | .notANumber, _ => x
  | _, .notANumber => y
  | .finite first, .finite second => first.length second

end DesignTokens.Number
