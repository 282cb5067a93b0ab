import DesignTokens.Number.Rounding
import DesignTokens.Number.Shortest

/-!
# Texts of numbers

Three layouts: the shortest text that reads back, a fixed number of decimal
places, and the fixed layout without its insignificant zeros.
-/

namespace DesignTokens.Number

/-- The decimal digits of a natural number. -/
def digitsOf (n : Nat) : List Char :=
  Nat.toDigits 10 n

/-- The digits of a whole number after its sign. -/
def wholeDigits (n : Int) : List Char :=
  if n < 0 then '-' :: digitsOf n.natAbs else digitsOf n.natAbs

/-- The digits of a whole number. -/
def wholeText (n : Int) : String :=
  String.ofList (wholeDigits n)

/-- A minus sign before the characters of a negative number. -/
def signed (negative : Bool) (text : List Char) : List Char :=
  if negative then '-' :: text else text

/-! ## The shortest text -/

/-- How the shortest digits are laid out: positional for leading exponents
from `lowest` up to but not including `highest`, with an exponent of at least
`exponentWidth` digits elsewhere. -/
structure ShortestLayout where
  lowest : Int
  highest : Int
  exponentWidth : Nat

/-- Positional from `0.0001` to below `10 ^ 16`, two exponent digits. -/
def plainLayout : ShortestLayout := ⟨-4, 16, 2⟩

/-- Digits with the point `wholes` digits from the left; a whole number is
marked by a zero after the point. -/
def positional (digits : List Char) (wholes : Int) : List Char :=
  if wholes ≤ 0 then
    '0' :: '.' :: (List.replicate (-wholes).toNat '0' ++ digits)
  else
    let count := wholes.toNat
    if digits.length ≤ count then
      digits ++ List.replicate (count - digits.length) '0' ++ ['.', '0']
    else digits.take count ++ '.' :: digits.drop count

/-- Digits with the point after the first of them and an exponent. -/
def scientific (layout : ShortestLayout) (digits : List Char)
    (exponent : Int) : List Char :=
  let mark := if exponent < 0 then '-' else '+'
  let power := List.leftpad layout.exponentWidth '0'
    (digitsOf exponent.natAbs)
  match digits with
  | [] => []
  | [digit] => digit :: 'e' :: mark :: power
  | digit :: rest => digit :: '.' :: rest ++ 'e' :: mark :: power

def Decimal.layOut (layout : ShortestLayout) (decimal : Decimal) :
    List Char :=
  let digits := digitsOf decimal.digits
  let leading := decimal.exponent + digits.length - 1
  if layout.lowest ≤ leading ∧ leading < layout.highest then
    positional digits (leading + 1)
  else scientific layout digits leading

/-- The shortest text of a double that reads back to it. -/
def shortestText (x : Float) : String :=
  String.ofList <|
    match meaning x with
    | .notANumber => ['n', 'a', 'n']
    | .infinite negative => signed negative ['i', 'n', 'f']
    | .finite number =>
        signed number.negative <|
          if number.significand = 0 then ['0', '.', '0']
          else number.shortest.layOut plainLayout

/-! ## Fixed places -/

/-- A count of units of the last decimal place, with its point. -/
def pointed (places units : Nat) : List Char :=
  let whole := digitsOf (units / tenTo places)
  if places = 0 then whole
  else whole ++ '.' ::
    List.leftpad places '0' (digitsOf (units % tenTo places))

/-- A double with exactly `places` decimal places; the sign stays on a value
that rounds to zero. -/
def fixed (places : Nat) (x : Float) : List Char :=
  match meaning x with
  | .notANumber => ['n', 'a', 'n']
  | .infinite negative => signed negative ['i', 'n', 'f']
  | .finite number =>
      signed number.negative (pointed places (number.inPlaces places))

/-- `fixed` as a text. -/
def fixedText (places : Nat) (x : Float) : String :=
  String.ofList (fixed places x)

/-! ## Trimmed places -/

/-- Drop every occurrence of `mark` from the end. -/
def dropTrailing (mark : Char) (text : List Char) : List Char :=
  (text.reverse.dropWhile (· == mark)).reverse

/-- Drop the insignificant end of a decimal text: zeros after the point, a
point at the end, the sign of zero. -/
def trim (text : List Char) : List Char :=
  let short :=
    if text.contains '.' then dropTrailing '.' (dropTrailing '0' text)
    else text
  if short = ['-', '0'] ∨ short = [] then ['0'] else short

/-- A double rounded to `places` decimal places, without insignificant
zeros. -/
def trimmedText (places : Nat) (x : Float) : String :=
  String.ofList (trim (fixed places x))

/-! ## Style sheet numbers -/

/-- A double as a style sheet shows it: all digits of a whole number, the
shortest text of any other. -/
def plainText (x : Float) : String :=
  match wholeValue? x with
  | some n => wholeText n
  | none => shortestText x

end DesignTokens.Number
