import DesignTokens.Number.Binary
import DesignTokens.Text.Basic

/-!
# Reading numbers

Decimal digits, decimal fractions with an exponent, and the numbers that a
text may stand for where a number is expected.
-/

namespace DesignTokens.Number

/-- Whether a character is one of the ten decimal digits of ASCII. -/
def isDigit (character : Char) : Bool :=
  character.isDigit

/-- The number written by decimal digits. -/
def natOfDigits (digits : List Char) : Nat :=
  digits.foldl (fun total digit => total * 10 + (digit.toNat - 48)) 0

/-- The double nearest to `digits * 10 ^ exponent`; far beyond the range of
doubles the digits no longer matter. -/
def nearestFloat (digits : Nat) (exponent : Int) : Float :=
  let leading := exponent + (Nat.toDigits 10 digits).length
  if digits = 0 ∨ leading < -400 then 0
  else if leading > 400 then Float.ofScientific 1 false 400
  else Float.ofScientific digits (exponent < 0) exponent.natAbs

/-- The negation of a double where `negative` holds. -/
def negateIf (negative : Bool) (x : Float) : Float :=
  if negative then -x else x

/-- An optional sign: whether it is a minus, and what follows. -/
def splitSign : List Char → Bool × List Char
  | '-' :: rest => (true, rest)
  | '+' :: rest => (false, rest)
  | text => (false, text)

/-- The parts of a decimal without its sign: digits before the point, digits
after it if there is a point, and a signed exponent if there is one. -/
structure DecimalParts where
  whole : List Char
  fraction : Option (List Char)
  power : Option (Bool × List Char)

namespace DecimalParts

def toFloat (parts : DecimalParts) : Float :=
  let fraction := parts.fraction.getD []
  let power : Int :=
    match parts.power with
    | none => 0
    | some (negative, digits) =>
        if negative then -(natOfDigits digits : Int) else natOfDigits digits
  nearestFloat (natOfDigits (parts.whole ++ fraction))
    (power - fraction.length)

/-- Whether the decimal has neither point nor exponent. -/
def isWhole (parts : DecimalParts) : Bool :=
  parts.fraction.isNone && parts.power.isNone

/-- Whether the decimal has no needless leading zero and a digit on each side
of its point. -/
def isStrict (parts : DecimalParts) : Bool :=
  let leading :=
    match parts.whole with
    | [] => false
    | ['0'] => true
    | first :: _ => first != '0'
  leading && parts.fraction != some []

end DecimalParts

/-- The exponent at the front of a text: `e` or `E`, an optional sign, at
least one digit. -/
def splitPower (text : List Char) :
    Option (Bool × List Char) × List Char :=
  match text with
  | mark :: rest =>
      if mark = 'e' || mark = 'E' then
        let (negative, after) := splitSign rest
        match after.span isDigit with
        | ([], _) => (none, text)
        | (digits, remaining) => (some (negative, digits), remaining)
      else (none, text)
  | [] => (none, [])

/-- The decimal at the front of a text and what follows it. The point takes
the digits after it, of which there may be none. -/
def splitDecimal (text : List Char) : DecimalParts × List Char :=
  let (whole, afterWhole) := text.span isDigit
  let (fraction, afterFraction) : Option (List Char) × List Char :=
    match afterWhole with
    | '.' :: rest =>
        let (digits, remaining) := rest.span isDigit
        (some digits, remaining)
    | _ => (none, afterWhole)
  let (power, remaining) := splitPower afterFraction
  (⟨whole, fraction, power⟩, remaining)

/-- Drop single underscores between other characters; none where an
underscore leads, trails or is doubled. -/
def dropUnderscores : List Char → Option (List Char)
  | [] => some []
  | ['_'] => none
  | '_' :: '_' :: _ => none
  | '_' :: rest => dropUnderscores rest
  | character :: rest =>
      (dropUnderscores rest).map (character :: ·)

/-- Underscores may separate the digits of a number, but not lead it. -/
def withoutUnderscores? : List Char → Option (List Char)
  | '_' :: _ => none
  | text => dropUnderscores text

/-- The double that a text without blanks stands for: a decimal, or a named
infinity or NaN in any case. -/
def realOfChars? (text : List Char) : Option Float :=
  let (negative, body) := splitSign text
  let lower := String.ofList (body.map Char.toLower)
  if lower = "inf" ∨ lower = "infinity" then
    some (negateIf negative (Float.ofBits 0x7ff0000000000000))
  else if lower = "nan" then some (Float.ofBits 0x7ff8000000000000)
  else
    match splitDecimal body with
    | (parts, []) =>
        if parts.whole.isEmpty && (parts.fraction.getD []).isEmpty then none
        else some (negateIf negative parts.toFloat)
    | _ => none

/-- The double that a text stands for, blanks around it aside. Where
underscores separate digits, no blank may stand around the text. -/
def realOfText? (text : String) : Option Float :=
  match realOfChars? (Text.strip text.toList) with
  | some x => some x
  | none => (withoutUnderscores? text.toList).bind realOfChars?

/-! ## Whole numbers in texts -/

/-- The number of digits beyond which no whole number is read. -/
def digitLimit : Nat := 4300

/-- What a text says where a whole number is expected. -/
inductive WholeReading where
  /-- A whole number. -/
  | number (held : Int)
  /-- More digits than are read. -/
  | tooLong
  /-- No whole number. -/
  | unreadable
  deriving DecidableEq, Repr

/-- What follows a leading zero, from the first digit that counts: further
zeros and underscores are passed over, and a point keeps the character `last`
before it. -/
def afterZero (last : Char) : List Char → Option (List Char)
  | [] => some [last]
  | '.' :: rest => some (last :: '.' :: rest)
  | character :: rest =>
      if character = '0' ∨ character = '_' then afterZero character rest
      else if isDigit character ∨ character = '-' then
        some (character :: rest)
      else none

/-- A text that starts with a digit, without leading zeros. -/
def withoutLeadingZeros? : List Char → Option (List Char)
  | '0' :: rest => afterZero '0' rest
  | first :: rest => if isDigit first then some (first :: rest) else none
  | [] => none

/-- A text without its sign, if that is a plus, and without the zeros after
its sign. -/
def withoutPadding? : List Char → Option (List Char)
  | '+' :: rest => withoutLeadingZeros? rest
  | '-' :: rest => (withoutLeadingZeros? rest).map ('-' :: ·)
  | text => withoutLeadingZeros? text

/-- A text without its fraction, if that is written with zeros only. -/
def withoutZeroFraction (text : List Char) : List Char :=
  match text.span (· != '.') with
  | (whole, '.' :: first :: zeros) =>
      if (first :: zeros).all (· == '0') then whole else text
  | _ => text

/-- The whole number that digits stand for. They have no needless leading
zero, and a run of too many digits is told from other texts wherever it
ends. -/
def wholeOfDigits (negative : Bool) (text : List Char) : WholeReading :=
  match text.span isDigit with
  | ([], _) => .unreadable
  | (['0'], []) => .number 0
  | ('0' :: _, _) => .unreadable
  | (digits, rest) =>
      if digitLimit < digits.length then .tooLong
      else if rest.isEmpty then
        let size : Int := natOfDigits digits
        .number (if negative then -size else size)
      else .unreadable

/-- The whole number that a text stands for, blanks around it aside: digits
after an optional sign, and possibly a fraction of zeros. -/
def wholeOfText (text : String) : WholeReading :=
  match withoutPadding? (Text.strip text.toList) with
  | none => .unreadable
  | some padless =>
      let whole := withoutZeroFraction padless
      match (withoutUnderscores? whole).getD whole with
      | '-' :: digits => wholeOfDigits true digits
      | digits => wholeOfDigits false digits

end DesignTokens.Number
