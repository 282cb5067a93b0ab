import DesignTokens.Document.Basic
import DesignTokens.Text.Basic

/-!
# Plain scalars

What an unquoted word of a YAML document stands for: null, a flag, a number,
or the text itself.
-/

namespace DesignTokens.Document.Yaml

/-- The three ways to write a word: small, with a capital, in capitals. -/
def spellings (word : String) : List String :=
  [word, word.capitalize, word.toUpper]

def nullWords : List String :=
  "" :: "~" :: spellings "null"

/-- The words for a set flag. -/
def trueWords : List String :=
  ["yes", "true", "on"].flatMap spellings

/-- The words for a cleared flag. -/
def falseWords : List String :=
  ["no", "false", "off"].flatMap spellings

/-- Whether a character may stand among the digits of a number. -/
def isDigitOrBreak (character : Char) : Bool :=
  character.isDigit || character == '_'

/-- A word without the underscores that group its digits. -/
def ungrouped (word : List Char) : List Char :=
  word.filter (· != '_')

/-! ## Whole numbers -/

/-- The number that digits of a base stand for, if all of them are below it;
there is at least one. -/
def wholeInBase? (base : Nat) (digits : List Char) : Option Nat :=
  if (ungrouped digits).isEmpty then none
  else (ungrouped digits).foldlM (fun total digit =>
    (hexDigit? digit).bind fun worth =>
      if worth < base then some (total * base + worth) else none) 0

/-- A whole number without its sign. A leading zero announces base eight, `0b`
base two and `0x` base sixteen. -/
def unsignedWhole? : List Char → Option Nat
  | ['0'] => some 0
  | '0' :: 'b' :: digits => wholeInBase? 2 digits
  | '0' :: 'x' :: digits => wholeInBase? 16 digits
  | '0' :: digits => wholeInBase? 8 ('0' :: digits)
  | first :: digits =>
      if first.isDigit then wholeInBase? 10 (first :: digits) else none
  | [] => none

/-- Whether digits write a count of minutes or seconds. -/
def isSixtieth : List Char → Bool
  | [only] => only.isDigit
  | [tens, ones] => '0' ≤ tens && tens ≤ '5' && ones.isDigit
  | _ => false

/-- The number that parts between colons write in base sixty: the first part
is any count, the others are minutes and seconds. -/
def wholeInSixties? (parts : List (List Char)) : Option Nat :=
  match parts with
  | first :: second :: others =>
      if (second :: others).all isSixtieth then
        some ((second :: others).foldl
          (fun total part => total * 60 + Number.natOfDigits part)
          (Number.natOfDigits (ungrouped first)))
      else none
  | _ => none

/-- A whole number in base sixty without its sign; it starts with a digit from
one to nine. -/
def unsignedSixties? (word : List Char) : Option Nat :=
  match Text.parts ':' word with
  | (lead :: digits) :: others =>
      if lead.isDigit && lead != '0' && digits.all isDigitOrBreak then
        wholeInSixties? ((lead :: digits) :: others)
      else none
  | _ => none

/-- The whole number that a word stands for. -/
def whole? (word : List Char) : Option Int :=
  let (negative, body) := Number.splitSign word
  (unsignedWhole? body <|> unsignedSixties? body).map fun size =>
    if negative then -size else size

/-! ## Decimals -/

/-- Whether an exponent is written out: `e`, a sign and digits. Nothing at all
will do as well. -/
def isPower : List Char → Bool
  | [] => true
  | mark :: sign :: digits =>
      (mark == 'e' || mark == 'E') && (sign == '-' || sign == '+') &&
        !digits.isEmpty && digits.all Char.isDigit
  | _ => false

/-- Whether a word is a decimal: a point, and a digit before it; or a point
first, no sign, and a digit after it. -/
def isDecimal (word : List Char) : Bool :=
  let (signed, body) :=
    match word with
    | '-' :: rest => (true, rest)
    | '+' :: rest => (true, rest)
    | _ => (false, word)
  match body with
  | '.' :: first :: rest =>
      !signed && first.isDigit && isPower (rest.dropWhile isDigitOrBreak)
  | first :: rest =>
      first.isDigit &&
        match rest.dropWhile isDigitOrBreak with
        | '.' :: fraction => isPower (fraction.dropWhile isDigitOrBreak)
        | _ => false
  | [] => false

def infinityWords : List String := [".inf", ".Inf", ".INF"]

/-- The words for no number. -/
def nanWords : List String := [".nan", ".NaN", ".NAN"]

/-- The sum of a number of seconds and of sixties of a greater unit, which is
given as whole parts, the least one first. -/
def addSixties (seconds : Float) (greater : List (List Char)) : Float :=
  (greater.foldl (fun (total, unit) part =>
    (total + Number.nearestFloat (Number.natOfDigits (ungrouped part)) 0 * unit,
      unit * 60)) (seconds, (60 : Float))).1

/-- A decimal in base sixty without its sign: parts between colons, of which
the last one ends with a point and perhaps further digits. -/
def realInSixties? (word : List Char) : Option Float :=
  let (before, after) := word.span (· != '.')
  match after, Text.parts ':' before with
  | '.' :: fraction, (lead :: digits) :: second :: others =>
      if lead.isDigit && digits.all isDigitOrBreak &&
          (second :: others).all isSixtieth &&
          fraction.all isDigitOrBreak then
        match (second :: others).reverse with
        | last :: middle =>
            let seconds : Number.DecimalParts :=
              ⟨last, some (ungrouped fraction), none⟩
            some (addSixties seconds.toFloat (middle ++ [lead :: digits]))
        | [] => none
      else none
  | _, _ => none

/-- The double that a word stands for. -/
def real? (word : List Char) : Option Float :=
  let (negative, body) := Number.splitSign word
  if infinityWords.contains (String.ofList body) then
    some (Number.negateIf negative (Float.ofBits 0x7ff0000000000000))
  else if nanWords.contains (String.ofList word) then
    some (Float.ofBits 0x7ff8000000000000)
  else if isDecimal word then Number.realOfChars? (ungrouped word)
  else (realInSixties? body).map (Number.negateIf negative)

/-! ## Words -/

/-- What an unquoted word stands for. -/
def resolve (word : List Char) : Value :=
  let text := String.ofList word
  if nullWords.contains text then .null
  else if trueWords.contains text then .bool true
  else if falseWords.contains text then .bool false
  else
    match whole? word, real? word with
    | some n, _ => .int n
    | none, some x => .float x
    | none, none => .str text

end DesignTokens.Document.Yaml
