import DesignTokens.Document.Toml.Text

/-!
# Words of TOML documents

Comments, numbers, flags and keys.
-/

namespace DesignTokens.Document.Toml

/-! ## Comments -/

/-- A text without the comment at its front, up to the end of the line. -/
def skipComment? (text : List Char) : Option (List Char) :=
  match text with
  | '#' :: rest =>
      let (comment, remaining) := rest.span (· != '\n')
      if comment.all isPlainCharacter then some remaining else none
  | _ => some text

/-- What follows the end of a line; only a comment may stand before it. -/
def afterLine? (text : List Char) : Option (List Char) := do
  match ← skipComment? (skipSpaces text) with
  | [] => some []
  | '\n' :: rest => some rest
  | _ => none

/-- A text without the spaces, line breaks and comments at its front, of which
`budget` bounds the number. A comment that is out of order stays. -/
def skipGapsWithin : Nat → List Char → List Char
  | 0, text => text
  | budget + 1, text =>
      match skipSpaces text with
      | '\n' :: rest => skipGapsWithin budget rest
      | '#' :: comment =>
          match skipComment? ('#' :: comment) with
          | some rest => skipGapsWithin budget rest
          | none => '#' :: comment
      | rest => rest

/-- A text without the spaces, line breaks and comments at its front. -/
def skipGaps (text : List Char) : List Char :=
  skipGapsWithin (text.length + 1) text

/-! ## Numbers and flags -/

/-- The values that are written as words. -/
def words : List (String × Value) :=
  let infinity := Float.ofBits 0x7ff0000000000000
  let nan := Float.ofBits 0x7ff8000000000000
  [("true", .bool true), ("false", .bool false), ("inf", .float infinity),
    ("+inf", .float infinity), ("-inf", .float (-infinity)),
    ("nan", .float nan), ("+nan", .float nan), ("-nan", .float nan)]

/-- The characters of a word whose underscores are left out; each underscore
stands between two digits. `afterDigit` tells whether a digit came before. -/
def ungrouped? (isDigit : Char → Bool) (afterDigit : Bool) :
    List Char → Option (List Char)
  | [] => some []
  | ['_'] => none
  | '_' :: next :: rest =>
      if afterDigit && isDigit next then
        (ungrouped? isDigit true rest).map (next :: ·)
      else none
  | character :: rest =>
      (ungrouped? isDigit (isDigit character) rest).map (character :: ·)

/-- The number that digits of a base stand for; there is at least one. -/
def wholeInBase? (base : Nat) (digits : List Char) : Option Nat :=
  let worth? (digit : Char) := (hexDigit? digit).filter (· < base)
  match ungrouped? (fun digit => (worth? digit).isSome) false digits with
  | none | some [] => none
  | some known => known.foldlM (fun total digit =>
      (worth? digit).map (total * base + ·)) 0

/-- A decimal number: whole, or with a point or an exponent. -/
def decimal (word : List Char) : Except Flaw Value := do
  let (negative, body) := Number.splitSign word
  match Number.splitDecimal (← needed (ungrouped? Char.isDigit false body)) with
  | (parts, []) =>
      if !parts.isStrict then malformed
      else if parts.isWhole then wholeOfDigits negative parts.whole
      else return .float (Number.negateIf negative parts.toFloat)
  | _ => malformed

/-- The whole number that digits of another base than ten write. -/
def inBase (base : Nat) (digits : List Char) : Except Flaw Value :=
  (needed (wholeInBase? base digits)).map fun n => .int n

/-- The number that a word stands for. -/
def numberOf : List Char → Except Flaw Value
  | '0' :: 'x' :: digits => inBase 16 digits
  | '0' :: 'o' :: digits => inBase 8 digits
  | '0' :: 'b' :: digits => inBase 2 digits
  | word => decimal word

/-- Whether a character may stand in a number. -/
def isNumberCharacter (character : Char) : Bool :=
  character.isAlphanum || "+-._".toList.contains character

def number : Reader Value := fun text =>
  let (word, rest) := text.span isNumberCharacter
  (numberOf word).map (·, rest)

/-! ## Keys -/

/-- Whether a character may stand in a key without quotes. -/
def isKeyCharacter (character : Char) : Bool :=
  character.isAlphanum || character == '_' || character == '-'

/-- One part of a key: bare or quoted. -/
def keyPart : Reader String := fun text =>
  match text with
  | '"' :: rest =>
      (basicText rest).map fun (part, remaining) =>
        (String.ofList part, remaining)
  | '\'' :: rest =>
      (literalText rest).map fun (part, remaining) =>
        (String.ofList part, remaining)
  | _ =>
      match text.span isKeyCharacter with
      | ([], _) => malformed
      | (part, remaining) => .ok (String.ofList part, remaining)

/-- A key: parts with points between them. Spaces after it are passed over;
`budget` bounds the number of further parts. -/
def keyParts : Nat → Reader (List String)
  | 0, _ => malformed
  | budget + 1, text => do
      let (part, rest) ← keyPart text
      match skipSpaces rest with
      | '.' :: afterPoint => do
          let (others, remaining) ← keyParts budget (skipSpaces afterPoint)
          return (part :: others, remaining)
      | remaining => return ([part], remaining)

def key : Reader (List String) := fun text =>
  keyParts (text.length + 1) text

end DesignTokens.Document.Toml
