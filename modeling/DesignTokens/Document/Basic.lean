import DesignTokens.Number.Numeral
import DesignTokens.Number.Reading
import DesignTokens.Value.Pairs

/-!
# Reading documents

A reader takes a thing off the front of a text and leaves the rest. Collections
between brackets are read in one way, whatever their items are.
-/

namespace DesignTokens.Document

/-- Why a text cannot be read as a document. -/
inductive Flaw where
  /-- The text breaks the rules of its notation. -/
  | malformed
  /-- A whole number has more digits than are read. -/
  | tooManyDigits
  deriving DecidableEq, Repr

/-- What a reader takes off the front of a text, and the rest of it. -/
abbrev Reader (alpha : Type) := List Char → Except Flaw (alpha × List Char)

/-- The refusal of a text that breaks the rules of its notation. -/
def malformed {alpha : Type} : Except Flaw alpha :=
  .error .malformed

/-- A part that has to be there. -/
def needed {alpha : Type} : Option alpha → Except Flaw alpha
  | some part => .ok part
  | none => malformed

/-- The whole number that decimal digits write. -/
def wholeOfDigits (negative : Bool) (digits : List Char) :
    Except Flaw Value :=
  if Number.digitLimit < digits.length then .error .tooManyDigits
  else
    let size : Int := Number.natOfDigits digits
    .ok (.int (if negative then -size else size))

/-- What follows a word at the front of a text. -/
def after? : List Char → List Char → Option (List Char)
  | [], text => some text
  | _, [] => none
  | expected :: word, character :: text =>
      if expected = character then after? word text else none

/-- The meaning of the first of the named words that is at the front of a
text, and what follows it. -/
def firstWord? {alpha : Type} (words : List (String × alpha))
    (text : List Char) : Option (alpha × List Char) :=
  words.findSome? fun (word, meaning) =>
    (after? word.toList text).map (meaning, ·)

/-! ## Collections between brackets -/

/-- How the items of a collection are set out: what may stand around an item,
the closing bracket, and whether a comma may follow the last item. -/
structure Enclosure where
  skip : List Char → List Char
  closing : Char
  trailing : Bool

namespace Enclosure

variable {alpha : Type}

/-- What follows the closing bracket, if that comes next. -/
def closed? (enclosure : Enclosure) (text : List Char) :
    Option (List Char) :=
  match enclosure.skip text with
  | character :: rest =>
      if character = enclosure.closing then some rest else none
  | [] => none

/-- One or more items and the closing bracket; `budget` bounds their
number. -/
def someItems (enclosure : Enclosure) (item : Reader alpha) :
    Nat → Reader (List alpha)
  | 0, _ => malformed
  | budget + 1, text => do
      let (first, rest) ← item (enclosure.skip text)
      match enclosure.closed? rest with
      | some remaining => return ([first], remaining)
      | none =>
          match enclosure.skip rest with
          | ',' :: afterComma =>
              match enclosure.closed? afterComma with
              | some remaining =>
                  if enclosure.trailing then return ([first], remaining)
                  else malformed
              | none => do
                  let (others, remaining) ←
                    someItems enclosure item budget afterComma
                  return (first :: others, remaining)
          | _ => malformed

/-- The items that follow an opening bracket, up to the closing one. -/
def items (enclosure : Enclosure) (item : Reader alpha) :
    Reader (List alpha) := fun text =>
  match enclosure.closed? text with
  | some rest => .ok ([], rest)
  | none => enclosure.someItems item (text.length + 1) text

end Enclosure

/-! ## Characters written by number -/

/-- The number that a hexadecimal digit stands for. -/
def hexDigit? (character : Char) : Option Nat :=
  let code := character.toNat
  if character.isDigit then some (code - 48)
  else if 'a' ≤ character ∧ character ≤ 'f' then some (code - 87)
  else if 'A' ≤ character ∧ character ≤ 'F' then some (code - 55)
  else none

/-- The number that hexadecimal digits stand for. -/
def hexNumber? (digits : List Char) : Option Nat :=
  digits.foldlM (fun total digit =>
    (hexDigit? digit).map (total * 16 + ·)) 0

/-- The character of a code point, unless there is none. -/
def character? (code : Nat) : Option Char :=
  if code.isValidChar then some (Char.ofNat code) else none

end DesignTokens.Document
