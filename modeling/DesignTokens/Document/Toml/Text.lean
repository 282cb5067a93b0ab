import DesignTokens.Document.Basic

/-!
# Texts of TOML documents

Texts stand between quotation marks, where they may have escapes, or between
apostrophes, where they have none. Between three marks they may run over
several lines.
-/

namespace DesignTokens.Document.Toml

/-! ## Characters -/

/-- A text without the spaces and tabs at its front. -/
def skipSpaces (text : List Char) : List Char :=
  text.dropWhile fun character => character == ' ' || character == '\t'

/-- Whether a character may stand in a text or a comment. -/
def isPlainCharacter (character : Char) : Bool :=
  character == '\t' || (0x20 ≤ character.toNat && character.toNat != 0x7f)

/-! ## Texts on one line -/

/-- What the character after a backslash stands for. -/
def escapes : List (Char × Char) :=
  [('b', '\x08'), ('t', '\t'), ('n', '\n'), ('f', '\x0c'), ('r', '\r'),
    ('"', '"'), ('\\', '\\')]

/-- The character that an escape stands for, after its backslash. -/
def escaped : Reader Char
  | 'u' :: first :: second :: third :: fourth :: rest => do
      let character ←
        needed ((hexNumber? [first, second, third, fourth]).bind character?)
      return (character, rest)
  | 'U' :: rest => do
      let digits := rest.take 8
      let character ← needed ((hexNumber? digits).bind character?)
      if digits.length = 8 then return (character, rest.drop 8)
      else malformed
  | mark :: rest => do
      let character ← needed (escapes.lookup mark)
      return (character, rest)
  | [] => malformed

/-- The characters up to a closing quotation mark, of which `budget` bounds
the number. -/
def basicCharacters : Nat → Reader (List Char)
  | 0, _ => malformed
  | _, [] => malformed
  | _, '"' :: rest => .ok ([], rest)
  | budget + 1, '\\' :: rest => do
      let (character, next) ← escaped rest
      let (text, remaining) ← basicCharacters budget next
      return (character :: text, remaining)
  | budget + 1, character :: rest =>
      if !isPlainCharacter character then malformed
      else do
        let (text, remaining) ← basicCharacters budget rest
        return (character :: text, remaining)

/-- A text after its opening quotation mark. -/
def basicText : Reader (List Char) := fun text =>
  basicCharacters (text.length + 1) text

/-- A text after its opening apostrophe; it has no escapes. -/
def literalText : Reader (List Char)
  | '\'' :: rest => .ok ([], rest)
  | character :: rest =>
      if !isPlainCharacter character then malformed
      else do
        let (text, remaining) ← literalText rest
        return (character :: text, remaining)
  | [] => malformed

/-! ## Texts over several lines -/

/-- Whether a character may stand in a text over several lines. -/
def isBlockCharacter (character : Char) : Bool :=
  character == '\n' || isPlainCharacter character

/-- What follows a backslash at the end of a line: spaces and line breaks are
passed over up to the next other character. None where the line goes on. -/
def afterJoint? (text : List Char) : Option (List Char) :=
  match skipSpaces text with
  | '\n' :: rest =>
      some (rest.dropWhile fun character =>
        character == ' ' || character == '\t' || character == '\n')
  | [] => some []
  | _ => none

/-- Marks that stand before the three that close a text belong to it, at most
two of them. -/
def closing (mark : Char) : List Char → List Char × List Char
  | first :: second :: rest =>
      if first = mark ∧ second = mark then ([mark, mark], rest)
      else if first = mark then ([mark], second :: rest)
      else ([], first :: second :: rest)
  | [first] => if first = mark then ([mark], []) else ([], [first])
  | [] => ([], [])

/-- The characters up to three closing quotation marks, of which `budget`
bounds the number. -/
def basicBlock : Nat → Reader (List Char)
  | 0, _ => malformed
  | _, [] => malformed
  | _, '"' :: '"' :: '"' :: rest => .ok (closing '"' rest)
  | budget + 1, '\\' :: rest => do
      let next := rest.head?.getD '"'
      if next == ' ' || next == '\t' || next == '\n' then
        basicBlock budget (← needed (afterJoint? rest))
      else
        let (character, after) ← escaped rest
        let (text, remaining) ← basicBlock budget after
        return (character :: text, remaining)
  | budget + 1, character :: rest =>
      if !isBlockCharacter character then malformed
      else do
        let (text, remaining) ← basicBlock budget rest
        return (character :: text, remaining)

/-- The characters up to three closing apostrophes. -/
def literalBlock : Reader (List Char)
  | '\'' :: '\'' :: '\'' :: rest => .ok (closing '\'' rest)
  | character :: rest =>
      if !isBlockCharacter character then malformed
      else do
        let (text, remaining) ← literalBlock rest
        return (character :: text, remaining)
  | [] => malformed

/-- A text without the line break at its front. -/
def dropBreak : List Char → List Char
  | '\n' :: rest => rest
  | text => text

/-- A text with its opening marks, if one comes next. -/
def text? : List Char → Option (Except Flaw (List Char × List Char))
  | '"' :: '"' :: '"' :: rest =>
      some (basicBlock (rest.length + 1) (dropBreak rest))
  | '\'' :: '\'' :: '\'' :: rest => some (literalBlock (dropBreak rest))
  | '"' :: rest => some (basicText rest)
  | '\'' :: rest => some (literalText rest)
  | _ => none

end DesignTokens.Document.Toml
