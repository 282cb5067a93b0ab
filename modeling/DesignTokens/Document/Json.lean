import DesignTokens.Document.Basic

/-!
# JSON documents

The notation of JSON, in which also `NaN`, `Infinity` and `-Infinity` are
numbers. A number with a point or an exponent is a double, any other is whole.
Where a key is repeated, the last value stands in the first one's place.
-/

namespace DesignTokens.Document.Json

/-- A text without the white space at its front. -/
def skipBlanks (text : List Char) : List Char :=
  text.dropWhile fun character =>
    character == ' ' || character == '\t' || character == '\n' ||
      character == '\r'

/-! ## Texts -/

/-- What the character after a backslash stands for. -/
def escapes : List (Char × Nat) :=
  [('"', 0x22), ('\\', 0x5c), ('/', 0x2f), ('b', 8), ('f', 12), ('n', 10),
    ('r', 13), ('t', 9)]

/-- The units of a text up to its closing quote: the code of each character,
and the number of each escape. -/
def units : Reader (List Nat)
  | [] => malformed
  | '"' :: rest => .ok ([], rest)
  | '\\' :: 'u' :: first :: second :: third :: fourth :: rest => do
      let unit ← needed (hexNumber? [first, second, third, fourth])
      let (others, remaining) ← units rest
      return (unit :: others, remaining)
  | '\\' :: mark :: rest => do
      let unit ← needed (escapes.lookup mark)
      let (others, remaining) ← units rest
      return (unit :: others, remaining)
  | character :: rest =>
      if character.toNat < 0x20 then malformed
      else do
        let (others, remaining) ← units rest
        return (character.toNat :: others, remaining)

/-- The character of a single unit; half of a pair is replaced. -/
def lone (unit : Nat) : Char :=
  (character? unit).getD '\ufffd'

/-- The characters that units stand for: a high half and the low half after it
are one character. -/
def joinHalves : List Nat → List Char
  | [] => []
  | [unit] => [lone unit]
  | high :: low :: rest =>
      if 0xd800 ≤ high ∧ high < 0xdc00 ∧ 0xdc00 ≤ low ∧ low < 0xe000 then
        Char.ofNat (0x10000 + (high - 0xd800) * 0x400 + (low - 0xdc00)) ::
          joinHalves rest
      else lone high :: joinHalves (low :: rest)

/-- A text after its opening quote. -/
def quotedText : Reader String := fun text =>
  (units text).map fun (found, rest) =>
    (String.ofList (joinHalves found), rest)

/-! ## Values -/

/-- The values that are written as words. -/
def words : List (String × Value) :=
  [("null", .null), ("true", .bool true), ("false", .bool false),
    ("NaN", .float (Float.ofBits 0x7ff8000000000000)),
    ("Infinity", .float (Float.ofBits 0x7ff0000000000000)),
    ("-Infinity", .float (Float.ofBits 0xfff0000000000000))]

/-- A number without its sign. -/
def unsigned (negative : Bool) : Reader Value := fun text =>
  let (parts, rest) := Number.splitDecimal text
  if !parts.isStrict then malformed
  else if parts.isWhole then
    (wholeOfDigits negative parts.whole).map (·, rest)
  else .ok (.float (Number.negateIf negative parts.toFloat), rest)

/-- A number with an optional minus. -/
def number : Reader Value
  | '-' :: rest => unsigned true rest
  | text => unsigned false text

/-- How lists are set out. -/
def listEnclosure : Enclosure := ⟨skipBlanks, ']', false⟩

/-- How mappings are set out. -/
def mapEnclosure : Enclosure := ⟨skipBlanks, '}', false⟩

/-- An entry of a mapping: a text, a colon and a value. -/
def entry (value : Reader Value) : Reader (Value × Value)
  | '"' :: text => do
      let (key, rest) ← quotedText text
      match skipBlanks rest with
      | ':' :: afterColon => do
          let (held, remaining) ← value (skipBlanks afterColon)
          return ((.str key, held), remaining)
      | _ => malformed
  | _ => malformed

/-- A value nested at most `depth` deep. -/
def value : Nat → Reader Value
  | 0, _ => malformed
  | depth + 1, text =>
      match text with
      | '"' :: rest =>
          (quotedText rest).map fun (held, remaining) =>
            (.str held, remaining)
      | '[' :: rest =>
          (listEnclosure.items (value depth) rest).map
            fun (held, remaining) => (.list held, remaining)
      | '{' :: rest =>
          (mapEnclosure.items (entry (value depth)) rest).map
            fun (held, remaining) =>
              (.map (Entries.ofList held), remaining)
      | _ =>
          match firstWord? words text with
          | some found => .ok found
          | none => number text

/-- The value of a document. -/
def read (text : List Char) : Except Flaw Value := do
  let (held, rest) ← value (text.length + 1) (skipBlanks text)
  if (skipBlanks rest).isEmpty then return held else malformed

end DesignTokens.Document.Json
