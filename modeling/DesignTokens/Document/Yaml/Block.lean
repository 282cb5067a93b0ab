import DesignTokens.Document.Yaml.Inline

/-!
# YAML documents

Mappings and lists that are set out by indentation. A line belongs to the
nearest collection that starts further left; an entry or item that stands at
the column of its collection continues it.
-/

namespace DesignTokens.Document.Yaml

/-! ## Places -/

/-- Where the next content of a document stands: its column, whether a
collection may start there, and the text from there on. Only the column of a
place where a collection may start is exact. -/
structure Place where
  column : Nat
  fresh : Bool
  text : List Char

namespace Place

/-- The next content of a text: blanks, line breaks and comments are passed
over. -/
def find (column : Nat) (fresh inComment : Bool) : List Char → Place
  | [] => ⟨column, fresh, []⟩
  | character :: rest =>
      if isBreak character then find 0 true false rest
      else if inComment then find column fresh true rest
      else if character = ' ' then find (column + 1) fresh false rest
      else if character = '#' then find column fresh true rest
      else ⟨column, fresh, character :: rest⟩

/-- The content of the lines after a value; nothing but a comment may follow
the value on its own line. -/
def afterValue (text : List Char) : Except Flaw Place :=
  let place := find 0 false false text
  if place.fresh || place.text.isEmpty then .ok place else malformed

/-- Whether there is content at a column or further right; the marker between
two documents is none. -/
def isBeyond (place : Place) (column : Nat) : Bool :=
  !place.text.isEmpty && column ≤ place.column &&
    !startsMarker place.column place.text

/-- Whether an item of a list starts here. -/
def startsItem (place : Place) : Bool :=
  match place.text with
  | '-' :: rest => place.fresh && startsBlank rest
  | _ => false

end Place

/-! ## Keys -/

/-- A key on one line: a quoted text or a word. -/
def keyText : Reader Value := fun text =>
  match text with
  | '"' :: _ => quotedText text
  | '\'' :: _ => quotedText text
  | _ =>
      if startsWord false text then
        let (line, rest) := wordLine false false text
        .ok (resolve (trimEnd line), rest)
      else malformed

/-- A key, its colon and what follows. -/
def key : Reader Value := fun text => do
  let (name, rest) ← keyText text
  match rest.dropWhile (· == ' ') with
  | ':' :: afterColon =>
      if startsBlank afterColon then return (name, afterColon) else malformed
  | _ => malformed

/-- Whether a key and its colon come next. -/
def startsEntry (text : List Char) : Bool :=
  (key text).isOk

/-! ## Collections -/

mutual

/-- The value at a place, if that is at column `least` or further right;
otherwise null. A collection starts only where the place allows it. -/
def node (least : Nat) : Nat → Place → Except Flaw (Value × Place)
  | 0, _ => malformed
  | depth + 1, place =>
      if !place.isBeyond least then .ok (.null, place)
      else if place.startsItem then
        (listItems place.column depth place).map
          fun (held, next) => (.list held, next)
      else if place.fresh && startsEntry place.text then
        (mapEntries place.column depth place).map
          fun (held, next) => (.map (Entries.ofList held), next)
      else do
        let (held, rest) ←
          inlineValue false least (place.text.length + 1) place.text
        (Place.afterValue rest).map (held, ·)

/-- The items of a list that starts at a column. -/
def listItems (column : Nat) :
    Nat → Place → Except Flaw (List Value × Place)
  | 0, _ => malformed
  | depth + 1, place =>
      if !place.isBeyond column then .ok ([], place)
      else if place.column ≠ column then malformed
      else if !place.startsItem then .ok ([], place)
      else do
        let content :=
          Place.find (column + 1) true false (place.text.drop 1)
        let (first, next) ← node (column + 1) depth content
        let (others, last) ← listItems column depth next
        return (first :: others, last)

/-- The entries of a mapping that starts at a column. A list under a key may
start at the column of the key. -/
def mapEntries (column : Nat) :
    Nat → Place → Except Flaw (List (Value × Value) × Place)
  | 0, _ => malformed
  | depth + 1, place =>
      if !place.isBeyond column then .ok ([], place)
      else if place.column ≠ column then malformed
      else do
        let (name, rest) ← key place.text
        let content := Place.find (column + 1) false false rest
        let least :=
          if content.startsItem then column else column + 1
        let (held, next) ← node least depth content
        let (others, last) ← mapEntries column depth next
        return ((name, held) :: others, last)

end

/-! ## Documents -/

/-- Whether a character may stand in a document. -/
def isPrintable (character : Char) : Bool :=
  let code := character.toNat
  code == 9 || code == 10 || code == 13 || (0x20 ≤ code && code ≤ 0x7e) ||
    code == 0x85 || (0xa0 ≤ code && code != 0xfffe && code != 0xffff)

/-- A place without the marker that starts a document. -/
def afterStart (place : Place) : Place :=
  if startsMarker place.column place.text &&
      place.text.take 1 == ['-'] then
    Place.find 3 false false (place.text.drop 3)
  else place

/-- Whether nothing follows a document but perhaps the marker of its end. -/
def isEnd (place : Place) : Bool :=
  place.text.isEmpty ||
    (startsMarker place.column place.text && place.text.take 1 == ['.'] &&
      (Place.find 0 false false (place.text.drop 3)).text.isEmpty)

mutual

/-- Whether a value holds a whole number of more digits than are read. -/
def exceedsDigits : Value → Bool
  | .int n => Number.tenTo Number.digitLimit ≤ n.natAbs
  | .list items => anyExceedsDigits items
  | .map entries => anyEntryExceedsDigits entries
  | _ => false

/-- `exceedsDigits` of any item. -/
def anyExceedsDigits : List Value → Bool
  | [] => false
  | item :: rest => exceedsDigits item || anyExceedsDigits rest

/-- `exceedsDigits` of any key or value. -/
def anyEntryExceedsDigits : List (Value × Value) → Bool
  | [] => false
  | (name, value) :: rest =>
      exceedsDigits name || exceedsDigits value || anyEntryExceedsDigits rest

end

/-- A value, unless it holds a whole number of too many digits. -/
def withinDigits (value : Value) : Except Flaw Value :=
  if exceedsDigits value then .error .tooManyDigits else .ok value

/-- The value of a document; an empty one is null. That a number is too long
is noticed once the whole document is read. -/
def read (text : List Char) : Except Flaw Value :=
  if !text.all isPrintable then malformed
  else
    let body := (if text.head? = some '\ufeff' then text.drop 1 else text).map
      fun character => if character = '\u0085' then '\n' else character
    let start := afterStart (Place.find 0 true false body)
    if isEnd start then .ok .null
    else do
      let (held, rest) ← node 0 (3 * body.length + 3) start
      if isEnd rest then withinDigits held else malformed

end DesignTokens.Document.Yaml
