import DesignTokens.Document.Yaml.Scalar

/-!
# Values within a line

Quoted texts, unquoted words and bracketed collections of a YAML document.
-/

namespace DesignTokens.Document.Yaml

/-! ## Blanks -/

/-- Whether a character breaks a line. -/
def isBreak (character : Char) : Bool :=
  character == '\n' || character == '\u2028' || character == '\u2029'

/-- A text without the spaces, line breaks and comments at its front. -/
def skipGaps (inComment : Bool) : List Char → List Char
  | [] => []
  | character :: rest =>
      if isBreak character then skipGaps false rest
      else if inComment then skipGaps true rest
      else if character = ' ' then skipGaps false rest
      else if character = '#' then skipGaps true rest
      else character :: rest

/-- A text without the spaces at its end. -/
def trimEnd (text : List Char) : List Char :=
  (text.reverse.dropWhile (· == ' ')).reverse

/-- Whether a blank, a line break or the end of the text comes next. -/
def startsBlank : List Char → Bool
  | [] => true
  | character :: _ =>
      character == ' ' || character == '\t' || isBreak character

/-- What joins the lines of a text that is broken: a single line feed is a
space, and any other break stays, as do those that come after the first. -/
def joint : List Char → List Char
  | [] => []
  | ['\n'] => [' ']
  | '\n' :: further => further
  | breaks => breaks

/-! ## Quoted texts -/

/-- Whether a character is a space or a tab. -/
def isSpace (character : Char) : Bool :=
  character == ' ' || character == '\t'

/-- The lines of a quoted text as one: blanks around line breaks are dropped,
and the breaks between two lines are joined. `breaks` holds those before the
text, last one first, and `spaces` the blanks, last one first. -/
def foldFrom (breaks spaces : List Char) : List Char → List Char
  | [] =>
      if breaks.isEmpty then spaces.reverse else joint breaks.reverse
  | character :: rest =>
      if isBreak character then foldFrom (character :: breaks) [] rest
      else if isSpace character then
        foldFrom breaks (character :: spaces) rest
      else
        let gap :=
          if breaks.isEmpty then spaces.reverse else joint breaks.reverse
        gap ++ character :: foldFrom [] [] rest

/-- The lines of a quoted text as one. -/
def foldBreaks (text : List Char) : List Char :=
  foldFrom [] [] text

/-- A text after its opening apostrophe; an apostrophe inside is written
twice. -/
def singleQuoted : Reader (List Char)
  | '\'' :: '\'' :: rest =>
      (singleQuoted rest).map fun (text, remaining) =>
        ('\'' :: text, remaining)
  | '\'' :: rest => .ok ([], rest)
  | character :: rest =>
      (singleQuoted rest).map fun (text, remaining) =>
        (character :: text, remaining)
  | [] => malformed

/-- A text after its opening quotation mark, its escapes as they are
written. -/
def doubleQuoted : Reader (List Char)
  | '"' :: rest => .ok ([], rest)
  | '\\' :: mark :: rest =>
      (doubleQuoted rest).map fun (text, remaining) =>
        ('\\' :: mark :: text, remaining)
  | character :: rest =>
      (doubleQuoted rest).map fun (text, remaining) =>
        (character :: text, remaining)
  | [] => malformed

/-- What the character after a backslash stands for. -/
def escapes : List (Char × Char) :=
  [('0', '\x00'), ('a', '\x07'), ('b', '\x08'), ('t', '\t'), ('\t', '\t'),
    ('n', '\n'), ('v', '\x0b'), ('f', '\x0c'), ('r', '\r'), ('e', '\x1b'),
    (' ', ' '), ('"', '"'), ('\\', '\\'), ('/', '/'), ('N', '\u0085'),
    ('_', '\u00a0'), ('L', '\u2028'), ('P', '\u2029')]

/-- A text with its escapes read; none where one is unknown. -/
def unescaped : List Char → Option (List Char)
  | [] => some []
  | '\\' :: 'x' :: first :: second :: rest => do
      let character ← (hexNumber? [first, second]).bind character?
      (unescaped rest).map (character :: ·)
  | '\\' :: 'u' :: first :: second :: third :: fourth :: rest => do
      let character ←
        (hexNumber? [first, second, third, fourth]).bind character?
      (unescaped rest).map (character :: ·)
  | '\\' :: 'U' :: first :: second :: third :: fourth :: fifth :: sixth ::
      seventh :: eighth :: rest => do
      let digits :=
        [first, second, third, fourth, fifth, sixth, seventh, eighth]
      let character ← (hexNumber? digits).bind character?
      (unescaped rest).map (character :: ·)
  | '\\' :: mark :: rest => do
      let character ← escapes.lookup mark
      (unescaped rest).map (character :: ·)
  | character :: rest => (unescaped rest).map (character :: ·)

/-- A quoted text, with its opening mark. -/
def quotedText : Reader Value
  | '"' :: rest => do
      let (written, remaining) ← doubleQuoted rest
      let text ← needed (unescaped (foldBreaks written))
      return (.str (String.ofList text), remaining)
  | '\'' :: rest =>
      (singleQuoted rest).map fun (text, remaining) =>
        (.str (String.ofList (foldBreaks text)), remaining)
  | _ => malformed

/-! ## Unquoted words -/

/-- Whether a character delimits words between brackets. -/
def isFlowMark (character : Char) : Bool :=
  [',', '[', ']', '{', '}'].contains character

/-- Whether a colon at the front of a text ends the word before it. -/
def endsAtColon (bracketed : Bool) (afterColon : List Char) : Bool :=
  startsBlank afterColon ||
    (bracketed && (afterColon.head?.map isFlowMark).getD false)

/-- The part of an unquoted word that stands on one line: up to a colon that
ends it, a tab, a comment, or between brackets a mark. `afterSpace` tells
whether a space came before. -/
def wordLine (bracketed afterSpace : Bool) :
    List Char → List Char × List Char
  | [] => ([], [])
  | character :: rest =>
      let ends :=
        isBreak character || character == '\t' ||
          (character == ':' && endsAtColon bracketed rest) ||
          (character == '#' && afterSpace) ||
          (bracketed && (character == '?' || isFlowMark character))
      if ends then ([], character :: rest)
      else
        let (word, remaining) := wordLine bracketed (character == ' ') rest
        (character :: word, remaining)

/-- Whether an unquoted word may start here. -/
def startsWord (bracketed : Bool) : List Char → Bool
  | [] => false
  | first :: rest =>
      let blankAfter := startsBlank rest
      if first == '-' then !blankAfter
      else if first == '?' || first == ':' then !blankAfter && !bracketed
      else !"\t,[]\x7b\x7d#&*!|>'\"%@`".toList.contains first

/-- The gap between two lines of a word: the line breaks, last one first, the
column at which the next line starts, and what follows. -/
def lineGap (breaks : List Char) (column : Nat) :
    List Char → List Char × Nat × List Char
  | [] => (breaks, column, [])
  | character :: rest =>
      if isBreak character then lineGap (character :: breaks) 0 rest
      else if character = ' ' then lineGap breaks (column + 1) rest
      else (breaks, column, character :: rest)

/-- Whether a line marks the end of a document. -/
def startsMarker (column : Nat) (text : List Char) : Bool :=
  column == 0 && startsBlank (text.drop 3) &&
    (text.take 3 == ['-', '-', '-'] || text.take 3 == ['.', '.', '.'])

/-- The lines of a word after its first one: those that start at column
`least` or further right. `budget` bounds their number. -/
def moreLines (bracketed : Bool) (least : Nat) :
    Nat → List Char → List Char × List Char
  | 0, text => ([], text)
  | budget + 1, text =>
      let (breaks, column, next) := lineGap [] 0 text
      if breaks.isEmpty || column < least || next.head? == some '#' ||
          startsMarker column next then ([], text)
      else
        match wordLine bracketed true next with
        | ([], _) => ([], text)
        | (line, rest) =>
            let (others, remaining) := moreLines bracketed least budget rest
            (joint breaks.reverse ++ trimEnd line ++ others, remaining)

/-- An unquoted word, which may run on over further lines. -/
def word (bracketed : Bool) (least : Nat) : Reader Value := fun text =>
  if startsWord bracketed text then
    let (line, rest) := wordLine bracketed false text
    let (others, remaining) :=
      moreLines bracketed least text.length rest
    .ok (resolve (trimEnd line ++ others), remaining)
  else malformed

/-! ## Bracketed collections -/

/-- How bracketed lists are set out. -/
def listEnclosure : Enclosure := ⟨skipGaps false, ']', true⟩

/-- How bracketed mappings are set out. -/
def mapEnclosure : Enclosure := ⟨skipGaps false, '}', true⟩

/-- Whether no value comes next between brackets. -/
def startsNothing (text : List Char) : Bool :=
  match text with
  | [] => true
  | first :: _ => first == ',' || first == ']' || first == '}'

/-- The value after a colon between brackets; nothing is null. -/
def valueAfterColon (value : Reader Value) : Reader Value := fun text =>
  let next := skipGaps false text
  if startsNothing next then .ok (.null, text) else value next

/-- An entry of a bracketed mapping; its value may be missing. -/
def entry (value : Reader Value) : Reader (Value × Value) := fun text => do
  let (key, rest) ← value text
  if !key.isKey then malformed
  else
    match skipGaps false rest with
    | ':' :: afterColon => do
        let (held, remaining) ← valueAfterColon value afterColon
        return ((key, held), remaining)
    | _ => return ((key, .null), rest)

/-- An item of a bracketed list; an entry is a mapping of its own. -/
def item (value : Reader Value) : Reader Value := fun text => do
  let (first, rest) ← value text
  match skipGaps false rest with
  | ':' :: afterColon =>
      if !first.isKey then malformed
      else do
        let (held, remaining) ← valueAfterColon value afterColon
        return (.map [(first, held)], remaining)
  | _ => return (first, rest)

/-- A bracketed collection, a quoted text or a word, nested at most `depth`
deep. Words run on over lines that start at column `least` or further
right. -/
def inlineValue (bracketed : Bool) (least : Nat) : Nat → Reader Value
  | 0, _ => malformed
  | depth + 1, text =>
      let inner := inlineValue true 0 depth
      match text with
      | '[' :: rest =>
          (listEnclosure.items (item inner) rest).map
            fun (held, remaining) => (.list held, remaining)
      | '{' :: rest =>
          (mapEnclosure.items (entry inner) rest).map
            fun (held, remaining) =>
              (.map (Entries.ofList held), remaining)
      | '"' :: _ => quotedText text
      | '\'' :: _ => quotedText text
      | _ => word bracketed least text

end DesignTokens.Document.Yaml
