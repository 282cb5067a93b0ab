import DesignTokens.Document.FileName
import DesignTokens.Document.Json
import DesignTokens.Document.Shorthand
import DesignTokens.Document.Toml.Read
import DesignTokens.Document.Yaml.Block
import DesignTokens.Text.Basic

/-!
# Design system files

A file is read by the suffix of its name. It holds a mapping of token
families, in which colours may be written in short.
-/

namespace DesignTokens.Document

/-! ## Formats -/

/-- The formats in which a design system may be written. -/
inductive Format where
  | yaml
  | json
  | toml
  deriving DecidableEq, Repr

namespace Format

/-- The suffixes of file names, with the formats they stand for. -/
def suffixes : List (String × Format) :=
  [(".yaml", .yaml), (".yml", .yaml), (".json", .json), (".toml", .toml)]

/-- The format that a suffix stands for, whatever the case of its letters. -/
def ofSuffix? (suffix : String) : Option Format :=
  suffixes.lookup (String.ofList (suffix.toList.map Char.toLower))

/-- The value that a text describes in a format. -/
def read : Format → List Char → Except Flaw Value
  | .yaml => Yaml.read
  | .json => Json.read
  | .toml => Toml.read

end Format

/-! ## Faults -/

/-- Why a file gives no design system. -/
inductive LoadFault where
  /-- No format has this suffix. -/
  | unknownSuffix (suffix : String)
  /-- There is no such file. -/
  | notFound (name : String)
  /-- The content is no text in UTF-8. -/
  | notText
  /-- The text is not in the format of the file. -/
  | malformed (name : String)
  /-- A number in the text has more digits than are read. -/
  | tooManyDigits
  /-- The document is no mapping. -/
  | notMapping (name : String)
  /-- A key of the document is no text. -/
  | keyNotText
  deriving DecidableEq, Repr

/-- The message of a fault, where it has one. -/
def LoadFault.message? : LoadFault → Option String
  | .unknownSuffix suffix =>
      some ("Unsupported design system file type '" ++ suffix ++
        "' (expected one of " ++
        String.intercalate ", " (Format.suffixes.map Prod.fst) ++ ")")
  | .notFound name => some ("Design system file not found: " ++ name)
  | .malformed name => some ("Failed to parse " ++ name)
  | .notMapping name =>
      some (name ++ " must contain a mapping of token families")
  | .notText => none
  | .tooManyDigits => none
  | .keyNotText => none

/-- The fault of a file whose text has a flaw. -/
def LoadFault.ofFlaw (name : String) : Flaw → LoadFault
  | .malformed => .malformed name
  | .tooManyDigits => .tooManyDigits

/-! ## Loading -/

/-- A text whose line breaks are all line feeds. -/
def unifyBreaks : List Char → List Char
  | [] => []
  | '\r' :: '\n' :: rest => '\n' :: unifyBreaks rest
  | '\r' :: rest => '\n' :: unifyBreaks rest
  | character :: rest => character :: unifyBreaks rest

/-- The text that octets encode. -/
def decode? (octets : List UInt8) : Option (List Char) :=
  (Text.decode? octets).map fun text => unifyBreaks text.toList

/-- The mapping that a value is, if all of its keys are texts. -/
def mappingOf (name : String) (value : Value) :
    Except LoadFault Entries :=
  match value.entries? with
  | none => .error (.notMapping name)
  | some entries =>
      if entries.all fun entry => entry.1.text?.isSome then .ok entries
      else .error .keyNotText

/-- What reads the texts of each format. -/
abbrev Readers := Format → List Char → Except Flaw Value

/-- The design system in a file, of which the name and, if there is such a
file, the content are given, with any readers of the formats. -/
def loadBy (readers : Readers) (given : String)
    (content : Option (List UInt8)) : Except LoadFault Entries := do
  let file := FileName.ofText given
  let name := file.toText
  let some format := Format.ofSuffix? file.suffix
    | .error (.unknownSuffix file.suffix)
  let some octets := content | .error (.notFound name)
  let some text := decode? octets | .error .notText
  let value ← (readers format text).mapError (.ofFlaw name)
  return writeOutColors (← mappingOf name value)

/-- The design system in a file. -/
def load (given : String) (content : Option (List UInt8)) :
    Except LoadFault Entries :=
  loadBy Format.read given content

end DesignTokens.Document
