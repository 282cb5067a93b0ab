import DesignTokens.Text.Quoted
import DesignTokens.Value.Basic

/-!
# Values in messages

The text of a value inside a message: texts stand between quotes, collections
in brackets, numbers in their shortest form.
-/

namespace DesignTokens.Value

/-- A text inside a pair of brackets. -/
private def bracketed (opening : String) (parts : List String)
    (closing : String) : String :=
  opening ++ String.intercalate ", " parts ++ closing

/-- A tuple; a single item is followed by a comma. -/
private def tupleText : List String → String
  | [part] => "(" ++ part ++ ",)"
  | parts => bracketed "(" parts ")"

/-- A colour with its named channels. -/
private def colorText (color : Oklch) : String :=
  let hue :=
    match color.hue with
    | none => "None"
    | some hue => Number.shortestText hue
  bracketed "Oklch("
    ["mode='oklch'", "l=" ++ Number.shortestText color.lightness,
      "c=" ++ Number.shortestText color.chroma, "h=" ++ hue] ")"

mutual

/-- A value as a message shows it. -/
def quoted : Value → String
  | .null => "None"
  | .bool flag => if flag then "True" else "False"
  | .int n => Number.wholeText n
  | .float x => Number.shortestText x
  | .str text => Text.quoted text
  | .bytes octets => Text.quotedOctets octets
  | .list items => bracketed "[" (quotedItems items) "]"
  | .tuple items => tupleText (quotedItems items)
  | .map entries => bracketed "\x7b" (quotedEntries entries) "\x7d"
  | .color shade => colorText shade

/-- The items of a collection as a message shows them. -/
def quotedItems : List Value → List String
  | [] => []
  | item :: rest => item.quoted :: quotedItems rest

/-- The entries of a mapping as a message shows them. -/
def quotedEntries : List (Value × Value) → List String
  | [] => []
  | (key, value) :: rest =>
      (key.quoted ++ ": " ++ value.quoted) :: quotedEntries rest

end

/-- A value as part of a path or a name: a text stands for itself. -/
def plain : Value → String
  | .str text => text
  | value => value.quoted

end DesignTokens.Value
