import DesignTokens.Settings.Basic
import DesignTokens.Token.Sheet

/-!
# Style sheets

A token sheet as a style sheet of custom properties: a block of all default
tokens, and a block for every override mode under the selector of its
category.
-/

namespace DesignTokens

/-- The line that declares a token. -/
def declaration (entry : String × Token) : String :=
  "  --" ++ entry.1 ++ ": " ++ entry.2.value ++ ";"

/-- A block of declarations. -/
def block (selector : String) (tokens : Record Token) : String :=
  String.intercalate "\n"
    ([selector ++ " \x7b"] ++ tokens.map declaration ++ ["\x7d"])

namespace TokenSheet

/-- The block of an override mode. A mode that no category lists has none, and
neither has one without tokens. -/
def overrideBlock? (sheet : TokenSheet) (selectors : Selectors)
    (entry : String × Record Token) : Option String :=
  match sheet.categoryOf entry.1, entry.2 with
  | none, _ | _, [] => none
  | some category, tokens =>
      some (block (selectors.ofMode category entry.1) tokens)

/-- The comment at the head of a style sheet, if there is to be one. -/
def headerBlocks (settings : SheetSettings) : List String :=
  match settings.fileHeader with
  | some header => [CommentStyle.block.comment (header.lines none)]
  | none => []

def blocks (sheet : TokenSheet) (settings : SheetSettings) : List String :=
  headerBlocks settings ++ [block settings.selectors.root sheet.tokens] ++
    sheet.overrides.filterMap (sheet.overrideBlock? settings.selectors)

def stylesheet (sheet : TokenSheet) (settings : SheetSettings) : String :=
  String.intercalate "\n\n" (sheet.blocks settings)

end TokenSheet

end DesignTokens
