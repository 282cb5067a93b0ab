import DesignTokens.Schema.Field
import DesignTokens.Token.Basic

/-!
# Selectors

Every category has a template for the selector under which a mode applies. The
template names the place of the mode by `{mode}`, any number of times.
-/

namespace DesignTokens

/-- The selector of the default tokens and the templates of the
categories. -/
structure Selectors where
  root : String := ":root"
  colorMode : String := "[data-color-mode=\"\x7bmode\x7d\"]"
  sizeMode : String := "[data-size-mode=\"\x7bmode\x7d\"]"
  timeMode : String := "[data-time-mode=\"\x7bmode\x7d\"]"
  deriving DecidableEq, Repr

/-- Put a mode name in every place of a template that asks for it, in one pass
from left to right. What is put in is not looked at again. -/
def fillTemplate (mode : List Char) : List Char → List Char
  | '{' :: 'm' :: 'o' :: 'd' :: 'e' :: '}' :: rest =>
      mode ++ fillTemplate mode rest
  | character :: rest => character :: fillTemplate mode rest
  | [] => []

namespace Selectors

def template (selectors : Selectors) : Category → String
  | .color => selectors.colorMode
  | .size => selectors.sizeMode
  | .time => selectors.timeMode

def ofMode (selectors : Selectors) (category : Category) (mode : String) :
    String :=
  String.ofList
    (fillTemplate mode.toList (selectors.template category).toList)

open Schema in
def read : Reader Selectors := model fun entries =>
  let absent : Selectors := {}
  Selectors.mk
    <$> fieldOr "root" "root" absent.root text entries
    <*> fieldOr "colorMode" "color_mode" absent.colorMode text entries
    <*> fieldOr "sizeMode" "size_mode" absent.sizeMode text entries
    <*> fieldOr "timeMode" "time_mode" absent.timeMode text entries

/-- Selectors as a mapping. -/
def toValue (selectors : Selectors) : Value :=
  .map [(.str "root", .str selectors.root),
    (.str "colorMode", .str selectors.colorMode),
    (.str "sizeMode", .str selectors.sizeMode),
    (.str "timeMode", .str selectors.timeMode)]

end Selectors

end DesignTokens
