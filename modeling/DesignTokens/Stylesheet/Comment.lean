import DesignTokens.Number.Layout
import DesignTokens.Schema.Field

/-!
# File headers

The lines that name the tool a file comes from, and the comment that holds
them.
-/

namespace DesignTokens

/-- What a file header tells. -/
structure FileHeader where
  toolName : String
  toolVersion : String
  includeTimestamp : Bool := false
  customLines : List String := []
  deriving DecidableEq, Repr

/-- A point in time on the calendar of a place; `offset` is its distance from
universal time in minutes, where it is known. -/
structure Moment where
  year : Nat
  month : Nat
  day : Nat
  hour : Nat
  minute : Nat
  second : Nat
  offset : Option Int

/-- How comments are marked. -/
inductive CommentStyle where
  | block
  | line
  deriving DecidableEq, Repr

/-! ## Moments -/

namespace Moment

/-- A number with leading zeros up to `width` digits. -/
def padded (width n : Nat) : String :=
  String.ofList (List.leftpad width '0' (Number.digitsOf n))

/-- The distance from universal time as hours and minutes. -/
def offsetText (offset : Int) : String :=
  (if offset < 0 then "-" else "+") ++ padded 2 (offset.natAbs / 60)
    ++ ":" ++ padded 2 (offset.natAbs % 60)

/-- Date and time to the second. -/
def stamp (moment : Moment) : String :=
  padded 4 moment.year ++ "-" ++ padded 2 moment.month ++ "-"
    ++ padded 2 moment.day ++ "T" ++ padded 2 moment.hour ++ ":"
    ++ padded 2 moment.minute ++ ":" ++ padded 2 moment.second
    ++ (moment.offset.map offsetText).getD ""

end Moment

/-! ## Headers -/

namespace FileHeader

/-- The line that states when a file was made, where the header asks for it
and the moment is known. -/
def stampLines (header : FileHeader) (now : Option Moment) : List String :=
  match header.includeTimestamp, now with
  | true, some moment => ["Generated at " ++ moment.stamp]
  | _, _ => []

def lines (header : FileHeader) (now : Option Moment) :
    List String :=
  ["Generated by " ++ header.toolName ++ " v" ++ header.toolVersion,
    "Do not edit directly - regenerate from the design system source."]
    ++ header.stampLines now ++ header.customLines

open Schema in
def read : Reader FileHeader := model fun entries =>
  FileHeader.mk
    <$> field "toolName" "tool_name" text entries
    <*> field "toolVersion" "tool_version" text entries
    <*> fieldOr "includeTimestamp" "include_timestamp" false flag entries
    <*> fieldOr "customLines" "custom_lines" [] (listOf text) entries

/-- A header as a mapping. -/
def toValue (header : FileHeader) : Value :=
  .map [(.str "toolName", .str header.toolName),
    (.str "toolVersion", .str header.toolVersion),
    (.str "includeTimestamp", .bool header.includeTimestamp),
    (.str "customLines", .list (header.customLines.map .str))]

end FileHeader

/-! ## Comments -/

namespace CommentStyle

/-- The style of a name; every unknown name means a block. -/
def named (name : String) : CommentStyle :=
  if name = "line" then .line else .block

/-- A line behind its mark; an empty line is the mark alone. -/
def marked (mark line : String) : String :=
  if line = "" then mark else mark ++ " " ++ line

/-- The lines of a comment around `lines`. -/
def commentLines (lines : List String) : CommentStyle → List String
  | .line => lines.map (marked "//")
  | .block => ["/*"] ++ lines.map (marked " *") ++ [" */"]

/-- A comment around `lines`. -/
def comment (style : CommentStyle) (lines : List String) : String :=
  String.intercalate "\n" (style.commentLines lines)

end CommentStyle

end DesignTokens
