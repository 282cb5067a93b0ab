import DesignTokens.Text.Basic

/-!
# File names

A file name leads through folders, the names of which stand between slashes.
Empty names and single points lead nowhere and are left out.
-/

namespace DesignTokens.Document

/-- A file name: where it starts, and the names it leads through. -/
structure FileName where
  root : String
  parts : List String
  deriving DecidableEq, Repr

namespace FileName

/-- Where a name starts: nowhere special, or at the root. Exactly two slashes
are a root of their own. -/
def rootOf : List Char → String
  | '/' :: '/' :: '/' :: _ => "/"
  | '/' :: '/' :: _ => "//"
  | '/' :: _ => "/"
  | _ => ""

/-- The file name that a text writes. -/
def ofText (text : String) : FileName :=
  let letters := text.toList
  let parts := (Text.parts '/' letters).filter fun part =>
    part ≠ [] ∧ part ≠ ['.']
  ⟨rootOf letters, parts.map String.ofList⟩

def toText (name : FileName) : String :=
  if name.root.isEmpty && name.parts.isEmpty then "."
  else name.root ++ String.intercalate "/" name.parts

/-- The name of the file itself. -/
def last (name : FileName) : String :=
  name.parts.getLast?.getD ""

/-- The suffix of a file name: the last point of its last part and what
follows. A point that leads or ends the part starts no suffix. -/
def suffix (name : FileName) : String :=
  let (letters, stem) := name.last.toList.reverse.span (· != '.')
  match letters, stem with
  | [], _ => ""
  | _, [] => ""
  | _, [_] => ""
  | letters, _ => String.ofList ('.' :: letters.reverse)

end FileName

end DesignTokens.Document
