import DesignTokens.Value.Text

/-!
# Named choices

A value that has to be one of a few names is looked up, and refused with a
message where it is none of them.
-/

namespace DesignTokens.Schema

/-- A value that is none of the choices of its kind. -/
structure UnknownName where
  given : Value
  kind : String

def UnknownName.message (fault : UnknownName) : String :=
  fault.given.quoted ++ " is not a valid " ++ fault.kind

/-- Look a value up among the choices of its kind. -/
def choose {alpha : Type} (kind : String) (choices : List (String × alpha))
    (given : Value) : Except UnknownName alpha :=
  match given.text?.bind (List.lookup · choices) with
  | some known => .ok known
  | none => .error ⟨given, kind⟩

end DesignTokens.Schema
