/-!
# Issues

A typed reading of a configuration value either succeeds or collects every
issue it meets. Readings that are combined keep the issues of both sides, in
order.
-/

namespace DesignTokens.Schema

/-- One step from a value to a part of it. -/
inductive Step where
  | key (name : String)
  | index (position : Int)
  deriving DecidableEq, Repr

/-- What is wrong with a part of a value. -/
inductive IssueKind where
  | modelExpected
  | missing
  | textExpected
  | textUndecodable
  | numberExpected
  | numberUnreadable
  | wholeExpected
  | wholeUnreadable
  | wholeFractional
  | wholeInfinite
  | wholeTooLarge
  | flagExpected
  | flagUnreadable
  | listExpected
  | mappingExpected
  | unknownChoice
  | fixedChoice
  | keyNotText
  deriving DecidableEq, Repr

/-- The code under which an issue is reported. -/
def IssueKind.code : IssueKind → String
  | .modelExpected => "model_type"
  | .missing => "missing"
  | .textExpected => "string_type"
  | .textUndecodable => "string_unicode"
  | .numberExpected => "float_type"
  | .numberUnreadable => "float_parsing"
  | .wholeExpected => "int_type"
  | .wholeUnreadable => "int_parsing"
  | .wholeFractional => "int_from_float"
  | .wholeInfinite => "finite_number"
  | .wholeTooLarge => "int_parsing_size"
  | .flagExpected => "bool_type"
  | .flagUnreadable => "bool_parsing"
  | .listExpected => "list_type"
  | .mappingExpected => "dict_type"
  | .unknownChoice => "enum"
  | .fixedChoice => "literal_error"
  | .keyNotText => "invalid_key"

/-- An issue and the path to the part it concerns. -/
structure Issue where
  path : List Step
  kind : IssueKind
  deriving DecidableEq, Repr

/-- The result of a typed reading. -/
inductive Checked (alpha : Type) where
  | accepted (result : alpha)
  | refused (issues : List Issue)
  deriving Repr

namespace Checked

variable {alpha beta : Type}

/-- Apply a function to an accepted result. -/
protected def map (f : alpha → beta) : Checked alpha → Checked beta
  | .accepted result => .accepted (f result)
  | .refused issues => .refused issues

/-- Combine two readings; the issues of both are kept. -/
def combine : Checked (alpha → beta) → Checked alpha → Checked beta
  | .accepted f, .accepted result => .accepted (f result)
  | .accepted _, .refused issues => .refused issues
  | .refused issues, .accepted _ => .refused issues
  | .refused issues, .refused more => .refused (issues ++ more)

instance : Applicative Checked where
  pure := .accepted
  map := Checked.map
  seq f result := combine f (result ())

/-- A single issue at the value itself. -/
def issue (kind : IssueKind) : Checked alpha :=
  .refused [⟨[], kind⟩]

/-- Report the issues of a part as issues of the whole. -/
def within (step : Step) : Checked alpha → Checked alpha
  | .accepted result => .accepted result
  | .refused issues =>
      .refused (issues.map fun found => { found with
        path := step :: found.path })

/-- The result, or the issues. -/
def toExcept : Checked alpha → Except (List Issue) alpha
  | .accepted result => .ok result
  | .refused issues => .error issues

end Checked

end DesignTokens.Schema
