import DesignTokens.Number.Reading
import DesignTokens.Schema.Issue
import DesignTokens.Text.Basic
import DesignTokens.Value.Text

/-!
# Reading scalars

How a configuration value is taken for a text, a number, a whole number, a
flag or one of several choices. Numbers and flags may also be written as
texts, and texts as octets.
-/

namespace DesignTokens.Schema

/-- A typed reading of a configuration value. -/
abbrev Reader (alpha : Type) := Value → Checked alpha

/-- A value, or the text in its place if it is octets that encode one. -/
def decoded : Value → Value
  | .bytes octets =>
      match Text.decode? octets with
      | some held => .str held
      | none => .bytes octets
  | value => value

/-- A text, or octets that encode one. -/
def text : Reader String := fun value =>
  match decoded value with
  | .str held => .accepted held
  | .bytes _ => .issue .textUndecodable
  | _ => .issue .textExpected

/-- A double: a number within range, a flag, or a text that holds a number.
NaN and the infinities are doubles. -/
def real : Reader Float := fun value =>
  match decoded value with
  | .float x => .accepted x
  | .int n =>
      match Number.floatOfInt? n with
      | some x => .accepted x
      | none => .issue .numberExpected
  | .bool flag => .accepted (if flag then 1 else 0)
  | .str held =>
      match Number.realOfText? held with
      | some x => .accepted x
      | none => .issue .numberUnreadable
  | .bytes _ => .issue .numberUnreadable
  | _ => .issue .numberExpected

/-- The whole number that a double is, within the signed 64-bit range. -/
def wholeOfFloat (x : Float) : Checked Int :=
  if !x.isFinite then .issue .wholeInfinite
  else
    match Number.wholeValue? x with
    | none => .issue .wholeFractional
    | some n =>
        if n.natAbs < Number.twoTo 63 then .accepted n
        else .issue .wholeTooLarge

/-- A whole number: of any size where it is written as one, a flag, a whole
double, or a text that holds a whole number. -/
def whole : Reader Int := fun value =>
  match decoded value with
  | .int n => .accepted n
  | .bool flag => .accepted (if flag then 1 else 0)
  | .float x => wholeOfFloat x
  | .str held =>
      match Number.wholeOfText held with
      | .number n => .accepted n
      | .tooLong => .issue .wholeTooLarge
      | .unreadable => .issue .wholeUnreadable
  | .bytes _ => .issue .wholeUnreadable
  | _ => .issue .wholeExpected

/-- The words for a flag, in lower case. -/
def flagWords : List (String × Bool) :=
  [("0", false), ("off", false), ("f", false), ("false", false),
    ("n", false), ("no", false), ("1", true), ("on", true), ("t", true),
    ("true", true), ("y", true), ("yes", true)]

/-- The flag that a whole number stands for; beyond 64 bits it is no flag at
all. -/
def flagOfWhole (n : Int) : Checked Bool :=
  if n = 0 then .accepted false
  else if n = 1 then .accepted true
  else if Number.fitsWord n then .issue .flagUnreadable
  else .issue .flagExpected

/-- A flag: a boolean, zero or one, or a word for it in any case. -/
def flag : Reader Bool := fun value =>
  match decoded value with
  | .bool held => .accepted held
  | .int n => flagOfWhole n
  | .float x =>
      match wholeOfFloat x with
      | .accepted n => flagOfWhole n
      | .refused _ => .issue .flagExpected
  | .str held =>
      match flagWords.lookup held.toLower with
      | some known => .accepted known
      | none => .issue .flagUnreadable
  | .bytes _ => .issue .flagUnreadable
  | _ => .issue .flagExpected

/-- One of several named choices. -/
def choice {alpha : Type} (choices : List (String × alpha)) :
    Reader alpha := fun value =>
  match decoded value with
  | .str held =>
      match choices.lookup held with
      | some known => .accepted known
      | none => .issue .unknownChoice
  | _ => .issue .unknownChoice

/-- One fixed text. -/
def constant (expected : String) : Reader Unit := fun value =>
  if value.isText expected then .accepted ()
  else .issue .fixedChoice

/-- A value that may be null. -/
def nullable {alpha : Type} (read : Reader alpha) : Reader (Option alpha)
  | .null => .accepted none
  | value => some <$> read value

end DesignTokens.Schema
