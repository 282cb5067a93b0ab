/-!
# Default modes

The first mode that is flagged as the default is the default; where none is
flagged, the first mode is. All other modes are overrides, in declaration
order.
-/

namespace DesignTokens.Selection

variable {alpha : Type}

/-- The position of the default among the modes. -/
def defaultIndex (flagged : alpha → Bool) (modes : List alpha) : Nat :=
  (modes.findIdx? flagged).getD 0

/-- The default mode; an empty list has none. -/
def default? (flagged : alpha → Bool) (modes : List alpha) :
    Option alpha :=
  modes[defaultIndex flagged modes]?

/-- The modes that are not the default. -/
def overrides (flagged : alpha → Bool) (modes : List alpha) :
    List alpha :=
  modes.eraseIdx (defaultIndex flagged modes)

/-- Every mode with the answer to whether it is the default. -/
def marked (flagged : alpha → Bool) (modes : List alpha) :
    List (alpha × Bool) :=
  modes.zipIdx.map fun entry =>
    (entry.1, entry.2 == defaultIndex flagged modes)

/-- The flagged modes, where there is more than one: the first of them, which
is the default, and the others. -/
def contenders (flagged : alpha → Bool) (modes : List alpha) :
    Option (alpha × List alpha) :=
  match modes.filter flagged with
  | first :: second :: rest => some (first, second :: rest)
  | _ => none

end DesignTokens.Selection
