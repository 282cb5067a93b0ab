import DesignTokens.Schema.Issue
import DesignTokens.Schema.Scalar
import DesignTokens.Value.Pairs

/-!
# Reading mappings written as pairs

Settings and constraints are read from mappings, which may be written as
pairs. What is not even that is refused before any field of it is read.
-/

namespace DesignTokens.Schema

/-- Why a value that may be written as pairs cannot be read. -/
inductive ReadFault where
  /-- It is no mapping. -/
  | notMapping (fault : PairFault)
  /-- The mapping has issues. -/
  | issues (found : List Issue)
  deriving DecidableEq, Repr

/-- Read a mapping that may be written as pairs. -/
def readPairs {alpha : Type} (read : Reader alpha) (value : Value) :
    Except ReadFault alpha := do
  let entries ← value.toEntries.mapError .notMapping
  (read (.map entries)).toExcept.mapError .issues

/-- Read a mapping that may be written as pairs or left out. -/
def readGiven {alpha : Type} (absent : alpha) (read : Reader alpha) :
    Value → Except ReadFault alpha
  | .null => .ok absent
  | value => readPairs read value

end DesignTokens.Schema
