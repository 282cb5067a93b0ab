import DesignTokens.Record
import DesignTokens.Schema.Scalar
import DesignTokens.Value.Pairs

/-!
# Reading lists, mappings and fields

A field may have two spellings; the first one wins wherever it is present,
and issues name the spelling that was used.
-/

namespace DesignTokens.Schema

variable {alpha : Type}

/-- The step that a key of a mapping stands for: a text and a whole number of
64 bits stand for themselves, any other key is shown as a message shows it. -/
def keyStep : Value → Step
  | .str name => .key name
  | .int n => if Number.fitsWord n then .index n else .key (Number.wholeText n)
  | .bool held => .index (if held then 1 else 0)
  | key => .key key.quoted

/-- Read the items of a list, the first of which has index `position`. -/
def readItems (read : Reader alpha) :
    Int → List Value → Checked (List alpha)
  | _, [] => .accepted []
  | position, item :: rest =>
      List.cons <$> (read item).within (.index position)
        <*> readItems read (position + 1) rest

/-- A list whose items are all read the same way; a tuple is one too, and the
channels of a colour are. -/
def listOf (read : Reader alpha) : Reader (List alpha) := fun value =>
  match value.listed? with
  | some items => readItems read 0 items
  | none => .issue .listExpected

/-- A key that names an entry. -/
def readKey : Reader String := fun key =>
  ((text key).within (.key "[key]")).within (keyStep key)

def readEntries (read : Reader alpha) : Entries → Checked (Record alpha)
  | [] => .accepted []
  | (key, value) :: rest =>
      (fun name held more => (name, held) :: more) <$> readKey key
        <*> (read value).within (keyStep key)
        <*> readEntries read rest

/-- A mapping from names to values that are all read the same way. -/
def recordOf (read : Reader alpha) : Reader (Record alpha)
  | .map entries => readEntries read entries
  | _ => .issue .mappingExpected

/-- A mapping with known fields. -/
def model (read : Entries → Checked alpha) : Reader alpha
  | .map entries => read entries
  | _ => .issue .modelExpected

/-- A field that must be present. -/
def field (name alternative : String) (read : Reader alpha)
    (entries : Entries) : Checked alpha :=
  match Entries.spelled? name alternative entries with
  | none => .refused [⟨[.key name], .missing⟩]
  | some (spelling, value) => (read value).within (.key spelling)

/-- A field that stands for `fallback` where it is absent. -/
def fieldOr (name alternative : String) (fallback : alpha)
    (read : Reader alpha) (entries : Entries) : Checked alpha :=
  match Entries.spelled? name alternative entries with
  | none => .accepted fallback
  | some (spelling, value) => (read value).within (.key spelling)

end DesignTokens.Schema
