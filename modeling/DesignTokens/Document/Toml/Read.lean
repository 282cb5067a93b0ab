import DesignTokens.Document.Toml.Table

/-!
# TOML documents

Lines of three kinds: a table header, a header that adds a table to a list,
and an entry of the table whose header came last.
-/

namespace DesignTokens.Document.Toml

/-! ## Values -/

/-- A key, an equals sign and a value. -/
def pair (value : Reader Value) : Reader (Path × Value) := fun text => do
  let (path, rest) ← key text
  match rest with
  | '=' :: afterSign => do
      let (held, remaining) ← value (skipSpaces afterSign)
      return ((path, held), remaining)
  | _ => malformed

/-- A table so far, and what of it may not be changed. -/
structure Draft where
  table : Entries := []
  declared : Declared := {}

/-- Add an entry to a table that is written within a line. -/
def Draft.addInline (draft : Draft) (path : Path) (value : Value) :
    Option Draft := do
  if draft.declared.isFrozen path then none
  else
    let table ← changeAt false (addEntry (path.getLast?.getD "") value)
      path.dropLast draft.table
    some ⟨table, draft.declared.freezeCollection path value⟩

/-- The table that the pairs between braces make. -/
def inlineTable (pairs : List (Path × Value)) : Option Value :=
  let draft := pairs.foldlM (fun (draft : Draft) (path, value) =>
    draft.addInline path value) {}
  draft.map fun done => .map done.table

/-- How lists are set out. -/
def listEnclosure : Enclosure := ⟨skipGaps, ']', true⟩

/-- How tables within a line are set out. -/
def tableEnclosure : Enclosure := ⟨skipSpaces, '}', false⟩

/-- A value nested at most `depth` deep. -/
def value : Nat → Reader Value
  | 0, _ => malformed
  | depth + 1, text =>
      match text with
      | '[' :: rest =>
          (listEnclosure.items (value depth) rest).map
            fun (held, remaining) => (.list held, remaining)
      | '{' :: rest => do
          let (pairs, remaining) ←
            tableEnclosure.items (pair (value depth)) rest
          (needed (inlineTable pairs)).map (·, remaining)
      | _ =>
          match text? text with
          | some found => found.map fun (held, remaining) =>
              (.str (String.ofList held), remaining)
          | none =>
              match firstWord? words text with
              | some found => .ok found
              | none => number text

/-! ## Lines -/

/-- A document so far, and the path of the header that came last. -/
structure State extends Draft where
  header : Path := []

namespace State

def declareTable (state : State) (path : Path) : Option State :=
  let declared := state.declared.settle
  if declared.isClosed path || declared.isFrozen path then none
  else
    (changeAt true some path state.table).map fun table =>
      { table, declared := declared.close path, header := path }

/-- Add a table to a list of tables. -/
def declareItem (state : State) (path : Path) : Option State :=
  let declared := state.declared.settle
  if declared.isFrozen path then none
  else
    (changeAt true (addTable (path.getLast?.getD "")) path.dropLast
        state.table).map fun table =>
      { table, declared := (declared.reopen path).close path,
        header := path }

/-- The tables between the last header and the key of an entry. -/
def tablesBetween (header path : Path) : List Path :=
  (List.range (path.length - 1)).map fun count =>
    header ++ path.take (count + 1)

/-- Add an entry under the last header. -/
def addPair (state : State) (path : Path) (value : Value) : Option State :=
  let whole := state.header ++ path
  let between := tablesBetween state.header path
  if between.any state.declared.isClosed ||
      state.declared.isFrozen whole.dropLast then none
  else
    (changeAt true (addEntry (path.getLast?.getD "") value) whole.dropLast
        state.table).map fun table =>
      let declared :=
        { state.declared with pending := between ++ state.declared.pending }
      { table, declared := declared.freezeCollection whole value,
        header := state.header }

end State

/-- The path of a header, after its opening brackets. -/
def headerPath (closing : List Char) : Reader Path := fun text => do
  let (path, rest) ← key (skipSpaces text)
  (needed (after? closing rest)).map (path, ·)

/-- One line without its comment and its end. -/
def line (state : State) : Reader State := fun text =>
  match text with
  | [] => .ok (state, [])
  | '\n' :: _ => .ok (state, text)
  | '#' :: _ => .ok (state, text)
  | '[' :: '[' :: rest => do
      let (path, remaining) ← headerPath [']', ']'] rest
      (needed (state.declareItem path)).map (·, remaining)
  | '[' :: rest => do
      let (path, remaining) ← headerPath [']'] rest
      (needed (state.declareTable path)).map (·, remaining)
  | _ => do
      let ((path, held), remaining) ← pair (value (text.length + 1)) text
      (needed (state.addPair path held)).map (·, remaining)

/-- The lines of a document; `budget` bounds their number. -/
def lines : Nat → State → List Char → Except Flaw State
  | 0, _, _ => malformed
  | budget + 1, state, text => do
      let (next, rest) ← line state (skipSpaces text)
      match ← needed (afterLine? rest) with
      | [] => return next
      | remaining => lines budget next remaining

/-- The table that a document describes. -/
def read (text : List Char) : Except Flaw Value :=
  (lines (text.length + 1) {} text).map fun state => .map state.table

end DesignTokens.Document.Toml
