import DesignTokens.Document.Toml.Scalar

/-!
# Tables under a path

The keys of a TOML document are paths into nested tables. Some tables may be
declared once only, and some values may not be changed any more.
-/

namespace DesignTokens.Document.Toml

/-- The keys that lead to a table. -/
abbrev Path := List String

/-! ## Nested tables -/

/-- Change the table under a path. Missing tables are created on the way; of a
list of tables the last one is meant, where `intoLists` allows it. -/
def changeAt (intoLists : Bool) (change : Entries → Option Entries) :
    Path → Entries → Option Entries
  | [], table => change table
  | name :: path, table =>
      let descend := changeAt intoLists change path
      match table.get? name with
      | none =>
          (descend []).map fun inner => table.put (.str name) (.map inner)
      | some (.map inner) =>
          (descend inner).map fun changed =>
            table.put (.str name) (.map changed)
      | some (.list items) =>
          match intoLists, items.getLast? with
          | true, some (.map inner) =>
              (descend inner).map fun changed =>
                table.put (.str name)
                  (.list (items.dropLast ++ [.map changed]))
          | _, _ => none
      | some _ => none

/-- Add an entry; a key that is there already is refused. -/
def addEntry (name : String) (value : Value) (table : Entries) :
    Option Entries :=
  match table.get? name with
  | some _ => none
  | none => some (table.put (.str name) value)

/-- Add an empty table to the list of tables under a key. -/
def addTable (name : String) (table : Entries) : Option Entries :=
  match table.get? name with
  | none => some (table.put (.str name) (.list [.map []]))
  | some (.list items) =>
      some (table.put (.str name) (.list (items ++ [.map []])))
  | some _ => none

/-! ## What may still be declared -/

/-- The tables that may not be declared again, those that join them at the
next header, and the values that may not be changed. -/
structure Declared where
  closed : List Path := []
  pending : List Path := []
  frozen : List Path := []

namespace Declared

/-- Whether a table may not be declared again. -/
def isClosed (declared : Declared) (path : Path) : Bool :=
  declared.closed.contains path

/-- Whether a path leads to or into a value that may not be changed. -/
def isFrozen (declared : Declared) (path : Path) : Bool :=
  declared.frozen.any (·.isPrefixOf path)

/-- Close a table. -/
def close (declared : Declared) (path : Path) : Declared :=
  { declared with closed := path :: declared.closed }

def freeze (declared : Declared) (path : Path) : Declared :=
  { declared with frozen := path :: declared.frozen }

/-- Close the tables that waited for the next header. -/
def settle (declared : Declared) : Declared :=
  { declared with
    closed := declared.pending ++ declared.closed
    pending := [] }

/-- Forget what was said of a path and of all paths that go on from it. -/
def reopen (declared : Declared) (path : Path) : Declared :=
  { declared with
    closed := declared.closed.filter fun held => !path.isPrefixOf held
    frozen := declared.frozen.filter fun held => !path.isPrefixOf held }

/-- Freeze the value under a path if it is a collection. -/
def freezeCollection (declared : Declared) (path : Path) :
    Value → Declared
  | .list _ => declared.freeze path
  | .map _ => declared.freeze path
  | _ => declared

end Declared

end DesignTokens.Document.Toml
