import DesignTokens.Color.Basic
import DesignTokens.Number.Numeral

/-!
# Configuration values

What a design system is written in before it is understood: nested mappings,
lists and scalars. A mapping keeps its entries in order, and its keys may be
any value.
-/

namespace DesignTokens

/-- A configuration value. -/
inductive Value where
  | null
  | bool (flag : Bool)
  | int (number : Int)
  | float (number : Float)
  | str (text : String)
  | bytes (octets : List UInt8)
  | list (items : List Value)
  | tuple (items : List Value)
  | map (entries : List (Value × Value))
  | color (color : Oklch)

instance : Inhabited Value := ⟨.null⟩

/-- The entries of a mapping, in order. -/
abbrev Entries := List (Value × Value)

namespace Value

def isNull : Value → Bool
  | .null => true
  | _ => false

/-- Whether a value is this very text. -/
def isText (value : Value) (text : String) : Bool :=
  match value with
  | .str held => held = text
  | _ => false

def text? : Value → Option String
  | .str text => some text
  | _ => none

/-- The entries of a value that is a mapping. -/
def entries? : Value → Option Entries
  | .map entries => some entries
  | _ => none

/-- The items of a list or tuple. -/
def items? : Value → Option (List Value)
  | .list items => some items
  | .tuple items => some items
  | _ => none

/-- The number that a value is; flags are no numbers. -/
def numeral? : Value → Option Number.Numeral
  | .int n => some (.whole n)
  | .float x => some (.real x)
  | _ => none

/-- The number that a value counts as: a flag counts as one or zero. -/
def counted? : Value → Option Number.Numeral
  | .bool flag => some (.whole (if flag then 1 else 0))
  | value => value.numeral?

end Value

namespace Entries

/-- The value under a key that is a text. -/
def get? (key : String) : Entries → Option Value
  | [] => none
  | (.str name, value) :: rest =>
      if name = key then some value else get? key rest
  | _ :: rest => get? key rest

/-- The value under a key, unless it is missing or null. -/
def given? (key : String) (entries : Entries) : Option Value :=
  (get? key entries).filter fun value => !value.isNull

/-- The value of a field that has two spellings, with the spelling in use. The
first one wins wherever it is present. -/
def spelled? (name alternative : String) (entries : Entries) :
    Option (String × Value) :=
  match get? name entries with
  | some value => some (name, value)
  | none => (get? alternative entries).map (alternative, ·)

/-- The value of a field that has two spellings. -/
def either? (name alternative : String) (entries : Entries) :
    Option Value :=
  (spelled? name alternative entries).map Prod.snd

end Entries

/-! ## Keys -/

namespace Value

/-- Whether two numbers are equal; a whole number equals the double that is
exactly that number. -/
def sameNumber : Number.Numeral → Number.Numeral → Bool
  | .whole m, .whole n => m = n
  | .real x, .real y => x == y
  | .whole n, .real x => Number.wholeValue? x = some n
  | .real x, .whole n => Number.wholeValue? x = some n

mutual

/-- Whether two values name the same entry of a mapping. -/
def sameKey : Value → Value → Bool
  | .null, .null => true
  | .str left, .str right => left = right
  | .bytes left, .bytes right => left = right
  | .tuple left, .tuple right => sameKeys left right
  | left, right =>
      match left.counted?, right.counted? with
      | some first, some second => sameNumber first second
      | _, _ => false

/-- `sameKey` item by item. -/
def sameKeys : List Value → List Value → Bool
  | [], [] => true
  | left :: lefts, right :: rights =>
      left.sameKey right && sameKeys lefts rights
  | _, _ => false

end

end Value

namespace Entries

/-- Write a value under a key: a known key keeps its place, a new one goes to
the end. -/
def put (key value : Value) : Entries → Entries
  | [] => [(key, value)]
  | (known, held) :: rest =>
      if known.sameKey key then (known, value) :: rest
      else (known, held) :: put key value rest

/-- The mapping that holds, under each key, the last value given for it. -/
def ofList (entries : List (Value × Value)) : Entries :=
  entries.foldl (fun mapping entry => put entry.1 entry.2 mapping) []

end Entries

end DesignTokens
