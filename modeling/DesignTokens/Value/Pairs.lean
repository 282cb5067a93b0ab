import DesignTokens.Value.Basic

/-!
# Mappings written as pairs

A mapping may be given as a collection of pairs: each item holds a key and the
value under it. Of several pairs with one key the last one counts.
-/

namespace DesignTokens

/-- Why a value is no mapping, not even one written as pairs. -/
inductive PairFault where
  /-- The value or one of its items holds no items, or a collection that can
  be no key stands as one. -/
  | notCollection
  /-- An item has another number of items than two. -/
  | notPair
  deriving DecidableEq, Repr

namespace Value

/-- The channels of a colour by name. -/
def channelEntries (color : Oklch) : Entries :=
  [(.str "mode", .str "oklch"), (.str "l", .float color.lightness),
    (.str "c", .float color.chroma),
    (.str "h", (color.hue.map Value.float).getD .null)]

/-- A pair as a tuple. -/
def ofPair (pair : Value × Value) : Value :=
  .tuple [pair.1, pair.2]

/-- The items of a list or tuple, or the named channels of a colour as
pairs. -/
def listed? : Value → Option (List Value)
  | .list items => some items
  | .tuple items => some items
  | .color built => some ((channelEntries built).map ofPair)
  | _ => none

/-- What a value holds item by item: the items of a list, the characters of a
text, octets as numbers, the keys of a mapping. -/
def elements? : Value → Option (List Value)
  | .str text => some (text.toList.map fun character =>
      .str character.toString)
  | .bytes octets => some (octets.map fun octet => .int octet.toNat)
  | .map entries => some (entries.map Prod.fst)
  | value => value.listed?

mutual

/-- Whether a value may be the key of a mapping: lists and mappings may not,
nor may tuples that hold them. -/
def isKey : Value → Bool
  | .list _ => false
  | .map _ => false
  | .tuple items => areKeys items
  | _ => true

/-- `isKey` of every item. -/
def areKeys : List Value → Bool
  | [] => true
  | item :: rest => item.isKey && areKeys rest

end

/-- The pair that an item of two is. -/
def pair (item : Value) : Except PairFault (Value × Value) :=
  match item.elements? with
  | none => .error .notCollection
  | some [key, value] =>
      if key.isKey then .ok (key, value) else .error .notCollection
  | some _ => .error .notPair

/-- The entries of a mapping, which may be written as pairs. -/
def toEntries : Value → Except PairFault Entries
  | .map entries => .ok entries
  | value =>
      match value.elements? with
      | none => .error .notCollection
      | some items => (items.mapM pair).map Entries.ofList

end Value

end DesignTokens
