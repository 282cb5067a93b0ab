/-!
# Ordered records

Named values in the order in which their names were first given. Writing a
name again replaces its value and keeps its place.
-/

namespace DesignTokens

universe u

/-- Named values in declaration order. -/
abbrev Record (alpha : Type u) := List (String × alpha)

namespace Record

variable {alpha : Type u}

/-- The names of a record, in order. -/
def names (record : Record alpha) : List String :=
  record.map Prod.fst

/-- Write a value under a name: a known name keeps its place, a new name goes
to the end. -/
def put (name : String) (value : alpha) : Record alpha → Record alpha
  | [] => [(name, value)]
  | (key, held) :: rest =>
      if key = name then (key, value) :: rest
      else (key, held) :: put name value rest

/-- Write all entries of `top` over `base`, in order. -/
def overlay (base top : Record alpha) : Record alpha :=
  top.foldl (fun record entry => put entry.1 entry.2 record) base

/-- The record that holds, under each name, the last value given for it. -/
def ofList (entries : List (String × alpha)) : Record alpha :=
  overlay [] entries

end Record

end DesignTokens
