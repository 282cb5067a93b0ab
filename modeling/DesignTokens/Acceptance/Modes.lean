import DesignTokens.Acceptance.Fault
import DesignTokens.Selection

/-!
# Accepting the modes of a family

Every family is a mapping with a non-empty list of modes. A mode has a name of
its own, possibly a flag, and a mapping of tokens.
-/

namespace DesignTokens.Acceptance

/-- A mode that has the shape of one; its tokens are still unchecked. -/
structure PlainMode where
  name : String
  entries : Entries
  tokens : Entries

namespace PlainMode

/-- The value of the default flag of a mode. -/
def flagValue (entries : Entries) : Option Value :=
  Entries.either? "isDefault" "is_default" entries

/-- Whether the mode is flagged as the default. -/
def flagged (mode : PlainMode) : Bool :=
  match flagValue mode.entries with
  | some (.bool held) => held
  | _ => false

end PlainMode

/-- Whether the value of a default flag may stand. -/
def isFlag : Option Value → Bool
  | none | some .null | some (.bool _) => true
  | _ => false

/-- The name of a mode: a text that is not empty. -/
def modeName? (entries : Entries) : Option String :=
  match Entries.get? "name" entries with
  | some (.str name) => if name = "" then none else some name
  | _ => none

/-- Accept the mode at `index`, where the names in `seen` are taken. -/
def acceptMode (index : Nat) (seen : List String) (mode : Value) :
    Except FamilyFault PlainMode :=
  match mode.entries? with
  | none => .error (.shape index .notMapping)
  | some entries =>
      match modeName? entries with
      | none => .error (.shape index .unnamed)
      | some name =>
          if seen.contains name then
            .error (.shape index (.repeated name))
          else if !isFlag (PlainMode.flagValue entries) then
            .error (.flag name)
          else
            match Entries.get? "tokens" entries with
            | some (.map tokens) => .ok ⟨name, entries, tokens⟩
            | _ => .error (.noTokens name)

/-- Accept the modes from `index` on. -/
def acceptModesFrom :
    Nat → List String → List Value → Except FamilyFault (List PlainMode)
  | _, _, [] => .ok []
  | index, seen, mode :: rest => do
      let accepted ← acceptMode index seen mode
      let others ← acceptModesFrom (index + 1) (accepted.name :: seen) rest
      return accepted :: others

/-- Accept a family as far as the shape of its modes goes. -/
def acceptModes (family : Value) :
    Except FamilyFault (Entries × List PlainMode) :=
  match family.entries? with
  | none => .error .notMapping
  | some entries =>
      match (Entries.get? "modes" entries).bind Value.items? with
      | none => .error .modesNotList
      | some [] => .error .noModes
      | some modes => do
          let accepted ← acceptModesFrom 0 [] modes
          return (entries, accepted)

/-- The names of the modes that are not the default. -/
def overrideNames (modes : List PlainMode) : List String :=
  (Selection.overrides PlainMode.flagged modes).map PlainMode.name

end DesignTokens.Acceptance
