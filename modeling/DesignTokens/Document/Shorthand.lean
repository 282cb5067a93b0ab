import DesignTokens.Value.Basic

/-!
# Short colours

A document may write a colour as the list of its lightness, chroma and hue.
Writing such lists out as mappings changes nothing else in the document.
-/

namespace DesignTokens.Document

/-- A colour that is written as three items, written out. -/
def writtenOut : Value → Value
  | .list [lightness, chroma, hue] =>
      .map [(.str "l", lightness), (.str "c", chroma), (.str "h", hue)]
  | .tuple [lightness, chroma, hue] =>
      .map [(.str "l", lightness), (.str "c", chroma), (.str "h", hue)]
  | value => value

/-- Change the value under a key; all else stays. -/
def changeUnder (name : String) (change : Value → Value)
    (entries : Entries) : Entries :=
  entries.map fun (key, value) =>
    if key.isText name then (key, change value) else (key, value)

/-- Change the value under a key of a mapping; any other value stays. -/
def changeMapUnder (name : String) (change : Value → Value) :
    Value → Value
  | .map entries => .map (changeUnder name change entries)
  | value => value

/-- Write out the colours of the tokens of a mode. -/
def writeOutTokens : Value → Value
  | .map tokens => .map (tokens.map fun (key, value) => (key, writtenOut value))
  | value => value

def writeOutModes : Value → Value
  | .list modes => .list (modes.map (changeMapUnder "tokens" writeOutTokens))
  | value => value

/-- Write out the colours of a design system. -/
def writeOutColors (system : Entries) : Entries :=
  changeUnder "colors" (changeMapUnder "modes" writeOutModes) system

end DesignTokens.Document
