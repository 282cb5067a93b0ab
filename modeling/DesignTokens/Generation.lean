import DesignTokens.Acceptance.Whole
import DesignTokens.Expansion.Whole
import DesignTokens.Settings.Reading
import DesignTokens.Stylesheet.Render
import DesignTokens.System.Reading
import DesignTokens.System.Writing

/-!
# From a configuration to a token sheet

A configuration is accepted, read, expanded and put together. The first stage
that fails ends it.
-/

namespace DesignTokens

/-- Why there is no token sheet. -/
inductive GenerationFault where
  /-- The configuration has a fault. -/
  | refused (fault : Acceptance.Fault)
  /-- The configuration is accepted but cannot be read. -/
  | unreadable (issues : List Schema.Issue)
  /-- The settings cannot be read. -/
  | settings (fault : Schema.ReadFault)
  /-- A family cannot be expanded. -/
  | expansion (fault : ExpansionFault)

/-- The message for a configuration that is accepted but cannot be read. -/
def GenerationFault.unreadableMessage : String :=
  "Invalid design system"

def readAccepted (config : Value) : Except GenerationFault DesignSystem := do
  (Acceptance.accept config).mapError .refused
  (DesignSystem.read config).toExcept.mapError .unreadable

/-- The token sheet of a design system. -/
def DesignSystem.expand (system : DesignSystem) (settings : Settings) :
    Except GenerationFault Generated := do
  let expansions ← (Expansions.ofSystem settings system).mapError .expansion
  return expansions.assemble

/-- The token sheet of a configuration. The settings are read once the
configuration is. -/
def generate (config settings : Value) :
    Except GenerationFault Generated := do
  let system ← readAccepted config
  let chosen ← (Settings.readGiven settings).mapError .settings
  system.expand chosen

/-- A style sheet and the notices of making it. -/
structure Styled where
  text : String
  notices : List Notice

/-- Read the settings of a style sheet; where none are given, it has the
selectors of the other settings. -/
def SheetSettings.readAfter (settings : Settings) :
    Value → Except Schema.ReadFault SheetSettings :=
  Schema.readGiven { selectors := settings.selectors } SheetSettings.read

/-- The style sheet of a configuration. The settings of generation are read
first, those of the style sheet last. -/
def generateStylesheet (config settings sheetSettings : Value) :
    Except GenerationFault Styled := do
  let chosen ← (Settings.readGiven settings).mapError .settings
  let system ← readAccepted config
  let generated ← system.expand chosen
  let layout ←
    (SheetSettings.readAfter chosen sheetSettings).mapError .settings
  return ⟨generated.sheet.stylesheet layout, generated.notices⟩

end DesignTokens
