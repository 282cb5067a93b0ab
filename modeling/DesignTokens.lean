import DesignTokens.Acceptance.Content
import DesignTokens.Acceptance.Fault
import DesignTokens.Acceptance.Modes
import DesignTokens.Acceptance.Whole
import DesignTokens.Color.Basic
import DesignTokens.Color.Encoding
import DesignTokens.Color.Gamut
import DesignTokens.Color.Opacity
import DesignTokens.Color.Space
import DesignTokens.Color.Style
import DesignTokens.Contrast
import DesignTokens.Document.Basic
import DesignTokens.Document.File
import DesignTokens.Document.FileName
import DesignTokens.Document.Json
import DesignTokens.Document.Shorthand
import DesignTokens.Document.Toml.Read
import DesignTokens.Document.Toml.Scalar
import DesignTokens.Document.Toml.Table
import DesignTokens.Document.Toml.Text
import DesignTokens.Document.Yaml.Block
import DesignTokens.Document.Yaml.Inline
import DesignTokens.Document.Yaml.Scalar
import DesignTokens.Expansion.Colors
import DesignTokens.Expansion.References
import DesignTokens.Expansion.Result
import DesignTokens.Expansion.Scales
import DesignTokens.Expansion.Whole
import DesignTokens.Generation
import DesignTokens.Number.Binary
import DesignTokens.Number.Hypotenuse
import DesignTokens.Number.Layout
import DesignTokens.Number.Numeral
import DesignTokens.Number.Reading
import DesignTokens.Number.Rounding
import DesignTokens.Number.Shortest
import DesignTokens.Proofs.Acceptance.Changing
import DesignTokens.Proofs.Acceptance.Content
import DesignTokens.Proofs.Acceptance.Frame
import DesignTokens.Proofs.Acceptance.Grammar
import DesignTokens.Proofs.Acceptance.Modes
import DesignTokens.Proofs.Acceptance.Reordering
import DesignTokens.Proofs.Acceptance.Spelling
import DesignTokens.Proofs.Acceptance.Whole
import DesignTokens.Proofs.Acceptance.Written
import DesignTokens.Proofs.Color.Gamut
import DesignTokens.Proofs.Contrast
import DesignTokens.Proofs.Document.Keyed
import DesignTokens.Proofs.Document.Loading
import DesignTokens.Proofs.Document.Readers
import DesignTokens.Proofs.Document.Shorthand
import DesignTokens.Proofs.Expansion.Assembly
import DesignTokens.Proofs.Expansion.Collisions
import DesignTokens.Proofs.Expansion.Defaults
import DesignTokens.Proofs.Expansion.Entries
import DesignTokens.Proofs.Expansion.FirstTokens
import DesignTokens.Proofs.Expansion.Flags
import DesignTokens.Proofs.Expansion.Frame
import DesignTokens.Proofs.Expansion.Groups
import DesignTokens.Proofs.Expansion.Isolation
import DesignTokens.Proofs.Expansion.Merging
import DesignTokens.Proofs.Expansion.ModeByMode
import DesignTokens.Proofs.Expansion.Naming
import DesignTokens.Proofs.Expansion.Origins
import DesignTokens.Proofs.Expansion.Overrides
import DesignTokens.Proofs.Expansion.Reordering
import DesignTokens.Proofs.Expansion.Resolved
import DesignTokens.Proofs.Expansion.Scope
import DesignTokens.Proofs.Expansion.Sizes
import DesignTokens.Proofs.Expansion.Soundness
import DesignTokens.Proofs.Expansion.Splitting
import DesignTokens.Proofs.Expansion.Steps
import DesignTokens.Proofs.Expansion.Totality
import DesignTokens.Proofs.Expansion.Variants
import DesignTokens.Proofs.Number.Arithmetic
import DesignTokens.Proofs.Number.DecimalText
import DesignTokens.Proofs.Number.Exact
import DesignTokens.Proofs.Number.Layout
import DesignTokens.Proofs.Number.Numeral
import DesignTokens.Proofs.Number.Overflow
import DesignTokens.Proofs.Number.Rounding
import DesignTokens.Proofs.Number.Size
import DesignTokens.Proofs.Number.Trimming
import DesignTokens.Proofs.Record
import DesignTokens.Proofs.Regeneration
import DesignTokens.Proofs.Schema.Reading
import DesignTokens.Proofs.Schema.Writing
import DesignTokens.Proofs.Selection
import DesignTokens.Proofs.Stylesheet.Cascade
import DesignTokens.Proofs.Stylesheet.Comment
import DesignTokens.Proofs.Stylesheet.Reading
import DesignTokens.Proofs.Stylesheet.Template
import DesignTokens.Proofs.Success
import DesignTokens.Proofs.System.Colors
import DesignTokens.Proofs.System.Modes
import DesignTokens.Proofs.System.Reading
import DesignTokens.Proofs.System.References
import DesignTokens.Proofs.System.Scalar
import DesignTokens.Proofs.System.Spelling
import DesignTokens.Proofs.System.Writing
import DesignTokens.Proofs.Token.Wire
import DesignTokens.Proofs.Value.Keys
import DesignTokens.Proofs.Value.Trail
import DesignTokens.Record
import DesignTokens.Schema.Choice
import DesignTokens.Schema.Field
import DesignTokens.Schema.Issue
import DesignTokens.Schema.Pairs
import DesignTokens.Schema.Scalar
import DesignTokens.Selection
import DesignTokens.Settings.Basic
import DesignTokens.Settings.Reading
import DesignTokens.Stylesheet.Comment
import DesignTokens.Stylesheet.Render
import DesignTokens.Stylesheet.Selector
import DesignTokens.System.Basic
import DesignTokens.System.Reading
import DesignTokens.System.Starter
import DesignTokens.System.Writing
import DesignTokens.Text.Basic
import DesignTokens.Text.Printable
import DesignTokens.Text.Quoted
import DesignTokens.Token.Basic
import DesignTokens.Token.Sheet
import DesignTokens.Token.Wire
import DesignTokens.Value.Basic
import DesignTokens.Value.Pairs
import DesignTokens.Value.Text
