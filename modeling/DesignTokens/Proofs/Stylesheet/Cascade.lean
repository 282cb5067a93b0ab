import DesignTokens.Proofs.Expansion.Overrides
import DesignTokens.Proofs.Stylesheet.Reading

/-!
# The cascade of a style sheet

With the plain selectors every mode has a selector of its own. The style sheet
of a configuration holds the values of its tokens and nothing else, and where
the block of a mode is laid over the default values, these are the values as
they stand in the mode.
-/

namespace DesignTokens

open Grammar Success

/-! ## Selectors of modes -/

namespace Selectors

theorem ofMode_default (category : Category) (mode : String) :
    ofMode {} category mode =
      "[data-" ++ category.name ++ "-mode=\"" ++ mode ++ "\"]" := by
  apply String.toList_injective
  rw [ofMode, String.toList_ofList]
  cases category <;> simp [template, fillTemplate, Category.name]

/-- A mode is known by its selector, also among all categories. -/
theorem eq_of_ofMode {first second : Category} {left right : String}
    (same : ofMode {} first left = ofMode {} second right) :
    left = right := by
  rw [ofMode_default, ofMode_default] at same
  have texts := congrArg String.toList same
  cases first <;> cases second <;> simp [Category.name] at texts
  all_goals exact String.toList_injective texts

theorem root_ne_ofMode (category : Category) (mode : String) :
    ":root" ≠ ofMode {} category mode := by
  intro same
  rw [ofMode_default] at same
  have texts := congrArg String.toList same
  simp at texts

theorem newline_not_mem_ofMode (category : Category) {mode : String}
    (plain : '\n' ∉ mode.toList) :
    '\n' ∉ (ofMode {} category mode).toList := by
  rw [ofMode_default]
  cases category <;> simp [Category.name, plain]

end Selectors

/-! ## Blocks of modes -/

/-- Modes, names and values fit on a line, and no name has a colon before a
blank. -/
structure TokenSheet.Plain (sheet : TokenSheet) : Prop where
  modes : ∀ mode ∈ sheet.overrides.names, '\n' ∉ mode.toList
  tokens : ∀ entry ∈ sheet.tokens.mapValues Token.value,
    SheetBlock.PlainEntry entry
  overrides : ∀ mode ∈ sheet.overrides,
    ∀ entry ∈ mode.2.mapValues Token.value, SheetBlock.PlainEntry entry

/-- A block shows an override mode: it has the selector of the mode in its
category and the values of the tokens that the mode changes. Laid over the
default values, these are the values in the mode. -/
structure TokenSheet.Shows (sheet : TokenSheet)
    (entry : String × Record Token) (shown : SheetBlock) : Prop where
  selector : ∃ category, sheet.categoryOf entry.1 = some category ∧
    shown.selector = ({} : Selectors).ofMode category entry.1
  declarations : shown.declarations = entry.2.mapValues Token.value
  cascade : Record.overlay (sheet.tokens.mapValues Token.value)
      shown.declarations =
    (sheet.resolve entry.1).mapValues Token.value

section Sheets

variable {sheet : TokenSheet} {entry : String × Record Token}

theorem TokenSheet.overridesOf_of_mem
    (distinct : sheet.overrides.names.Nodup)
    (member : entry ∈ sheet.overrides) :
    sheet.overridesOf entry.1 = entry.2 := by
  rw [overridesOf, Record.lookup_of_mem distinct member]
  rfl

theorem TokenSheet.IsBlock.exists_shown {text : String}
    (isBlock : sheet.IsBlock {} entry text)
    (distinct : sheet.overrides.names.Nodup)
    (member : entry ∈ sheet.overrides) :
    ∃ shown : SheetBlock, text = shown.text ∧ sheet.Shows entry shown := by
  obtain ⟨category, found, rfl⟩ := isBlock
  refine ⟨.ofTokens (({} : Selectors).ofMode category entry.1) entry.2,
    (SheetBlock.text_ofTokens _ _).symm, ⟨category, found, rfl⟩, rfl, ?_⟩
  rw [TokenSheet.resolve, TokenSheet.overridesOf_of_mem distinct member,
    Record.mapValues_overlay]
  rfl

theorem exists_shown {entries : Record (Record Token)} {texts : List String}
    (areBlocks : List.Forall₂ (sheet.IsBlock {}) entries texts)
    (distinct : sheet.overrides.names.Nodup)
    (listed : entries ⊆ sheet.overrides) :
    ∃ shown : List SheetBlock, texts = shown.map SheetBlock.text ∧
      List.Forall₂ sheet.Shows entries shown := by
  induction areBlocks with
  | nil => exact ⟨[], rfl, .nil⟩
  | cons isBlock _ inductionHypothesis =>
      have parts := List.cons_subset.1 listed
      obtain ⟨block, rfl, shows⟩ :=
        isBlock.exists_shown distinct parts.1
      obtain ⟨others, rfl, related⟩ := inductionHypothesis parts.2
      exact ⟨block :: others, rfl, .cons shows related⟩

theorem TokenSheet.Shows.plain {shown : SheetBlock}
    (shows : sheet.Shows entry shown) (plain : sheet.Plain)
    (member : entry ∈ sheet.overrides) : shown.Plain := by
  obtain ⟨category, _, selector⟩ := shows.selector
  constructor
  · rw [selector]
    exact Selectors.newline_not_mem_ofMode category
      (plain.modes entry.1 (Record.mem_names member))
  · rw [shows.declarations]
    exact plain.overrides entry member

/-- Different modes are shown under different selectors. -/
theorem nodup_selectors {entries : Record (Record Token)}
    {shown : List SheetBlock}
    (related : List.Forall₂ sheet.Shows entries shown)
    (distinct : entries.names.Nodup) :
    (shown.map SheetBlock.selector).Nodup := by
  induction related with
  | nil => exact List.nodup_nil
  | cons shows others inductionHypothesis =>
      have parts := List.nodup_cons.1 distinct
      apply List.nodup_cons.2
      constructor
      · intro repeated
        obtain ⟨block, later, same⟩ := List.mem_map.1 repeated
        obtain ⟨other, inside, otherShows⟩ :=
          exists_left_of_mem others later
        obtain ⟨_, _, selector⟩ := shows.selector
        obtain ⟨_, _, otherSelector⟩ := otherShows.selector
        rw [selector, otherSelector] at same
        have sameMode := Selectors.eq_of_ofMode same
        exact parts.1 (sameMode ▸ Record.mem_names inside)
      · exact inductionHypothesis parts.2

theorem root_not_mem_selectors {entries : Record (Record Token)}
    {shown : List SheetBlock}
    (related : List.Forall₂ sheet.Shows entries shown) :
    ":root" ∉ shown.map SheetBlock.selector := by
  intro listed
  obtain ⟨block, member, isRoot⟩ := List.mem_map.1 listed
  obtain ⟨entry, _, shows⟩ := exists_left_of_mem related member
  obtain ⟨category, _, selector⟩ := shows.selector
  rw [selector] at isRoot
  exact Selectors.root_ne_ofMode category entry.1 isRoot.symm

end Sheets

/-! ## Accepted configurations -/

/-- Where names and values fit on their lines, a style sheet is read back as a
block of all default values and one block for each override mode, in order,
each under a selector of its own. -/
theorem stylesheet_carries {config settings : Value} {generated : Generated}
    (made : generate config settings = .ok generated)
    (plain : generated.sheet.Plain) :
    ∃ shown, readStylesheet (generated.sheet.stylesheet {}) =
        some (.ofTokens ":root" generated.sheet.tokens :: shown) ∧
      List.Forall₂ generated.sheet.Shows generated.sheet.overrides shown ∧
      (":root" :: shown.map SheetBlock.selector).Nodup := by
  obtain ⟨entries, modes, system, chosen, expansions, rfl, wellFormed,
    readFrom, expanded, rfl⟩ := generate_eq_ok made
  have apart := apart_of_wellFormed wellFormed readFrom expanded
  have distinct := expansions.nodup_names_overrides_assemble
  obtain ⟨texts, blocks, areBlocks⟩ := apart.blocks_assemble {}
  obtain ⟨shown, rfl, related⟩ :=
    exists_shown areBlocks distinct (List.Subset.refl _)
  let root := SheetBlock.ofTokens ":root" expansions.assemble.sheet.tokens
  have single : '\n' ∉ ":root".toList := by decide
  have rootPlain : root.Plain := ⟨single, plain.tokens⟩
  have allPlain : ∀ block ∈ root :: shown, block.Plain := by
    intro block member
    rcases List.mem_cons.1 member with rfl | later
    · exact rootPlain
    · obtain ⟨entry, inside, shows⟩ := exists_left_of_mem related later
      exact shows.plain plain inside
  have written : expansions.assemble.sheet.blocks {} =
      (root :: shown).map SheetBlock.text := by
    rw [blocks, List.map_cons, SheetBlock.text_ofTokens]
    rfl
  refine ⟨shown, ?_, related, List.nodup_cons.2
    ⟨root_not_mem_selectors related, nodup_selectors related distinct⟩⟩
  rw [TokenSheet.stylesheet, written]
  exact readStylesheet_text (List.cons_ne_nil root shown) allPlain

/-- Spacing with an override mode whose name has a colon before a blank. -/
def wideSpacing : Value :=
  .map [(.str "spacing", writtenFamily
    [("regular", writtenScale 8 (.int 1)),
      ("wide: print", writtenScale 16 (.int 1))])]

theorem wideSpacing_carried :
    ∃ generated shown,
      generate wideSpacing .null = .ok generated ∧
      generated.sheet.Plain ∧
      generated.sheet.overrides.names = ["wide: print"] ∧
      readStylesheet (generated.sheet.stylesheet {}) =
        some (.ofTokens ":root" generated.sheet.tokens :: shown) ∧
      List.Forall₂ generated.sheet.Shows generated.sheet.overrides shown := by
  have made : ∃ generated, generate wideSpacing .null = .ok generated ∧
      generated.sheet.overrides.names = ["wide: print"] ∧
      generated.sheet.Plain := by
    refine ⟨_, rfl, rfl, ?_, ?_, ?_⟩ <;> decide +kernel
  obtain ⟨generated, made, names, plain⟩ := made
  obtain ⟨shown, read, shows, _⟩ := stylesheet_carries made plain
  exact ⟨generated, shown, made, plain, names, read, shows⟩

end DesignTokens
