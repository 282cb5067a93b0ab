import DesignTokens.Generation
import DesignTokens.Proofs.Expansion.Merging
import DesignTokens.Proofs.Expansion.Soundness

/-!
# Categories are kept apart

An override mode belongs to one category alone, and so do all tokens that it
changes. The style sheet therefore puts every block under the selector of the
tokens in it, and none under a selector of time modes.
-/

namespace DesignTokens

open Acceptance (PlainMode)
open Grammar Success

/-! ## Categories -/

/-- The category of a family. -/
def Family.category : Family → Category
  | .color => .color
  | .time => .time
  | _ => .size

theorem mem_families_iff (category : Category) (family : Family) :
    family ∈ category.families ↔ family.category = category := by
  cases category <;> cases family <;> decide

theorem Family.category_eq_time {family : Family}
    (isTime : family.category = .time) : family = .time := by
  cases family <;> first | rfl | cases isTime

theorem Family.category_eq_color {family : Family}
    (isColor : family.category = .color) : family = .color := by
  cases family <;> first | rfl | cases isColor

theorem mem_overrideNames_iff {expansions : Expansions} {name : String}
    {families : List Family} :
    name ∈ expansions.overrideNames families ↔
      ∃ family ∈ families,
        name ∈ (expansions.ofFamily family).modes.overrides := by
  rw [Expansions.overrideNames, List.mem_eraseDups, List.mem_flatMap]

theorem ofCategory_modeTable (expansions : Expansions) (category : Category) :
    (expansions.modeTable.ofCategory category).overrides =
      expansions.overrideNames category.families := by
  cases category <;> rfl

theorem ofSystem_eq_ok {settings : Settings} {system : DesignSystem}
    {expansions : Expansions}
    (expanded : Expansions.ofSystem settings system = .ok expansions)
    (family : Family) :
    system.expandFamily settings family =
      .ok (expansions.ofFamily family) := by
  obtain ⟨spacing, first, step⟩ := bind_eq_ok.1 expanded
  obtain ⟨color, second, step⟩ := bind_eq_ok.1 step
  obtain ⟨gap, third, step⟩ := bind_eq_ok.1 step
  obtain ⟨typography, fourth, step⟩ := bind_eq_ok.1 step
  obtain ⟨borderRadius, fifth, step⟩ := bind_eq_ok.1 step
  obtain ⟨borderWidth, sixth, step⟩ := bind_eq_ok.1 step
  obtain ⟨time, seventh, same⟩ := bind_eq_ok.1 step
  cases same
  cases family <;> assumption

/-- A design system expands where each of its families does. -/
theorem ofSystem_iff {settings : Settings} {system : DesignSystem}
    {expansions : Expansions} :
    Expansions.ofSystem settings system = .ok expansions ↔
      ∀ family, system.expandFamily settings family =
        .ok (expansions.ofFamily family) := by
  constructor
  · exact ofSystem_eq_ok
  · intro each
    simp only [Expansions.ofSystem, each, ok_bind]
    rfl

theorem exists_ofSystem {settings : Settings} {system : DesignSystem}
    {good : Family → Expansion → Prop}
    (each : ∀ family, ∃ expansion,
      system.expandFamily settings family = .ok expansion ∧
        good family expansion) :
    ∃ expansions, Expansions.ofSystem settings system = .ok expansions ∧
      ∀ family, good family (expansions.ofFamily family) := by
  choose expansion expanded isGood using each
  let expansions : Expansions :=
    { color := expansion .color
      spacing := expansion .spacing
      gap := expansion .gap
      typography := expansion .typography
      borderRadius := expansion .borderRadius
      borderWidth := expansion .borderWidth
      time := expansion .time }
  have ofFamily (family : Family) :
      expansions.ofFamily family = expansion family := by
    cases family <;> rfl
  refine ⟨expansions, ofSystem_iff.2 fun family => ?_, fun family => ?_⟩
  · rw [ofFamily]
    exact expanded family
  · rw [ofFamily]
    exact isGood family

/-! ## Isolation -/

/-- Expansions whose families have these override modes, where no mode
overrides colours as well as sizes. -/
structure Expansions.Apart (expansions : Expansions)
    (names : Family → List String) : Prop where
  ofFamily : ∀ family, (expansions.ofFamily family).OfFamily family
    (names family)
  time : names .time = []
  apart : ∀ family ∈ Category.size.families, ∀ name ∈ names .color,
    name ∉ names family

section Apart

variable {expansions : Expansions} {names : Family → List String}

/-- A mode overrides families of one category only. -/
theorem Expansions.Apart.category_unique (apart : expansions.Apart names)
    {name : String} {family other : Family} (inFamily : name ∈ names family)
    (inOther : name ∈ names other) : family.category = other.category := by
  have neverTime {held : Family} (inHeld : name ∈ names held) :
      held.category ≠ .time := by
    intro isTime
    rw [Family.category_eq_time isTime, apart.time] at inHeld
    cases inHeld
  have neverBoth {held sized : Family} (inHeld : name ∈ names held)
      (isColor : held.category = .color) (inSized : name ∈ names sized)
      (isSize : sized.category = .size) : False := by
    rw [Family.category_eq_color isColor] at inHeld
    exact apart.apart sized ((mem_families_iff _ sized).2 isSize) name inHeld
      inSized
  have notTime := neverTime inFamily
  have otherNotTime := neverTime inOther
  cases first : family.category with
  | time => exact absurd first notTime
  | color =>
      cases second : other.category with
      | time => exact absurd second otherNotTime
      | color => rfl
      | size => exact (neverBoth inFamily first inOther second).elim
  | size =>
      cases second : other.category with
      | time => exact absurd second otherNotTime
      | size => rfl
      | color => exact (neverBoth inOther second inFamily first).elim

theorem Expansions.Apart.mem_ofCategory_iff (apart : expansions.Apart names)
    {name : String} {family : Family} (inFamily : name ∈ names family)
    (category : Category) :
    name ∈ (expansions.modeTable.ofCategory category).overrides ↔
      category = family.category := by
  rw [ofCategory_modeTable, mem_overrideNames_iff]
  constructor
  · rintro ⟨other, inCategory, listed⟩
    rw [(apart.ofFamily other).listed] at listed
    rw [← (mem_families_iff category other).1 inCategory]
    exact apart.category_unique listed inFamily
  · rintro rfl
    refine ⟨family, (mem_families_iff _ family).2 rfl, ?_⟩
    rwa [(apart.ofFamily family).listed]

theorem Expansions.Apart.category_of_overridesOf
    (apart : expansions.Apart names) {name : String} {family : Family}
    (inFamily : name ∈ names family) {token : Token}
    (member : token ∈ expansions.overridesOf name) :
    token.family.category = family.category := by
  obtain ⟨other, _, held⟩ := List.mem_flatMap.1 member
  cases found : (expansions.ofFamily other).overrides.lookup name with
  | none =>
      rw [found] at held
      cases held
  | some tokens =>
      rw [found] at held
      have entry := Record.mem_of_lookup found
      rw [(apart.ofFamily other).tokens _ entry token held]
      exact apart.category_unique ((apart.ofFamily other).keys _ entry)
        inFamily

end Apart

/-- An override mode of a token sheet that belongs, with all of its tokens, to
this category alone. Time modes override nothing. -/
structure TokenSheet.Isolated (sheet : TokenSheet) (category : Category)
    (entry : String × Record Token) : Prop where
  notTime : category ≠ .time
  only : ∀ other, entry.1 ∈ (sheet.modes.ofCategory other).overrides ↔
    other = category
  found : sheet.categoryOf entry.1 = some category
  tokens : ∀ token ∈ entry.2, token.2.family ∈ category.families

theorem categoryOf_of_only {sheet : TokenSheet} {category : Category}
    {name : String}
    (only : ∀ other, name ∈ (sheet.modes.ofCategory other).overrides ↔
      other = category) :
    sheet.categoryOf name = some category := by
  have test (other : Category) :
      (sheet.modes.ofCategory other).overrides.contains name =
        decide (other = category) := by
    rw [Bool.eq_iff_iff, List.contains_iff_mem, only, decide_eq_true_eq]
  rw [TokenSheet.categoryOf]
  simp only [test]
  cases category <;> decide

/-- The override modes of assembled expansions are isolated. -/
theorem isolated_of_assemble {expansions : Expansions}
    {names : Family → List String} (apart : expansions.Apart names)
    {entry : String × Record Token}
    (member : entry ∈ expansions.assemble.sheet.overrides) :
    ∃ category, expansions.assemble.sheet.Isolated category entry := by
  obtain ⟨merged, inMerged, rfl⟩ := List.mem_map.1 member
  obtain ⟨named, inNamed, kept⟩ := List.mem_filterMap.1 inMerged
  obtain ⟨name, listed, rfl⟩ := List.mem_map.1 inNamed
  dsimp only at kept
  split at kept
  · cases kept
  · cases kept
    obtain ⟨family, _, inFamily⟩ := mem_overrideNames_iff.1 listed
    rw [(apart.ofFamily family).listed] at inFamily
    have only := apart.mem_ofCategory_iff inFamily
    refine ⟨family.category, fun isTime => ?_, only, categoryOf_of_only only,
      fun token member => ?_⟩
    · rw [Family.category_eq_time isTime, apart.time] at inFamily
      cases inFamily
    · rw [mem_families_iff]
      exact apart.category_of_overridesOf inFamily (mem_mergeTokens member)

/-! ## Accepted configurations -/

theorem apart_of_wellFormed {config : Entries}
    {modes : Family → List PlainMode} {system : DesignSystem}
    {settings : Settings} {expansions : Expansions}
    (wellFormed : WellFormed config modes)
    (readFrom : ReadFrom modes system)
    (expanded : Expansions.ofSystem settings system = .ok expansions) :
    expansions.Apart (overridesIn modes) := by
  refine ⟨fun family => ofFamily_of_expandFamily wellFormed readFrom
    (ofSystem_eq_ok expanded family), rfl, fun family member name colors
      sizes => ?_⟩
  have notTime : family ≠ .time := by
    rintro rfl
    exact absurd member (by decide)
  have overridden {held : Family} (apart : held ≠ .time)
      (inHeld : name ∈ overridesIn modes held) :
      IsOverride (modes held) name := by
    rw [overridesIn, if_neg apart] at inHeld
    exact (Acceptance.mem_overrideNames_iff (wellFormed.distinct held)
      name).1 inHeld
  exact wellFormed.isolated family member name
    (overridden (by decide) colors) (overridden notTime sizes)

/-- A token sheet is made where the configuration is accepted and read, the
settings are read and the families expand. -/
theorem generate_iff {config settings : Value} {generated : Generated} :
    generate config settings = .ok generated ↔
      Acceptance.accept config = .ok () ∧ ∃ system chosen expansions,
        DesignSystem.read config = .accepted system ∧
          Settings.readGiven settings = .ok chosen ∧
            Expansions.ofSystem chosen system = .ok expansions ∧
              expansions.assemble = generated := by
  constructor
  · intro made
    obtain ⟨system, read, step⟩ := bind_eq_ok.1 made
    obtain ⟨chosen, settled, expand⟩ := bind_eq_ok.1 step
    obtain ⟨expansions, expanded, same⟩ := bind_eq_ok.1 expand
    obtain ⟨accepted, found⟩ := check_bind_eq_ok.1 read
    rw [mapError_eq_ok] at accepted expanded found settled
    exact ⟨accepted, system, chosen, expansions,
      Schema.Checked.toExcept_eq_ok.1 found, settled, expanded,
      Except.ok.inj same⟩
  · rintro ⟨accepted, system, chosen, expansions, read, settled, expanded,
      rfl⟩
    rw [generate, readAccepted, accepted, read, settled]
    change system.expand chosen = _
    rw [DesignSystem.expand, expanded]
    rfl

/-- The stages of a token sheet that is made. -/
theorem generate_eq_ok {config settings : Value} {generated : Generated}
    (made : generate config settings = .ok generated) :
    ∃ entries modes system chosen expansions,
      config = .map entries ∧ WellFormed entries modes ∧
        ReadFrom modes system ∧
        Expansions.ofSystem chosen system = .ok expansions ∧
        generated = expansions.assemble := by
  obtain ⟨accepted, system, chosen, expansions, read, _, expanded, rfl⟩ :=
    generate_iff.1 made
  cases config with
  | map entries =>
      obtain ⟨modes, wellFormed⟩ :=
        (Acceptance.acceptEntries_iff entries).1 accepted
      exact ⟨entries, modes, system, chosen, expansions, rfl, wellFormed,
        readFrom_of_read wellFormed read, expanded, rfl⟩
  | _ => cases accepted

theorem mem_blocks {sheet : TokenSheet} {layout : SheetSettings}
    {text : String} (member : text ∈ sheet.blocks layout) :
    text ∈ TokenSheet.headerBlocks layout ∨
      text = block layout.selectors.root sheet.tokens ∨
      ∃ category, ∃ entry ∈ sheet.overrides,
        sheet.categoryOf entry.1 = some category ∧
          text = block (layout.selectors.ofMode category entry.1)
            entry.2 := by
  rcases List.mem_append.1 member with first | override
  · rcases List.mem_append.1 first with header | root
    · exact .inl header
    · exact .inr (.inl (List.mem_singleton.1 root))
  · obtain ⟨entry, inOverrides, written⟩ := List.mem_filterMap.1 override
    rw [TokenSheet.overrideBlock?] at written
    split at written
    · cases written
    · cases written
    · rename_i category found _
      cases written
      exact .inr (.inr ⟨category, entry, inOverrides, found, rfl⟩)

/-- Every override mode of a token sheet belongs to one category alone, with
all of its tokens. Every block of a style sheet is its header, the block of
the default tokens, or the block of such a mode under the selector of its
category. -/
theorem overrides_isolated {config settings : Value} {generated : Generated}
    (made : generate config settings = .ok generated) :
    (∀ entry ∈ generated.sheet.overrides, ∃ category,
      generated.sheet.Isolated category entry) ∧
    ∀ layout, ∀ text ∈ generated.sheet.blocks layout,
      text ∈ TokenSheet.headerBlocks layout ∨
        text = block layout.selectors.root generated.sheet.tokens ∨
        ∃ category, ∃ entry ∈ generated.sheet.overrides,
          generated.sheet.Isolated category entry ∧
            text = block (layout.selectors.ofMode category entry.1)
              entry.2 := by
  obtain ⟨entries, modes, system, chosen, expansions, rfl, wellFormed,
    readFrom, expanded, rfl⟩ := generate_eq_ok made
  have apart := apart_of_wellFormed wellFormed readFrom expanded
  refine ⟨fun entry => isolated_of_assemble apart,
    fun layout text member => ?_⟩
  rcases mem_blocks member with
    header | root | ⟨category, entry, inOverrides, found, rfl⟩
  · exact .inl header
  · exact .inr (.inl root)
  · obtain ⟨only, isolated⟩ := isolated_of_assemble apart inOverrides
    rw [isolated.found] at found
    cases found
    exact .inr (.inr ⟨category, entry, inOverrides, isolated, rfl⟩)

/-- Two colour modes that define nothing and two spacing modes. -/
def spacedTheme : Value :=
  .map [(.str "colors", writtenFamily
      [("light", [(.str "ink", .null)]), ("dark", [(.str "ink", .null)])]),
    (.str "spacing", writtenFamily
      [("regular", writtenScale 8 (.int 4)),
        ("compact", writtenScale 4 (.int 4))])]

theorem spacedTheme_isolated :
    ∃ generated, generate spacedTheme .null = .ok generated ∧
      generated.sheet.overrides.map Prod.fst = ["compact"] ∧
      ∀ entry ∈ generated.sheet.overrides, ∃ category,
        generated.sheet.Isolated category entry := by
  have names : (generate spacedTheme .null).toOption.map (fun generated =>
      generated.sheet.overrides.map Prod.fst) = some ["compact"] := by
    decide +kernel
  cases made : generate spacedTheme .null with
  | error fault =>
      rw [made] at names
      cases names
  | ok generated =>
      rw [made] at names
      exact ⟨generated, rfl, Option.some.inj names,
        (overrides_isolated made).1⟩

end DesignTokens
