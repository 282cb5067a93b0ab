import DesignTokens.Proofs.Expansion.Assembly
import DesignTokens.Proofs.Expansion.Naming

/-!
# Which modes override something

The override modes of a sheet are those of the colours and then those of the
sizes, each once, of which only the modes have an entry that change a token.
Every entry has a block of its own in a style sheet.
-/

namespace DesignTokens

open Acceptance (PlainMode)
open Grammar Schema Success

/-! ## Modes that change something -/

/-- Whether a mode of this name, other than the default, has content that
gives tokens. -/
def changesIn {alpha : Type} (gives : alpha → Bool)
    (modes : Option (Modes alpha)) (name : String) : Bool :=
  (Modes.overrides (modes.getD [])).any fun mode =>
    mode.name == name && gives mode.content

def Palette.hasColor (palette : Palette) : Bool :=
  palette.colors.any fun entry => entry.2.isSome

def References.hasEntry (references : References) : Bool :=
  !references.entries.isEmpty

/-- Whether an override mode gives tokens in a family. Scales and widths
always do, colours where one of them has a value, and references where there
are any. Time modes are no overrides. -/
def DesignSystem.changesFamily (system : DesignSystem) (name : String) :
    Family → Bool
  | .color => changesIn Palette.hasColor
      (system.colors.map ColorFamily.modes) name
  | .spacing => changesIn (fun _ => true) system.spacing name
  | .gap => changesIn References.hasEntry system.gap name
  | .typography => changesIn (fun _ => true) system.typography name
  | .borderRadius => changesIn References.hasEntry
      (system.border.bind Border.radius) name
  | .borderWidth => changesIn (fun _ => true)
      (system.border.bind Border.width) name
  | .time => false

/-- Whether an override mode gives tokens in some family. -/
def DesignSystem.changes (system : DesignSystem) (name : String) : Bool :=
  Family.all.any (system.changesFamily name)

theorem changesIn_iff {alpha : Type} {gives : alpha → Bool}
    {modes : Modes alpha} {name : String} :
    changesIn gives (some modes) name = true ↔
      ∃ mode ∈ modes.overrides, mode.name = name ∧
        gives mode.content = true := by
  simp [changesIn]

theorem Expansion.Follows.tokensOf_ne_nil_iff {alpha : Type}
    {modes : Modes alpha}
    {expandMode : Mode alpha → Except ExpansionFault (List Token)}
    {expansion : Expansion} {gives : alpha → Bool}
    (follows : expansion.Follows modes expandMode)
    (each : ∀ mode tokens, expandMode mode = .ok tokens →
      (tokens ≠ [] ↔ gives mode.content = true)) (name : String) :
    expansion.tokensOf name ≠ [] ↔
      changesIn gives (some modes) name = true := by
  rw [changesIn_iff]
  constructor
  · intro nonempty
    have listed : name ∈ modes.overrides.map Mode.name := by
      by_contra absent
      exact nonempty (follows.tokensOf_eq_nil absent)
    obtain ⟨mode, member, rfl⟩ := List.mem_map.1 listed
    have made := follows.overrides mode member
    exact ⟨mode, member, rfl, (each mode _ made).1 nonempty⟩
  · rintro ⟨mode, member, rfl, given⟩
    have made := follows.overrides mode member
    exact (each mode _ made).2 given

/-! ## Modes with tokens -/

section Tokens

variable {settings : Settings} {tokens : List Token}

theorem ne_nil_of_names {labels : List String} {f : String → String}
    (names : tokens.map Token.name = labels.map f) :
    tokens ≠ [] ↔ labels ≠ [] := by
  have lengths := congrArg List.length names
  rw [List.length_map, List.length_map] at lengths
  rw [← List.length_pos_iff, ← List.length_pos_iff, lengths]

theorem scaleTokens_ne_nil {stem : String} {token : String × Float → Token}
    {minimum : Float} {count : Int}
    {step : Int → Except Number.ArithmeticFault Float}
    (each : ∀ entry, (token entry).name = stem ++ "-" ++ entry.1)
    (made : scaleTokens token (labelledValues minimum count step) =
      .ok tokens) : tokens ≠ [] :=
  (ne_nil_of_names (names_of_scaleTokens each made)).2
    (List.cons_ne_nil _ _)

theorem references_ne_nil_iff {family : Family} {spacing : Modes Scale}
    {mode : Mode References}
    (made : mode.expandReferences family settings spacing = .ok tokens) :
    tokens ≠ [] ↔ mode.content.hasEntry = true := by
  obtain ⟨found, _, referring⟩ := bind_eq_ok.1 made
  rw [ne_nil_of_names (names_of_references referring)]
  simp [Record.names, References.hasEntry]

theorem colors_ne_nil_iff {schedule : AlphaSchedule}
    {colors : Record (Option Oklch)}
    (made : Token.ofColors settings schedule colors = .ok tokens) :
    tokens ≠ [] ↔ (colors.any fun entry => entry.2.isSome) = true := by
  induction colors generalizing tokens with
  | nil =>
      cases made
      simp
  | cons first rest inductionHypothesis =>
      obtain ⟨name, color⟩ := first
      cases color with
      | none => simpa using inductionHypothesis made
      | some color =>
          obtain ⟨named, namedMade, step⟩ := bind_eq_ok.1 made
          obtain ⟨others, _, same⟩ := bind_eq_ok.1 step
          cases same
          obtain ⟨base, _, step⟩ := bind_eq_ok.1 namedMade
          obtain ⟨variants, _, same⟩ := bind_eq_ok.1 step
          cases same
          simp

theorem palette_ne_nil_iff {family : ColorFamily} {mode : Mode Palette}
    (made : family.expandMode settings mode = .ok tokens) :
    tokens ≠ [] ↔ mode.content.hasColor = true :=
  colors_ne_nil_iff made

end Tokens

/-! ## Families -/

section Families

variable {config : Entries} {modes : Family → List PlainMode}
  {system : DesignSystem} {settings : Settings} {expansion : Expansion}

theorem tokensOf_of_given {alpha : Type}
    {readContent : Entries → Checked alpha} {family : Family}
    {given : Option (Modes alpha)}
    {expandMode : Mode alpha → Except ExpansionFault (List Token)}
    {gives : alpha → Bool} (wellFormed : WellFormed config modes)
    (matched : Matches readContent (modes family) given)
    (each : ∀ mode tokens, expandMode mode = .ok tokens →
      (tokens ≠ [] ↔ gives mode.content = true))
    (expanded : expandGiven (fun typed => Modes.expand typed expandMode)
      given = .ok expansion) (name : String) :
    expansion.tokensOf name ≠ [] ↔ changesIn gives given name = true := by
  rcases expanded_cases wellFormed matched expanded with
    ⟨rfl, rfl⟩ | ⟨typed, rfl, names, made⟩
  · exact iff_of_false (absurd rfl) Bool.false_ne_true
  · exact (Modes.follows_of_expand names made).tokensOf_ne_nil_iff each name

theorem tokensOf_of_referring {family : Family}
    {given : Option (Modes References)} (wellFormed : WellFormed config modes)
    (spacing : Matches (readTokens Scale.read) (modes .spacing)
      system.spacing)
    (matched : Matches (readTokens References.read) (modes family) given)
    (refers : family ∈ referringFamilies)
    (expanded : expandReferring family settings system.spacing given =
      .ok expansion) (name : String) :
    expansion.tokensOf name ≠ [] ↔
      changesIn References.hasEntry given name = true := by
  rcases expandedReferring_cases wellFormed spacing matched refers expanded
    with ⟨rfl, rfl⟩ | ⟨scales, typed, _, rfl, names, made⟩
  · exact iff_of_false (absurd rfl) Bool.false_ne_true
  · have follows := follows_of_references names made
    exact follows.tokensOf_ne_nil_iff
      (fun _ _ => references_ne_nil_iff) name

/-- A family has tokens in exactly the override modes that change it. -/
theorem tokensOf_of_expandFamily {family : Family}
    (wellFormed : WellFormed config modes)
    (readFrom : ReadFrom modes system)
    (expanded : system.expandFamily settings family = .ok expansion)
    (name : String) :
    expansion.tokensOf name ≠ [] ↔
      system.changesFamily name family = true := by
  cases family with
  | color =>
      rcases expandedColors_cases wellFormed readFrom expanded with
        ⟨missing, rfl⟩ | ⟨colors, found, names, made⟩
      · rw [DesignSystem.changesFamily, missing]
        exact iff_of_false (absurd rfl) Bool.false_ne_true
      · rw [DesignSystem.changesFamily, found]
        exact (follows_of_colors names made).tokensOf_ne_nil_iff
          (fun _ _ => palette_ne_nil_iff) name
  | spacing =>
      rw [DesignSystem.changesFamily]
      refine tokensOf_of_given wellFormed readFrom.spacing ?_ expanded name
      intro mode tokens made
      exact iff_of_true (scaleTokens_ne_nil (fun _ => rfl) made) rfl
  | gap =>
      exact tokensOf_of_referring wellFormed readFrom.spacing readFrom.gap
        (by decide) expanded name
  | typography =>
      rw [DesignSystem.changesFamily]
      refine tokensOf_of_given wellFormed readFrom.typography ?_ expanded name
      intro mode tokens made
      exact iff_of_true (scaleTokens_ne_nil (fun _ => rfl) made) rfl
  | borderRadius =>
      exact tokensOf_of_referring wellFormed readFrom.spacing
        readFrom.borderRadius (by decide) expanded name
  | borderWidth =>
      rw [DesignSystem.changesFamily]
      refine tokensOf_of_given wellFormed readFrom.borderWidth ?_ expanded name
      intro mode tokens made
      cases made
      exact iff_of_true (List.cons_ne_nil _ _) rfl
  | time =>
      apply iff_of_false ?_ Bool.false_ne_true
      rcases expanded_cases wellFormed readFrom.time expanded with
        ⟨_, rfl⟩ | ⟨typed, _, _, made⟩
      · exact absurd rfl
      · obtain ⟨default, _, step⟩ := bind_eq_ok.1 made
        obtain ⟨tokens, _, same⟩ := bind_eq_ok.1 step
        cases same
        exact absurd rfl

/-- A mode changes something where some family has tokens in it. -/
theorem changes_iff {expansions : Expansions}
    (wellFormed : WellFormed config modes)
    (readFrom : ReadFrom modes system)
    (expanded : Expansions.ofSystem settings system = .ok expansions)
    (name : String) :
    system.changes name = true ↔ ∃ family expansion,
      system.expandFamily settings family = .ok expansion ∧
        expansion.tokensOf name ≠ [] := by
  rw [DesignSystem.changes, List.any_eq_true]
  constructor
  · rintro ⟨family, _, changes⟩
    have made := ofSystem_eq_ok expanded family
    exact ⟨family, _, made,
      (tokensOf_of_expandFamily wellFormed readFrom made name).2 changes⟩
  · rintro ⟨family, expansion, made, nonempty⟩
    exact ⟨family, family.mem_all,
      (tokensOf_of_expandFamily wellFormed readFrom made name).1 nonempty⟩

theorem hasTokens_eq_changes {expansions : Expansions}
    (wellFormed : WellFormed config modes)
    (readFrom : ReadFrom modes system)
    (expanded : Expansions.ofSystem settings system = .ok expansions)
    (name : String) : expansions.hasTokens name = system.changes name := by
  rw [Bool.eq_iff_iff, Expansions.hasTokens_iff,
    changes_iff wellFormed readFrom expanded]
  simp [ofSystem_eq_ok expanded]

end Families

/-! ## The order of override modes -/

section Order

variable {expansions : Expansions} {names : Family → List String}

theorem Expansions.Apart.mem_overrideNames_iff
    (apart : expansions.Apart names) {families : List Family}
    {name : String} :
    name ∈ expansions.overrideNames families ↔
      ∃ family ∈ families, name ∈ names family := by
  rw [DesignTokens.mem_overrideNames_iff]
  simp only [(apart.ofFamily _).listed]

theorem Expansions.Apart.disjoint_overrideNames
    (apart : expansions.Apart names) :
    (expansions.overrideNames Category.color.families).Disjoint
      (expansions.overrideNames Category.size.families) := by
  intro name inColors inSizes
  obtain ⟨family, isColor, colored⟩ :=
    apart.mem_overrideNames_iff.1 inColors
  obtain ⟨other, isSize, sized⟩ := apart.mem_overrideNames_iff.1 inSizes
  rw [List.mem_singleton.1 isColor] at colored
  exact apart.apart other isSize name colored sized

theorem Expansions.Apart.overrideNames_time
    (apart : expansions.Apart names) :
    expansions.overrideNames Category.time.families = [] := by
  apply List.eq_nil_iff_forall_not_mem.2
  intro name listed
  obtain ⟨family, isTime, member⟩ := apart.mem_overrideNames_iff.1 listed
  have same : family = .time := List.mem_singleton.1 isTime
  rw [same, apart.time] at member
  cases member

theorem overrideNames_append {left right : List Family}
    (disjoint : (expansions.overrideNames left).Disjoint
      (expansions.overrideNames right)) :
    expansions.overrideNames (left ++ right) =
      expansions.overrideNames left ++ expansions.overrideNames right := by
  -- No name on the right repeats one on the left.
  have kept {first second : List String}
      (apart : first.eraseDups.Disjoint second.eraseDups) :
      second.removeAll first = second := by
    rw [List.removeAll, List.filter_eq_self]
    intro name member
    have absent : name ∉ first := fun inFirst =>
      apart (List.mem_eraseDups.2 inFirst) (List.mem_eraseDups.2 member)
    simpa using absent
  rw [Expansions.overrideNames, List.flatMap_append, List.eraseDups_append,
    kept disjoint]
  rfl

/-- The override modes of all families are those of the colours and then those
of the sizes. -/
theorem Expansions.Apart.overrideNames_all
    (apart : expansions.Apart names) :
    expansions.overrideNames Family.all =
      expansions.overrideNames Category.color.families ++
        expansions.overrideNames Category.size.families := by
  have sizes : expansions.overrideNames
      (Category.size.families ++ Category.time.families) =
        expansions.overrideNames Category.size.families := by
    have disjoint :
        (expansions.overrideNames Category.size.families).Disjoint
          (expansions.overrideNames Category.time.families) := by
      rw [apart.overrideNames_time]
      exact List.disjoint_nil_right _
    rw [overrideNames_append disjoint, apart.overrideNames_time,
      List.append_nil]
  have parts : Family.all = Category.color.families ++
      (Category.size.families ++ Category.time.families) := rfl
  rw [parts, overrideNames_append, sizes]
  rw [sizes]
  exact apart.disjoint_overrideNames

end Order

/-! ## Blocks of a style sheet -/

theorem exists_filterMap {alpha beta : Type} {items : List alpha}
    {f : alpha → Option beta} {related : alpha → beta → Prop}
    (each : ∀ item ∈ items, ∃ result, f item = some result ∧
      related item result) :
    ∃ results, items.filterMap f = results ∧
      List.Forall₂ related items results := by
  induction items with
  | nil => exact ⟨[], rfl, .nil⟩
  | cons item rest inductionHypothesis =>
      have parts := List.forall_mem_cons.1 each
      obtain ⟨result, found, held⟩ := parts.1
      obtain ⟨results, same, others⟩ := inductionHypothesis parts.2
      refine ⟨result :: results, ?_, .cons held others⟩
      rw [List.filterMap_cons_some found, same]

/-- A text is the block of an override mode under the selector of its
category. -/
def TokenSheet.IsBlock (sheet : TokenSheet) (selectors : Selectors)
    (entry : String × Record Token) (text : String) : Prop :=
  ∃ category, sheet.categoryOf entry.1 = some category ∧
    text = block (selectors.ofMode category entry.1) entry.2

theorem overrideBlock_of_category {sheet : TokenSheet}
    {entry : String × Record Token} {category : Category}
    (found : sheet.categoryOf entry.1 = some category)
    (nonempty : entry.2 ≠ []) (selectors : Selectors) :
    ∃ text, sheet.overrideBlock? selectors entry = some text ∧
      sheet.IsBlock selectors entry text := by
  obtain ⟨name, tokens⟩ := entry
  obtain ⟨token, rest, rfl⟩ := List.exists_cons_of_ne_nil nonempty
  refine ⟨_, ?_, category, found, rfl⟩
  rw [TokenSheet.overrideBlock?, found]

section Assembled

variable {expansions : Expansions} {names : Family → List String}

theorem ne_nil_of_mem_overrides {entry : String × Record Token}
    (member : entry ∈ expansions.assemble.sheet.overrides) :
    entry.2 ≠ [] := by
  rw [Expansions.overrides_assemble] at member
  obtain ⟨name, listed, rfl⟩ := List.mem_map.1 member
  have has := (List.mem_filter.1 listed).2
  apply mergeTokens_ne_nil
  simpa [Expansions.hasTokens] using has

/-- Every entry of the overrides has a block, in order. -/
theorem Expansions.Apart.blocks_assemble (apart : expansions.Apart names)
    (layout : SheetSettings) :
    ∃ texts, expansions.assemble.sheet.blocks layout =
        TokenSheet.headerBlocks layout ++
          block layout.selectors.root expansions.assemble.sheet.tokens ::
            texts ∧
      List.Forall₂ (expansions.assemble.sheet.IsBlock layout.selectors)
        expansions.assemble.sheet.overrides texts := by
  have each : ∀ entry ∈ expansions.assemble.sheet.overrides, ∃ text,
      expansions.assemble.sheet.overrideBlock? layout.selectors entry =
          some text ∧
        expansions.assemble.sheet.IsBlock layout.selectors entry text := by
    intro entry member
    obtain ⟨category, isolated⟩ := isolated_of_assemble apart member
    exact overrideBlock_of_category isolated.found
      (ne_nil_of_mem_overrides member) layout.selectors
  obtain ⟨texts, same, related⟩ := exists_filterMap each
  refine ⟨texts, ?_, related⟩
  rw [TokenSheet.blocks, same, List.append_assoc]
  rfl

end Assembled

/-! ## Accepted configurations -/

/-- The override modes of colours and sizes are listed once each and apart,
and time has none. Those in which some family has tokens are the keys of the
overrides, in this order. No entry is empty, and every entry has a block of
its own. -/
theorem overrides_complete {config : Value} {system : DesignSystem}
    {settings : Settings} {generated : Generated}
    (accepted : Acceptance.accept config = .ok ())
    (read : DesignSystem.read config = .accepted system)
    (made : system.expand settings = .ok generated) :
    generated.sheet.modes.color.overrides.Nodup ∧
    generated.sheet.modes.size.overrides.Nodup ∧
    generated.sheet.modes.color.overrides.Disjoint
      generated.sheet.modes.size.overrides ∧
    generated.sheet.modes.time.overrides = [] ∧
    generated.sheet.overrides.names =
      (generated.sheet.modes.color.overrides ++
        generated.sheet.modes.size.overrides).filter system.changes ∧
    (∀ name, system.changes name = true ↔ ∃ family expansion,
      system.expandFamily settings family = .ok expansion ∧
        expansion.tokensOf name ≠ []) ∧
    (∀ entry ∈ generated.sheet.overrides, entry.2 ≠ []) ∧
    ∀ layout, ∃ texts, generated.sheet.blocks layout =
        TokenSheet.headerBlocks layout ++
          block layout.selectors.root generated.sheet.tokens :: texts ∧
      List.Forall₂ (generated.sheet.IsBlock layout.selectors)
        generated.sheet.overrides texts := by
  obtain ⟨entries, modes, rfl, wellFormed, readFrom⟩ :=
    exists_modes accepted read
  obtain ⟨expansions, expanded, rfl⟩ := exists_expansions made
  have apart := apart_of_wellFormed wellFormed readFrom expanded
  have keys : expansions.assemble.sheet.overrides.names =
      (expansions.overrideNames Category.color.families ++
        expansions.overrideNames Category.size.families).filter
          system.changes := by
    rw [Expansions.names_overrides_assemble, apart.overrideNames_all]
    apply List.filter_congr
    intro name _
    exact hasTokens_eq_changes wellFormed readFrom expanded name
  exact ⟨nodup_eraseDups _, nodup_eraseDups _, apart.disjoint_overrideNames,
    apart.overrideNames_time, keys,
    changes_iff wellFormed readFrom expanded,
    fun _ => ne_nil_of_mem_overrides, apart.blocks_assemble⟩

/-- A colour mode without a value and a mode without gaps, which change
nothing, beside a spacing mode that does. -/
def sparseTheme : Value :=
  .map [(.str "colors", writtenFamily
      [("light", [(.str "ink", .null)]), ("dark", [(.str "ink", .null)])]),
    (.str "spacing", writtenFamily
      [("regular", writtenScale 8 (.int 2)),
        ("compact", writtenScale 4 (.int 2))]),
    (.str "gap", writtenFamily
      [("regular", [(.str "s", .int 1)]), ("airy", [])])]

theorem sparseTheme_complete :
    ∃ system generated,
      Acceptance.accept sparseTheme = .ok () ∧
      DesignSystem.read sparseTheme = .accepted system ∧
      system.expand {} = .ok generated ∧
      generated.sheet.modes.color.overrides = ["dark"] ∧
      generated.sheet.modes.size.overrides = ["compact", "airy"] ∧
      generated.sheet.overrides.names = ["compact"] ∧
      generated.sheet.overrides.names =
        (generated.sheet.modes.color.overrides ++
          generated.sheet.modes.size.overrides).filter system.changes := by
  refine ⟨_, _, rfl, rfl, rfl, rfl, rfl, rfl, ?_⟩
  obtain ⟨_, _, _, _, keys, _⟩ :=
    @overrides_complete sparseTheme _ {} _ rfl rfl rfl
  exact keys

end DesignTokens
