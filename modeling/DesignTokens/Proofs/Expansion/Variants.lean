import DesignTokens.Proofs.Expansion.Origins

/-!
# Variants of changed colours

An override mode that changes a colour gives it a variant for every level of
the opacities that apply to the mode. The variants of other levels stay those
of the default mode.
-/

namespace DesignTokens

open Grammar Success

/-! ## Variants of colours -/

/-- A token is a variant of the colour of this name. -/
def Token.IsVariantOf (color : String) (token : Token) : Prop :=
  ∃ metadata, token.metadata = some metadata ∧
    metadata.isAlphaVariant = some true ∧ metadata.baseColor = some color

/-- The level of opacity that a token has, if it is a variant. -/
def Token.level? (token : Token) : Option String :=
  token.metadata.bind Metadata.alphaLevel

section Colors

variable {settings : Settings} {schedule : AlphaSchedule}
  {colors : Record (Option Oklch)} {tokens : List Token} {token : Token}

theorem level_of_variant {name : String} {color : Oklch}
    {level : String × Float}
    (made : Token.ofVariant settings name color level = .ok token) :
    token.name = settings.variantName name level.1 ∧
      token.level? = some level.1 := by
  obtain ⟨value, _, same⟩ := bind_eq_ok.1 made
  cases same
  exact ⟨rfl, rfl⟩

theorem variant_of_namedColor {name color : String} {given : Oklch}
    (made : Token.ofNamedColor settings schedule name given = .ok tokens)
    (member : token ∈ tokens) (variant : token.IsVariantOf color) :
    name = color ∧ ∃ level ∈ schedule,
      Token.ofVariant settings name given level = .ok token := by
  obtain ⟨base, baseMade, step⟩ := bind_eq_ok.1 made
  obtain ⟨variants, variantsMade, same⟩ := bind_eq_ok.1 step
  cases same
  obtain ⟨metadata, held, isVariant, named⟩ := variant
  rcases List.mem_cons.1 member with rfl | later
  · obtain ⟨value, _, same⟩ := bind_eq_ok.1 baseMade
    cases same
    cases held
    cases isVariant
  · obtain ⟨level, inside, levelMade⟩ := mem_of_mapM variantsMade later
    refine ⟨?_, level, inside, levelMade⟩
    obtain ⟨value, _, same⟩ := bind_eq_ok.1 levelMade
    cases same
    cases held
    exact Option.some.inj named

/-- A variant of a colour is formatted from the colour, with an opacity of the
schedule. -/
theorem variant_of_colors {color : String}
    (made : Token.ofColors settings schedule colors = .ok tokens)
    (member : token ∈ tokens) (variant : token.IsVariantOf color) :
    ∃ own level, (color, some own) ∈ colors ∧ level ∈ schedule ∧
      Token.ofVariant settings color own level = .ok token := by
  obtain ⟨name, own, named, inside, namedMade, among⟩ :=
    exists_namedColor_of_mem made member
  obtain ⟨rfl, level, listed, levelMade⟩ :=
    variant_of_namedColor namedMade among variant
  exact ⟨own, level, inside, listed, levelMade⟩

/-- A colour has a variant of every level of the schedule. -/
theorem exists_variant {color : String} {given : Oklch}
    {level : String × Float}
    (made : Token.ofColors settings schedule colors = .ok tokens)
    (declared : (color, some given) ∈ colors) (listed : level ∈ schedule) :
    ∃ token ∈ tokens, token.name = settings.variantName color level.1 := by
  obtain ⟨named, namedMade, inside⟩ := exists_namedColor made declared
  obtain ⟨base, _, step⟩ := bind_eq_ok.1 namedMade
  obtain ⟨variants, variantsMade, same⟩ := bind_eq_ok.1 step
  cases same
  obtain ⟨token, among, levelMade⟩ := mem_mapM_of_mem variantsMade listed
  exact ⟨token, inside (List.mem_cons_of_mem _ among),
    (level_of_variant levelMade).1⟩

end Colors

/-! ## Other families -/

/-- Tokens of which none is a variant of a colour. -/
def NoVariants (tokens : List Token) : Prop :=
  ∀ token ∈ tokens, ∀ color, ¬ token.IsVariantOf color

theorem unvaried_of_scaleTokens {token : String × Float → Token}
    {values : Except Number.ArithmeticFault (List (String × Float))}
    {tokens : List Token}
    (each : ∀ entry color, ¬ (token entry).IsVariantOf color)
    (made : scaleTokens token values = .ok tokens) : NoVariants tokens := by
  obtain ⟨entries, _, rfl⟩ := map_eq_ok.1 ((mapError_eq_ok _).1 made)
  intro held member
  obtain ⟨entry, _, rfl⟩ := List.mem_map.1 member
  exact each entry

theorem unvaried_of_references {family : Family} {settings : Settings}
    {spacing : Modes Scale} {mode : Mode References} {tokens : List Token}
    (made : mode.expandReferences family settings spacing = .ok tokens) :
    NoVariants tokens := by
  obtain ⟨chosen, _, referring⟩ := bind_eq_ok.1 made
  intro token member color variant
  obtain ⟨entry, _, entryMade⟩ := mem_of_mapM referring member
  obtain ⟨size, _, same⟩ := bind_eq_ok.1 entryMade
  cases same
  obtain ⟨_, ⟨⟩, _⟩ := variant

/-- Only colours have variants. -/
theorem Token.From.color_of_variant {settings : Settings}
    {system : DesignSystem} {family : Family} {token : Token} {color : String}
    (origin : Token.From settings system family token)
    (variant : token.IsVariantOf color) : family = .color := by
  have dimension {stem unit : String} {of : Family} {size : Float}
      {digits : String} (color : String) :
      ¬ (Token.dimension of stem digits unit size).IsVariantOf color := by
    rintro ⟨_, ⟨⟩, _⟩
  cases origin with
  | color => rfl
  | spacing _ _ made inside =>
      have none := unvaried_of_scaleTokens (fun _ => dimension) made
      exact (none token inside color variant).elim
  | typography _ _ made inside =>
      have none := unvaried_of_scaleTokens (fun _ => dimension) made
      exact (none token inside color variant).elim
  | borderWidth _ _ inside =>
      rw [List.mem_singleton.1 inside] at variant
      exact (dimension color variant).elim
  | time _ _ made inside =>
      have none := unvaried_of_scaleTokens (by
        rintro _ _ ⟨_, ⟨⟩, ⟨⟩, _⟩) made
      exact (none token inside color variant).elim
  | reference _ _ _ made inside =>
      exact (unvaried_of_references made token inside color variant).elim

/-! ## Where variants come from -/

/-- The levels of the opacities that apply to a mode. -/
def ColorFamily.levels (family : ColorFamily) (mode : Mode Palette) :
    List String :=
  Record.names (mode.content.schedule family.alphaSchedule)

/-- A token is formatted from the colour of this name that a mode declares,
with an opacity that applies to the mode. -/
def ColorFamily.HasVariant (settings : Settings) (family : ColorFamily)
    (mode : Mode Palette) (color : String) (token : Token) : Prop :=
  ∃ own level, (color, some own) ∈ mode.content.colors ∧
    level ∈ mode.content.schedule family.alphaSchedule ∧
    Token.ofVariant settings color own level = .ok token

section Sheets

variable {config : Entries} {modes : Family → List Acceptance.PlainMode}
  {system : DesignSystem} {settings : Settings} {expansions : Expansions}
  {colors : ColorFamily} {token : Token} {color : String}

theorem follows_of_systemColors (wellFormed : WellFormed config modes)
    (readFrom : ReadFrom modes system)
    (expanded : Expansions.ofSystem settings system = .ok expansions)
    (given : system.colors = some colors) :
    expansions.color.Follows colors.modes (colors.expandMode settings) := by
  rcases expandedColors_cases wellFormed readFrom
    (ofSystem_eq_ok expanded .color) with
    ⟨missing, _⟩ | ⟨typed, found, names, made⟩
  · rw [given] at missing
    cases missing
  · rw [given] at found
    cases found
    exact follows_of_colors names made

theorem hasVariant_of_mem {mode : Mode Palette} {tokens : List Token}
    (made : colors.expandMode settings mode = .ok tokens)
    (member : token ∈ tokens) (variant : token.IsVariantOf color) :
    ∃ level ∈ colors.levels mode, token.level? = some level ∧
      token.name = settings.variantName color level ∧
        colors.HasVariant settings mode color token := by
  obtain ⟨own, level, inside, listed, levelMade⟩ :=
    variant_of_colors made member variant
  obtain ⟨name, held⟩ := level_of_variant levelMade
  exact ⟨level.1, List.mem_map.2 ⟨level, listed, rfl⟩, held, name, own, level,
    inside, listed, levelMade⟩

/-- A variant among the tokens of all families is a token of the colours. -/
theorem mem_color_of_variant (wellFormed : WellFormed config modes)
    (readFrom : ReadFrom modes system)
    (expanded : Expansions.ofSystem settings system = .ok expansions)
    (variant : token.IsVariantOf color) :
    (token ∈ expansions.defaults → token ∈ expansions.color.defaults) ∧
      ∀ name, token ∈ expansions.overridesOf name →
        token ∈ expansions.color.tokensOf name := by
  have origins := from_of_ofSystem wellFormed readFrom expanded
  constructor
  · intro member
    obtain ⟨family, _, inside⟩ := List.mem_flatMap.1 member
    have origin := (origins family).defaults token inside
    rw [origin.color_of_variant variant] at inside
    exact inside
  · intro name member
    obtain ⟨family, inside⟩ := Expansions.mem_overridesOf_iff.1 member
    have origin := (origins family).tokensOf name token inside
    rw [origin.color_of_variant variant] at inside
    exact inside

/-- The tokens of a mode hold a variant of every level for each colour that it
declares. -/
theorem lookup_ne_none_of_declared {names : Family → List String}
    {mode : Mode Palette} {given : Oklch} {level : String}
    (apart : expansions.Apart names)
    (made : colors.expandMode settings mode =
      .ok (expansions.color.tokensOf mode.name))
    (declared : (color, some given) ∈ mode.content.colors)
    (listed : level ∈ colors.levels mode) :
    (expansions.assemble.sheet.overridesOf mode.name).lookup
      (settings.variantName color level) ≠ none := by
  obtain ⟨entry, member, rfl⟩ := List.mem_map.1 listed
  obtain ⟨token, inside, name⟩ := exists_variant made declared member
  rw [apart.overridesOf_assemble, lookup_mergeTokens, Ne,
    List.find?_eq_none]
  intro absent
  have among : token ∈ expansions.overridesOf mode.name :=
    Expansions.mem_overridesOf_iff.2 ⟨.color, inside⟩
  simpa [name] using absent token among

end Sheets

/-- In an override mode that changes a colour, a variant of the colour is one
of the mode's own tokens, formatted from the mode's own colour, where its level
is one of those that apply to the mode. A variant of any other level is the one
of the default mode. -/
theorem variants_of_changed_color {config : Value} {system : DesignSystem}
    {settings : Settings} {generated : Generated} {colors : ColorFamily}
    {mode : Mode Palette} {color key : String} {given : Oklch}
    {token : Token}
    (accepted : Acceptance.accept config = .ok ())
    (read : DesignSystem.read config = .accepted system)
    (made : system.expand settings = .ok generated)
    (found : system.colors = some colors)
    (override : mode ∈ colors.modes.overrides)
    (declared : (color, some given) ∈ mode.content.colors)
    (shown : (generated.sheet.resolve mode.name).lookup key = some token)
    (variant : token.IsVariantOf color) :
    ∃ level, token.level? = some level ∧
      (level ∈ colors.levels mode →
        (generated.sheet.overridesOf mode.name).lookup key = some token ∧
          colors.HasVariant settings mode color token) ∧
      (level ∉ colors.levels mode →
        (generated.sheet.overridesOf mode.name).lookup key = none ∧
          generated.sheet.tokens.lookup key = some token ∧
          ∃ default, colors.modes.default = .ok default ∧
            level ∈ colors.levels default ∧
            colors.HasVariant settings default color token) := by
  obtain ⟨entries, modes, rfl, wellFormed, readFrom⟩ :=
    exists_modes accepted read
  obtain ⟨expansions, expanded, rfl⟩ := exists_expansions made
  have apart := apart_of_wellFormed wellFormed readFrom expanded
  have follows := follows_of_systemColors wellFormed readFrom expanded found
  have ofColors := mem_color_of_variant wellFormed readFrom expanded variant
  rw [apart.lookup_resolve] at shown
  cases inMode : (expansions.assemble.sheet.overridesOf mode.name).lookup
    key with
  | some own =>
      rw [inMode] at shown
      cases shown
      rw [apart.overridesOf_assemble, lookup_mergeTokens] at inMode
      have member := ofColors.2 _ (List.mem_of_find?_eq_some inMode)
      obtain ⟨level, listed, held, _, has⟩ :=
        hasVariant_of_mem (follows.overrides mode override) member variant
      exact ⟨level, held, fun _ => ⟨rfl, has⟩,
        fun unlisted => absurd listed unlisted⟩
  | none =>
      rw [inMode] at shown
      have inherited : expansions.assemble.sheet.tokens.lookup key =
          some token := shown
      have first : (mergeTokens expansions.defaults).1.lookup key =
          some token := shown
      rw [lookup_mergeTokens] at first
      have name : token.name = key := by simpa using List.find?_some first
      obtain ⟨default, _, isDefault, defaultMade⟩ := follows.defaults
      have member := ofColors.1 (List.mem_of_find?_eq_some first)
      obtain ⟨level, listed, held, levelName, has⟩ :=
        hasVariant_of_mem defaultMade member variant
      refine ⟨level, held, fun applies => ?_,
        fun _ => ⟨rfl, inherited, default, isDefault, listed, has⟩⟩
      -- The mode would have a variant of this name, written over this one.
      have taken := lookup_ne_none_of_declared apart
        (follows.overrides mode override) declared applies
      rw [← levelName, name] at taken
      exact absurd inMode taken

/-- A white default mode with one level, and a black mode with another. -/
def contrastTheme : Value :=
  .map [(.str "colors", .map [
    (.str "alphaSchedule", .map [(.str "lo", .float 0.25)]),
    (.str "modes", .list [
      .map [(.str "name", .str "light"), (.str "tokens", .map
        [(.str "bg", .map [(.str "l", .int 1), (.str "c", .int 0)])])],
      .map [(.str "name", .str "contrast"),
        (.str "alphaSchedule", .map [(.str "half", .float 0.5)]),
        (.str "tokens", .map
          [(.str "bg", .map [(.str "l", .int 0), (.str "c", .int 0)])])]])])]

/-- The black mode as it is read. -/
def contrastMode : Mode Palette :=
  ⟨"contrast", some false,
    ⟨[("bg", some ⟨0, 0, none⟩)], some [("half", 0.5)]⟩⟩

def contrastColors : ColorFamily :=
  ⟨[⟨"light", some false, ⟨[("bg", some ⟨1, 0, none⟩)], none⟩⟩, contrastMode],
    some [("lo", 0.25)]⟩

/-- What is known of the variant that both modes of `contrastTheme` show. -/
def inheritedMetadata : Metadata :=
  { isAlphaVariant := some true
    alphaLevel := some "lo"
    baseColor := some "bg" }

/-- The black mode shows a variant of the white colour. -/
theorem exists_contrastSheet :
    ∃ generated token,
      DesignSystem.expand { colors := some contrastColors } {} =
        .ok generated ∧
      generated.notices = [] ∧
      (generated.sheet.overridesOf "contrast").map
          (fun entry => entry.2.value) =
        ["oklch(0.0000 0.0000 0.00)",
          "oklch(0.0000 0.0000 0.00 / 0.5000)"] ∧
      (generated.sheet.resolve "contrast").lookup "clr-bg-a-lo" =
        some token ∧
      token.value = "oklch(1.0000 0.0000 0.00 / 0.2500)" ∧
      token.metadata = some inheritedMetadata := by
  have shown :
      (DesignSystem.expand { colors := some contrastColors } {}).toOption.map
        (fun generated => (generated.notices,
          (generated.sheet.overridesOf "contrast").map
            (fun entry => entry.2.value),
          ((generated.sheet.resolve "contrast").lookup "clr-bg-a-lo").map
            fun token => (token.value, token.metadata))) =
      some ([], ["oklch(0.0000 0.0000 0.00)",
          "oklch(0.0000 0.0000 0.00 / 0.5000)"],
        some ("oklch(1.0000 0.0000 0.00 / 0.2500)",
          some inheritedMetadata)) := by
    decide +kernel
  obtain ⟨generated, made, parts⟩ := Option.map_eq_some_iff.1 shown
  simp only [Prod.mk.injEq] at parts
  obtain ⟨notices, values, details⟩ := parts
  obtain ⟨token, found, same⟩ := Option.map_eq_some_iff.1 details
  simp only [Prod.mk.injEq] at same
  exact ⟨generated, token, toOption_eq_some.1 made, notices, values, found,
    same⟩

/-- The variant that the black mode inherits has a level that the mode does
not have. -/
theorem contrastTheme_inherits :
    ∃ system generated mode given token,
      Acceptance.accept contrastTheme = .ok () ∧
      DesignSystem.read contrastTheme = .accepted system ∧
      system.expand {} = .ok generated ∧
      system.colors = some contrastColors ∧
      mode ∈ contrastColors.modes.overrides ∧
      ("bg", some given) ∈ mode.content.colors ∧
      (generated.sheet.resolve mode.name).lookup "clr-bg-a-lo" =
        some token ∧
      token.IsVariantOf "bg" ∧
      "lo" ∉ contrastColors.levels mode ∧
      generated.sheet.tokens.lookup "clr-bg-a-lo" = some token := by
  obtain ⟨generated, token, made, _, _, shown, _, details⟩ :=
    exists_contrastSheet
  have variant : token.IsVariantOf "bg" := ⟨_, details, rfl, rfl⟩
  have absent : "lo" ∉ contrastColors.levels contrastMode := by decide
  obtain ⟨level, held, _, inherits⟩ :=
    @variants_of_changed_color contrastTheme _ {} generated contrastColors
      contrastMode "bg" "clr-bg-a-lo" _ token rfl rfl made rfl
      (List.mem_cons_self ..) (List.mem_cons_self ..) shown variant
  have same : level = "lo" := by
    rw [Token.level?, details] at held
    exact (Option.some.inj held).symm
  rw [same] at inherits
  exact ⟨_, generated, contrastMode, _, token, rfl, rfl, made, rfl,
    List.mem_cons_self .., List.mem_cons_self .., shown, variant, absent,
    (inherits absent).2.1⟩

/-- A variant of a colour that an override mode changes need not be one of the
mode's own tokens. -/
theorem contrastTheme_mixes :
    ∃ system generated colors mode given token,
      Acceptance.accept contrastTheme = .ok () ∧
      DesignSystem.read contrastTheme = .accepted system ∧
      system.expand {} = .ok generated ∧
      generated.notices = [] ∧
      system.colors = some colors ∧
      mode ∈ colors.modes.overrides ∧
      ("bg", some given) ∈ mode.content.colors ∧
      (generated.sheet.resolve mode.name).lookup "clr-bg-a-lo" =
        some token ∧
      token.IsVariantOf "bg" ∧
      ∀ entry ∈ generated.sheet.overridesOf mode.name,
        entry.2.value ≠ token.value := by
  obtain ⟨generated, token, made, notices, values, shown, value, details⟩ :=
    exists_contrastSheet
  refine ⟨_, generated, contrastColors, contrastMode, _, token, rfl, rfl,
    made, notices, rfl, List.mem_cons_self .., List.mem_cons_self .., shown,
    ⟨_, details, rfl, rfl⟩, fun entry member same => ?_⟩
  have listed : entry.2.value ∈ ["oklch(0.0000 0.0000 0.00)",
      "oklch(0.0000 0.0000 0.00 / 0.5000)"] := by
    rw [← values]
    exact List.mem_map.2 ⟨entry, member, rfl⟩
  rw [same, value] at listed
  exact absurd listed (by decide)

end DesignTokens
