import DesignTokens.Proofs.Acceptance.Frame
import DesignTokens.Proofs.Expansion.Collisions

/-!
# Token sheets without a family

Where the prefixes differ and have no dash, no family influences the tokens of
another one, except that gaps and radii refer to spacing. So a family that is
set to null takes its own tokens out of the sheet, and changes nothing else.
-/

namespace DesignTokens

open Acceptance (PlainMode)
open Grammar Success

/-! ## Expanding what is left -/

section Systems

variable {system : DesignSystem} {settings : Settings}
  {expansions : Expansions}

theorem bind_withoutRadius (border : Option Border) :
    (border.map Border.withoutRadius).bind Border.radius = none ∧
      (border.map Border.withoutRadius).bind Border.width =
        border.bind Border.width := by
  cases border with
  | none => exact ⟨rfl, rfl⟩
  | some held => exact ⟨rfl, rfl⟩

theorem bind_withoutWidth (border : Option Border) :
    (border.map Border.withoutWidth).bind Border.width = none ∧
      (border.map Border.withoutWidth).bind Border.radius =
        border.bind Border.radius := by
  cases border with
  | none => exact ⟨rfl, rfl⟩
  | some held => exact ⟨rfl, rfl⟩

theorem expandReferring_none (family : Family) (settings : Settings)
    (spacing : Option (Modes Scale)) :
    expandReferring family settings spacing none = .ok {} := by
  cases spacing with
  | none => rfl
  | some scales => rfl

theorem expandFamily_without_self (system : DesignSystem)
    (settings : Settings) (family : Family) :
    (system.without family).expandFamily settings family = .ok {} := by
  cases family with
  | gap => exact expandReferring_none .gap settings system.spacing
  | borderRadius =>
      rw [DesignSystem.expandFamily, DesignSystem.without,
        (bind_withoutRadius system.border).1]
      exact expandReferring_none .borderRadius settings system.spacing
  | borderWidth =>
      rw [DesignSystem.expandFamily, DesignSystem.without,
        (bind_withoutWidth system.border).1]
      rfl
  | _ => rfl

/-- Other families expand as they did. Gaps and radii do so even without
spacing where there are none of them. -/
theorem expandFamily_without_of_ne {family other : Family}
    (different : other ≠ family)
    (unreferenced : family = .spacing →
      system.gap = none ∧ system.border.bind Border.radius = none) :
    (system.without family).expandFamily settings other =
      system.expandFamily settings other := by
  cases family with
  | spacing =>
      obtain ⟨gap, radius⟩ := unreferenced rfl
      cases other with
      | spacing => exact absurd rfl different
      | gap =>
          simp only [DesignSystem.expandFamily, DesignSystem.without, gap,
            expandReferring_none]
      | borderRadius =>
          simp only [DesignSystem.expandFamily, DesignSystem.without, radius,
            expandReferring_none]
      | _ => rfl
  | borderRadius =>
      cases other with
      | borderRadius => exact absurd rfl different
      | borderWidth =>
          simp only [DesignSystem.expandFamily, DesignSystem.without,
            (bind_withoutRadius system.border).2]
      | _ => rfl
  | borderWidth =>
      cases other with
      | borderWidth => exact absurd rfl different
      | borderRadius =>
          simp only [DesignSystem.expandFamily, DesignSystem.without,
            (bind_withoutWidth system.border).2]
      | _ => rfl
  | _ =>
      cases other <;> first
        | rfl
        | exact absurd rfl different

/-- The expansions of all families but one. -/
def Expansions.without (expansions : Expansions) : Family → Expansions
  | .color => { expansions with color := {} }
  | .spacing => { expansions with spacing := {} }
  | .gap => { expansions with gap := {} }
  | .typography => { expansions with typography := {} }
  | .borderRadius => { expansions with borderRadius := {} }
  | .borderWidth => { expansions with borderWidth := {} }
  | .time => { expansions with time := {} }

theorem ofFamily_without_self (expansions : Expansions) (family : Family) :
    (expansions.without family).ofFamily family = {} := by
  cases family <;> rfl

theorem ofFamily_without_of_ne {family other : Family}
    (different : other ≠ family) (expansions : Expansions) :
    (expansions.without family).ofFamily other =
      expansions.ofFamily other := by
  cases family <;> cases other <;> first
    | rfl
    | exact absurd rfl different

theorem ofSystem_without {family : Family}
    (unreferenced : family = .spacing →
      system.gap = none ∧ system.border.bind Border.radius = none)
    (expanded : Expansions.ofSystem settings system = .ok expansions) :
    Expansions.ofSystem settings (system.without family) =
      .ok (expansions.without family) := by
  apply ofSystem_iff.2
  intro other
  by_cases same : other = family
  · subst same
    rw [expandFamily_without_self, ofFamily_without_self]
  · rw [expandFamily_without_of_ne same unreferenced,
      ofFamily_without_of_ne same, ofSystem_iff.1 expanded other]

end Systems

/-! ## Tokens outside a family -/

/-- Whether a token is of another family. -/
def Token.isOutside (family : Family) (token : Token) : Bool :=
  token.family ≠ family

/-- The entries of a record whose tokens are of other families. -/
def tokensOutside (family : Family) (record : Record Token) : Record Token :=
  record.filter fun entry => entry.2.isOutside family

theorem flatMap_without {family : Family}
    {tokensOf others : Family → List Token}
    (belongs : ∀ held, ∀ token ∈ tokensOf held, token.family = held)
    (own : others family = [])
    (same : ∀ other, other ≠ family → others other = tokensOf other) :
    Family.all.flatMap others =
      (Family.all.flatMap tokensOf).filter (Token.isOutside family) := by
  rw [List.filter_flatMap]
  apply List.flatMap_congr
  intro held _
  by_cases equal : held = family
  · subst equal
    rw [own]
    apply Eq.symm
    apply List.filter_eq_nil_iff.2
    intro token member
    simp [Token.isOutside, belongs held token member]
  · rw [same held equal]
    apply Eq.symm
    apply List.filter_eq_self.2
    intro token member
    simp [Token.isOutside, belongs held token member, equal]

/-- Tokens of one name are of one family, so that a family is left out with
all tokens of its names. -/
theorem pairwise_keptAlike {prefixes : Prefixes} (apart : prefixes.Apart)
    (family : Family) {tokensOf : Family → List Token}
    (named : ∀ held, NamedIn prefixes held (tokensOf held)) :
    (Family.all.flatMap tokensOf).Pairwise
      (Token.KeptAlike (Token.isOutside family)) := by
  apply List.pairwise_of_forall_mem_list
  intro first inside second among same
  obtain ⟨left, _, inLeft⟩ := List.mem_flatMap.1 inside
  obtain ⟨right, _, inRight⟩ := List.mem_flatMap.1 among
  -- What leads a name is the prefix of its family, and no two prefixes agree.
  have leads : nameLead first.name = nameLead second.name := by rw [same]
  rw [(named left).lead first inLeft, (named right).lead second inRight]
    at leads
  have equal := apart.distinct (String.toList_injective leads)
  rw [Token.isOutside, Token.isOutside, (named left).belongs first inLeft,
    (named right).belongs second inRight, equal]

section Assembled

variable {prefixes : Prefixes} {expansions : Expansions} {family : Family}

theorem defaults_without (named : expansions.Named prefixes)
    (family : Family) :
    (expansions.without family).defaults =
      expansions.defaults.filter (Token.isOutside family) := by
  apply flatMap_without
  · intro held
    exact (named held).defaults.belongs
  · rw [ofFamily_without_self]
  · intro other different
    rw [ofFamily_without_of_ne different]

theorem overridesOf_without (named : expansions.Named prefixes)
    (family : Family) (mode : String) :
    (expansions.without family).overridesOf mode =
      (expansions.overridesOf mode).filter (Token.isOutside family) := by
  apply flatMap_without
  · intro held
    exact ((named held).tokensOf mode).belongs
  · rw [ofFamily_without_self]
    rfl
  · intro other different
    rw [ofFamily_without_of_ne different]

theorem tokens_without (named : expansions.Named prefixes)
    (apart : prefixes.Apart) :
    (expansions.without family).assemble.sheet.tokens =
      tokensOutside family expansions.assemble.sheet.tokens := by
  change (mergeTokens (expansions.without family).defaults).1 = _
  rw [defaults_without named]
  apply mergeTokens_filter
  exact pairwise_keptAlike apart family fun held => (named held).defaults

theorem mergedOverrides_without (named : expansions.Named prefixes)
    (apart : prefixes.Apart) (mode : String) :
    (mergeTokens ((expansions.without family).overridesOf mode)).1 =
      tokensOutside family
        (mergeTokens (expansions.overridesOf mode)).1 := by
  rw [overridesOf_without named]
  apply mergeTokens_filter
  exact pairwise_keptAlike apart family fun held =>
    (named held).tokensOf mode

/-- A mode keeps its tokens of other families, and its entry if there are
any. -/
theorem lookup_without {names left : Family → List String}
    (named : expansions.Named prefixes) (apart : prefixes.Apart)
    (categories : expansions.Apart names)
    (others : (expansions.without family).Apart left) (mode : String) :
    (expansions.without family).assemble.sheet.overrides.lookup mode =
      ((expansions.assemble.sheet.overrides.lookup mode).map
        (tokensOutside family)).filter fun record => !record.isEmpty := by
  have merged : (mergeTokens ((expansions.without family).overridesOf
      mode)).1 =
        tokensOutside family (mergeTokens (expansions.overridesOf mode)).1 :=
    mergedOverrides_without named apart mode
  rw [others.lookup_overrides, categories.lookup_overrides, merged]
  -- The entry of a mode depends on whether tokens are left, which is a matter
  -- of the tokens before they are merged.
  cases has : (expansions.without family).hasTokens mode with
  | false =>
      have empty : (expansions.without family).overridesOf mode = [] := by
        simpa [Expansions.hasTokens] using has
      rw [empty] at merged
      have dropped : tokensOutside family
          (mergeTokens (expansions.overridesOf mode)).1 = [] := merged.symm
      cases expansions.hasTokens mode with
      | false => rfl
      | true => simp [dropped, Option.filter]
  | true =>
      have nonempty : (expansions.without family).overridesOf mode ≠ [] := by
        simpa [Expansions.hasTokens] using has
      have kept : tokensOutside family
          (mergeTokens (expansions.overridesOf mode)).1 ≠ [] :=
        merged ▸ mergeTokens_ne_nil nonempty
      have hadTokens : expansions.hasTokens mode = true := by
        rw [overridesOf_without named] at nonempty
        obtain ⟨token, member⟩ := List.exists_mem_of_ne_nil _ nonempty
        have before := (List.mem_filter.1 member).1
        simpa [Expansions.hasTokens] using List.ne_nil_of_mem before
      simp [hadTokens, kept, Option.filter]

theorem modes_without {category : Category}
    (outside : family ∉ category.families) :
    (expansions.without family).assemble.sheet.modes.ofCategory category =
      expansions.assemble.sheet.modes.ofCategory category := by
  have others : ∀ other ∈ category.families,
      (expansions.without family).ofFamily other =
        expansions.ofFamily other := by
    intro other member
    apply ofFamily_without_of_ne
    rintro rfl
    exact outside member
  have names : (expansions.without family).overrideNames category.families =
      expansions.overrideNames category.families := by
    rw [Expansions.overrideNames, Expansions.overrideNames]
    congr 1
    apply List.flatMap_congr
    intro other member
    rw [others other member]
  rw [ofCategory_assemble, ofCategory_assemble, Expansions.modeInfo,
    Expansions.modeInfo, names,
    others category.leading (List.mem_cons_self ..)]

end Assembled

/-! ## Accepted configurations -/

theorem absent_of_readFrom {config : Entries}
    {modes : Family → List PlainMode} {alpha : Type}
    {readContent : Entries → Schema.Checked alpha} {family : Family}
    {given : Option (Modes alpha)} (wellFormed : WellFormed config modes)
    (matched : Matches readContent (modes family) given)
    (absent : familyValue config family = none) : given = none := by
  rw [wellFormed.absent family absent] at matched
  cases matched with
  | absent => rfl
  | present nonempty => exact absurd rfl nonempty

/-- Where the prefixes differ and have no dash, a family can be taken out of
an accepted configuration, if others are left and none of them refers to it.
Its tokens are left out of the sheet, and so are the modes that are left
without tokens. All other tokens stay, in order, and so do the modes of the
categories that the family is not in. -/
theorem generate_without {config : Entries} {family : Family}
    (distinct : (Value.map config).keysDistinct = true)
    (accepted : Acceptance.accept (.map config) = .ok ())
    (remains : ∃ other, other ≠ family ∧ familyValue config other ≠ none)
    (unreferenced : Unreferenced config family) :
    Acceptance.accept (.map (without family config)) = .ok () ∧
    ∀ settings chosen generated,
      Settings.readGiven settings = .ok chosen →
      chosen.prefixes.Apart →
      generate (.map config) settings = .ok generated →
      ∃ result,
        generate (.map (without family config)) settings = .ok result ∧
        result.sheet.tokens = tokensOutside family generated.sheet.tokens ∧
        (∀ mode, result.sheet.overrides.lookup mode =
          ((generated.sheet.overrides.lookup mode).map
            (tokensOutside family)).filter fun record => !record.isEmpty) ∧
        ∀ category, family ∉ category.families →
          result.sheet.modes.ofCategory category =
            generated.sheet.modes.ofCategory category := by
  obtain ⟨modes, wellFormed⟩ :=
    (Acceptance.acceptEntries_iff config).1 accepted
  have left := wellFormed_without wellFormed remains unreferenced
  have again : Acceptance.accept (.map (without family config)) = .ok () :=
    (Acceptance.acceptEntries_iff _).2 ⟨_, left⟩
  refine ⟨again, ?_⟩
  intro settings chosen generated settled apart made
  obtain ⟨_, system, own, expansions, read, found, expanded, rfl⟩ :=
    generate_iff.1 made
  rw [settled] at found
  cases found
  have readFrom := readFrom_of_read wellFormed read
  have readLeft := read_without family read
  have unused : family = .spacing →
      system.gap = none ∧ system.border.bind Border.radius = none := by
    intro spacing
    have absent := unreferenced spacing
    exact ⟨absent_of_readFrom wellFormed readFrom.gap
        (absent .gap (by decide)),
      absent_of_readFrom wellFormed readFrom.borderRadius
        (absent .borderRadius (by decide))⟩
  have expandedLeft := ofSystem_without unused expanded
  have named := named_of_ofSystem distinct wellFormed readFrom apart expanded
  have categories := apart_of_wellFormed wellFormed readFrom expanded
  have categoriesLeft := apart_of_wellFormed left
    (readFrom_of_read left readLeft) expandedLeft
  exact ⟨_, generate_iff.2 ⟨again, _, chosen, _, readLeft, settled,
      expandedLeft, rfl⟩, tokens_without named apart,
    lookup_without named apart categories categoriesLeft,
    fun category => modes_without⟩

/-- Spacing, and widths with an override mode of their own. -/
def linedTheme : Entries :=
  [(.str "spacing", writtenFamily
      [("regular", writtenScale 8 (.int 1)),
        ("compact", writtenScale 4 (.int 1))]),
    (.str "border", .map [(.str "width", writtenFamily
      [("regular", [(.str "unit", .str "px"), (.str "value", .int 1)]),
        ("compact", [(.str "unit", .str "px"), (.str "value", .int 2)]),
        ("bold", [(.str "unit", .str "px"), (.str "value", .int 3)])])])]

theorem linedTheme_without :
    ∃ generated result,
      generate (.map linedTheme) .null = .ok generated ∧
      generate (.map (without .borderWidth linedTheme)) .null = .ok result ∧
      generated.sheet.overrides.names = ["compact", "bold"] ∧
      result.sheet.overrides.lookup "bold" = none ∧
      result.sheet.tokens =
        tokensOutside .borderWidth generated.sheet.tokens ∧
      result.sheet.modes.color = generated.sheet.modes.color := by
  have remains : ∃ other, other ≠ Family.borderWidth ∧
      familyValue linedTheme other ≠ none :=
    ⟨.spacing, by decide, nofun⟩
  have generates : ∃ generated,
      generate (.map linedTheme) .null = .ok generated ∧
        generated.sheet.overrides.names = ["compact", "bold"] ∧
        (generated.sheet.overrides.lookup "bold").map
          (tokensOutside .borderWidth) = some [] :=
    ⟨_, rfl, rfl, rfl⟩
  obtain ⟨generated, made, names, bold⟩ := generates
  obtain ⟨result, again, tokens, overrides, modes⟩ :=
    (generate_without rfl rfl remains nofun).2 .null {} generated rfl
      Prefixes.apart_default made
  have dropped : result.sheet.overrides.lookup "bold" = none := by
    rw [overrides, bold]
    rfl
  exact ⟨generated, result, made, again, names, dropped, tokens,
    modes .color (by decide)⟩

end DesignTokens
