import DesignTokens.Expansion.Whole
import DesignTokens.Proofs.Record
import DesignTokens.Proofs.Success
import DesignTokens.Proofs.System.Modes

/-!
# What an expanded family holds

The overrides of an expanded family are named after the override modes that
were accepted, and all of their tokens are of the family.
-/

namespace DesignTokens

open Acceptance (PlainMode)
open Grammar Schema Success

/-- The expansion of a family whose override modes have these names. -/
structure Expansion.OfFamily (family : Family) (names : List String)
    (expansion : Expansion) : Prop where
  listed : expansion.modes.overrides = names
  keys : ∀ entry ∈ expansion.overrides, entry.1 ∈ names
  tokens : ∀ entry ∈ expansion.overrides, ∀ token ∈ entry.2,
    token.family = family

theorem Expansion.ofFamily_empty (family : Family) :
    Expansion.OfFamily family [] {} :=
  ⟨rfl, nofun, nofun⟩

/-! ## Modes -/

section Modes

variable {alpha : Type} {modes : Modes alpha}
  {expandMode : Mode alpha → Except ExpansionFault (List Token)}

/-- Every entry of the expanded modes is that of a mode. -/
theorem mem_of_mapM_named {named : List (String × List Token)}
    (expanded : modes.mapM (fun mode => do
      let tokens ← expandMode mode
      return (mode.name, tokens)) = .ok named)
    {entry : String × List Token} (member : entry ∈ named) :
    ∃ mode ∈ modes, mode.name = entry.1 ∧ expandMode mode = .ok entry.2 := by
  obtain ⟨mode, inside, made⟩ := mem_of_mapM expanded member
  obtain ⟨tokens, held, same⟩ := bind_eq_ok.1 made
  cases same
  exact ⟨mode, inside, rfl, held⟩

theorem ofFamily_of_named {family : Family}
    {named : List (String × List Token)} {expansion : Expansion}
    (ofFamily : ∀ mode tokens, expandMode mode = .ok tokens →
      ∀ token ∈ tokens, token.family = family)
    (expanded : modes.overrides.mapM (fun mode => do
      let tokens ← expandMode mode
      return (mode.name, tokens)) = .ok named)
    (names : expansion.modes.overrides = modes.overrides.map Mode.name)
    (entries : ∀ entry ∈ expansion.overrides, entry ∈ named) :
    expansion.OfFamily family (modes.overrides.map Mode.name) := by
  refine ⟨names, fun entry member => ?_, fun entry member => ?_⟩
  · obtain ⟨mode, inside, name, _⟩ :=
      mem_of_mapM_named expanded (entries entry member)
    exact List.mem_map.2 ⟨mode, inside, name⟩
  · obtain ⟨mode, _, _, held⟩ :=
      mem_of_mapM_named expanded (entries entry member)
    exact ofFamily mode entry.2 held

theorem Modes.ofFamily_of_expand {family : Family} {expansion : Expansion}
    (ofFamily : ∀ mode tokens, expandMode mode = .ok tokens →
      ∀ token ∈ tokens, token.family = family)
    (expanded : modes.expand expandMode = .ok expansion) :
    expansion.OfFamily family (modes.overrides.map Mode.name) := by
  obtain ⟨default, _, step⟩ := bind_eq_ok.1 expanded
  obtain ⟨defaults, _, rest⟩ := bind_eq_ok.1 step
  obtain ⟨named, overrides, same⟩ := bind_eq_ok.1 rest
  cases same
  exact ofFamily_of_named ofFamily overrides rfl
    fun _ member => Record.mem_ofList member

end Modes

/-! ## Tokens -/

theorem family_of_scaleTokens {family : Family}
    {token : String × Float → Token}
    {values : Except Number.ArithmeticFault (List (String × Float))}
    (each : ∀ entry, (token entry).family = family) {tokens : List Token}
    (made : scaleTokens token values = .ok tokens) :
    ∀ held ∈ tokens, held.family = family := by
  obtain ⟨list, _, rfl⟩ := map_eq_ok.1 ((mapError_eq_ok _).1 made)
  intro held member
  obtain ⟨entry, _, rfl⟩ := List.mem_map.1 member
  exact each entry

theorem family_of_spacing {stem : String} {scale : Scale}
    {tokens : List Token} (made : scale.spacingTokens stem = .ok tokens) :
    ∀ token ∈ tokens, token.family = .spacing := by
  rw [Scale.spacingTokens] at made
  refine family_of_scaleTokens ?_ made
  exact fun _ => rfl

theorem family_of_typography {stem : String} {scale : TypeScale}
    {tokens : List Token} (made : scale.tokens stem = .ok tokens) :
    ∀ token ∈ tokens, token.family = .typography := by
  rw [TypeScale.tokens] at made
  refine family_of_scaleTokens ?_ made
  exact fun _ => rfl

theorem family_of_references {family : Family} {settings : Settings}
    {scale : Scale} {references : References} {tokens : List Token}
    (made : references.tokens family settings scale = .ok tokens) :
    ∀ token ∈ tokens, token.family = family := by
  intro token member
  obtain ⟨entry, _, held⟩ := mem_of_mapM made member
  obtain ⟨size, _, same⟩ := bind_eq_ok.1 held
  cases same
  rfl

theorem family_of_namedColor {settings : Settings} {schedule : AlphaSchedule}
    {name : String} {color : Oklch} {tokens : List Token}
    (made : Token.ofNamedColor settings schedule name color = .ok tokens) :
    ∀ token ∈ tokens, token.family = .color := by
  obtain ⟨base, baseMade, step⟩ := bind_eq_ok.1 made
  obtain ⟨variants, variantsMade, same⟩ := bind_eq_ok.1 step
  cases same
  rw [List.forall_mem_cons]
  constructor
  · obtain ⟨value, _, same⟩ := bind_eq_ok.1 baseMade
    cases same
    rfl
  · intro token member
    obtain ⟨level, _, held⟩ := mem_of_mapM variantsMade member
    obtain ⟨value, _, same⟩ := bind_eq_ok.1 held
    cases same
    rfl

/-- Every token of some colours is a token of one of them. -/
theorem exists_namedColor_of_mem {settings : Settings}
    {schedule : AlphaSchedule} {colors : Record (Option Oklch)}
    {tokens : List Token}
    (made : Token.ofColors settings schedule colors = .ok tokens)
    {token : Token} (member : token ∈ tokens) :
    ∃ name color named, (name, some color) ∈ colors ∧
      Token.ofNamedColor settings schedule name color = .ok named ∧
        token ∈ named := by
  induction colors generalizing tokens with
  | nil =>
      cases made
      cases member
  | cons first rest inductionHypothesis =>
      obtain ⟨known, given⟩ := first
      cases given with
      | none =>
          obtain ⟨name, color, named, inside, held⟩ :=
            inductionHypothesis made member
          exact ⟨name, color, named, List.mem_cons_of_mem _ inside, held⟩
      | some color =>
          obtain ⟨named, namedMade, step⟩ := bind_eq_ok.1 made
          obtain ⟨others, othersMade, same⟩ := bind_eq_ok.1 step
          cases same
          rcases List.mem_append.1 member with own | later
          · exact ⟨known, color, named, List.mem_cons_self .., namedMade, own⟩
          · obtain ⟨name, color, named, inside, held⟩ :=
              inductionHypothesis othersMade later
            exact ⟨name, color, named, List.mem_cons_of_mem _ inside, held⟩

/-- Every colour that is given has its tokens among those of all colours. -/
theorem exists_namedColor {settings : Settings} {schedule : AlphaSchedule}
    {colors : Record (Option Oklch)} {tokens : List Token}
    (made : Token.ofColors settings schedule colors = .ok tokens)
    {name : String} {color : Oklch}
    (declared : (name, some color) ∈ colors) :
    ∃ named, Token.ofNamedColor settings schedule name color = .ok named ∧
      named ⊆ tokens := by
  induction colors generalizing tokens with
  | nil => cases declared
  | cons first rest inductionHypothesis =>
      obtain ⟨known, given⟩ := first
      cases given with
      | none =>
          rcases List.mem_cons.1 declared with same | later
          · cases same
          · exact inductionHypothesis made later
      | some own =>
          obtain ⟨named, namedMade, step⟩ := bind_eq_ok.1 made
          obtain ⟨others, othersMade, same⟩ := bind_eq_ok.1 step
          cases same
          rcases List.mem_cons.1 declared with same | later
          · cases same
            exact ⟨named, namedMade, List.subset_append_left ..⟩
          · obtain ⟨more, moreMade, inside⟩ :=
              inductionHypothesis othersMade later
            exact ⟨more, moreMade,
              List.subset_append_of_subset_right _ inside⟩

theorem family_of_colors {settings : Settings} {schedule : AlphaSchedule}
    {colors : Record (Option Oklch)} {tokens : List Token}
    (made : Token.ofColors settings schedule colors = .ok tokens) :
    ∀ token ∈ tokens, token.family = .color := by
  intro token member
  obtain ⟨name, color, named, _, namedMade, inside⟩ :=
    exists_namedColor_of_mem made member
  exact family_of_namedColor namedMade token inside

/-! ## Families -/

theorem ofFamily_of_colors {settings : Settings} {family : ColorFamily}
    {expansion : Expansion}
    (expanded : expandColors settings family = .ok expansion) :
    expansion.OfFamily .color
      ((Modes.overrides family.modes).map Mode.name) := by
  obtain ⟨default, _, step⟩ := bind_eq_ok.1 expanded
  obtain ⟨defaults, _, rest⟩ := bind_eq_ok.1 step
  obtain ⟨named, overrides, same⟩ := bind_eq_ok.1 rest
  cases same
  exact ofFamily_of_named (fun _ _ => family_of_colors) overrides rfl
    fun _ member => (List.mem_filter.1 (Record.mem_ofList member)).1

theorem ofFamily_of_references {family : Family} {settings : Settings}
    {spacing : Modes Scale} {modes : Modes References} {expansion : Expansion}
    (expanded : expandReferences family settings spacing modes =
      .ok expansion) :
    expansion.OfFamily family (modes.overrides.map Mode.name) := by
  obtain ⟨held, modesExpanded, step⟩ := bind_eq_ok.1 expanded
  obtain ⟨default, _, same⟩ := bind_eq_ok.1 step
  cases same
  have ofFamily : held.OfFamily family (modes.overrides.map Mode.name) := by
    refine Modes.ofFamily_of_expand (fun mode tokens made => ?_) modesExpanded
    obtain ⟨found, _, referring⟩ := bind_eq_ok.1 made
    exact family_of_references referring
  exact ⟨ofFamily.listed, ofFamily.keys, ofFamily.tokens⟩

theorem ofFamily_of_time {settings : Settings} {modes : Modes Scale}
    {expansion : Expansion}
    (expanded : expandTime settings modes = .ok expansion) :
    expansion.OfFamily .time [] := by
  obtain ⟨default, _, step⟩ := bind_eq_ok.1 expanded
  obtain ⟨tokens, _, same⟩ := bind_eq_ok.1 step
  cases same
  exact ⟨rfl, List.forall_mem_nil _, List.forall_mem_nil _⟩

theorem overrides_of_typed {alpha : Type}
    {readContent : Entries → Checked alpha} {plain : List PlainMode}
    {typed : Modes alpha}
    (areTyped : List.Forall₂ (Typed readContent) plain typed) :
    typed.overrides.map Mode.name = Acceptance.overrideNames plain := by
  refine (Selection.map_overrides_eq ?_).symm
  exact areTyped.imp fun _ _ isTyped => ⟨isTyped.name.symm, isTyped.flag.symm⟩

/-- The names of the overrides that a family has in its expansion. All time
scales are in use at once, so that none of them is an override. -/
def overridesIn (modes : Family → List PlainMode) (family : Family) :
    List String :=
  if family = .time then [] else Acceptance.overrideNames (modes family)

theorem expandGiven_eq_ok {alpha : Type} {given : Option alpha}
    {expand : alpha → Except ExpansionFault Expansion} {expansion : Expansion}
    (expanded : expandGiven expand given = .ok expansion) :
    (given = none ∧ expansion = {}) ∨
      ∃ family, given = some family ∧ expand family = .ok expansion := by
  cases given with
  | none => exact .inl ⟨rfl, (Except.ok.inj expanded).symm⟩
  | some family => exact .inr ⟨family, rfl, expanded⟩

theorem ofFamily_of_given {alpha : Type}
    {readContent : Entries → Checked alpha} {family : Family}
    {plain : List PlainMode} {given : Option (Modes alpha)}
    {expand : Modes alpha → Except ExpansionFault Expansion}
    {expansion : Expansion} (matched : Matches readContent plain given)
    (each : ∀ typed expansion, expand typed = .ok expansion →
      expansion.OfFamily family (typed.overrides.map Mode.name))
    (expanded : expandGiven expand given = .ok expansion) :
    expansion.OfFamily family (Acceptance.overrideNames plain) := by
  rcases expandGiven_eq_ok expanded with
    ⟨rfl, rfl⟩ | ⟨typed, rfl, expanded⟩
  · rw [matched.of_none]
    exact Expansion.ofFamily_empty family
  · rw [← overrides_of_typed matched.of_some]
    exact each typed expansion expanded

section Families

variable {config : Entries} {modes : Family → List PlainMode}
  {system : DesignSystem} {settings : Settings} {expansion : Expansion}

theorem ofFamily_of_referring {family : Family}
    {given : Option (Modes References)} (wellFormed : WellFormed config modes)
    (spacing : Matches (readTokens Scale.read) (modes .spacing)
      system.spacing)
    (matched : Matches (readTokens References.read) (modes family) given)
    (refers : family ∈ referringFamilies)
    (expanded : expandReferring family settings system.spacing given =
      .ok expansion) :
    expansion.OfFamily family (Acceptance.overrideNames (modes family)) := by
  rcases given_cases wellFormed spacing with
    ⟨missing, none⟩ | ⟨scales, _, found, _⟩
  · have absent : modes family = [] := by
      by_contra nonempty
      exact spacing_nonempty wellFormed refers nonempty none
    rw [missing] at expanded
    cases expanded
    rw [absent]
    exact Expansion.ofFamily_empty family
  · rw [found] at expanded
    exact ofFamily_of_given matched (fun _ _ => ofFamily_of_references)
      expanded

/-- What the expansion of a family of an accepted configuration holds. -/
theorem ofFamily_of_expandFamily {family : Family}
    (wellFormed : WellFormed config modes)
    (readFrom : ReadFrom modes system)
    (expanded : system.expandFamily settings family = .ok expansion) :
    expansion.OfFamily family (overridesIn modes family) := by
  cases family with
  | color =>
      have matched := readFrom.color
      rcases expandGiven_eq_ok expanded with
        ⟨missing, rfl⟩ | ⟨colors, found, expanded⟩
      · rw [missing] at matched
        rw [overridesIn, if_neg (by decide), matched.of_none]
        exact Expansion.ofFamily_empty .color
      · rw [found] at matched
        rw [overridesIn, if_neg (by decide),
          ← overrides_of_typed matched.of_some]
        exact ofFamily_of_colors expanded
  | spacing =>
      exact ofFamily_of_given readFrom.spacing (fun _ _ =>
        Modes.ofFamily_of_expand fun _ _ => family_of_spacing) expanded
  | typography =>
      exact ofFamily_of_given readFrom.typography (fun _ _ =>
        Modes.ofFamily_of_expand fun _ _ => family_of_typography) expanded
  | borderWidth =>
      refine ofFamily_of_given readFrom.borderWidth (fun _ _ =>
        Modes.ofFamily_of_expand fun mode tokens made => ?_) expanded
      cases made
      exact List.forall_mem_singleton.2 rfl
  | time =>
      rcases expandGiven_eq_ok expanded with
        ⟨_, rfl⟩ | ⟨typed, _, expanded⟩
      · exact Expansion.ofFamily_empty .time
      · exact ofFamily_of_time expanded
  | gap =>
      exact ofFamily_of_referring wellFormed readFrom.spacing readFrom.gap
        (by decide) expanded
  | borderRadius =>
      exact ofFamily_of_referring wellFormed readFrom.spacing
        readFrom.borderRadius (by decide) expanded

end Families

end DesignTokens
