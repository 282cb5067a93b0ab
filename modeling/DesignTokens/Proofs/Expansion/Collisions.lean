import DesignTokens.Proofs.Expansion.Assembly
import DesignTokens.Proofs.Expansion.Naming
import DesignTokens.Proofs.Expansion.Totality
import DesignTokens.Proofs.Value.Keys

/-!
# Which tokens are lost

Where the prefixes of the families differ and have no dash, no token is lost
to another one of its name, except that a colour may be lost to a colour.
-/

namespace DesignTokens

open Acceptance (PlainMode)
open Grammar Schema Schema.Checked Success

/-! ## Keys of references -/

theorem nodup_entries_of_read {tokens : Entries} {references : References}
    (distinct : Entries.keysDistinct tokens = true)
    (read : References.read (.map tokens) = .accepted references) :
    references.entries.names.Nodup := by
  have parts := References.parts_of_read read
  have keys := (sublist_of_readEntries parts.entries).map Prod.fst
  rw [List.map_map] at keys
  apply Entries.nodup_of_keys distinct
  rw [Record.names, List.map_map]
  exact keys

theorem nodup_entries_of_matches {config : Entries}
    {modes : Family → List PlainMode} {family : Family}
    {typed : Modes References} (wellFormed : WellFormed config modes)
    (matched : Matches (readTokens References.read) (modes family)
      (some typed))
    (distinct : ∀ mode ∈ modes family,
      Entries.keysDistinct mode.tokens = true) :
    ∀ mode ∈ typed, mode.content.entries.names.Nodup := by
  intro mode member
  obtain ⟨plain, inside, _, read⟩ :=
    exists_plain_of_mem wellFormed matched member
  exact nodup_entries_of_read (distinct plain inside) read

/-! ## Expanded families -/

/-- The expansion of a family in which only colours may share a name. -/
structure Expansion.Named (prefixes : Prefixes) (family : Family)
    (expansion : Expansion) : Prop where
  defaults : NamedIn prefixes family expansion.defaults
  overrides : ∀ entry ∈ expansion.overrides,
    NamedIn prefixes family entry.2
  names : expansion.overrides.names.Nodup
  notices : ∀ notice ∈ expansion.notices, notice.IsSelection

theorem Expansion.named_empty (prefixes : Prefixes) (family : Family) :
    Expansion.Named prefixes family {} :=
  ⟨.nil prefixes family, List.forall_mem_nil _, List.nodup_nil,
    List.forall_mem_nil _⟩

theorem Expansion.Named.tokensOf {prefixes : Prefixes} {family : Family}
    {expansion : Expansion} (named : expansion.Named prefixes family)
    (name : String) :
    NamedIn prefixes family (expansion.tokensOf name) := by
  rw [Expansion.tokensOf]
  cases found : expansion.overrides.lookup name with
  | none => exact .nil prefixes family
  | some tokens => exact named.overrides _ (Record.mem_of_lookup found)

theorem Expansion.Follows.named {alpha : Type} {modes : Modes alpha}
    {expandMode : Mode alpha → Except ExpansionFault (List Token)}
    {prefixes : Prefixes} {family : Family} {expansion : Expansion}
    (follows : expansion.Follows modes expandMode)
    (each : ∀ mode ∈ modes, ∀ tokens, expandMode mode = .ok tokens →
      NamedIn prefixes family tokens) :
    expansion.Named prefixes family := by
  have tokens := follows.forall_tokens each
  exact ⟨tokens.1, tokens.2, follows.names, follows.notices⟩

section Families

variable {config : Entries} {modes : Family → List PlainMode}
  {system : DesignSystem} {settings : Settings} {expansion : Expansion}

theorem named_of_given {alpha : Type} {readContent : Entries → Checked alpha}
    {family : Family} {given : Option (Modes alpha)}
    {expand : Modes alpha → Except ExpansionFault Expansion}
    (wellFormed : WellFormed config modes)
    (matched : Matches readContent (modes family) given)
    (expanded : expandGiven expand given = .ok expansion)
    (each : ∀ typed, (typed.map Mode.name).Nodup →
      expand typed = .ok expansion →
        expansion.Named settings.prefixes family) :
    expansion.Named settings.prefixes family := by
  rcases expanded_cases wellFormed matched expanded with
    ⟨_, rfl⟩ | ⟨typed, _, names, made⟩
  · exact Expansion.named_empty settings.prefixes family
  · exact each typed names made

theorem named_of_referring {family : Family}
    {given : Option (Modes References)} (wellFormed : WellFormed config modes)
    (spacing : Matches (readTokens Scale.read) (modes .spacing)
      system.spacing)
    (matched : Matches (readTokens References.read) (modes family) given)
    (refers : family ∈ referringFamilies)
    (distinct : ∀ mode ∈ modes family,
      Entries.keysDistinct mode.tokens = true)
    (apart : settings.prefixes.Apart)
    (expanded : expandReferring family settings system.spacing given =
      .ok expansion) :
    expansion.Named settings.prefixes family := by
  rcases expandedReferring_cases wellFormed spacing matched refers expanded
    with ⟨_, rfl⟩ | ⟨scales, typed, _, found, names, made⟩
  · exact Expansion.named_empty settings.prefixes family
  · have keys := nodup_entries_of_matches wellFormed (found ▸ matched)
      distinct
    apply (follows_of_references names made).named
    intro mode member tokens
    exact namedIn_of_references apart (keys mode member)

/-- Within every family of an accepted configuration only colours may share a
name. -/
theorem named_of_expandFamily {family : Family}
    (wellFormed : WellFormed config modes)
    (readFrom : ReadFrom modes system)
    (distinct : ∀ family, ∀ mode ∈ modes family,
      Entries.keysDistinct mode.tokens = true)
    (apart : settings.prefixes.Apart)
    (expanded : system.expandFamily settings family = .ok expansion) :
    expansion.Named settings.prefixes family := by
  cases family with
  | color =>
      rcases expandedColors_cases wellFormed readFrom expanded with
        ⟨_, rfl⟩ | ⟨colors, _, names, made⟩
      · exact Expansion.named_empty settings.prefixes .color
      · apply (follows_of_colors names made).named
        intro mode _ tokens made
        exact namedIn_of_colors apart made
  | spacing =>
      apply named_of_given wellFormed readFrom.spacing expanded
      intro typed names made
      apply (Modes.follows_of_expand names made).named
      exact fun mode _ tokens => namedIn_of_spacing apart
  | gap =>
      exact named_of_referring wellFormed readFrom.spacing readFrom.gap
        (by decide) (distinct .gap) apart expanded
  | typography =>
      apply named_of_given wellFormed readFrom.typography expanded
      intro typed names made
      apply (Modes.follows_of_expand names made).named
      exact fun mode _ tokens => namedIn_of_typography apart
  | borderRadius =>
      exact named_of_referring wellFormed readFrom.spacing
        readFrom.borderRadius (by decide) (distinct .borderRadius) apart
        expanded
  | borderWidth =>
      apply named_of_given wellFormed readFrom.borderWidth expanded
      intro typed names made
      apply (Modes.follows_of_expand names made).named
      intro mode _ tokens same
      cases same
      exact namedIn_of_width mode.content apart
  | time =>
      apply named_of_given wellFormed readFrom.time expanded
      intro typed names made
      have defaults := namedIn_of_time apart names made
      obtain ⟨default, _, step⟩ := bind_eq_ok.1 made
      obtain ⟨tokens, _, same⟩ := bind_eq_ok.1 step
      cases same
      exact ⟨defaults, List.forall_mem_nil _, List.nodup_nil,
        fun _ => isSelection_of_mem_notices⟩

end Families

/-! ## Assembled sheets -/

/-- Expansions in which no two tokens share a name but for colours. -/
def Expansions.Named (prefixes : Prefixes) (expansions : Expansions) :
    Prop :=
  ∀ family, (expansions.ofFamily family).Named prefixes family

section Assembled

variable {prefixes : Prefixes} {expansions : Expansions}

theorem Expansions.Named.compatible_defaults
    (named : expansions.Named prefixes) (apart : prefixes.Apart) :
    expansions.defaults.Pairwise Token.Compatible :=
  pairwise_flatMap_families apart fun family => (named family).defaults

theorem Expansions.Named.compatible_overridesOf
    (named : expansions.Named prefixes) (apart : prefixes.Apart)
    (name : String) :
    (expansions.overridesOf name).Pairwise Token.Compatible :=
  pairwise_flatMap_families apart fun family => (named family).tokensOf name

theorem mem_defaults {family : Family} {token : Token}
    (member : token ∈ (expansions.ofFamily family).defaults) :
    token ∈ expansions.defaults :=
  List.mem_flatMap.2 ⟨family, family.mem_all, member⟩

/-- No default token is lost but for a colour. -/
theorem Expansions.Named.lookup_default (named : expansions.Named prefixes)
    (apart : prefixes.Apart) {family : Family} (plain : family ≠ .color)
    {token : Token}
    (member : token ∈ (expansions.ofFamily family).defaults) :
    expansions.assemble.sheet.tokens.lookup token.name = some token := by
  have notColor : token.family ≠ .color := by
    rwa [(named family).defaults.belongs token member]
  exact lookup_mergeTokens_of_compatible (named.compatible_defaults apart)
    (mem_defaults member) notColor

/-- No token of an override mode is lost but for a colour. -/
theorem Expansions.Named.lookup_override (named : expansions.Named prefixes)
    (apart : prefixes.Apart) {names : Family → List String}
    (categories : expansions.Apart names) {family : Family}
    (plain : family ≠ .color) {mode : String} {token : Token}
    (member : token ∈ (expansions.ofFamily family).tokensOf mode) :
    (expansions.assemble.sheet.overridesOf mode).lookup token.name =
      some token := by
  have notColor : token.family ≠ .color := by
    rwa [((named family).tokensOf mode).belongs token member]
  rw [categories.overridesOf_assemble]
  exact lookup_mergeTokens_of_compatible
    (named.compatible_overridesOf apart mode)
    (Expansions.mem_overridesOf_iff.2 ⟨family, member⟩) notColor

/-- A collision in a sheet comes from merging the default tokens or those of
an override mode. -/
theorem Expansions.Named.collision_cases (named : expansions.Named prefixes)
    {name : String} {dropped kept : Family}
    (member : .collision name dropped kept ∈ expansions.assemble.notices) :
    .collision name dropped kept ∈ (mergeTokens expansions.defaults).2 ∨
      ∃ mode, .collision name dropped kept ∈
        (mergeTokens (expansions.overridesOf mode)).2 := by
  rcases List.mem_append.1 member with earlier | override
  · rcases List.mem_append.1 earlier with own | default
    · obtain ⟨family, _, inside⟩ := List.mem_flatMap.1 own
      obtain ⟨chosen, others, same⟩ := (named family).notices _ inside
      cases same
    · exact .inl default
  · obtain ⟨entry, inMerged, inside⟩ := List.mem_flatMap.1 override
    rw [Expansions.merged_of_mem inMerged] at inside
    exact .inr ⟨entry.1, inside⟩

end Assembled

/-! ## Accepted configurations -/

theorem named_of_ofSystem {config : Entries}
    {modes : Family → List PlainMode} {system : DesignSystem}
    {settings : Settings} {expansions : Expansions}
    (distinct : (Value.map config).keysDistinct = true)
    (wellFormed : WellFormed config modes)
    (readFrom : ReadFrom modes system) (apart : settings.prefixes.Apart)
    (expanded : Expansions.ofSystem settings system = .ok expansions) :
    expansions.Named settings.prefixes := by
  intro family
  apply named_of_expandFamily wellFormed readFrom ?_ apart
    (ofSystem_eq_ok expanded family)
  intro family mode member
  exact keysDistinct_of_givesTokens distinct
    ((wellFormed.givesTokens_iff family mode.tokens).2 ⟨mode, member, rfl⟩)

/-- Where the prefixes differ and have no dash, every token of a family other
than the colours is found under its name, among the default tokens or in its
override mode. Tokens are dropped only among the colours. -/
theorem tokens_kept {config : Value} {system : DesignSystem}
    {settings : Settings} {generated : Generated}
    (distinct : config.keysDistinct = true)
    (accepted : Acceptance.accept config = .ok ())
    (read : DesignSystem.read config = .accepted system)
    (apart : settings.prefixes.Apart)
    (made : system.expand settings = .ok generated) :
    (∀ family, family ≠ .color → ∃ expansion,
      system.expandFamily settings family = .ok expansion ∧
        (expansion.defaults.map Token.name).Nodup ∧
        (∀ token ∈ expansion.defaults,
          generated.sheet.tokens.lookup token.name = some token) ∧
        ∀ entry ∈ expansion.overrides, ∀ token ∈ entry.2,
          (generated.sheet.overridesOf entry.1).lookup token.name =
            some token) ∧
    ∀ name dropped kept,
      .collision name dropped kept ∈ generated.notices →
        dropped = .color ∧ kept = .color := by
  obtain ⟨entries, modes, rfl, wellFormed, readFrom⟩ :=
    exists_modes accepted read
  obtain ⟨expansions, expanded, rfl⟩ := exists_expansions made
  have named := named_of_ofSystem distinct wellFormed readFrom apart expanded
  have categories := apart_of_wellFormed wellFormed readFrom expanded
  constructor
  · intro family plain
    have ofFamily := named family
    refine ⟨expansions.ofFamily family, ofSystem_eq_ok expanded family,
      ofFamily.defaults.distinct plain, ?_, ?_⟩
    · intro token member
      exact named.lookup_default apart plain member
    · intro entry member token inside
      have among :
          token ∈ (expansions.ofFamily family).tokensOf entry.1 := by
        rwa [Expansion.tokensOf_of_mem ofFamily.names member]
      exact named.lookup_override apart categories plain among
  · intro name dropped kept member
    rcases named.collision_cases member with default | ⟨mode, override⟩
    · exact colors_of_collision (named.compatible_defaults apart) default
    · exact colors_of_collision (named.compatible_overridesOf apart mode)
        override

/-- Three time scales; the names of two of them look like steps of one
another. -/
def nestedTimes : Value :=
  .map [(.str "time", writtenFamily [("ui", writtenScale 8 (.int 1)),
    ("a", writtenScale 4 (.int 2)), ("a-1", writtenScale 2 (.int 2))])]

theorem nestedTimes_kept :
    ∃ system generated expansion,
      nestedTimes.keysDistinct = true ∧
      Acceptance.accept nestedTimes = .ok () ∧
      DesignSystem.read nestedTimes = .accepted system ∧
      Prefixes.Apart {} ∧
      system.expand {} = .ok generated ∧
      system.expandFamily {} .time = .ok expansion ∧
      expansion.defaults.map Token.name = ["t-min", "t-1", "t-a-min",
        "t-a-1", "t-a-2", "t-a-1-min", "t-a-1-1", "t-a-1-2"] ∧
      ∀ token ∈ expansion.defaults,
        generated.sheet.tokens.lookup token.name = some token := by
  refine ⟨_, _, _, rfl, rfl, rfl, Prefixes.apart_default, rfl, rfl, rfl, ?_⟩
  have kept := (@tokens_kept nestedTimes _ {} _ rfl rfl rfl
    Prefixes.apart_default rfl).1 .time (by decide)
  obtain ⟨expansion, expanded, _, found, _⟩ := kept
  cases expanded
  exact found

end DesignTokens
