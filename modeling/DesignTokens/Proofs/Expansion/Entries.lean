import DesignTokens.Proofs.Expansion.Scope

/-!
# Entries and their tokens

The tokens of a mode of gaps or corner radii stand for its entries, one by one
and in order. The entries are what is written under any other key than those
that configure references, unless the spacing mode is given in both spellings:
then the second spelling is one of them.
-/

namespace DesignTokens

open Grammar Success

/-! ## Modes and their tokens -/

/-- The tokens of a mode, be it the default or an override. -/
def Expansion.tokensIn (expansion : Expansion) (name : String) :
    List Token :=
  if name = expansion.modes.default then expansion.defaults
  else expansion.tokensOf name

/-- Under the name of a mode stand the tokens of this mode. -/
theorem Expansion.Follows.expandMode_eq {alpha : Type} {modes : Modes alpha}
    {expandMode : Mode alpha → Except ExpansionFault (List Token)}
    {expansion : Expansion} {mode : Mode alpha}
    (follows : expansion.Follows modes expandMode)
    (distinct : (modes.map Mode.name).Nodup)
    (named : ∀ default, modes.default = .ok default →
      expansion.modes.default = default.name)
    (member : mode ∈ modes) :
    expandMode mode = .ok (expansion.tokensIn mode.name) := by
  obtain ⟨default, _, found, made⟩ := follows.defaults
  obtain ⟨other, again, _, members⟩ :=
    Modes.exists_default (List.ne_nil_of_mem member)
  rw [found] at again
  cases again
  have name := named default found
  rcases (members mode).1 member with rfl | override
  · rw [made, Expansion.tokensIn, if_pos name.symm]
  · have differs : mode.name ≠ default.name := by
      intro equal
      apply Modes.name_default_not_mem distinct found
      exact equal ▸ List.mem_map_of_mem override
    rw [Expansion.tokensIn, name, if_neg differs]
    exact follows.overrides mode override

theorem default_of_expandReferences {family : Family} {settings : Settings}
    {spacing : Modes Scale} {modes : Modes References} {expansion : Expansion}
    {default : Mode References}
    (expanded : expandReferences family settings spacing modes =
      .ok expansion) (found : modes.default = .ok default) :
    expansion.modes.default = default.name := by
  obtain ⟨held, modesExpanded, step⟩ := bind_eq_ok.1 expanded
  obtain ⟨_, _, same⟩ := bind_eq_ok.1 step
  cases same
  obtain ⟨chosen, again, rest⟩ := bind_eq_ok.1 modesExpanded
  obtain ⟨_, _, others⟩ := bind_eq_ok.1 rest
  obtain ⟨_, _, same⟩ := bind_eq_ok.1 others
  cases same
  rw [found] at again
  cases again
  rfl

/-! ## Entries -/

/-- A token that stands for an entry: its name ends in the key, and its
reference in the value. -/
structure Token.OfEntry (prefixes : Prefixes) (family : Family)
    (entry : Value × Value) (token : Token) : Prop where
  belongs : token.family = family
  named : ∃ key, entry.1 = .str key ∧
    token.name = prefixes.ofFamily family ++ "-" ++ key
  points : token.reference =
    some (prefixes.spacing ++ "-" ++ entry.2.plain)

theorem ofEntry_of_expandReferences {family : Family} {settings : Settings}
    {spacing : Modes Scale} {mode : Mode References} {tokens : List Token}
    (made : mode.expandReferences family settings spacing = .ok tokens) :
    List.Forall₂ (Token.OfEntry settings.prefixes family)
      (mode.content.entries.map fun entry => (Value.str entry.1, entry.2))
      tokens := by
  obtain ⟨chosen, _, referring⟩ := bind_eq_ok.1 made
  rw [List.forall₂_map_left_iff]
  refine (mapM_eq_ok.1 referring).imp fun entry token step => ?_
  obtain ⟨size, _, same⟩ := bind_eq_ok.1 step
  cases same
  exact ⟨rfl, ⟨_, rfl, rfl⟩, rfl⟩

/-- What stands for the entries stands for all keys but those that configure
references exactly where one spelling of the spacing mode is used at most. -/
theorem forall₂_configurationKeys_iff {alpha : Type} {tokens : Entries}
    {related : Value × Value → alpha → Prop} {results : List alpha}
    (each : List.Forall₂ related
      (tokens.omitting ["unit", References.modeSpelling tokens]) results) :
    List.Forall₂ related (tokens.omitting Acceptance.configurationKeys)
        results ↔
      SpelledOnce tokens := by
  rw [← omitting_configurationKeys_iff]
  constructor
  · intro all
    have fewer : ["unit", References.modeSpelling tokens] ⊆
        Acceptance.configurationKeys := by
      simpa [Acceptance.configurationKeys] using modeSpelling_configures tokens
    -- Both stand for as many tokens, so that nothing more is left out.
    exact (sublist_omitting fewer tokens).eq_of_length
      (all.length_eq.trans each.length_eq.symm)
  · intro same
    rw [same]
    exact each

/-- The tokens of a mode of gaps or corner radii stand for its entries, one by
one and in order, whatever is written under other keys than the unit and the
spelling of the spacing mode that is in use. These are all keys but those that
configure references, unless both spellings are given. -/
theorem tokens_match_entries {config : Value} {system : DesignSystem}
    {settings : Settings} {generated : Generated} {family : Family}
    (accepted : Acceptance.accept config = .ok ())
    (read : DesignSystem.read config = .accepted system)
    (made : system.expand settings = .ok generated)
    (refers : family ∈ referringFamilies) :
    ∃ expansion, system.expandFamily settings family = .ok expansion ∧
      ∀ name tokens, GivesMode config family name tokens →
        List.Forall₂ (Token.OfEntry settings.prefixes family)
          (tokens.omitting ["unit", References.modeSpelling tokens])
          (expansion.tokensIn name) ∧
        (List.Forall₂ (Token.OfEntry settings.prefixes family)
            (tokens.omitting Acceptance.configurationKeys)
            (expansion.tokensIn name) ↔
          SpelledOnce tokens) := by
  obtain ⟨entries, modes, rfl, wellFormed, readFrom⟩ :=
    exists_modes accepted read
  obtain ⟨expansions, allExpanded, rfl⟩ := exists_expansions made
  have expanded := ofSystem_eq_ok allExpanded family
  refine ⟨_, expanded, ?_⟩
  intro name tokens gives
  obtain ⟨plain, member, rfl, rfl⟩ :=
    (wellFormed.givesMode_iff family name tokens).1 gives
  obtain ⟨item, isMode⟩ := wellFormed.exists_isMode member
  obtain ⟨typed, given, mode, inside, isTyped⟩ :=
    (matches_of_refers readFrom refers).exists_typed member
  obtain ⟨spacing, _, distinct, modesExpanded⟩ :=
    exists_spacing_of_expanded wellFormed readFrom given expanded
  have follows := follows_of_references distinct modesExpanded
  have own := follows.expandMode_eq distinct
    (fun _ => default_of_expandReferences modesExpanded) inside
  have each := ofEntry_of_expandReferences own
  have parts := References.parts_of_read (tokens_of_typed isMode isTyped)
  rw [← omitting_of_readEntries parts.entries, isTyped.name] at each
  exact ⟨each, forall₂_configurationKeys_iff each⟩

theorem givesMode_gapOf (gaps : Entries) :
    GivesMode (gapOf gaps) .gap "default" gaps :=
  ⟨_, _, rfl, rfl, _, rfl, _, rfl, _, .inl rfl, _, List.mem_cons_self ..,
    ⟨_, rfl, _, rfl, rfl⟩, _, rfl, _, rfl, rfl⟩

/-- Gaps among which stand a unit and a spacing mode. -/
def configuredGaps : Entries :=
  [(.str "s", .int 2), (.str "unit", .str "rem"),
    (.str "spacing_mode", .str "default"), (.str "m", .str "min")]

theorem configuredGaps_match :
    ∃ system generated expansion,
      Acceptance.accept (gapOf configuredGaps) = .ok () ∧
      DesignSystem.read (gapOf configuredGaps) = .accepted system ∧
      system.expand {} = .ok generated ∧
      Family.gap ∈ referringFamilies ∧
      system.expandFamily {} .gap = .ok expansion ∧
      (expansion.tokensIn "default").map Token.name = ["gap-s", "gap-m"] ∧
      List.Forall₂ (Token.OfEntry {} .gap)
        [(.str "s", .int 2), (.str "m", .str "min")]
        (expansion.tokensIn "default") := by
  obtain ⟨expansion, expanded, each⟩ :=
    @tokens_match_entries (gapOf configuredGaps) _ {} _ .gap rfl rfl rfl
      (by decide)
  cases expanded
  exact ⟨_, _, _, rfl, rfl, rfl, by decide, rfl, rfl,
    (each _ _ (givesMode_gapOf configuredGaps)).1⟩

/-- Gaps that give their spacing mode in both spellings, of which the second
one can be taken for a gap. -/
def steppedGaps : Entries :=
  [(.str "spacingMode", .str "default"), (.str "spacing_mode", .int 2),
    (.str "wide", .int 2)]

theorem steppedGaps_mismatch :
    ∃ system generated expansion,
      Acceptance.accept (gapOf steppedGaps) = .ok () ∧
      DesignSystem.read (gapOf steppedGaps) = .accepted system ∧
      system.expand {} = .ok generated ∧
      system.expandFamily {} .gap = .ok expansion ∧
      GivesMode (gapOf steppedGaps) .gap "default" steppedGaps ∧
      (expansion.tokensIn "default").map Token.name =
        ["gap-spacing_mode", "gap-wide"] ∧
      ¬ List.Forall₂ (Token.OfEntry {} .gap)
        (steppedGaps.omitting Acceptance.configurationKeys)
        (expansion.tokensIn "default") := by
  refine ⟨_, _, _, rfl, rfl, rfl, rfl, givesMode_gapOf steppedGaps, rfl, ?_⟩
  intro all
  exact absurd all.length_eq (by decide)

end DesignTokens
