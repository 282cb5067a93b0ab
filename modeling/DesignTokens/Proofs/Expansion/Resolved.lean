import DesignTokens.Proofs.Expansion.Steps

/-!
# Scales in override modes

In the scope of an override mode a name of a size family stands for a token of
the mode or else for a default token of the same family, whatever other
families have in the mode. The steps of the mode's own scale therefore come
first, and the default scale goes on where that scale ends.
-/

namespace DesignTokens

open Grammar Schema Success

/-! ## Tokens of one family -/

section Named

variable {prefixes : Prefixes} {expansions : Expansions}
  {names : Family → List String} {family : Family} {name : String}

/-- A name with the prefix of a family stands for a token of that family: one
of the mode, or else a default token. -/
theorem Expansions.Named.lookup_resolve_lead
    (named : expansions.Named prefixes) (apart : prefixes.Apart)
    (categories : expansions.Apart names)
    (lead : nameLead name = (prefixes.ofFamily family).toList)
    (mode : String) :
    (expansions.assemble.sheet.resolve mode).lookup name =
      (((expansions.ofFamily family).tokensOf mode).find?
          fun token => token.name = name).or
        ((expansions.ofFamily family).defaults.find?
          fun token => token.name = name) := by
  have default : expansions.assemble.sheet.tokens.lookup name =
      (expansions.ofFamily family).defaults.find?
        fun token => token.name = name :=
    (lookup_mergeTokens expansions.defaults name).trans
      (find?_lead apart (fun other => (named other).defaults) lead)
  rw [categories.lookup_resolve, default,
    named.lookup_overridesOf_lead apart categories lead]

end Named

/-! ## Numbered tokens -/

/-- The tokens of a scale: the least one, and one for every step. -/
structure Numbered (stem : String) (count : Int) (least : Token)
    (isStep : Nat → Token → Prop) (tokens : List Token) : Prop where
  names : tokens.map Token.name = (scaleLabels count).map (stem ++ "-" ++ ·)
  begins : least ∈ tokens
  named : least.name = stem ++ "-" ++ "min"
  steps : ∀ n : Nat, 1 ≤ n → (n : Int) ≤ count → ∃ token ∈ tokens,
    token.name = stem ++ "-" ++ Number.wholeText n ∧ isStep n token

theorem find?_of_mem {tokens : List Token} {token : Token}
    (distinct : (tokens.map Token.name).Nodup) (member : token ∈ tokens) :
    tokens.find? (fun other => other.name = token.name) = some token := by
  have merged : (mergeInto [] tokens).1 =
      [] ++ tokens.map fun token => (token.name, token) :=
    mergeInto_of_nodup distinct
  have found := lookup_mergeTokens tokens token.name
  rw [← found, mergeTokens, merged]
  apply Record.lookup_of_mem
  · rw [List.nil_append, Record.names, List.map_map]
    exact distinct
  · exact List.mem_map_of_mem (f := fun token => (token.name, token)) member

section Numbered

variable {stem : String} {count : Int} {least : Token}
  {isStep : Nat → Token → Prop} {tokens : List Token}

theorem Numbered.distinct (numbered : Numbered stem count least isStep tokens) :
    (tokens.map Token.name).Nodup := by
  rw [numbered.names]
  exact (nodup_scaleLabels count).map (dashed_injective stem)

theorem Numbered.find?_least
    (numbered : Numbered stem count least isStep tokens) :
    tokens.find? (fun token => token.name = stem ++ "-" ++ "min") =
      some least := by
  rw [← numbered.named]
  exact find?_of_mem numbered.distinct numbered.begins

theorem Numbered.find?_step
    (numbered : Numbered stem count least isStep tokens) {n : Nat}
    (first : 1 ≤ n) (last : (n : Int) ≤ count) :
    ∃ token, tokens.find?
        (fun token => token.name = stem ++ "-" ++ Number.wholeText n) =
      some token ∧ isStep n token := by
  obtain ⟨token, member, name, step⟩ := numbered.steps n first last
  refine ⟨token, ?_, step⟩
  rw [← name]
  exact find?_of_mem numbered.distinct member

theorem Numbered.find?_beyond
    (numbered : Numbered stem count least isStep tokens) {n : Nat}
    (beyond : count < n) :
    tokens.find?
        (fun token => token.name = stem ++ "-" ++ Number.wholeText n) =
      none := by
  rw [List.find?_eq_none]
  intro token member same
  have listed := List.mem_map_of_mem (f := Token.name) member
  rw [of_decide_eq_true same, numbered.names,
    List.mem_map_of_injective (dashed_injective stem),
    wholeText_mem_scaleLabels_iff] at listed
  omega

theorem numbered_of_scaleTokens {token : String × Float → Token}
    {minimum : Float} {step : Int → Except Number.ArithmeticFault Float}
    (each : ∀ entry, (token entry).name = stem ++ "-" ++ entry.1)
    (isStepOf : ∀ (n : Nat) (size : Float), step n = .ok size →
      isStep n (token (Number.wholeText n, size)))
    (made : scaleTokens token (labelledValues minimum count step) =
      .ok tokens) :
    Numbered stem count (token ("min", minimum)) isStep tokens := by
  have names := names_of_scaleTokens each made
  obtain ⟨values, found, rfl⟩ := map_eq_ok.1 ((mapError_eq_ok _).1 made)
  obtain ⟨steps, stepsFound, same⟩ := bind_eq_ok.1 found
  cases same
  refine ⟨names, List.mem_cons_self .., each _, ?_⟩
  intro n first last
  have listed : n ∈ stepNumbers count := mem_stepNumbers_iff.2 ⟨first, last⟩
  obtain ⟨entry, member, entryMade⟩ := mem_mapM_of_mem stepsFound listed
  obtain ⟨size, sizeMade, same⟩ := bind_eq_ok.1 entryMade
  cases same
  exact ⟨_, List.mem_cons_of_mem _ (List.mem_map_of_mem member), each _,
    isStepOf n size sizeMade⟩

end Numbered

/-! ## Steps of sizes -/

/-- The token of the least value of a spacing scale. -/
def Scale.leastToken (stem : String) (scale : Scale) : Token :=
  Token.dimension .spacing (stem ++ "-" ++ "min")
    (Number.plainText scale.minimum) scale.unit scale.minimum

/-- A token of a spacing scale has `n` times the base as its size. -/
def Scale.IsStep (stem : String) (scale : Scale) (n : Nat) (token : Token) :
    Prop :=
  ∃ factor, Number.floatOfInt? n = some factor ∧
    token = Token.dimension .spacing (stem ++ "-" ++ Number.wholeText n)
      (Number.plainText (scale.base * factor)) scale.unit
      (scale.base * factor)

/-- The token of the least value of a scale of type sizes. -/
def TypeScale.leastToken (stem : String) (scale : TypeScale) : Token :=
  Token.dimension .typography (stem ++ "-" ++ "min")
    (Number.trimmedText 4 scale.minimum) scale.unit scale.minimum

/-- The size of a step of type sizes: the base, and `n - 1` increments. -/
def TypeScale.IsSize (scale : TypeScale) (n : Nat) (size : Float) : Prop :=
  n = 1 ∧ size = scale.base ∨
    n ≠ 1 ∧ ∃ factor, Number.floatOfInt? (n - 1) = some factor ∧
      size = scale.base + scale.increment * factor

def TypeScale.IsStep (stem : String) (scale : TypeScale) (n : Nat)
    (token : Token) : Prop :=
  ∃ size, scale.IsSize n size ∧
    token = Token.dimension .typography (stem ++ "-" ++ Number.wholeText n)
      (Number.trimmedText 4 size) scale.unit size

theorem numbered_of_spacing {stem : String} {scale : Scale}
    {tokens : List Token} (made : scale.spacingTokens stem = .ok tokens) :
    Numbered stem scale.count (scale.leastToken stem) (scale.IsStep stem)
      tokens := by
  refine numbered_of_scaleTokens (fun _ => rfl) ?_ made
  intro n size stepMade
  obtain ⟨factor, nearest, rfl⟩ := Scale.step_eq_ok.1 stepMade
  exact ⟨factor, nearest, rfl⟩

theorem numbered_of_typography {stem : String} {scale : TypeScale}
    {tokens : List Token} (made : scale.tokens stem = .ok tokens) :
    Numbered stem scale.count (scale.leastToken stem) (scale.IsStep stem)
      tokens := by
  refine numbered_of_scaleTokens (fun _ => rfl) ?_ made
  intro n size stepMade
  refine ⟨size, ?_, rfl⟩
  by_cases one : (n : Int) = 1
  · rw [TypeScale.step, if_pos one] at stepMade
    cases stepMade
    exact .inl ⟨by omega, rfl⟩
  · obtain ⟨factor, nearest, rfl⟩ := (TypeScale.step_eq_ok one).1 stepMade
    exact .inr ⟨by omega, factor, nearest, rfl⟩

/-! ## Scales that go on -/

/-- Under the numbered names of a stem stand the steps of one scale, then those
by which a default scale is longer, and nothing more. -/
structure FillsForward (record : Record Token) (stem : String)
    (own default : Int) (least : Token)
    (isStep isDefault : Nat → Token → Prop) : Prop where
  least : record.lookup (stem ++ "-" ++ "min") = some least
  steps : ∀ n : Nat, 1 ≤ n → (n : Int) ≤ own → ∃ token,
    record.lookup (stem ++ "-" ++ Number.wholeText n) = some token ∧
      isStep n token
  inherited : ∀ n : Nat, 1 ≤ n → own < n → (n : Int) ≤ default → ∃ token,
    record.lookup (stem ++ "-" ++ Number.wholeText n) = some token ∧
      isDefault n token
  absent : ∀ n : Nat, own < n → default < n →
    record.lookup (stem ++ "-" ++ Number.wholeText n) = none

theorem fillsForward_of_numbered {record : Record Token} {stem : String}
    {own default : Int} {least inheritedLeast : Token}
    {isStep isDefault : Nat → Token → Prop} {tokens defaults : List Token}
    (numbered : Numbered stem own least isStep tokens)
    (inherited : Numbered stem default inheritedLeast isDefault defaults)
    (shown : ∀ label, record.lookup (stem ++ "-" ++ label) =
      (tokens.find? fun token => token.name = stem ++ "-" ++ label).or
        (defaults.find? fun token => token.name = stem ++ "-" ++ label)) :
    FillsForward record stem own default least isStep isDefault := by
  constructor
  · rw [shown, numbered.find?_least]
    rfl
  · intro n first last
    obtain ⟨token, found, step⟩ := numbered.find?_step first last
    exact ⟨token, by rw [shown, found]; rfl, step⟩
  · intro n first beyond last
    obtain ⟨token, found, step⟩ := inherited.find?_step first last
    exact ⟨token, by rw [shown, numbered.find?_beyond beyond, found]; rfl,
      step⟩
  · intro n beyond more
    rw [shown, numbered.find?_beyond beyond, inherited.find?_beyond more]
    rfl

theorem Expansions.Named.fillsForward {prefixes : Prefixes}
    {expansions : Expansions} {names : Family → List String}
    (family : Family) {alpha : Type} {modes : Modes alpha}
    {mode default : Mode alpha} {count : alpha → Int} {least : alpha → Token}
    {isStep : alpha → Nat → Token → Prop}
    {expandMode : Mode alpha → Except ExpansionFault (List Token)}
    (named : expansions.Named prefixes) (apart : prefixes.Apart)
    (categories : expansions.Apart names)
    (follows : (expansions.ofFamily family).Follows modes expandMode)
    (each : ∀ mode tokens, expandMode mode = .ok tokens →
      Numbered (prefixes.ofFamily family) (count mode.content)
        (least mode.content) (isStep mode.content) tokens)
    (isDefault : modes.default = .ok default)
    (override : mode ∈ modes.overrides) :
    FillsForward (expansions.assemble.sheet.resolve mode.name)
      (prefixes.ofFamily family) (count mode.content) (count default.content)
      (least mode.content) (isStep mode.content) (isStep default.content) := by
  obtain ⟨chosen, _, again, defaultMade⟩ := follows.defaults
  rw [isDefault] at again
  cases again
  apply fillsForward_of_numbered
    (each mode _ (follows.overrides mode override))
    (each default _ defaultMade)
  intro label
  exact named.lookup_resolve_lead apart categories
    (nameLead_dashed (apart.plain family) label) mode.name

/-! ## Accepted configurations -/

/-- The expansions of an accepted configuration, in which only colours may
share a name and no mode belongs to two categories. -/
theorem exists_named_expansions {config : Value} {system : DesignSystem}
    {settings : Settings} {generated : Generated}
    (distinct : config.keysDistinct = true)
    (accepted : Acceptance.accept config = .ok ())
    (read : DesignSystem.read config = .accepted system)
    (apart : settings.prefixes.Apart)
    (made : system.expand settings = .ok generated) :
    ∃ expansions names, Expansions.ofSystem settings system = .ok expansions ∧
      generated = expansions.assemble ∧ expansions.Named settings.prefixes ∧
      expansions.Apart names := by
  obtain ⟨entries, modes, rfl, wellFormed, readFrom⟩ :=
    exists_modes accepted read
  obtain ⟨expansions, expanded, same⟩ := exists_expansions made
  exact ⟨expansions, _, expanded, same,
    named_of_ofSystem distinct wellFormed readFrom apart expanded,
    apart_of_wellFormed wellFormed readFrom expanded⟩

/-- In the scope of an override mode of spacing or type sizes the numbered
names stand for the steps of the mode's scale, where that ends for those of the
default scale, and then for nothing. All names of either family stand for the
same tokens wherever the family is the same, whatever the other families
are. -/
theorem sizes_in_scope {config : Value} {system : DesignSystem}
    {settings : Settings} {generated : Generated}
    (distinct : config.keysDistinct = true)
    (accepted : Acceptance.accept config = .ok ())
    (read : DesignSystem.read config = .accepted system)
    (apart : settings.prefixes.Apart)
    (made : system.expand settings = .ok generated) :
    (∀ modes default mode, system.spacing = some modes →
      modes.default = .ok default → mode ∈ modes.overrides →
      FillsForward (generated.sheet.resolve mode.name)
        settings.prefixes.spacing mode.content.count default.content.count
        (mode.content.leastToken settings.prefixes.spacing)
        (mode.content.IsStep settings.prefixes.spacing)
        (default.content.IsStep settings.prefixes.spacing)) ∧
    (∀ modes default mode, system.typography = some modes →
      modes.default = .ok default → mode ∈ modes.overrides →
      FillsForward (generated.sheet.resolve mode.name)
        settings.prefixes.typography mode.content.count default.content.count
        (mode.content.leastToken settings.prefixes.typography)
        (mode.content.IsStep settings.prefixes.typography)
        (default.content.IsStep settings.prefixes.typography)) ∧
    ∀ other otherSystem otherGenerated, other.keysDistinct = true →
      Acceptance.accept other = .ok () →
      DesignSystem.read other = .accepted otherSystem →
      otherSystem.expand settings = .ok otherGenerated →
      ∀ mode label,
        (otherSystem.spacing = system.spacing →
          (otherGenerated.sheet.resolve mode).lookup
              (settings.prefixes.spacing ++ "-" ++ label) =
            (generated.sheet.resolve mode).lookup
              (settings.prefixes.spacing ++ "-" ++ label)) ∧
        (otherSystem.typography = system.typography →
          (otherGenerated.sheet.resolve mode).lookup
              (settings.prefixes.typography ++ "-" ++ label) =
            (generated.sheet.resolve mode).lookup
              (settings.prefixes.typography ++ "-" ++ label)) := by
  obtain ⟨expansions, names, expanded, rfl, named, categories⟩ :=
    exists_named_expansions distinct accepted read apart made
  obtain ⟨entries, plain, rfl, wellFormed, readFrom⟩ :=
    exists_modes accepted read
  refine ⟨?_, ?_, ?_⟩
  · intro modes default mode given isDefault override
    have follows := follows_of_given wellFormed readFrom.spacing
      (ofSystem_eq_ok expanded .spacing) given
    exact named.fillsForward .spacing apart categories follows
      (fun _ _ => numbered_of_spacing) isDefault override
  · intro modes default mode given isDefault override
    have follows := follows_of_given wellFormed readFrom.typography
      (ofSystem_eq_ok expanded .typography) given
    exact named.fillsForward .typography apart categories follows
      (fun _ _ => numbered_of_typography) isDefault override
  · intro other otherSystem otherGenerated otherDistinct otherAccepted
      otherRead otherMade mode label
    obtain ⟨others, _, otherExpanded, rfl, otherNamed, otherCategories⟩ :=
      exists_named_expansions otherDistinct otherAccepted otherRead apart
        otherMade
    have alike (family : Family)
        (same : otherSystem.expandFamily settings family =
          system.expandFamily settings family) :
        (others.assemble.sheet.resolve mode).lookup
            (settings.prefixes.ofFamily family ++ "-" ++ label) =
          (expansions.assemble.sheet.resolve mode).lookup
            (settings.prefixes.ofFamily family ++ "-" ++ label) := by
      rw [ofSystem_eq_ok otherExpanded, ofSystem_eq_ok expanded] at same
      have lead := nameLead_dashed (apart.plain family) label
      rw [named.lookup_resolve_lead apart categories lead,
        otherNamed.lookup_resolve_lead apart otherCategories lead,
        Except.ok.inj same]
    constructor
    · intro same
      apply alike .spacing
      rw [DesignSystem.expandFamily, DesignSystem.expandFamily, same]
    · intro same
      apply alike .typography
      rw [DesignSystem.expandFamily, DesignSystem.expandFamily, same]

/-- Two modes of spacing, of which the default has more steps, and of type
sizes, of which it has fewer. -/
def nestedScales : Entries :=
  [(.str "spacing", writtenFamily
      [("regular", writtenScale 8 (.int 3)),
        ("compact", writtenScale 4 (.int 1))]),
    (.str "typography", writtenFamily
      [("regular", (.str "increment", .int 4) :: writtenScale 16 (.int 1)),
        ("compact", (.str "increment", .int 2) :: writtenScale 12 (.int 2))])]

/-- The same scales, together with gaps that belong to the second mode. -/
def nestedGaps : Value :=
  .map (nestedScales ++ [(.str "gap", writtenFamily
    [("regular", [(.str "1", .int 2)]), ("compact", [(.str "1", .int 1)])])])

theorem nestedScales_in_scope :
    ∃ system generated otherSystem otherGenerated spacing typography regular
        compact small large,
      (Value.map nestedScales).keysDistinct = true ∧
      Acceptance.accept (.map nestedScales) = .ok () ∧
      DesignSystem.read (.map nestedScales) = .accepted system ∧
      Prefixes.Apart {} ∧
      system.expand {} = .ok generated ∧
      system.spacing = some spacing ∧ spacing.default = .ok regular ∧
      compact ∈ spacing.overrides ∧ compact.name = "compact" ∧
      FillsForward (generated.sheet.resolve "compact") "sp" 1 3
        (compact.content.leastToken "sp") (compact.content.IsStep "sp")
        (regular.content.IsStep "sp") ∧
      system.typography = some typography ∧ typography.default = .ok large ∧
      small ∈ typography.overrides ∧ small.name = "compact" ∧
      FillsForward (generated.sheet.resolve "compact") "fs" 2 1
        (small.content.leastToken "fs") (small.content.IsStep "fs")
        (large.content.IsStep "fs") ∧
      Acceptance.accept nestedGaps = .ok () ∧
      DesignSystem.read nestedGaps = .accepted otherSystem ∧
      otherSystem.expand {} = .ok otherGenerated ∧
      (otherGenerated.sheet.resolve "compact").lookup "sp-3" =
        (generated.sheet.resolve "compact").lookup "sp-3" := by
  obtain ⟨system, read⟩ : ∃ system,
      DesignSystem.read (.map nestedScales) = .accepted system := ⟨_, rfl⟩
  obtain ⟨other, otherRead⟩ : ∃ other,
      DesignSystem.read nestedGaps = .accepted other := ⟨_, rfl⟩
  have expands : (system.expand {}).toOption.isSome := by
    cases read
    decide +kernel
  have otherExpands : (other.expand {}).toOption.isSome := by
    cases otherRead
    decide +kernel
  obtain ⟨generated, made⟩ := Option.isSome_iff_exists.1 expands
  obtain ⟨others, otherMade⟩ := Option.isSome_iff_exists.1 otherExpands
  rw [toOption_eq_some] at made otherMade
  cases read
  cases otherRead
  obtain ⟨spacing, typography, alike⟩ :=
    @sizes_in_scope (.map nestedScales) _ {} _ rfl rfl rfl
      Prefixes.apart_default made
  have same := (alike nestedGaps _ _ rfl rfl rfl otherMade "compact" "3").1 rfl
  exact ⟨_, _, _, _, _, _, _, _, _, _, rfl, rfl, rfl,
    Prefixes.apart_default, made, rfl, rfl, List.mem_cons_self .., rfl,
    spacing _ _ _ rfl rfl (List.mem_cons_self ..), rfl, rfl,
    List.mem_cons_self .., rfl,
    typography _ _ _ rfl rfl (List.mem_cons_self ..), rfl, rfl, otherMade,
    same⟩

end DesignTokens
