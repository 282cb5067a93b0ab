import DesignTokens.Proofs.Expansion.Collisions
import DesignTokens.Proofs.Number.Exact

/-!
# References in their scope

The value of a gap or corner radius is written out. In the scope of an
override mode that names no spacing mode of its own, it is the value of the
spacing token that it refers to: the tokens of the mode, over the default
tokens, hold that step of the scale that was chosen for the mode.
-/

namespace DesignTokens

open Grammar Success

/-! ## Steps of a scale -/

/-- A reference to the least value of a scale or to one of its steps. -/
def Scale.HasStep (scale : Scale) (reference : Value) : Prop :=
  reference = .str "min" ∨
    ∃ n : Int, reference = .int n ∧ 1 ≤ n ∧ n ≤ scale.count

theorem mem_values_of_hasStep {scale : Scale} {reference : Value}
    {values : List (String × Float)} {size : Float}
    (found : scale.values = .ok values) (step : scale.HasStep reference)
    (resolved : scale.resolve reference = .ok size) :
    (reference.plain, size) ∈ values := by
  obtain ⟨steps, stepsFound, same⟩ := bind_eq_ok.1 found
  cases same
  rcases step with rfl | ⟨n, rfl, least, most⟩
  · have minimum : size = scale.minimum := (Except.ok.inj resolved).symm
    rw [minimum]
    exact List.mem_cons_self ..
  · obtain ⟨k, rfl⟩ := Int.eq_ofNat_of_zero_le (by omega : 0 ≤ n)
    have listed : k ∈ stepNumbers scale.count :=
      mem_stepNumbers_iff.2 ⟨by omega, most⟩
    obtain ⟨entry, member, made⟩ := mem_mapM_of_mem stepsFound listed
    obtain ⟨value, stepMade, same⟩ := bind_eq_ok.1 made
    cases same
    rw [Scale.resolve_int_eq_ok.1 resolved] at stepMade
    cases stepMade
    exact List.mem_cons_of_mem _ member

/-- Among the tokens of a scale is the one that a reference points at. -/
theorem spacingToken_mem {scale : Scale} {stem : String}
    {reference : Value} {tokens : List Token} {size : Float}
    (made : scale.spacingTokens stem = .ok tokens)
    (step : scale.HasStep reference)
    (resolved : scale.resolve reference = .ok size) :
    Token.dimension .spacing (stem ++ "-" ++ reference.plain)
      (Number.plainText size) scale.unit size ∈ tokens := by
  rw [Scale.spacingTokens, scaleTokens, mapError_eq_ok, map_eq_ok] at made
  obtain ⟨values, found, rfl⟩ := made
  have member := mem_values_of_hasStep found step resolved
  exact List.mem_map.2 ⟨_, member, rfl⟩

theorem exists_referringToken {family : Family} {settings : Settings}
    {spacing : Modes Scale} {mode : Mode References} {tokens : List Token}
    (made : mode.expandReferences family settings spacing = .ok tokens) :
    ∃ chosen, mode.spacingMode spacing = .ok chosen ∧
      ∀ entry ∈ mode.content.entries, ∃ token ∈ tokens, ∃ size,
        chosen.content.resolve entry.2 = .ok size ∧
        token.name =
          settings.prefixes.ofFamily family ++ "-" ++ entry.1 ∧
        token.rawValue = some size ∧
        token.reference =
          some (settings.prefixes.spacing ++ "-" ++ entry.2.plain) := by
  obtain ⟨chosen, found, referring⟩ := bind_eq_ok.1 made
  refine ⟨chosen, found, ?_⟩
  intro entry member
  obtain ⟨token, inside, step⟩ := mem_mapM_of_mem referring member
  obtain ⟨size, resolved, same⟩ := bind_eq_ok.1 step
  cases same
  exact ⟨_, inside, size, resolved, rfl, rfl, rfl⟩

/-! ## The chosen spacing mode -/

theorem Modes.name_default_not_mem {alpha : Type} {modes : Modes alpha}
    {default : Mode alpha} (distinct : (modes.map Mode.name).Nodup)
    (found : modes.default = .ok default) :
    default.name ∉ modes.overrides.map Mode.name := by
  obtain ⟨earlier, chosen, later, split⟩ := Selection.exists_split
    Modes.flagged (List.ne_nil_of_mem (Modes.mem_of_default found))
  have same : chosen = default := by
    rw [Modes.default, split.default?_eq] at found
    exact Except.ok.inj found
  have around : modes.overrides = earlier ++ later := split.overrides_eq
  have exposed :
      ((default :: (earlier ++ later)).map Mode.name).Nodup := by
    rw [split.parts, same] at distinct
    exact (List.perm_middle.map Mode.name).nodup_iff.1 distinct
  rw [around]
  exact (List.nodup_cons.1 exposed).1

theorem Mode.mem_of_matching? {mode : Mode References}
    {spacing : Modes Scale} {chosen : Mode Scale}
    (found : mode.matching? spacing = some chosen) : chosen ∈ spacing := by
  rw [Mode.matching?] at found
  split at found
  · rename_i named
    cases found
    rw [References.chosenMode?] at named
    split at named
    · rename_i name _
      by_cases empty : name = ""
      · rw [if_pos empty] at named
        cases named
      · rw [if_neg empty] at named
        exact List.mem_of_find?_eq_some named
    · cases named
  · exact List.mem_of_find?_eq_some found

theorem Mode.mem_of_spacingMode {mode : Mode References}
    {spacing : Modes Scale} {chosen : Mode Scale}
    (found : mode.spacingMode spacing = .ok chosen) : chosen ∈ spacing := by
  rw [Mode.spacingMode] at found
  split at found
  · rename_i matching
    cases found
    exact Mode.mem_of_matching? matching
  · exact Modes.mem_of_default found

theorem Mode.matching?_of_unnamed {mode : Mode References}
    (spacing : Modes Scale) (unnamed : mode.content.spacingMode = none) :
    mode.matching? spacing = spacing.named? mode.name := by
  rw [Mode.matching?, References.chosenMode?, unnamed]

/-- A mode that names no spacing mode goes with the override of its name or,
where there is none, with the default. -/
theorem spacingMode_cases {mode : Mode References} {spacing : Modes Scale}
    {chosen : Mode Scale} (distinct : (spacing.map Mode.name).Nodup)
    (unnamed : mode.content.spacingMode = none)
    (found : mode.spacingMode spacing = .ok chosen) :
    (chosen ∈ spacing.overrides ∧ chosen.name = mode.name) ∨
      (spacing.default = .ok chosen ∧
        mode.name ∉ spacing.overrides.map Mode.name) := by
  rw [Mode.spacingMode, mode.matching?_of_unnamed spacing unnamed] at found
  cases named : spacing.named? mode.name with
  | some other =>
      rw [named] at found
      cases found
      have name : chosen.name = mode.name := by
        simpa using List.find?_some named
      have member : chosen ∈ spacing := List.mem_of_find?_eq_some named
      obtain ⟨default, isDefault, _, members⟩ :=
        Modes.exists_default (List.ne_nil_of_mem member)
      rcases (members chosen).1 member with rfl | override
      · have absent := Modes.name_default_not_mem distinct isDefault
        exact .inr ⟨isDefault, name ▸ absent⟩
      · exact .inl ⟨override, name⟩
  | none =>
      rw [named] at found
      refine .inr ⟨found, ?_⟩
      intro listed
      obtain ⟨other, override, name⟩ := List.mem_map.1 listed
      have member : other ∈ spacing := List.mem_of_mem_eraseIdx override
      have differs := List.find?_eq_none.1 named other member
      simp [name] at differs

/-! ## Resolved sheets -/

section Resolved

variable {prefixes : Prefixes} {expansions : Expansions}
  {names : Family → List String}

theorem Expansions.Apart.lookup_resolve (categories : expansions.Apart names)
    (mode name : String) :
    (expansions.assemble.sheet.resolve mode).lookup name =
      ((expansions.assemble.sheet.overridesOf mode).lookup name).or
        (expansions.assemble.sheet.tokens.lookup name) := by
  have distinct :
      (expansions.assemble.sheet.overridesOf mode).names.Nodup := by
    rw [categories.overridesOf_assemble]
    exact nodup_names_mergeTokens _
  exact Record.lookup_overlay name distinct

theorem find?_families {tokensOf : Family → List Token}
    {keep : Token → Bool} {family : Family}
    (others : ∀ other, other ≠ family → ∀ token ∈ tokensOf other,
      keep token = false) :
    (Family.all.flatMap tokensOf).find? keep =
      (tokensOf family).find? keep := by
  have none {other : Family} (different : other ≠ family) :
      (tokensOf other).find? keep = none :=
    List.find?_eq_none.2 fun token member => by
      simp [others other different token member]
  cases family <;> simp [Family.all, List.find?_append, none]

/-- Only the tokens of one family have names with its prefix. -/
theorem find?_lead (apart : prefixes.Apart) {family : Family}
    {name : String} {tokensOf : Family → List Token}
    (named : ∀ other, NamedIn prefixes other (tokensOf other))
    (lead : nameLead name = (prefixes.ofFamily family).toList) :
    (Family.all.flatMap tokensOf).find? (fun token => token.name = name) =
      (tokensOf family).find? fun token => token.name = name := by
  apply find?_families
  intro other different token member
  apply decide_eq_false
  intro same
  have leads := (named other).lead token member
  rw [same, lead] at leads
  exact different
    (apart.distinct (String.toList_injective leads)).symm

/-- What stands in an override mode under a name with the prefix of a family is
a token of that family there. -/
theorem Expansions.Named.lookup_overridesOf_lead
    (named : expansions.Named prefixes) (apart : prefixes.Apart)
    (categories : expansions.Apart names) {family : Family} {name : String}
    (lead : nameLead name = (prefixes.ofFamily family).toList)
    (mode : String) :
    (expansions.assemble.sheet.overridesOf mode).lookup name =
      ((expansions.ofFamily family).tokensOf mode).find?
        fun token => token.name = name := by
  rw [categories.overridesOf_assemble, lookup_mergeTokens]
  exact find?_lead apart (fun other => (named other).tokensOf mode) lead

theorem Expansions.Named.lookup_resolve_override
    (named : expansions.Named prefixes) (apart : prefixes.Apart)
    (categories : expansions.Apart names) {family : Family}
    (plain : family ≠ .color) {mode : String} {token : Token}
    (member : token ∈ (expansions.ofFamily family).tokensOf mode) :
    (expansions.assemble.sheet.resolve mode).lookup token.name =
      some token := by
  rw [categories.lookup_resolve,
    named.lookup_override apart categories plain member]
  rfl

theorem Expansions.Named.lookup_resolve_default
    (named : expansions.Named prefixes) (apart : prefixes.Apart)
    (categories : expansions.Apart names) {family : Family}
    (plain : family ≠ .color) {mode : String} {token : Token}
    (empty : (expansions.ofFamily family).tokensOf mode = [])
    (member : token ∈ (expansions.ofFamily family).defaults) :
    (expansions.assemble.sheet.resolve mode).lookup token.name =
      some token := by
  have lead := (named family).defaults.lead token member
  rw [categories.lookup_resolve,
    named.lookup_overridesOf_lead apart categories lead, empty,
    named.lookup_default apart plain member]
  rfl

/-- The tokens of the spacing mode that goes with a mode are those that are
found in it. -/
theorem Expansions.Named.lookup_resolve_spacing
    (named : expansions.Named prefixes) (apart : prefixes.Apart)
    (categories : expansions.Apart names) {spacing : Modes Scale}
    {mode : Mode References} {chosen : Mode Scale}
    {expandMode : Mode Scale → Except ExpansionFault (List Token)}
    (distinct : (spacing.map Mode.name).Nodup)
    (follows : (expansions.ofFamily .spacing).Follows spacing expandMode)
    (unnamed : mode.content.spacingMode = none)
    (found : mode.spacingMode spacing = .ok chosen) :
    ∃ tokens, expandMode chosen = .ok tokens ∧ ∀ token ∈ tokens,
      token.family = .spacing ∧
        (expansions.assemble.sheet.resolve mode.name).lookup token.name =
          some token := by
  have plain : Family.spacing ≠ .color := by decide
  -- A default mode is seen through an override mode of any other name, which
  -- has no spacing tokens of its own.
  rcases spacingMode_cases distinct unnamed found with
    ⟨override, sameName⟩ | ⟨isDefault, absent⟩
  · refine ⟨_, follows.overrides chosen override, ?_⟩
    intro token member
    have belongs := ((named .spacing).tokensOf chosen.name).belongs
    rw [sameName] at member belongs
    exact ⟨belongs token member,
      named.lookup_resolve_override apart categories plain member⟩
  · obtain ⟨default, _, sameDefault, made⟩ := follows.defaults
    have same : default = chosen := by
      rw [sameDefault] at isDefault
      exact Except.ok.inj isDefault
    have empty := follows.tokensOf_eq_nil absent
    refine ⟨_, same ▸ made, ?_⟩
    intro token member
    exact ⟨(named .spacing).defaults.belongs token member,
      named.lookup_resolve_default apart categories plain empty member⟩

end Resolved

/-! ## Accepted configurations -/

def DesignSystem.referencesOf (system : DesignSystem) :
    Family → Option (Modes References)
  | .gap => system.gap
  | .borderRadius => system.border.bind Border.radius
  | _ => none

section Families

variable {config : Entries} {modes : Family → List Acceptance.PlainMode}
  {system : DesignSystem} {settings : Settings} {family : Family}

theorem expandFamily_of_refers (refers : family ∈ referringFamilies) :
    system.expandFamily settings family =
      expandReferring family settings system.spacing
        (system.referencesOf family) := by
  cases family with
  | gap => rfl
  | borderRadius => rfl
  | _ => exact absurd refers (by decide)

theorem matches_of_refers (readFrom : ReadFrom modes system)
    (refers : family ∈ referringFamilies) :
    Matches (readTokens References.read) (modes family)
      (system.referencesOf family) := by
  cases family with
  | gap => exact readFrom.gap
  | borderRadius => exact readFrom.borderRadius
  | _ => exact absurd refers (by decide)

theorem refers_of_referencesOf {typed : Modes References}
    (given : system.referencesOf family = some typed) :
    family ∈ referringFamilies := by
  cases family with
  | gap => decide
  | borderRadius => decide
  | _ => cases given

theorem matches_of_referencesOf {typed : Modes References}
    (readFrom : ReadFrom modes system)
    (given : system.referencesOf family = some typed) :
    family ∈ referringFamilies ∧
      Matches (readTokens References.read) (modes family) (some typed) := by
  have refers := refers_of_referencesOf given
  exact ⟨refers, given ▸ matches_of_refers readFrom refers⟩

/-- References of an accepted configuration are expanded against spacing that
is there. -/
theorem exists_spacing_of_expanded {typed : Modes References}
    {expansion : Expansion} (wellFormed : WellFormed config modes)
    (readFrom : ReadFrom modes system)
    (given : system.referencesOf family = some typed)
    (expanded : system.expandFamily settings family = .ok expansion) :
    ∃ spacing, system.spacing = some spacing ∧
      (typed.map Mode.name).Nodup ∧
      expandReferences family settings spacing typed = .ok expansion := by
  obtain ⟨refers, matched⟩ := matches_of_referencesOf readFrom given
  rw [expandFamily_of_refers refers, given] at expanded
  rcases expandedReferring_cases wellFormed readFrom.spacing matched refers
    expanded with ⟨missing, _⟩ | ⟨spacing, _, found, same, distinct, made⟩
  · cases missing
  · cases same
    exact ⟨spacing, found, distinct, made⟩

theorem follows_of_given {alpha : Type}
    {readContent : Entries → Schema.Checked alpha}
    {given : Option (Modes alpha)} {typed : Modes alpha}
    {expandMode : Mode alpha → Except ExpansionFault (List Token)}
    {expansion : Expansion} (wellFormed : WellFormed config modes)
    (matched : Matches readContent (modes family) given)
    (expanded : expandGiven (fun typed => Modes.expand typed expandMode)
      given = .ok expansion)
    (found : given = some typed) : expansion.Follows typed expandMode := by
  cases found
  exact Modes.follows_of_expand (nodup_of_matches wellFormed matched) expanded

theorem follows_of_spacing {spacing : Modes Scale} {expansion : Expansion}
    (wellFormed : WellFormed config modes)
    (readFrom : ReadFrom modes system)
    (given : system.spacing = some spacing)
    (expanded : system.expandFamily settings .spacing = .ok expansion) :
    (spacing.map Mode.name).Nodup ∧ expansion.Follows spacing fun mode =>
      mode.content.spacingTokens settings.prefixes.spacing :=
  ⟨nodup_of_matches wellFormed (given ▸ readFrom.spacing),
    follows_of_given wellFormed readFrom.spacing expanded given⟩

end Families

/-- Where an override mode of gaps or corner radii names no spacing mode, each
of its tokens that refers to a step of the chosen scale has the value of the
spacing token of that name in its own scope. -/
theorem references_agree_in_scope {config : Value} {system : DesignSystem}
    {settings : Settings} {generated : Generated} {family : Family}
    {modes : Modes References} {mode : Mode References}
    (distinct : config.keysDistinct = true)
    (accepted : Acceptance.accept config = .ok ())
    (read : DesignSystem.read config = .accepted system)
    (apart : settings.prefixes.Apart)
    (made : system.expand settings = .ok generated)
    (given : system.referencesOf family = some modes)
    (override : mode ∈ modes.overrides)
    (unnamed : mode.content.spacingMode = none) :
    ∃ spacing chosen, system.spacing = some spacing ∧
      mode.spacingMode spacing = .ok chosen ∧
      ∀ entry ∈ mode.content.entries, chosen.content.HasStep entry.2 →
        ∃ token target reference size,
          (generated.sheet.overridesOf mode.name).lookup
              (settings.prefixes.ofFamily family ++ "-" ++ entry.1) =
            some token ∧
          token.family = family ∧
          token.reference = some reference ∧
          (generated.sheet.resolve mode.name).lookup reference =
            some target ∧
          target.family = .spacing ∧
          token.rawValue = some size ∧
          target.rawValue = some size := by
  obtain ⟨entries, plain, rfl, wellFormed, readFrom⟩ :=
    exists_modes accepted read
  obtain ⟨expansions, expanded, rfl⟩ := exists_expansions made
  have named := named_of_ofSystem distinct wellFormed readFrom apart expanded
  have categories := apart_of_wellFormed wellFormed readFrom expanded
  have notColor : family ≠ .color := by
    rintro rfl
    cases given
  obtain ⟨spacing, spacingGiven, ownNames, modesExpanded⟩ :=
    exists_spacing_of_expanded wellFormed readFrom given
      (ofSystem_eq_ok expanded family)
  have follows := follows_of_references ownNames modesExpanded
  obtain ⟨names, spacingFollows⟩ :=
    follows_of_spacing wellFormed readFrom spacingGiven
      (ofSystem_eq_ok expanded .spacing)
  obtain ⟨chosen, found, referring⟩ :=
    exists_referringToken (follows.overrides mode override)
  obtain ⟨tokens, scale, inScope⟩ :=
    named.lookup_resolve_spacing apart categories names spacingFollows
      unnamed found
  refine ⟨spacing, chosen, spacingGiven, found, ?_⟩
  intro entry member step
  obtain ⟨token, inMode, size, resolved, name, value, reference⟩ :=
    referring entry member
  have inScale := spacingToken_mem scale step resolved
  have belongs := ((named family).tokensOf mode.name).belongs token inMode
  have kept := named.lookup_override apart categories notColor inMode
  have shown := inScope _ inScale
  rw [name] at kept
  exact ⟨token, _, _, size, kept, belongs, reference, shown.2, shown.1,
    value, rfl⟩

/-- Gaps in two override modes, of which one has spacing of its own. -/
def scopedGaps : Value :=
  .map [(.str "spacing", writtenFamily
      [("regular", writtenScale 8 (.int 2)),
        ("compact", writtenScale 4 (.int 2))]),
    (.str "gap", writtenFamily
      [("regular", [(.str "s", .int 1)]),
        ("compact", [(.str "s", .int 2)]),
        ("airy", [(.str "s", .str "min")])])]

theorem scopedGaps_agree :
    ∃ system generated modes mode token target reference size,
      scopedGaps.keysDistinct = true ∧
      Acceptance.accept scopedGaps = .ok () ∧
      DesignSystem.read scopedGaps = .accepted system ∧
      Prefixes.Apart {} ∧
      system.expand {} = .ok generated ∧
      system.referencesOf .gap = some modes ∧
      mode ∈ modes.overrides ∧
      mode.content.spacingMode = none ∧
      mode.name = "compact" ∧
      (generated.sheet.overridesOf "compact").lookup "gap-s" = some token ∧
      token.reference = some reference ∧
      (generated.sheet.resolve "compact").lookup reference = some target ∧
      token.rawValue = some size ∧
      target.rawValue = some size := by
  obtain ⟨spacing, chosen, same, found, agree⟩ :=
    @references_agree_in_scope scopedGaps _ {} _ .gap _ _ rfl rfl rfl
      Prefixes.apart_default rfl rfl (List.mem_cons_self ..) rfl
  cases same
  cases found
  obtain ⟨token, target, reference, size, inMode, _, points, shown, _,
    value, targetValue⟩ := agree _ (List.mem_cons_self ..)
      (.inr ⟨2, rfl, by decide, by decide⟩)
  exact ⟨_, _, _, _, token, target, reference, size, rfl, rfl, rfl,
    Prefixes.apart_default, rfl, rfl, List.mem_cons_self .., rfl, rfl,
    inMode, points, shown, value, targetValue⟩

end DesignTokens
