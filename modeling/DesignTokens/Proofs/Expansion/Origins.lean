import DesignTokens.Proofs.Expansion.Scope

/-!
# Where tokens come from

Every token of an expanded family is one of the tokens that a mode of the
family expands to. What holds of the tokens of every mode therefore holds of
all tokens of a sheet.
-/

namespace DesignTokens

open Grammar Success

/-- A token of a family is among those that some mode of it expands to. -/
inductive Token.From (settings : Settings) (system : DesignSystem) :
    Family → Token → Prop
  | color {colors : ColorFamily} {mode : Mode Palette} {tokens : List Token}
      {token : Token} (given : system.colors = some colors)
      (member : mode ∈ colors.modes)
      (made : colors.expandMode settings mode = .ok tokens)
      (inside : token ∈ tokens) : From settings system .color token
  | spacing {modes : Modes Scale} {mode : Mode Scale} {tokens : List Token}
      {token : Token} (given : system.spacing = some modes)
      (member : mode ∈ modes)
      (made : mode.content.spacingTokens settings.prefixes.spacing =
        .ok tokens)
      (inside : token ∈ tokens) : From settings system .spacing token
  | typography {modes : Modes TypeScale} {mode : Mode TypeScale}
      {tokens : List Token} {token : Token}
      (given : system.typography = some modes) (member : mode ∈ modes)
      (made : mode.content.tokens settings.prefixes.typography = .ok tokens)
      (inside : token ∈ tokens) : From settings system .typography token
  | borderWidth {modes : Modes Width} {mode : Mode Width} {token : Token}
      (given : system.border.bind Border.width = some modes)
      (member : mode ∈ modes)
      (inside : token ∈
        mode.content.tokens settings.prefixes.borderWidth) :
      From settings system .borderWidth token
  | time {modes : Modes Scale} {mode : Mode Scale} {isDefault : Bool}
      {tokens : List Token} {token : Token}
      (given : system.time = some modes) (member : mode ∈ modes)
      (made : mode.content.timeTokens (timeStem settings mode isDefault)
        mode.name = .ok tokens)
      (inside : token ∈ tokens) : From settings system .time token
  | reference {family : Family} {spacing : Modes Scale}
      {modes : Modes References} {mode : Mode References}
      {tokens : List Token} {token : Token}
      (scales : system.spacing = some spacing)
      (given : system.referencesOf family = some modes)
      (member : mode ∈ modes)
      (made : mode.expandReferences family settings spacing = .ok tokens)
      (inside : token ∈ tokens) : From settings system family token

/-- An expansion all of whose tokens are good. -/
structure Expansion.All (good : Token → Prop) (expansion : Expansion) :
    Prop where
  defaults : ∀ token ∈ expansion.defaults, good token
  tokensOf : ∀ name, ∀ token ∈ expansion.tokensOf name, good token

section Expansions

variable {good : Token → Prop} {expansion : Expansion}

theorem Expansion.all_empty : Expansion.All good {} :=
  ⟨List.forall_mem_nil _, fun _ => List.forall_mem_nil _⟩

theorem Expansion.Follows.all {alpha : Type} {modes : Modes alpha}
    {expandMode : Mode alpha → Except ExpansionFault (List Token)}
    (follows : expansion.Follows modes expandMode)
    (each : ∀ mode ∈ modes, ∀ tokens, expandMode mode = .ok tokens →
      ∀ token ∈ tokens, good token) : expansion.All good := by
  have parts := follows.forall_tokens each
  refine ⟨parts.1, fun name => ?_⟩
  rw [Expansion.tokensOf]
  cases found : expansion.overrides.lookup name with
  | none => exact List.forall_mem_nil _
  | some tokens => exact parts.2 _ (Record.mem_of_lookup found)

theorem Expansions.forall_defaults {expansions : Expansions}
    {good : Family → Token → Prop}
    (each : ∀ family, (expansions.ofFamily family).All (good family)) :
    ∀ token ∈ expansions.defaults, ∃ family, good family token := by
  intro token member
  obtain ⟨family, _, inside⟩ := List.mem_flatMap.1 member
  exact ⟨family, (each family).defaults token inside⟩

theorem Expansions.forall_overridesOf {expansions : Expansions}
    {good : Family → Token → Prop}
    (each : ∀ family, (expansions.ofFamily family).All (good family))
    (name : String) :
    ∀ token ∈ expansions.overridesOf name, ∃ family, good family token := by
  intro token member
  obtain ⟨family, inside⟩ := Expansions.mem_overridesOf_iff.1 member
  exact ⟨family, (each family).tokensOf name token inside⟩

end Expansions

/-! ## Families of an accepted configuration -/

section Families

variable {config : Entries} {modes : Family → List Acceptance.PlainMode}
  {system : DesignSystem} {settings : Settings} {expansion : Expansion}

theorem all_of_given {alpha : Type}
    {readContent : Entries → Schema.Checked alpha} {family : Family}
    {given : Option (Modes alpha)} {good : Token → Prop}
    {expandMode : Mode alpha → Except ExpansionFault (List Token)}
    (wellFormed : WellFormed config modes)
    (matched : Matches readContent (modes family) given)
    (expanded : expandGiven (fun typed => Modes.expand typed expandMode)
      given = .ok expansion)
    (each : ∀ typed, given = some typed → ∀ mode ∈ typed, ∀ tokens,
      expandMode mode = .ok tokens → ∀ token ∈ tokens, good token) :
    expansion.All good := by
  rcases expanded_cases wellFormed matched expanded with
    ⟨_, rfl⟩ | ⟨typed, found, names, made⟩
  · exact Expansion.all_empty
  · exact (Modes.follows_of_expand names made).all (each typed found)

theorem from_of_refers {family : Family}
    (wellFormed : WellFormed config modes)
    (readFrom : ReadFrom modes system)
    (refers : family ∈ referringFamilies)
    (expanded : system.expandFamily settings family = .ok expansion) :
    expansion.All (Token.From settings system family) := by
  rw [expandFamily_of_refers refers] at expanded
  rcases expandedReferring_cases wellFormed readFrom.spacing
    (matches_of_refers readFrom refers) refers expanded with
    ⟨_, rfl⟩ | ⟨scales, typed, spacing, found, names, made⟩
  · exact Expansion.all_empty
  · apply (follows_of_references names made).all
    intro mode member tokens modeMade token inside
    exact .reference spacing found member modeMade inside

theorem from_of_time {typed : Modes Scale}
    (given : system.time = some typed)
    (expanded : expandTime settings typed = .ok expansion) :
    expansion.All (Token.From settings system .time) := by
  obtain ⟨default, _, step⟩ := bind_eq_ok.1 expanded
  obtain ⟨scales, made, same⟩ := bind_eq_ok.1 step
  cases same
  refine ⟨?_, fun _ => List.forall_mem_nil _⟩
  intro token member
  obtain ⟨tokens, inScales, inTokens⟩ := List.mem_flatten.1 member
  obtain ⟨entry, marked, scaleMade⟩ := mem_of_mapM made inScales
  have listed := List.mem_map_of_mem (f := Prod.fst) marked
  rw [Selection.map_fst_marked] at listed
  exact .time given listed scaleMade inTokens

/-- Every token of an expanded family comes from one of its modes. -/
theorem from_of_expandFamily {family : Family}
    (wellFormed : WellFormed config modes)
    (readFrom : ReadFrom modes system)
    (expanded : system.expandFamily settings family = .ok expansion) :
    expansion.All (Token.From settings system family) := by
  cases family with
  | color =>
      rcases expandedColors_cases wellFormed readFrom expanded with
        ⟨_, rfl⟩ | ⟨colors, found, names, made⟩
      · exact Expansion.all_empty
      · apply (follows_of_colors names made).all
        intro mode member tokens modeMade token inside
        exact .color found member modeMade inside
  | spacing =>
      apply all_of_given wellFormed readFrom.spacing expanded
      intro typed found mode member tokens made token inside
      exact .spacing found member made inside
  | gap => exact from_of_refers wellFormed readFrom (by decide) expanded
  | typography =>
      apply all_of_given wellFormed readFrom.typography expanded
      intro typed found mode member tokens made token inside
      exact .typography found member made inside
  | borderRadius =>
      exact from_of_refers wellFormed readFrom (by decide) expanded
  | borderWidth =>
      apply all_of_given wellFormed readFrom.borderWidth expanded
      intro typed found mode member tokens made token inside
      cases made
      exact .borderWidth found member inside
  | time =>
      rcases expanded_cases wellFormed readFrom.time expanded with
        ⟨_, rfl⟩ | ⟨typed, found, _, made⟩
      · exact Expansion.all_empty
      · exact from_of_time found made

theorem from_of_ofSystem {expansions : Expansions}
    (wellFormed : WellFormed config modes)
    (readFrom : ReadFrom modes system)
    (expanded : Expansions.ofSystem settings system = .ok expansions)
    (family : Family) :
    (expansions.ofFamily family).All (Token.From settings system family) :=
  from_of_expandFamily wellFormed readFrom (ofSystem_eq_ok expanded family)

end Families

/-- A token is of the family that it comes from. -/
theorem Token.From.family_eq {settings : Settings} {system : DesignSystem}
    {family : Family} {token : Token}
    (origin : Token.From settings system family token) :
    token.family = family := by
  cases origin with
  | color _ _ made inside => exact family_of_colors made _ inside
  | spacing _ _ made inside => exact family_of_spacing made _ inside
  | typography _ _ made inside => exact family_of_typography made _ inside
  | borderWidth _ _ inside =>
      rw [List.mem_singleton.1 inside]
      rfl
  | time _ _ made inside => exact family_of_time made _ inside
  | reference _ _ _ made inside =>
      obtain ⟨_, _, referring⟩ := bind_eq_ok.1 made
      exact family_of_references referring _ inside

end DesignTokens
