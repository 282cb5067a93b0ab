import DesignTokens.Proofs.Expansion.Scope

/-!
# References and the steps of the scale

A reference is resolved on the scale of one spacing mode. It names a token of
that scale exactly where it is the least value or the number of a step, and
the token has the same value.
-/

namespace DesignTokens

open Acceptance (PlainMode)
open Grammar Schema Success
open DesignTokens.Number (doubleLimit)

/-! ## The spacing mode of a mode -/

/-- The spacing mode that goes with a mode: the one it names, or else the one
of the same name, or else the default. -/
inductive Mode.GoesWith (mode : Mode References) (spacing : Modes Scale) :
    Mode Scale → Prop
  | named {chosen : Mode Scale} :
      mode.content.spacingMode = some chosen.name → chosen ∈ spacing →
        mode.GoesWith spacing chosen
  | namesake {chosen : Mode Scale} :
      mode.content.spacingMode = none → chosen.name = mode.name →
        chosen ∈ spacing → mode.GoesWith spacing chosen
  | default {chosen : Mode Scale} :
      mode.content.spacingMode = none →
        mode.name ∉ spacing.map Mode.name → spacing.default = .ok chosen →
        mode.GoesWith spacing chosen

theorem Mode.GoesWith.mem {mode : Mode References} {spacing : Modes Scale}
    {chosen : Mode Scale} (goesWith : mode.GoesWith spacing chosen) :
    chosen ∈ spacing := by
  cases goesWith with
  | named _ member => exact member
  | namesake _ _ member => exact member
  | default _ _ found => exact Modes.mem_of_default found

theorem named?_of_mem {alpha : Type} {modes : Modes alpha} {name : String}
    (listed : name ∈ modes.map Mode.name) :
    ∃ mode, modes.named? name = some mode ∧ mode ∈ modes ∧
      mode.name = name := by
  obtain ⟨held, member, equal⟩ := List.mem_map.1 listed
  cases found : modes.named? name with
  | none =>
      have differs := List.find?_eq_none.1 found held member
      simp [equal] at differs
  | some mode =>
      exact ⟨mode, rfl, List.mem_of_find?_eq_some found,
        by simpa using List.find?_some found⟩

theorem named?_of_not_mem {alpha : Type} {modes : Modes alpha} {name : String}
    (absent : name ∉ modes.map Mode.name) : modes.named? name = none := by
  rw [Modes.named?, List.find?_eq_none]
  intro mode member same
  exact absent (List.mem_map.2 ⟨mode, member, of_decide_eq_true same⟩)

/-- A mode goes with a spacing mode, as long as the one it names is there. -/
theorem exists_goesWith {mode : Mode References} {spacing : Modes Scale}
    (nonempty : spacing ≠ [])
    (known : ∀ name, mode.content.spacingMode = some name →
      name ≠ "" ∧ name ∈ spacing.map Mode.name) :
    ∃ chosen, mode.spacingMode spacing = .ok chosen ∧
      mode.GoesWith spacing chosen := by
  cases given : mode.content.spacingMode with
  | some name =>
      obtain ⟨text, listed⟩ := known name given
      obtain ⟨chosen, found, member, rfl⟩ := named?_of_mem listed
      have matching : mode.matching? spacing = some chosen := by
        simp [Mode.matching?, References.chosenMode?, given, text, found]
      exact ⟨chosen, by rw [Mode.spacingMode, matching],
        .named given member⟩
  | none =>
      have matching := mode.matching?_of_unnamed spacing given
      by_cases listed : mode.name ∈ spacing.map Mode.name
      · obtain ⟨chosen, found, member, same⟩ := named?_of_mem listed
        exact ⟨chosen, by rw [Mode.spacingMode, matching, found],
          .namesake given same member⟩
      · obtain ⟨chosen, found, _⟩ := Modes.exists_default nonempty
        have missing := named?_of_not_mem listed
        exact ⟨chosen, by rw [Mode.spacingMode, matching, missing, found],
          .default given listed found⟩

/-! ## Tokens of the scale -/

theorem wholeText_mem_scaleLabels_iff {count : Int} {n : Nat} :
    Number.wholeText n ∈ scaleLabels count ↔ 1 ≤ n ∧ (n : Int) ≤ count := by
  rw [scaleLabels, List.mem_cons, or_iff_right (wholeText_ne_min n),
    List.mem_map_of_injective wholeText_injective, mem_stepNumbers_iff]

/-- A reference is the label of a value of the scale exactly where the scale
has that step. -/
theorem plain_mem_scaleLabels_iff {scale : Scale} {reference : Value}
    (isReference : IsReference reference) :
    reference.plain ∈ scaleLabels scale.count ↔ scale.HasStep reference := by
  rcases isReference with rfl | ⟨n, rfl⟩
  · exact iff_of_true (List.mem_cons_self ..) (.inl rfl)
  · refine wholeText_mem_scaleLabels_iff.trans ?_
    constructor
    · rintro ⟨least, most⟩
      exact .inr ⟨n, rfl, by omega, most⟩
    · rintro (text | ⟨m, same, least, most⟩)
      · cases text
      · cases same
        exact ⟨by omega, most⟩

theorem names_of_spacingTokens {scale : Scale} {stem : String}
    {tokens : List Token} (made : scale.spacingTokens stem = .ok tokens) :
    tokens.map Token.name = (scaleLabels scale.count).map (stem ++ "-" ++ ·) :=
  names_of_scaleTokens (fun _ => rfl) made

theorem exists_named_iff {scale : Scale} {stem : String} {tokens : List Token}
    {reference : Value} (made : scale.spacingTokens stem = .ok tokens)
    (isReference : IsReference reference) :
    (∃ target ∈ tokens, stem ++ "-" ++ reference.plain = target.name) ↔
      scale.HasStep reference := by
  -- The stem and the dash are the same on both sides of a name.
  rw [← plain_mem_scaleLabels_iff isReference,
    ← List.mem_map_of_injective (dashed_injective stem),
    ← names_of_spacingTokens made, List.mem_map]
  simp only [eq_comm]

/-- The token that a reference names has its value. -/
theorem eq_of_named {scale : Scale} {stem : String} {tokens : List Token}
    {reference : Value} {size : Float} {target : Token}
    (made : scale.spacingTokens stem = .ok tokens)
    (isReference : IsReference reference)
    (resolved : scale.resolve reference = .ok size)
    (member : target ∈ tokens)
    (named : stem ++ "-" ++ reference.plain = target.name) :
    target = Token.dimension .spacing (stem ++ "-" ++ reference.plain)
      (Number.plainText size) scale.unit size := by
  have step := (exists_named_iff made isReference).1 ⟨target, member, named⟩
  -- The token of the step has the same name, and no name is given twice.
  have distinct : (tokens.map Token.name).Nodup := by
    rw [names_of_spacingTokens made]
    exact (nodup_scaleLabels scale.count).map (dashed_injective stem)
  exact List.inj_on_of_nodup_map distinct member
    (spacingToken_mem made step resolved) named.symm

theorem References.unitOn_eq {references : References} {scale : Scale}
    (same : references.unit = none ∨ references.unit = some scale.unit) :
    references.unitOn scale = scale.unit := by
  rw [References.unitOn]
  rcases same with absent | equal
  · rw [absent]
  · rw [equal]
    exact ite_self _

/-! ## Accepted configurations -/

section Accepted

variable {config : Entries} {modes : Family → List PlainMode}
  {system : DesignSystem} {family : Family}

/-- Where there are references, there is spacing. -/
theorem exists_spacing_of_referencesOf {typed : Modes References}
    (wellFormed : WellFormed config modes) (readFrom : ReadFrom modes system)
    (given : system.referencesOf family = some typed) :
    ∃ spacing, system.spacing = some spacing ∧ spacing ≠ [] ∧
      (spacing.map Mode.name).Nodup := by
  obtain ⟨refers, matched⟩ := matches_of_referencesOf readFrom given
  rcases given_cases wellFormed readFrom.spacing with
    ⟨_, none⟩ | ⟨spacing, _, found, nonempty, _, areTyped⟩
  · rcases given_cases wellFormed matched with
      ⟨missing, _⟩ | ⟨_, _, _, _, isFamily, _⟩
    · cases missing
    · exact absurd none
        (spacing_nonempty wellFormed refers isFamily.nonempty)
  · refine ⟨spacing, found, nonempty, ?_⟩
    rw [names_of_typed areTyped]
    exact wellFormed.distinct .spacing

/-- The spacing mode that references name is there, and it has a name. -/
theorem known_of_spacingMode {typed : Modes References}
    {spacing : Modes Scale} {mode : Mode References}
    (wellFormed : WellFormed config modes) (readFrom : ReadFrom modes system)
    (given : system.referencesOf family = some typed)
    (spacingGiven : system.spacing = some spacing) (member : mode ∈ typed)
    {name : String} (named : mode.content.spacingMode = some name) :
    name ≠ "" ∧ name ∈ spacing.map Mode.name := by
  obtain ⟨refers, matched⟩ := matches_of_referencesOf readFrom given
  have scales := readFrom.spacing
  rw [spacingGiven] at scales
  obtain ⟨_, _, content, read⟩ :=
    exists_plain_of_mem wellFormed matched member
  have listed := References.spacingMode_mem
    (isReferences_of_content refers content) read named
  refine ⟨?_, names_of_typed scales.of_some ▸ listed⟩
  obtain ⟨other, among, rfl⟩ := List.mem_map.1 listed
  obtain ⟨_, isOther⟩ := wellFormed.exists_isMode among
  exact isOther.named

theorem spacingTokens_isOk {spacing : Modes Scale} {mode : Mode Scale}
    (wellFormed : WellFormed config modes) (readFrom : ReadFrom modes system)
    (given : system.spacing = some spacing) (member : mode ∈ spacing)
    (stem : String) :
    ∃ tokens, mode.content.spacingTokens stem = .ok tokens := by
  have matched := readFrom.spacing
  rw [given] at matched
  obtain ⟨_, _, content, read⟩ :=
    exists_plain_of_mem wellFormed matched member
  exact scaleTokens_isOk (Scale.values_isOk (scale_count_lt_limit content read))

end Accepted

/-- A mode of gaps or corner radii is resolved on the scale of the spacing
mode that goes with it. The token of an entry names a token of that scale
exactly where the scale has the step; both have the same number then, and the
same text wherever the mode has no unit of its own. -/
theorem references_agree_with_scale {config : Value} {system : DesignSystem}
    {family : Family} {modes : Modes References} {mode : Mode References}
    (accepted : Acceptance.accept config = .ok ())
    (read : DesignSystem.read config = .accepted system)
    (given : system.referencesOf family = some modes)
    (member : mode ∈ modes) (settings : Settings) :
    ∃ spacing chosen scale, system.spacing = some spacing ∧
      (spacing.map Mode.name).Nodup ∧
      mode.spacingMode spacing = .ok chosen ∧
      mode.GoesWith spacing chosen ∧
      chosen ∈ spacing ∧
      chosen.content.spacingTokens settings.prefixes.spacing = .ok scale ∧
      ∀ entry ∈ mode.content.entries, IsReference entry.2 →
        Resolvable entry.2 → ∃ token,
          Token.referring family (settings.prefixes.ofFamily family)
            settings.prefixes.spacing (mode.content.unitOn chosen.content)
            chosen.content entry = .ok token ∧
          (∀ tokens, mode.expandReferences family settings spacing =
            .ok tokens → token ∈ tokens) ∧
          ((∃ target ∈ scale, token.reference = some target.name) ↔
            chosen.content.HasStep entry.2) ∧
          ∀ target ∈ scale, token.reference = some target.name →
            token.rawValue = target.rawValue ∧
            (mode.content.unit = none ∨
                mode.content.unit = some chosen.content.unit →
              token.value = target.value) := by
  obtain ⟨entries, plain, rfl, wellFormed, readFrom⟩ :=
    exists_modes accepted read
  obtain ⟨spacing, spacingGiven, nonempty, distinct⟩ :=
    exists_spacing_of_referencesOf wellFormed readFrom given
  obtain ⟨chosen, found, goesWith⟩ := exists_goesWith nonempty fun _ =>
    known_of_spacingMode wellFormed readFrom given spacingGiven member
  obtain ⟨scale, made⟩ := spacingTokens_isOk wellFormed readFrom spacingGiven
    goesWith.mem settings.prefixes.spacing
  refine ⟨spacing, chosen, scale, spacingGiven, distinct, found, goesWith,
    goesWith.mem, made, ?_⟩
  intro entry inside isReference resolvable
  obtain ⟨size, resolved⟩ :=
    (resolve_isOk_iff chosen.content entry.2).2 resolvable
  refine ⟨_, bind_eq_ok.2 ⟨size, resolved, rfl⟩, ?_, ?_, ?_⟩
  · intro tokens expanded
    obtain ⟨other, again, referring⟩ := bind_eq_ok.1 expanded
    rw [found] at again
    cases again
    obtain ⟨token, listed, step⟩ := mem_mapM_of_mem referring inside
    obtain ⟨_, same, equal⟩ := bind_eq_ok.1 step
    rw [resolved] at same
    cases same
    cases equal
    exact listed
  · simpa only [Option.some.injEq] using exists_named_iff made isReference
  · intro target listed named
    have same := eq_of_named made isReference resolved listed
      (Option.some.inj named)
    refine ⟨by rw [same]; rfl, fun unit => ?_⟩
    rw [same, References.unitOn_eq unit]
    rfl

/-- Gaps on a scale of two steps that is not the default: one refers to the
last step, and one to the step after it. -/
def edgeGaps : Value :=
  .map [(.str "spacing", writtenFamily
      [("regular", writtenScale 8 (.int 2)),
        ("compact", writtenScale 4 (.int 2))]),
    (.str "gap", writtenFamily
      [("regular", [(.str "spacingMode", .str "compact"), (.str "s", .int 2),
        (.str "l", .int 3)])])]

theorem edgeGaps_agree :
    ∃ system modes mode spacing chosen scale step beyond,
      Acceptance.accept edgeGaps = .ok () ∧
      DesignSystem.read edgeGaps = .accepted system ∧
      system.referencesOf .gap = some modes ∧
      mode ∈ modes ∧
      system.spacing = some spacing ∧
      mode.spacingMode spacing = .ok chosen ∧
      chosen.name = "compact" ∧
      chosen.content.spacingTokens "sp" = .ok scale ∧
      mode.expandReferences .gap {} spacing = .ok [step, beyond] ∧
      (∃ target ∈ scale, step.reference = some target.name ∧
        step.rawValue = target.rawValue ∧ step.value = target.value) ∧
      ¬ ∃ target ∈ scale, beyond.reference = some target.name := by
  obtain ⟨spacing, chosen, scale, same, _, found, _, _, made, agree⟩ :=
    @references_agree_with_scale edgeGaps _ .gap _ _ rfl rfl rfl
      (List.mem_cons_self ..) {}
  cases same
  cases found
  cases made
  have small : 3 < doubleLimit :=
    lt_of_lt_of_le (by decide : 3 < 2 ^ 2)
      (Number.two_pow_le_limit (by decide))
  obtain ⟨step, stepMade, _, points, values⟩ := agree _
    (List.mem_cons_self ..) (.inr ⟨2, rfl⟩)
    (.whole 2 (lt_trans (by decide) small))
  obtain ⟨beyond, beyondMade, _, dangles, _⟩ := agree _
    (List.mem_cons_of_mem _ (List.mem_cons_self ..)) (.inr ⟨3, rfl⟩)
    (.whole 3 small)
  cases stepMade
  cases beyondMade
  obtain ⟨target, member, named⟩ :=
    points.2 (.inr ⟨2, rfl, by decide, by decide⟩)
  obtain ⟨number, text⟩ := values target member named
  refine ⟨_, _, _, _, _, _, _, _, rfl, rfl, rfl, List.mem_cons_self .., rfl,
    rfl, rfl, rfl, rfl, ⟨target, member, named, number, text (.inl rfl)⟩, ?_⟩
  intro dangling
  rcases dangles.1 dangling with text | ⟨n, same, _, most⟩
  · cases text
  · cases same
    exact absurd most (by decide)

end DesignTokens
