import DesignTokens.Proofs.Acceptance.Written
import DesignTokens.Proofs.Expansion.Origins
import DesignTokens.Proofs.Number.Size

/-!
# Sizes of tokens

Every token that is no colour has a size that is given, or one that is computed
from its scale. What is accepted makes these sizes numbers, but neither bounds
them nor keeps type sizes from falling below zero.
-/

namespace DesignTokens

open DesignTokens.Number
open Grammar Schema Schema.Checked Success

/-! ## Sizes of a system -/

/-- The sizes of a scale: the least one, and these numbers of bases. -/
inductive Scale.HasSize (scale : Scale) (numbers : Set Int) : Size → Prop
  | least : HasSize scale numbers (.given scale.minimum)
  | step {n : Int} {factor : Float} (counted : n ∈ numbers)
      (nearest : floatOfInt? n = some factor) :
      HasSize scale numbers (.product scale.base factor)

/-- The sizes of type: the least one, the base, and the base with an increment
for every further step. -/
inductive TypeScale.HasSize (scale : TypeScale) : Size → Prop
  | least : HasSize scale (.given scale.minimum)
  | first : HasSize scale (.given scale.base)
  | step {n : Int} {factor : Float} (further : 2 ≤ n)
      (last : n ≤ scale.count) (nearest : floatOfInt? (n - 1) = some factor) :
      HasSize scale (.sum scale.base scale.increment factor)

/-- The sizes of a family. -/
def DesignSystem.HasSize (system : DesignSystem) (family : Family)
    (size : Size) : Prop :=
  match family with
  | .color => False
  | .spacing => ∃ modes, system.spacing = some modes ∧ ∃ mode ∈ modes,
      mode.content.HasSize (Set.Icc 1 mode.content.count) size
  | .gap | .borderRadius => ∃ modes, system.spacing = some modes ∧
      ∃ mode ∈ modes, mode.content.HasSize (Set.Ici 0) size
  | .typography => ∃ modes, system.typography = some modes ∧
      ∃ mode ∈ modes, mode.content.HasSize size
  | .borderWidth => ∃ modes, system.border.bind Border.width = some modes ∧
      ∃ mode ∈ modes, size = .given mode.content.size
  | .time => ∃ modes, system.time = some modes ∧ ∃ mode ∈ modes,
      mode.content.HasSize (Set.Icc 1 mode.content.count) size

/-! ## Sizes of tokens -/

/-- A token of a scale has the least value or that of a step. -/
theorem rawValue_of_scaleTokens {token : String × Float → Token}
    {minimum : Float} {count : Int}
    {step : Int → Except ArithmeticFault Float} {tokens : List Token}
    (raw : ∀ entry, (token entry).rawValue = some entry.2)
    (made : scaleTokens token (labelledValues minimum count step) =
      .ok tokens) {held : Token} (member : held ∈ tokens) :
    held.rawValue = some minimum ∨ ∃ n : Int, 1 ≤ n ∧ n ≤ count ∧
      ∃ size, step n = .ok size ∧ held.rawValue = some size := by
  obtain ⟨values, found, rfl⟩ := map_eq_ok.1 ((mapError_eq_ok _).1 made)
  obtain ⟨entry, inside, rfl⟩ := List.mem_map.1 member
  obtain ⟨steps, stepsFound, same⟩ := bind_eq_ok.1 found
  cases same
  rw [raw]
  rcases List.mem_cons.1 inside with rfl | further
  · exact .inl rfl
  · obtain ⟨n, counted, entryMade⟩ := mem_of_mapM stepsFound further
    obtain ⟨size, sizeMade, same⟩ := bind_eq_ok.1 entryMade
    cases same
    have bounds := mem_stepNumbers_iff.1 counted
    exact .inr ⟨n, by omega, bounds.2, size, sizeMade, rfl⟩

theorem exists_size_of_scale {scale : Scale}
    {token : String × Float → Token} {tokens : List Token}
    (raw : ∀ entry, (token entry).rawValue = some entry.2)
    (made : scaleTokens token scale.values = .ok tokens) {held : Token}
    (member : held ∈ tokens) :
    ∃ size, scale.HasSize (Set.Icc 1 scale.count) size ∧
      held.rawValue = some size.value := by
  rcases rawValue_of_scaleTokens raw made member with
    least | ⟨n, first, last, size, stepMade, value⟩
  · exact ⟨_, .least, least⟩
  · obtain ⟨factor, nearest, rfl⟩ := Scale.step_eq_ok.1 stepMade
    exact ⟨_, .step ⟨first, last⟩ nearest, value⟩

theorem exists_size_of_typography {scale : TypeScale} {stem : String}
    {tokens : List Token} (made : scale.tokens stem = .ok tokens)
    {held : Token} (member : held ∈ tokens) :
    ∃ size, scale.HasSize size ∧ held.rawValue = some size.value := by
  rcases rawValue_of_scaleTokens (fun _ => rfl) made member with
    least | ⟨n, first, last, size, stepMade, value⟩
  · exact ⟨_, .least, least⟩
  · by_cases one : n = 1
    · rw [TypeScale.step, if_pos one] at stepMade
      cases stepMade
      exact ⟨_, .first, value⟩
    · obtain ⟨factor, nearest, rfl⟩ := (TypeScale.step_eq_ok one).1 stepMade
      exact ⟨_, .step (by omega) last nearest, value⟩

theorem exists_size_of_resolve {scale : Scale} {reference : Value}
    {held : Float} (isReference : IsReference reference)
    (resolved : scale.resolve reference = .ok held) :
    ∃ size, scale.HasSize (Set.Ici 0) size ∧ held = size.value := by
  rcases isReference with rfl | ⟨n, rfl⟩
  · cases resolved
    exact ⟨_, .least, rfl⟩
  · rw [Scale.resolve_int_eq_ok] at resolved
    obtain ⟨factor, nearest, rfl⟩ := Scale.step_eq_ok.1 resolved
    exact ⟨_, .step (Int.natCast_nonneg n) nearest, rfl⟩

/-! ## References -/

/-- Every entry is a reference, unless it is the spacing mode in a second
spelling. -/
theorem isReference_of_mem {spacing : List String} {tokens : Entries}
    {references : References} (isReferences : IsReferences spacing tokens)
    (read : References.read (.map tokens) = .accepted references)
    {entry : String × Value} (member : entry ∈ references.entries)
    (plain : entry.1 ≠ "spacing_mode") : IsReference entry.2 := by
  have omitted :=
    omitting_of_readEntries (References.parts_of_read read).entries
  have inside := List.mem_map_of_mem
    (f := fun entry => (Value.str entry.1, entry.2)) member
  rw [← omitted, mem_omitting_iff] at inside
  obtain ⟨listed, others⟩ := inside
  obtain ⟨name, same, _, good⟩ := isReferences.entries _ listed
  cases same
  refine good.resolve_left fun configures => ?_
  simp only [List.mem_cons, List.not_mem_nil, or_false, plain] at configures
  rcases configures with unit | spelled
  · exact others "unit" (by simp) (congrArg Value.str unit)
  · -- The first spelling is the one in use wherever it is given.
    have given : Entries.get? "spacingMode" tokens ≠ none := by
      intro absent
      exact get?_eq_none_iff.1 absent _ listed (congrArg Value.str spelled)
    have spelling : References.modeSpelling tokens = "spacingMode" :=
      if_pos (Option.isSome_iff_ne_none.2 given)
    exact others "spacingMode" (by simp [spelling]) (congrArg Value.str spelled)

theorem exists_size_of_references {family : Family} {settings : Settings}
    {spacing : Modes Scale} {mode : Mode References} {tokens : List Token}
    (made : mode.expandReferences family settings spacing = .ok tokens)
    (good : ∀ entry ∈ mode.content.entries, entry.1 ≠ "spacing_mode" →
      IsReference entry.2)
    {token : Token} (member : token ∈ tokens)
    (plain : token.name ≠
      settings.prefixes.ofFamily family ++ "-" ++ "spacing_mode") :
    ∃ chosen ∈ spacing, ∃ size, chosen.content.HasSize (Set.Ici 0) size ∧
      token.rawValue = some size.value := by
  obtain ⟨chosen, found, referring⟩ := bind_eq_ok.1 made
  obtain ⟨entry, listed, step⟩ := mem_of_mapM referring member
  obtain ⟨held, resolved, same⟩ := bind_eq_ok.1 step
  cases same
  have isReference := good entry listed fun spelled => plain (by
    rw [← spelled]
    rfl)
  obtain ⟨size, hasSize, rfl⟩ := exists_size_of_resolve isReference resolved
  exact ⟨chosen, Mode.mem_of_spacingMode found, size, hasSize, rfl⟩

/-! ## Accepted scales -/

/-- A scale of values that are not negative. -/
structure Scale.Sound (scale : Scale) : Prop where
  base : IsNonnegative scale.base
  minimum : IsNonnegative scale.minimum

/-- Type sizes of finite values, of which only the increment may be
negative. -/
structure TypeScale.Sound (scale : TypeScale) : Prop where
  base : IsNonnegative scale.base
  minimum : IsNonnegative scale.minimum
  increment : scale.increment.isFinite = true

section Scales

variable {tokens : Entries} {kind : ℚ → Prop}

theorem nonnegative_of_field (kept : KeptByRounding kind)
    (least : ∀ q, kind q → 0 ≤ q) {field : String} {x : Float}
    (held : Holds field (IsNumber kind) tokens)
    (read : Schema.field field field real tokens = .accepted x) :
    IsNonnegative x := by
  have number : IsNumber kind (.float x) :=
    good_of_field held read fun _ => isNumber_of_real kept
  obtain ⟨q, exact, isKind⟩ := number
  exact ⟨q, exact, least q isKind⟩

theorem Scale.sound_of_read (kept : KeptByRounding kind)
    (least : ∀ q, kind q → 0 ≤ q) {scale : Scale}
    (isScale : IsScale kind tokens)
    (read : Scale.read (.map tokens) = .accepted scale) : scale.Sound := by
  obtain ⟨_, _, upToLeast, _, rfl⟩ := seq_eq_accepted.1 read
  obtain ⟨_, _, upToBase, leastRead, rfl⟩ := seq_eq_accepted.1 upToLeast
  obtain ⟨_, _, upToUnit, baseRead, rfl⟩ := seq_eq_accepted.1 upToBase
  obtain ⟨_, _, rfl⟩ := map_eq_accepted.1 upToUnit
  exact ⟨nonnegative_of_field kept least isScale.base baseRead,
    nonnegative_of_field keptByRounding_nonneg (fun _ => id) isScale.least
      leastRead⟩

theorem TypeScale.sound_of_read {scale : TypeScale}
    (isScale : IsTypeScale tokens)
    (read : TypeScale.read (.map tokens) = .accepted scale) :
    scale.Sound := by
  obtain ⟨_, _, upToIncrement, _, rfl⟩ := seq_eq_accepted.1 read
  obtain ⟨_, _, upToLeast, incrementRead, rfl⟩ :=
    seq_eq_accepted.1 upToIncrement
  obtain ⟨_, _, upToBase, leastRead, rfl⟩ := seq_eq_accepted.1 upToLeast
  obtain ⟨_, _, upToUnit, baseRead, rfl⟩ := seq_eq_accepted.1 upToBase
  obtain ⟨_, _, rfl⟩ := map_eq_accepted.1 upToUnit
  have increment : IsNumber (fun _ => True) (.float _) :=
    good_of_field isScale.increment incrementRead
      fun _ => isNumber_of_real keptByRounding_all
  obtain ⟨q, exact, _⟩ := increment
  exact ⟨nonnegative_of_field keptByRounding_pos (fun _ => le_of_lt)
      isScale.base baseRead,
    nonnegative_of_field keptByRounding_nonneg (fun _ => id) isScale.least
      leastRead,
    (isFinite_iff_exact _).2 ⟨q, exact⟩⟩

theorem Width.nonnegative_of_read {width : Width} (isWidth : IsWidth tokens)
    (read : Width.read (.map tokens) = .accepted width) :
    IsNonnegative width.size := by
  obtain ⟨_, _, upToUnit, sizeRead, rfl⟩ := seq_eq_accepted.1 read
  obtain ⟨_, _, rfl⟩ := map_eq_accepted.1 upToUnit
  exact nonnegative_of_field keptByRounding_nonneg (fun _ => id) isWidth.size
    sizeRead

end Scales

theorem nonnegative_of_floatOfInt? {n : Int} {x : Float}
    (nonnegative : 0 ≤ n) (nearest : floatOfInt? n = some x) :
    IsNonnegative x := by
  obtain ⟨q, exact⟩ :=
    (isFinite_iff_exact x).1 (isFinite_of_floatOfInt? nearest)
  exact ⟨q, exact, exactValue_nonneg_of_floatOfInt? nonnegative nearest exact⟩

theorem Scale.HasSize.sound {scale : Scale} {numbers : Set Int} {size : Size}
    (hasSize : scale.HasSize numbers size) (sound : scale.Sound)
    (upward : numbers ⊆ Set.Ici 0) : size.Sound := by
  cases hasSize with
  | least => exact sound.minimum
  | step counted nearest =>
      exact ⟨sound.base, nonnegative_of_floatOfInt? (upward counted) nearest⟩

theorem TypeScale.HasSize.sound {scale : TypeScale} {size : Size}
    (hasSize : scale.HasSize size) (sound : scale.Sound) : size.Sound := by
  cases hasSize with
  | least => exact sound.minimum
  | first => exact sound.base
  | step further _ nearest =>
      exact ⟨sound.base, sound.increment,
        nonnegative_of_floatOfInt? (by omega) nearest⟩

theorem steps_subset (count : Int) : Set.Icc 1 count ⊆ Set.Ici 0 := by
  intro n bounds
  exact zero_le_one.trans bounds.1

/-! ## Accepted configurations -/

section Accepted

variable {config : Entries} {modes : Family → List Acceptance.PlainMode}
  {system : DesignSystem} {settings : Settings} {family : Family}

/-- Every token but the colours has one of the sizes of its family. -/
theorem Token.From.exists_size {token : Token}
    (wellFormed : WellFormed config modes)
    (readFrom : ReadFrom modes system)
    (origin : Token.From settings system family token)
    (sized : family ≠ .color)
    (plain : family ∈ referringFamilies → token.name ≠
      settings.prefixes.ofFamily family ++ "-" ++ "spacing_mode") :
    ∃ size, system.HasSize family size ∧
      token.rawValue = some size.value := by
  cases origin with
  | color => exact absurd rfl sized
  | spacing given member made inside =>
      obtain ⟨size, hasSize, value⟩ :=
        exists_size_of_scale (fun _ => rfl) made inside
      exact ⟨size, ⟨_, given, _, member, hasSize⟩, value⟩
  | typography given member made inside =>
      obtain ⟨size, hasSize, value⟩ := exists_size_of_typography made inside
      exact ⟨size, ⟨_, given, _, member, hasSize⟩, value⟩
  | borderWidth given member inside =>
      rw [List.mem_singleton.1 inside]
      exact ⟨_, ⟨_, given, _, member, rfl⟩, rfl⟩
  | time given member made inside =>
      obtain ⟨size, hasSize, value⟩ :=
        exists_size_of_scale (fun _ => rfl) made inside
      exact ⟨size, ⟨_, given, _, member, hasSize⟩, value⟩
  | reference scales given member made inside =>
      obtain ⟨refers, matched⟩ := matches_of_referencesOf readFrom given
      obtain ⟨_, _, content, read⟩ :=
        exists_plain_of_mem wellFormed matched member
      have good : ∀ entry ∈ _, _ := fun entry listed =>
        isReference_of_mem (isReferences_of_content refers content) read listed
      obtain ⟨chosen, among, size, hasSize, value⟩ :=
        exists_size_of_references made good inside (plain refers)
      refine ⟨size, ?_, value⟩
      cases family with
      | gap => exact ⟨_, scales, _, among, hasSize⟩
      | borderRadius => exact ⟨_, scales, _, among, hasSize⟩
      | _ => exact absurd refers (by decide)

theorem spacing_sound {spacing : Modes Scale} {mode : Mode Scale}
    (wellFormed : WellFormed config modes)
    (readFrom : ReadFrom modes system)
    (given : system.spacing = some spacing) (member : mode ∈ spacing) :
    mode.content.Sound := by
  obtain ⟨_, _, content, read⟩ :=
    exists_plain_of_mem wellFormed (given ▸ readFrom.spacing) member
  exact Scale.sound_of_read keptByRounding_pos (fun _ => le_of_lt) content read

/-- Every size of an accepted configuration has sound parts. -/
theorem DesignSystem.HasSize.sound {size : Size}
    (wellFormed : WellFormed config modes)
    (readFrom : ReadFrom modes system)
    (hasSize : system.HasSize family size) : size.Sound := by
  cases family with
  | color => exact hasSize.elim
  | spacing =>
      obtain ⟨spacing, given, mode, member, ofScale⟩ := hasSize
      exact ofScale.sound (spacing_sound wellFormed readFrom given member)
        (steps_subset _)
  | gap =>
      obtain ⟨spacing, given, mode, member, ofScale⟩ := hasSize
      exact ofScale.sound (spacing_sound wellFormed readFrom given member)
        subset_rfl
  | borderRadius =>
      obtain ⟨spacing, given, mode, member, ofScale⟩ := hasSize
      exact ofScale.sound (spacing_sound wellFormed readFrom given member)
        subset_rfl
  | typography =>
      obtain ⟨typography, given, mode, member, ofScale⟩ := hasSize
      obtain ⟨_, _, content, read⟩ :=
        exists_plain_of_mem wellFormed (given ▸ readFrom.typography) member
      exact ofScale.sound (TypeScale.sound_of_read content read)
  | borderWidth =>
      obtain ⟨widths, given, mode, member, rfl⟩ := hasSize
      obtain ⟨_, _, content, read⟩ :=
        exists_plain_of_mem wellFormed (given ▸ readFrom.borderWidth) member
      exact Width.nonnegative_of_read content read
  | time =>
      obtain ⟨times, given, mode, member, ofScale⟩ := hasSize
      obtain ⟨_, _, content, read⟩ :=
        exists_plain_of_mem wellFormed (given ▸ readFrom.time) member
      exact ofScale.sound
        (Scale.sound_of_read keptByRounding_nonneg (fun _ => id) content read)
        (steps_subset _)

end Accepted

/-- A token is among the default tokens of a sheet or changed by a mode. -/
def TokenSheet.Holds (sheet : TokenSheet) (token : Token) : Prop :=
  token ∈ sheet.tokens.map Prod.snd ∨
    ∃ entry ∈ sheet.overrides, token ∈ entry.2.map Prod.snd

theorem from_of_holds {config : Entries}
    {modes : Family → List Acceptance.PlainMode} {system : DesignSystem}
    {settings : Settings} {expansions : Expansions} {token : Token}
    (wellFormed : WellFormed config modes)
    (readFrom : ReadFrom modes system)
    (expanded : Expansions.ofSystem settings system = .ok expansions)
    (holds : expansions.assemble.sheet.Holds token) :
    ∃ family, Token.From settings system family token := by
  have each := from_of_ofSystem wellFormed readFrom expanded
  rcases holds with default | ⟨entry, listed, override⟩
  · obtain ⟨entry, inside, rfl⟩ := List.mem_map.1 default
    exact Expansions.forall_defaults each _ (mem_mergeTokens inside)
  · rw [Expansions.overrides_assemble] at listed
    obtain ⟨name, _, rfl⟩ := List.mem_map.1 listed
    obtain ⟨entry, inside, rfl⟩ := List.mem_map.1 override
    exact Expansions.forall_overridesOf each name _ (mem_mergeTokens inside)

/-- Every token of a sheet that is no colour has one of the sizes of its
family: a number, which is finite exactly where the exact products and sums are
within the doubles, and negative only among type sizes, where the increments
take away more than the base. A token that is the spacing mode of references in
its second spelling is left out. -/
theorem sizes_measured {config : Value} {system : DesignSystem}
    {settings : Settings} {generated : Generated}
    (accepted : Acceptance.accept config = .ok ())
    (read : DesignSystem.read config = .accepted system)
    (made : system.expand settings = .ok generated) :
    ∀ token, generated.sheet.Holds token → token.family ≠ .color →
      (token.family ∈ referringFamilies → token.name ≠
        settings.prefixes.ofFamily token.family ++ "-" ++ "spacing_mode") →
      ∃ size, system.HasSize token.family size ∧
        token.rawValue = some size.value ∧ size.Measured := by
  intro token holds sized plain
  obtain ⟨entries, modes, rfl, wellFormed, readFrom⟩ :=
    exists_modes accepted read
  obtain ⟨expansions, expanded, rfl⟩ := exists_expansions made
  obtain ⟨family, origin⟩ :=
    from_of_holds wellFormed readFrom expanded holds
  have same := origin.family_eq
  subst same
  obtain ⟨size, hasSize, value⟩ :=
    origin.exists_size wellFormed readFrom sized plain
  exact ⟨size, hasSize, value,
    (hasSize.sound wellFormed readFrom).measured⟩

/-- Spacing whose second step is beyond the doubles, and type sizes of which
the third one is below zero. -/
def runawayScales : Value :=
  .map [(.str "spacing", writtenFamily
      [("regular", [(.str "unit", .str "px"),
        (.str "base", .float (Float.ofBits 0x7FE0000000000000)),
        (.str "min", .int 2), (.str "range", .int 2)])]),
    (.str "typography", writtenFamily
      [("regular", (.str "increment", .int (-10)) ::
        writtenScale 16 (.int 3))])]

/-- The second step of spacing and the third one of type sizes. -/
theorem exists_runawaySteps :
    ∃ system generated wide low,
      Acceptance.accept runawayScales = .ok () ∧
      DesignSystem.read runawayScales = .accepted system ∧
      system.expand {} = .ok generated ∧
      generated.sheet.tokens.lookup "sp-2" = some wide ∧
      wide.family = .spacing ∧
      wide.rawValue.map Float.isFinite = some false ∧
      generated.sheet.tokens.lookup "fs-3" = some low ∧
      low.family = .typography ∧
      low.rawValue.map (fun size => decide (0 ≤ size)) = some false := by
  obtain ⟨system, read⟩ : ∃ system,
      DesignSystem.read runawayScales = .accepted system := ⟨_, rfl⟩
  have wideShown : ((system.expand {}).toOption.bind fun generated =>
      generated.sheet.tokens.lookup "sp-2").map (fun token =>
        (token.family, token.rawValue.map Float.isFinite)) =
      some (.spacing, some false) := by
    cases read
    decide +kernel
  have lowShown : ((system.expand {}).toOption.bind fun generated =>
      generated.sheet.tokens.lookup "fs-3").map (fun token =>
        (token.family, token.rawValue.map fun size => decide (0 ≤ size))) =
      some (.typography, some false) := by
    cases read
    decide +kernel
  obtain ⟨wide, wideFound, wideIs⟩ := Option.map_eq_some_iff.1 wideShown
  obtain ⟨low, lowFound, lowIs⟩ := Option.map_eq_some_iff.1 lowShown
  obtain ⟨generated, made, wideLookup⟩ := Option.bind_eq_some_iff.1 wideFound
  rw [made] at lowFound
  obtain ⟨wideFamily, wideValue⟩ := Prod.mk.inj wideIs
  obtain ⟨lowFamily, lowValue⟩ := Prod.mk.inj lowIs
  exact ⟨system, generated, wide, low, rfl, read, toOption_eq_some.1 made,
    wideLookup, wideFamily, wideValue, lowFound, lowFamily, lowValue⟩

theorem TokenSheet.holds_of_lookup {sheet : TokenSheet} {name : String}
    {token : Token} (found : sheet.tokens.lookup name = some token) :
    sheet.Holds token :=
  .inl (List.mem_map_of_mem (f := Prod.snd) (Record.mem_of_lookup found))

theorem runawayScales_measured :
    ∃ system generated wide low step sum,
      Acceptance.accept runawayScales = .ok () ∧
      DesignSystem.read runawayScales = .accepted system ∧
      system.expand {} = .ok generated ∧
      generated.sheet.tokens.lookup "sp-2" = some wide ∧
      system.HasSize .spacing step ∧ wide.rawValue = some step.value ∧
      ¬ step.Fits ∧
      generated.sheet.tokens.lookup "fs-3" = some low ∧
      system.HasSize .typography sum ∧ low.rawValue = some sum.value ∧
      sum.Falls := by
  obtain ⟨system, generated, wide, low, accepted, read, made, wideFound,
    wideFamily, wideValue, lowFound, lowFamily, lowValue⟩ :=
    exists_runawaySteps
  obtain ⟨step, hasStep, stepValue, stepMeasured⟩ :=
    sizes_measured accepted read made wide
      (TokenSheet.holds_of_lookup wideFound) (by simp [wideFamily])
      (fun refers => absurd (wideFamily ▸ refers) (by decide))
  obtain ⟨sum, hasSum, sumValue, sumMeasured⟩ :=
    sizes_measured accepted read made low
      (TokenSheet.holds_of_lookup lowFound) (by simp [lowFamily])
      (fun refers => absurd (lowFamily ▸ refers) (by decide))
  refine ⟨system, generated, wide, low, step, sum, accepted, read, made,
    wideFound, wideFamily ▸ hasStep, stepValue, ?_, lowFound,
    lowFamily ▸ hasSum, sumValue, ?_⟩
  · rw [← stepMeasured.finite]
    rw [stepValue, Option.map_some, Option.some.injEq] at wideValue
    simp [wideValue]
  · by_contra rises
    rw [← sumMeasured.nonnegative] at rises
    rw [sumValue, Option.map_some, decide_eq_true rises] at lowValue
    cases lowValue

/-- Sizes that are accepted may be infinite, or below zero. -/
theorem runawayScales_unusable :
    ∃ system generated,
      Acceptance.accept runawayScales = .ok () ∧
      DesignSystem.read runawayScales = .accepted system ∧
      system.expand {} = .ok generated ∧
      ¬ (∀ token, generated.sheet.Holds token → token.family ≠ .color →
        ∃ size, token.rawValue = some size ∧ size.isFinite = true) ∧
      ¬ ∀ token, generated.sheet.Holds token → token.family ≠ .color →
        ∃ size, token.rawValue = some size ∧ 0 ≤ size := by
  obtain ⟨system, generated, wide, low, accepted, read, made, wideFound,
    wideFamily, wideValue, lowFound, lowFamily, lowValue⟩ :=
    exists_runawaySteps
  refine ⟨system, generated, accepted, read, made, ?_, ?_⟩
  · intro all
    obtain ⟨size, given, finite⟩ := all wide
      (TokenSheet.holds_of_lookup wideFound) (by simp [wideFamily])
    rw [given, Option.map_some, finite] at wideValue
    cases wideValue
  · intro all
    obtain ⟨size, given, nonnegative⟩ := all low
      (TokenSheet.holds_of_lookup lowFound) (by simp [lowFamily])
    rw [given, Option.map_some, decide_eq_true nonnegative] at lowValue
    cases lowValue

end DesignTokens
