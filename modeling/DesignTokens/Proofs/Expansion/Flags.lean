import DesignTokens.Expansion.Whole
import DesignTokens.Proofs.Selection
import DesignTokens.Proofs.Success
import DesignTokens.Proofs.System.Writing

/-!
# Flags that are null

A flag that is null counts as one that is false, so that a design system
expands to the same tokens once the flag of every mode is given.
-/

namespace DesignTokens

open Success

section Modes

variable {alpha : Type} {modes : Modes alpha}

theorem flagged_settled (mode : Mode alpha) :
    Modes.flagged mode.settled = Modes.flagged mode := by
  obtain ⟨name, flag, content⟩ := mode
  cases flag with
  | none => rfl
  | some held => rfl

theorem flagged_comp_settled :
    (Modes.flagged ∘ Mode.settled : Mode alpha → Bool) = Modes.flagged :=
  funext flagged_settled

theorem Modes.overrides_settled (modes : Modes alpha) :
    modes.settled.overrides = modes.overrides.map Mode.settled := by
  rw [overrides, settled, Selection.overrides_map, flagged_comp_settled]
  rfl

theorem Modes.default_settled (modes : Modes alpha) :
    modes.settled.default = modes.default.map Mode.settled := by
  rw [default, settled, Selection.default?_map, flagged_comp_settled, default]
  cases Selection.default? flagged modes <;> rfl

theorem Modes.notices_settled (modes : Modes alpha) :
    modes.settled.notices = modes.notices := by
  rw [notices, settled, Selection.contenders_map, flagged_comp_settled,
    notices]
  cases Selection.contenders flagged modes with
  | none => rfl
  | some found => simp [Mode.settled]

theorem Modes.info_settled (modes : Modes alpha) (default : Mode alpha) :
    modes.settled.info default.settled = modes.info default := by
  rw [info, overrides_settled, List.map_map]
  rfl

theorem mapM_overrides_settled {beta : Type}
    (act : Mode alpha → Except ExpansionFault beta) :
    modes.settled.overrides.mapM act =
      modes.overrides.mapM fun mode => act mode.settled := by
  rw [Modes.overrides_settled, List.mapM_map]
  rfl

theorem Modes.expand_settled
    {expandSettled expandMode :
      Mode alpha → Except ExpansionFault (List Token)}
    (same : ∀ mode, expandSettled mode.settled = expandMode mode) :
    modes.settled.expand expandSettled = modes.expand expandMode := by
  rw [expand, default_settled, notices_settled, mapM_overrides_settled,
    expand]
  simp only [same]
  cases modes.default with
  | error fault => rfl
  | ok default =>
      simp only [Except.map, ok_bind, same, info_settled]
      rfl

end Modes

/-! ## Colours and time -/

theorem expandColors_settled (settings : Settings) (family : ColorFamily) :
    expandColors settings family.settled = expandColors settings family := by
  simp only [expandColors, ColorFamily.settled, Modes.default_settled,
    Modes.notices_settled, mapM_overrides_settled]
  cases Modes.default family.modes with
  | error fault => rfl
  | ok default =>
      simp only [Except.map, ok_bind, Modes.info_settled]
      rfl

theorem expandTime_settled (settings : Settings) (modes : Modes Scale) :
    expandTime settings modes.settled = expandTime settings modes := by
  rw [expandTime, Modes.default_settled, Modes.notices_settled,
    Modes.settled, Selection.marked_map, flagged_comp_settled,
    List.mapM_map, expandTime]
  cases modes.default with
  | error fault => rfl
  | ok default => rfl

/-! ## References -/

theorem named?_settled (spacing : Modes Scale) (name : String) :
    spacing.settled.named? name =
      (spacing.named? name).map Mode.settled := by
  rw [Modes.named?, Modes.settled, List.find?_map, Modes.named?]
  rfl

theorem chosenMode?_settled (references : References)
    (spacing : Modes Scale) :
    references.chosenMode? spacing.settled =
      (references.chosenMode? spacing).map Mode.settled := by
  rw [References.chosenMode?, References.chosenMode?]
  cases references.spacingMode with
  | none => rfl
  | some name =>
      by_cases blank : name = ""
      · simp [blank]
      · simp [blank, named?_settled]

theorem matching?_settled (mode : Mode References) (spacing : Modes Scale) :
    mode.settled.matching? spacing.settled =
      (mode.matching? spacing).map Mode.settled := by
  have chosen := chosenMode?_settled mode.content spacing
  rw [Mode.matching?, Mode.matching?]
  cases found : mode.content.chosenMode? spacing with
  | none =>
      rw [found] at chosen
      simp only [Mode.settled, chosen]
      exact named?_settled spacing mode.name
  | some other =>
      rw [found] at chosen
      simp only [Mode.settled, chosen]
      rfl

theorem spacingMode_settled (mode : Mode References)
    (spacing : Modes Scale) :
    mode.settled.spacingMode spacing.settled =
      (mode.spacingMode spacing).map Mode.settled := by
  rw [Mode.spacingMode, matching?_settled, Modes.default_settled,
    Mode.spacingMode]
  cases mode.matching? spacing <;> rfl

theorem spacingNotices_settled (mode : Mode References)
    (spacing : Modes Scale) :
    mode.settled.spacingNotices spacing.settled =
      mode.spacingNotices spacing := by
  rw [Mode.spacingNotices, matching?_settled, Modes.notices_settled,
    Mode.spacingNotices]
  cases mode.matching? spacing <;> rfl

theorem expandReferences_settled (family : Family) (settings : Settings)
    (spacing : Modes Scale) (modes : Modes References) :
    expandReferences family settings spacing.settled modes.settled =
      expandReferences family settings spacing modes := by
  have expanded : (modes.settled.expand fun mode => do
        let found ← mode.spacingMode spacing.settled
        mode.content.tokens family settings found.content) =
      (modes.expand fun mode => do
        let found ← mode.spacingMode spacing
        mode.content.tokens family settings found.content) := by
    apply Modes.expand_settled
    intro mode
    rw [spacingMode_settled]
    cases mode.spacingMode spacing <;> rfl
  have lookups : (modes.settled.overrides.flatMap fun mode =>
        mode.spacingNotices spacing.settled) =
      modes.overrides.flatMap fun mode => mode.spacingNotices spacing := by
    rw [Modes.overrides_settled, List.flatMap_map]
    simp only [spacingNotices_settled]
  rw [DesignTokens.expandReferences, expanded, Modes.default_settled,
    DesignTokens.expandReferences]
  simp only [List.flatMap_cons, lookups]
  cases modes.default with
  | error fault => rfl
  | ok default => simp only [Except.map, ok_bind, spacingNotices_settled]

/-! ## Design systems -/

theorem expandGiven_map {alpha : Type} {f : alpha → alpha}
    {expand : alpha → Except ExpansionFault Expansion}
    (same : ∀ family, expand (f family) = expand family)
    (given : Option alpha) :
    expandGiven expand (given.map f) = expandGiven expand given := by
  cases given with
  | none => rfl
  | some family => exact same family

theorem expandReferring_settled (family : Family) (settings : Settings)
    (spacing : Option (Modes Scale)) (modes : Option (Modes References)) :
    expandReferring family settings (spacing.map Modes.settled)
        (modes.map Modes.settled) =
      expandReferring family settings spacing modes := by
  cases spacing with
  | none => rfl
  | some scales =>
      cases modes with
      | none => rfl
      | some given =>
          exact expandReferences_settled family settings scales given

theorem expandFamily_settled (settings : Settings) (system : DesignSystem)
    (family : Family) :
    system.settled.expandFamily settings family =
      system.expandFamily settings family := by
  have radius : system.settled.border.bind Border.radius =
      (system.border.bind Border.radius).map Modes.settled := by
    simp only [DesignSystem.settled]
    cases system.border <;> rfl
  have width : system.settled.border.bind Border.width =
      (system.border.bind Border.width).map Modes.settled := by
    simp only [DesignSystem.settled]
    cases system.border <;> rfl
  cases family with
  | color => exact expandGiven_map (expandColors_settled settings) _
  | spacing =>
      exact expandGiven_map (fun _ => Modes.expand_settled fun _ => rfl) _
  | gap => exact expandReferring_settled ..
  | typography =>
      exact expandGiven_map (fun _ => Modes.expand_settled fun _ => rfl) _
  | borderRadius =>
      rw [DesignSystem.expandFamily, radius]
      exact expandReferring_settled ..
  | borderWidth =>
      rw [DesignSystem.expandFamily, width]
      exact expandGiven_map (fun _ => Modes.expand_settled fun _ => rfl) _
  | time => exact expandGiven_map (expandTime_settled settings) _

/-- The families expand as they did once the flag of every mode is given. -/
theorem ofSystem_settled (settings : Settings) (system : DesignSystem) :
    Expansions.ofSystem settings system.settled =
      Expansions.ofSystem settings system := by
  simp only [Expansions.ofSystem, expandFamily_settled]

end DesignTokens
