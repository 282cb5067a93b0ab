import DesignTokens.Proofs.System.Modes

/-!
# Configurations without a family

A family is taken out of a configuration by setting it to null. What is left
is accepted where some other family is, unless spacing is taken from families
that refer to it.
-/

namespace DesignTokens

open Acceptance (PlainMode)
open Grammar Schema Schema.Checked

/-! ## Fields set to null -/

namespace Entries

theorem sameKey_str_iff (known : Value) (name : String) :
    known.sameKey (.str name) = true ↔ known = .str name := by
  cases known <;>
    simp [Value.sameKey, Value.counted?, Value.numeral?]

theorem get?_put (field name : String) (value : Value) (entries : Entries) :
    get? name (put (.str field) value entries) =
      if field = name then some value else get? name entries := by
  induction entries with
  | nil => rfl
  | cons first rest inductionHypothesis =>
      obtain ⟨known, held⟩ := first
      rw [put]
      by_cases same : known.sameKey (.str field) = true
      · rw [if_pos same]
        cases (sameKey_str_iff known field).1 same
        by_cases sought : field = name
        · simp [get?, sought]
        · simp [get?, sought]
      · rw [if_neg same]
        cases known with
        | str key =>
            have different : field ≠ key := by
              rintro rfl
              exact same ((sameKey_str_iff _ field).2 rfl)
            by_cases found : key = name
            · subst found
              simp [get?, different]
            · simpa [get?, found] using inductionHypothesis
        | _ => simpa [get?] using inductionHypothesis

/-- A mapping with a field set to null. -/
def cleared (field : String) (entries : Entries) : Entries :=
  put (.str field) .null entries

/-- A mapping with a part of one of its fields set to null. -/
def clearedIn (field part : String) (entries : Entries) : Entries :=
  match given? field entries with
  | some (.map inner) => put (.str field) (.map (cleared part inner)) entries
  | _ => entries

theorem given?_cleared (field name : String) (entries : Entries) :
    given? name (cleared field entries) =
      if field = name then none else given? name entries := by
  rw [given?, cleared, get?_put]
  by_cases same : field = name
  · simp [same, Value.isNull]
  · simp [same, given?]

theorem given?_clearedIn_of_ne {field part name : String}
    (different : field ≠ name) (entries : Entries) :
    given? name (clearedIn field part entries) = given? name entries := by
  rw [clearedIn]
  split
  · rw [given?, get?_put, if_neg different, given?]
  · rfl

theorem given?_clearedIn (field part name : String) (entries : Entries) :
    ((given? field (clearedIn field part entries)).bind fun value =>
        value.entries?.bind (given? name)) =
      if part = name then none
      else (given? field entries).bind fun value =>
        value.entries?.bind (given? name) := by
  rw [clearedIn]
  split
  · rename_i inner found
    rw [found, given?, get?_put, if_pos rfl]
    exact given?_cleared part name inner
  · rename_i notMapping
    cases found : given? field entries with
    | none => simp
    | some value =>
        cases value with
        | map inner => exact absurd found (notMapping inner)
        | _ => simp [Value.entries?]

end Entries

/-! ## Families set to null -/

/-- A configuration with a family set to null. -/
def without (family : Family) (config : Entries) : Entries :=
  match family with
  | .color => Entries.cleared "colors" config
  | .spacing => Entries.cleared "spacing" config
  | .gap => Entries.cleared "gap" config
  | .typography => Entries.cleared "typography" config
  | .borderRadius => Entries.clearedIn "border" "radius" config
  | .borderWidth => Entries.clearedIn "border" "width" config
  | .time => Entries.cleared "time" config

/-- Just this family is no longer given. -/
theorem familyValue_without (family other : Family) (config : Entries) :
    familyValue (without family config) other =
      if other = family then none else familyValue config other := by
  cases family <;> cases other <;>
    simp [without, familyValue, Entries.given?_cleared,
      Entries.given?_clearedIn, Entries.given?_clearedIn_of_ne]

theorem familyValue_without_self (family : Family) (config : Entries) :
    familyValue (without family config) family = none := by
  rw [familyValue_without, if_pos rfl]

theorem familyValue_without_of_ne {family other : Family}
    (different : other ≠ family) (config : Entries) :
    familyValue (without family config) other = familyValue config other := by
  rw [familyValue_without, if_neg different]

theorem exists_field_of_familyValue {config : Entries} {family : Family}
    (given : familyValue config family ≠ none) :
    ∃ field ∈ ["colors", "spacing", "gap", "typography", "border", "time"],
      ∃ value, Entries.given? field config = some value := by
  have inBorder {part : String}
      (inside : ((Entries.given? "border" config).bind fun border =>
        border.entries?.bind (Entries.given? part)) ≠ none) :
      ∃ value, Entries.given? "border" config = some value := by
    apply Option.ne_none_iff_exists'.1
    intro absent
    rw [absent] at inside
    exact inside rfl
  cases family with
  | color => exact ⟨"colors", by decide, Option.ne_none_iff_exists'.1 given⟩
  | spacing => exact ⟨"spacing", by decide, Option.ne_none_iff_exists'.1 given⟩
  | gap => exact ⟨"gap", by decide, Option.ne_none_iff_exists'.1 given⟩
  | typography =>
      exact ⟨"typography", by decide, Option.ne_none_iff_exists'.1 given⟩
  | borderRadius => exact ⟨"border", by decide, inBorder given⟩
  | borderWidth => exact ⟨"border", by decide, inBorder given⟩
  | time => exact ⟨"time", by decide, Option.ne_none_iff_exists'.1 given⟩

/-! ## Acceptance -/

theorem border_without {family : Family} {config : Entries}
    (border : Optionally (fun value => ∃ entries, value = .map entries)
      (Entries.get? "border" config)) :
    Optionally (fun value => ∃ entries, value = .map entries)
      (Entries.get? "border" (without family config)) := by
  have inside (part : String) :
      Optionally (fun value => ∃ entries, value = .map entries)
        (Entries.get? "border" (Entries.clearedIn "border" part config)) := by
    rw [Entries.clearedIn]
    split
    · rw [Entries.get?_put, if_pos rfl]
      rintro _ ⟨⟩
      exact .inr ⟨_, rfl⟩
    · exact border
  cases family with
  | borderRadius => exact inside "radius"
  | borderWidth => exact inside "width"
  | _ =>
      rw [without, Entries.cleared, Entries.get?_put, if_neg (by decide)]
      exact border

/-- The modes of all families but one. -/
def modesWithout (family : Family) (modes : Family → List PlainMode)
    (other : Family) : List PlainMode :=
  if other = family then [] else modes other

theorem not_isOverride_nil (name : String) : ¬ IsOverride [] name := by
  rintro ⟨mode, member, _⟩
  cases member

theorem isOverride_of_modesWithout {family other : Family}
    {modes : Family → List PlainMode} {name : String}
    (overrides : IsOverride (modesWithout family modes other) name) :
    IsOverride (modes other) name := by
  rw [modesWithout] at overrides
  split at overrides
  · exact absurd overrides (not_isOverride_nil name)
  · exact overrides

/-- A family that others do not refer to. -/
def Unreferenced (config : Entries) (family : Family) : Prop :=
  family = .spacing →
    ∀ other ∈ referringFamilies, familyValue config other = none

theorem wellFormed_without {config : Entries}
    {modes : Family → List PlainMode} {family : Family}
    (wellFormed : WellFormed config modes)
    (remains : ∃ other, other ≠ family ∧ familyValue config other ≠ none)
    (unreferenced : Unreferenced config family) :
    WellFormed (without family config) (modesWithout family modes) := by
  refine ⟨?_, border_without wellFormed.border, ?_, ?_, ?_, ?_⟩
  · obtain ⟨other, different, given⟩ := remains
    rw [← familyValue_without_of_ne different] at given
    exact exists_field_of_familyValue given
  · intro other refers given
    have kept : other ≠ family := by
      rintro rfl
      exact given (familyValue_without_self other config)
    rw [familyValue_without_of_ne kept] at given
    have notSpacing : Family.spacing ≠ family := by
      rintro rfl
      exact given (unreferenced rfl other refers)
    rw [familyValue_without_of_ne notSpacing]
    exact wellFormed.needsSpacing other refers given
  · intro other absent
    rw [modesWithout]
    split
    · rfl
    · rename_i kept
      rw [familyValue_without_of_ne kept] at absent
      exact wellFormed.absent other absent
  · intro other value given
    have kept : other ≠ family := by
      rintro rfl
      rw [familyValue_without_self] at given
      cases given
    rw [familyValue_without_of_ne kept] at given
    obtain ⟨entries, rfl, isFamily⟩ := wellFormed.present other value given
    refine ⟨entries, rfl, ?_⟩
    have own : modesWithout family modes other = modes other := if_neg kept
    rw [own]
    apply isFamily_congr ?_ isFamily
    intro refers
    have notSpacing : Family.spacing ≠ family := by
      rintro rfl
      rw [unreferenced rfl other refers] at given
      cases given
    rw [modesWithout, if_neg notSpacing]
    exact fun _ => id
  · intro other sized name colors sizes
    exact wellFormed.isolated other sized name
      (isOverride_of_modesWithout colors) (isOverride_of_modesWithout sizes)

/-! ## Reading -/

section Fields

variable {alpha : Type} {field name : String} {read : Reader alpha}
  {entries : Entries} {part : Option alpha}

theorem fieldOr_congr {others : Entries}
    (same : Entries.get? name others = Entries.get? name entries)
    (accepted : fieldOr name name none (nullable read) entries =
      .accepted part) :
    fieldOr name name none (nullable read) others = .accepted part := by
  rw [fieldOr_eq_accepted, spelled_self] at accepted ⊢
  rwa [same]

theorem fieldOr_cleared :
    fieldOr field field none (nullable read) (Entries.cleared field entries) =
      .accepted none := by
  refine fieldOr_eq_accepted.2 (.inr ⟨.null, ?_, rfl⟩)
  rw [spelled_self, Entries.cleared, Entries.get?_put, if_pos rfl]

theorem fieldOr_cleared_of_ne (different : field ≠ name)
    (accepted : fieldOr name name none (nullable read) entries =
      .accepted part) :
    fieldOr name name none (nullable read) (Entries.cleared field entries) =
      .accepted part := by
  apply fieldOr_congr ?_ accepted
  rw [Entries.cleared, Entries.get?_put, if_neg different]

theorem fieldOr_clearedIn_of_ne {inner : String} (different : field ≠ name)
    (accepted : fieldOr name name none (nullable read) entries =
      .accepted part) :
    fieldOr name name none (nullable read)
      (Entries.clearedIn field inner entries) = .accepted part := by
  apply fieldOr_congr ?_ accepted
  rw [Entries.clearedIn]
  split
  · rw [Entries.get?_put, if_neg different]
  · rfl

/-- A field of which a part is set to null is read as its other parts are. -/
theorem fieldOr_clearedIn {inner : String} {f : alpha → alpha}
    (mappings : ∀ value result, read value = .accepted result →
      ∃ held, value = .map held)
    (each : ∀ held result, read (.map held) = .accepted result →
      read (.map (Entries.cleared inner held)) = .accepted (f result))
    (accepted : fieldOr field field none (nullable read) entries =
      .accepted part) :
    fieldOr field field none (nullable read)
      (Entries.clearedIn field inner entries) = .accepted (part.map f) := by
  rcases given_eq_accepted accepted with
    ⟨absent, rfl⟩ | ⟨value, result, given, valueRead, rfl⟩
  · rw [Entries.clearedIn, absent]
    exact accepted
  · obtain ⟨held, rfl⟩ := mappings value result valueRead
    have cleared : nullable read (.map (Entries.cleared inner held)) =
        .accepted (some (f result)) :=
      map_eq_accepted.2 ⟨f result, each held result valueRead, rfl⟩
    rw [Entries.clearedIn, given]
    refine fieldOr_eq_accepted.2 (.inr ⟨_, ?_, cleared⟩)
    rw [spelled_self, Entries.get?_put, if_pos rfl]

end Fields

/-- A border without one of its parts. -/
def Border.withoutRadius (border : Border) : Border :=
  { border with radius := none }

def Border.withoutWidth (border : Border) : Border :=
  { border with width := none }

/-- A design system without a family. -/
def DesignSystem.without (system : DesignSystem) : Family → DesignSystem
  | .color => { system with colors := none }
  | .spacing => { system with spacing := none }
  | .gap => { system with gap := none }
  | .typography => { system with typography := none }
  | .borderRadius =>
      { system with border := system.border.map Border.withoutRadius }
  | .borderWidth =>
      { system with border := system.border.map Border.withoutWidth }
  | .time => { system with time := none }

theorem mapping_of_readBorder (value : Value) (border : Border)
    (read : Border.read value = .accepted border) :
    ∃ entries, value = .map entries := by
  obtain ⟨entries, same, _⟩ := model_eq_accepted.1 read
  exact ⟨entries, same⟩

theorem Border.read_withoutRadius (entries : Entries) (border : Border)
    (read : Border.read (.map entries) = .accepted border) :
    Border.read (.map (Entries.cleared "radius" entries)) =
      .accepted border.withoutRadius := by
  have parts := Border.read_eq_accepted.1 read
  exact Border.read_eq_accepted.2
    ⟨fieldOr_cleared, fieldOr_cleared_of_ne (by decide) parts.width⟩

theorem Border.read_withoutWidth (entries : Entries) (border : Border)
    (read : Border.read (.map entries) = .accepted border) :
    Border.read (.map (Entries.cleared "width" entries)) =
      .accepted border.withoutWidth := by
  have parts := Border.read_eq_accepted.1 read
  exact Border.read_eq_accepted.2
    ⟨fieldOr_cleared_of_ne (by decide) parts.radius, fieldOr_cleared⟩

theorem readParts_clearedIn_border {config : Entries} {system : DesignSystem}
    {part : String} {f : Border → Border}
    (each : ∀ entries border,
      Border.read (.map entries) = .accepted border →
        Border.read (.map (Entries.cleared part entries)) =
          .accepted (f border))
    (parts : DesignSystem.ReadParts config system) :
    DesignSystem.ReadParts (Entries.clearedIn "border" part config)
      { system with border := system.border.map f } where
  colors := fieldOr_clearedIn_of_ne (by decide) parts.colors
  spacing := fieldOr_clearedIn_of_ne (by decide) parts.spacing
  gap := fieldOr_clearedIn_of_ne (by decide) parts.gap
  typography := fieldOr_clearedIn_of_ne (by decide) parts.typography
  border := fieldOr_clearedIn mapping_of_readBorder each parts.border
  time := fieldOr_clearedIn_of_ne (by decide) parts.time

/-- A configuration with a family set to null is read as the design system
without it. -/
theorem read_without {config : Entries} {system : DesignSystem}
    (family : Family)
    (read : DesignSystem.read (.map config) = .accepted system) :
    DesignSystem.read (.map (without family config)) =
      .accepted (system.without family) := by
  have parts := DesignSystem.read_eq_accepted.1 read
  apply DesignSystem.read_eq_accepted.2
  cases family with
  | borderRadius =>
      exact readParts_clearedIn_border Border.read_withoutRadius parts
  | borderWidth =>
      exact readParts_clearedIn_border Border.read_withoutWidth parts
  | _ =>
      -- One part is the one that is set to null; all others stay.
      constructor
      all_goals first
        | exact fieldOr_cleared
        | exact fieldOr_cleared_of_ne (by decide) parts.colors
        | exact fieldOr_cleared_of_ne (by decide) parts.spacing
        | exact fieldOr_cleared_of_ne (by decide) parts.gap
        | exact fieldOr_cleared_of_ne (by decide) parts.typography
        | exact fieldOr_cleared_of_ne (by decide) parts.border
        | exact fieldOr_cleared_of_ne (by decide) parts.time

end DesignTokens
