import DesignTokens.Proofs.Acceptance.Grammar

/-!
# Changed configurations

A field of a mapping is changed where it stands, and so is the value of each
family of a configuration.
-/

namespace DesignTokens

open Grammar

/-! ## Changed fields -/

/-- A mapping with the value under a key changed. -/
def Entries.changed (key : String) (change : Value → Value)
    (entries : Entries) : Entries :=
  entries.map fun entry =>
    if entry.1.isText key then (entry.1, change entry.2) else entry

theorem Entries.get?_changed (key name : String) (change : Value → Value)
    (entries : Entries) :
    get? name (changed key change entries) =
      if name = key then (get? name entries).map change
      else get? name entries := by
  induction entries with
  | nil => simp [changed, get?]
  | cons first rest inductionHypothesis =>
      obtain ⟨known, value⟩ := first
      rw [changed, List.map_cons]
      change get? name (_ :: changed key change rest) = _
      cases known with
      | str held =>
          by_cases sought : held = name
          · subst sought
            by_cases same : held = key
            · simp [get?, Value.isText, same]
            · simp [get?, Value.isText, same]
          · by_cases same : held = key
            · subst same
              simpa [get?, Value.isText, sought] using inductionHypothesis
            · simpa [get?, Value.isText, same, sought] using
                inductionHypothesis
      | _ => simpa [get?, Value.isText] using inductionHypothesis

theorem Entries.given?_changed {key : String} {change : Value → Value}
    (nulls : ∀ value, (change value).isNull = value.isNull) (name : String)
    (entries : Entries) :
    given? name (changed key change entries) =
      if name = key then (given? name entries).map change
      else given? name entries := by
  rw [given?, get?_changed]
  by_cases same : name = key
  · rw [if_pos same, if_pos same, given?]
    cases get? name entries with
    | none => rfl
    | some value => simp [Option.filter, nulls, apply_ite]
  · rw [if_neg same, if_neg same, given?]

/-- A mapping that is changed; other values stay. -/
def Value.mapped (change : Entries → Entries) : Value → Value
  | .map entries => .map (change entries)
  | value => value

theorem Value.isNull_mapped (change : Entries → Entries) (value : Value) :
    (value.mapped change).isNull = value.isNull := by
  cases value <;> rfl

/-- A list that is changed; other values stay. -/
def Value.relisted (change : List Value → List Value) : Value → Value
  | .list items => .list (change items)
  | .tuple items => .tuple (change items)
  | value => value

theorem lists_relisted {value : Value} {items : List Value}
    (listed : Lists value items) (change : List Value → List Value) :
    Lists (value.relisted change) (change items) := by
  rcases listed with rfl | rfl
  · exact .inl rfl
  · exact .inr rfl

/-! ## Changed families -/

/-- A border with its families changed. -/
def changedBorder (change : Family → Value → Value) : Value → Value :=
  Value.mapped fun border =>
    Entries.changed "width" (change .borderWidth) <|
    Entries.changed "radius" (change .borderRadius) border

/-- A configuration with the value of each family changed. -/
def changedFamilies (change : Family → Value → Value) (config : Entries) :
    Entries :=
  Entries.changed "colors" (change .color) <|
  Entries.changed "spacing" (change .spacing) <|
  Entries.changed "gap" (change .gap) <|
  Entries.changed "typography" (change .typography) <|
  Entries.changed "border" (changedBorder change) <|
  Entries.changed "time" (change .time) config

section Families

variable {change : Family → Value → Value}

theorem isNull_changedBorder (change : Family → Value → Value)
    (value : Value) : (changedBorder change value).isNull = value.isNull :=
  Value.isNull_mapped _ value

theorem given?_border_changedFamilies
    (nulls : ∀ family value, (change family value).isNull = value.isNull)
    (config : Entries) :
    Entries.given? "border" (changedFamilies change config) =
      (Entries.given? "border" config).map (changedBorder change) := by
  simp [changedFamilies, Entries.given?_changed, nulls, isNull_changedBorder]

theorem familyValue_changedFamilies
    (nulls : ∀ family value, (change family value).isNull = value.isNull)
    (config : Entries) (family : Family) :
    familyValue (changedFamilies change config) family =
      (familyValue config family).map (change family) := by
  have inBorder {part : String} {changePart : Value → Value}
      (each : ∀ entries : Entries, Entries.given? part
        (Entries.changed "width" (change .borderWidth)
          (Entries.changed "radius" (change .borderRadius) entries)) =
            (Entries.given? part entries).map changePart) :
      ((Entries.given? "border" (changedFamilies change config)).bind
        fun border => border.entries?.bind (Entries.given? part)) =
        ((Entries.given? "border" config).bind fun border =>
          border.entries?.bind (Entries.given? part)).map changePart := by
    rw [given?_border_changedFamilies nulls]
    cases Entries.given? "border" config with
    | none => rfl
    | some value =>
        cases value with
        | map entries => exact each entries
        | _ => rfl
  cases family with
  | borderRadius =>
      apply inBorder
      simp [Entries.given?_changed, nulls]
  | borderWidth =>
      apply inBorder
      simp [Entries.given?_changed, nulls]
  | _ =>
      simp [familyValue, changedFamilies, Entries.given?_changed, nulls,
        isNull_changedBorder]

/-- The same fields of a changed configuration are given. -/
theorem isSome_given?_changedFamilies
    (nulls : ∀ family value, (change family value).isNull = value.isNull)
    (config : Entries) {field : String}
    (listed : field ∈
      ["colors", "spacing", "gap", "typography", "border", "time"]) :
    (Entries.given? field (changedFamilies change config)).isSome =
      (Entries.given? field config).isSome := by
  simp only [List.mem_cons, List.not_mem_nil, or_false] at listed
  rcases listed with rfl | rfl | rfl | rfl | rfl | rfl
  all_goals
    simp [changedFamilies, Entries.given?_changed, nulls,
      isNull_changedBorder]

end Families

end DesignTokens
