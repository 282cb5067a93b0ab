import DesignTokens.Proofs.Acceptance.Spelling
import DesignTokens.Proofs.System.Reading
import DesignTokens.Proofs.System.References

/-!
# Reading keys in their other spelling

An accepted configuration is read as the same design system, or with the same
issues, whichever spellings it has. So the token sheet is the same.
-/

namespace DesignTokens

open Acceptance (PlainMode)
open Grammar Schema Schema.Checked Success

/-! ## Fields -/

section Fields

variable {alpha : Type} {name alternative : String} {read : Reader alpha}
  {entries others : Entries}

/-- A field that can be read gives what it gives in either spelling. -/
theorem fieldOr_of_spelled {fallback : alpha}
    (same : spelled name alternative others =
      spelled name alternative entries)
    (succeeds : (fieldOr name alternative fallback read entries).Succeeds) :
    fieldOr name alternative fallback read others =
      fieldOr name alternative fallback read entries := by
  obtain ⟨result, accepted⟩ := succeeds
  rw [accepted, fieldOr_eq_accepted, same]
  exact fieldOr_eq_accepted.1 accepted

theorem field_of_changed {change : Value → Value}
    (found : Entries.get? name others = (Entries.get? name entries).map change)
    (each : ∀ value, Entries.get? name entries = some value →
      read (change value) = read value) :
    field name name read others = field name name read entries := by
  rw [field, field, Entries.spelled?, Entries.spelled?, found]
  cases held : Entries.get? name entries with
  | none => rfl
  | some value => exact congrArg (within (.key name)) (each value held)

theorem fieldOr_of_changed {fallback : alpha} {change : Value → Value}
    (found : Entries.get? name others = (Entries.get? name entries).map change)
    (each : ∀ value, Entries.get? name entries = some value →
      read (change value) = read value) :
    fieldOr name name fallback read others =
      fieldOr name name fallback read entries := by
  rw [fieldOr, fieldOr, Entries.spelled?, Entries.spelled?, found]
  cases held : Entries.get? name entries with
  | none => rfl
  | some value => exact congrArg (within (.key name)) (each value held)

/-- A part that may be absent is read as before where its value is. -/
theorem nullable_of_changed {change : Value → Value}
    (nulls : ∀ value, (change value).isNull = value.isNull)
    (found : Entries.get? name others = (Entries.get? name entries).map change)
    (each : ∀ value, Entries.given? name entries = some value →
      read (change value) = read value) :
    fieldOr name name none (nullable read) others =
      fieldOr name name none (nullable read) entries := by
  have nullable_of_ne {value : Value} (present : value ≠ .null) :
      nullable read value = some <$> read value := by
    cases value <;> first | exact absurd rfl present | rfl
  apply fieldOr_of_changed found
  intro value held
  by_cases null : value = .null
  · have again := nulls value
    rw [null] at again ⊢
    rw [(isNull_iff _).1 again]
  · have present : change value ≠ .null := fun isNull =>
      null ((isNull_iff value).1 ((nulls value).symm.trans
        ((isNull_iff _).2 isNull)))
    rw [nullable_of_ne null, nullable_of_ne present,
      each value (given?_eq_some_iff.2 ⟨held, null⟩)]

end Fields

/-! ## References -/

section References

/-- The spacing mode is no entry of references in either spelling. -/
theorem readEntries_renamed {tokens : Entries}
    (absent : Entries.get? "spacing_mode" tokens = none) :
    References.readEntries "spacing_mode"
        (Entries.renamed "spacingMode" "spacing_mode" tokens) =
      References.readEntries "spacingMode" tokens := by
  rw [get?_eq_none_iff] at absent
  induction tokens with
  | nil => rfl
  | cons first rest inductionHypothesis =>
      obtain ⟨key, value⟩ := first
      obtain ⟨here, later⟩ := List.forall_mem_cons.1 absent
      rw [Entries.renamed, List.map_cons]
      change References.readEntries "spacing_mode" (_ ::
        Entries.renamed "spacingMode" "spacing_mode" rest) = _
      cases key with
      | str name =>
          have other : name ≠ "spacing_mode" := fun same => here (same ▸ rfl)
          by_cases renames : name = "spacingMode"
          · simp [Value.isText, renames, References.readEntries,
              inductionHypothesis later]
          · simp [Value.isText, renames, other, References.readEntries,
              inductionHypothesis later]
      | _ =>
          simp [Value.isText, References.readEntries,
            inductionHypothesis later]

theorem readEntries_respelled (chosen : Bool) (tokens : Entries) :
    References.readEntries
        (References.modeSpelling
          (Entries.respelled chosen "spacingMode" "spacing_mode" tokens))
        (Entries.respelled chosen "spacingMode" "spacing_mode" tokens) =
      References.readEntries (References.modeSpelling tokens) tokens := by
  rw [Entries.respelled]
  split
  · rename_i renames
    have absent : Entries.get? "spacing_mode" tokens = none := by
      simpa using (Bool.and_eq_true_iff.1 renames).2
    cases held : Entries.get? "spacingMode" tokens with
    | none => rw [Entries.renamed_of_absent held]
    | some value =>
        have spelling : References.modeSpelling
            (Entries.renamed "spacingMode" "spacing_mode" tokens) =
              "spacing_mode" := by
          rw [References.modeSpelling,
            Entries.get?_renamed (by decide) absent]
          rfl
        have before : References.modeSpelling tokens = "spacingMode" := by
          rw [References.modeSpelling, held]
          rfl
        rw [spelling, before, readEntries_renamed absent]
  · rfl

variable (places : Place → Bool) (family : Family)

theorem readReferences_respelled {spacing : List String} (number : Nat)
    {tokens : Entries} (isReferences : IsReferences spacing tokens) :
    References.read (.map (respelledTokens places family number tokens)) =
      References.read (.map tokens) := by
  have unit : Entries.get? "unit"
      (respelledTokens places family number tokens) =
        (Entries.get? "unit" tokens).map id := by
    rw [Option.map_id_fun, id, get?_unit_respelledTokens]
  have mode : (fieldOr "spacingMode" "spacing_mode" none (nullable text)
      tokens).Succeeds := by
    refine succeeds_optional _ isReferences.spacingMode ?_
    rintro _ ⟨name, _, rfl⟩
    exact ⟨name, rfl⟩
  rw [References.read, model, model, fieldOr_of_changed unit fun _ _ => rfl,
    fieldOr_of_spelled (spelled_mode_respelledTokens ..) mode,
    respelledTokens, readEntries_respelled]

end References

/-! ## Modes -/

section Modes

variable {alpha : Type} {readContent : Entries → Checked alpha}
  (places : Place → Bool) (family : Family)

theorem readMode_respelled {number : Nat} {item : Value} {mode : PlainMode}
    (isMode : IsMode item mode)
    (content : readContent (respelledMode places family number mode.entries) =
      readContent mode.entries) :
    Mode.read readContent
        (Value.mapped (respelledMode places family number) item) =
      Mode.read readContent item := by
  have name : Entries.get? "name"
      (respelledMode places family number mode.entries) =
        (Entries.get? "name" mode.entries).map id := by
    rw [Option.map_id_fun, id, get?_name_respelledMode]
  have flag : (fieldOr "isDefault" "is_default" (some false)
      (nullable Schema.flag) mode.entries).Succeeds :=
    succeeds_fieldOr.2 fun _ found => flag_of_optionally isMode.flag found
  rw [isMode.mapping, Value.mapped, Mode.read, model, model,
    field_of_changed name fun _ _ => rfl,
    fieldOr_of_spelled (spelled_flag_respelledMode ..) flag, content]

theorem readItems_respelled {position : Nat} {items : List Value}
    {modes : List PlainMode} (areModes : List.Forall₂ IsMode items modes)
    (content : ∀ mode ∈ modes, ∀ number,
      readContent (respelledMode places family number mode.entries) =
        readContent mode.entries) (index : Int) :
    readItems (Mode.read readContent) index
        (respelledModes places family position items) =
      readItems (Mode.read readContent) index items := by
  induction areModes generalizing position index with
  | nil => rfl
  | cons isMode _ inductionHypothesis =>
      rw [List.forall_mem_cons] at content
      rw [Acceptance.respelledModes_cons, readItems, readItems,
        readMode_respelled places family isMode (content.1 position),
        inductionHypothesis content.2]

theorem readModes_respelled {spacing : List String} {entries : Entries}
    {modes : List PlainMode}
    (isFamily : IsFamily spacing family entries modes)
    (content : ∀ mode ∈ modes, ∀ number,
      readContent (respelledMode places family number mode.entries) =
        readContent mode.entries) :
    field "modes" "modes" (listOf (Mode.read readContent))
        (Entries.changed "modes"
          (Value.relisted (respelledModes places family 0))
          (respelledSchedule places family none entries)) =
      field "modes" "modes" (listOf (Mode.read readContent)) entries := by
  obtain ⟨value, given, items, listed, areModes⟩ := isFamily.listed
  have found : Entries.get? "modes" (Entries.changed "modes"
      (Value.relisted (respelledModes places family 0))
      (respelledSchedule places family none entries)) =
        (Entries.get? "modes" entries).map
          (Value.relisted (respelledModes places family 0)) := by
    rw [Entries.get?_changed, if_pos rfl,
      get?_respelledSchedule _ _ _ (by decide) (by decide)]
  apply field_of_changed found
  intro held same
  cases given.symm.trans same
  rw [listOf_of_lists (lists_relisted listed _), listOf_of_lists listed,
    readItems_respelled places family areModes content]

theorem readTokens_respelled {read : Reader alpha} {item : Value}
    {mode : PlainMode} (isMode : IsMode item mode) {number : Nat}
    (same : read (.map (respelledTokens places family number mode.tokens)) =
      read (.map mode.tokens)) :
    readTokens read (respelledMode places family number mode.entries) =
      readTokens read mode.entries := by
  apply field_of_changed (get?_tokens_respelledMode places family number
    mode.entries)
  intro value found
  cases isMode.tokens.symm.trans found
  exact same

theorem readPalette_respelled {spacing : List String} {item : Value}
    {mode : PlainMode} (isMode : IsMode item mode)
    (content : Content spacing .color mode) (number : Nat) :
    Palette.read (respelledMode places .color number mode.entries) =
      Palette.read mode.entries := by
  have colors := get?_tokens_respelledMode places .color number mode.entries
  have schedule := succeeds_readSchedule content.2
  rw [readSchedule] at schedule
  rw [Palette.read, Palette.read, fieldOr_of_changed colors, readSchedule,
    readSchedule,
    fieldOr_of_spelled (spelled_schedule_respelledMode ..) schedule]
  intro value found
  cases isMode.tokens.symm.trans found
  rw [Value.mapped, Acceptance.respelledTokens_of_not_referring _ _ _
    (by decide)]

end Modes

/-! ## Families -/

section Families

variable {alpha : Type} {read : Reader alpha} {spacing : List String}
  {family : Family} {entries : Entries} {modes : List PlainMode}
  (places : Place → Bool)

theorem tokenModes_respelled
    (isFamily : IsFamily spacing family entries modes)
    (each : ∀ mode ∈ modes, ∀ number,
      read (.map (respelledTokens places family number mode.tokens)) =
        read (.map mode.tokens)) :
    Modes.read (readTokens read)
        (respelledFamily places family (.map entries)) =
      Modes.read (readTokens read) (.map entries) := by
  rw [respelledFamily, Value.mapped, Modes.read, model, model]
  apply readModes_respelled places family isFamily
  intro mode member number
  obtain ⟨item, isMode⟩ := isFamily.exists_isMode member
  exact readTokens_respelled places family isMode (each mode member number)

theorem plainModes_respelled (plain : family ∉ referringFamilies)
    (isFamily : IsFamily spacing family entries modes) :
    Modes.read (readTokens read)
        (respelledFamily places family (.map entries)) =
      Modes.read (readTokens read) (.map entries) :=
  tokenModes_respelled places isFamily fun mode _ number => by
    rw [Acceptance.respelledTokens_of_not_referring _ _ _ plain]

theorem referringModes_respelled (refers : family ∈ referringFamilies)
    (isFamily : IsFamily spacing family entries modes) :
    Modes.read (readTokens References.read)
        (respelledFamily places family (.map entries)) =
      Modes.read (readTokens References.read) (.map entries) := by
  apply tokenModes_respelled places isFamily
  intro mode member number
  exact readReferences_respelled places family number
    (isReferences_of_content refers (isFamily.content mode member))

theorem readColors_respelled
    (isFamily : IsFamily spacing .color entries modes) :
    ColorFamily.read (respelledFamily places .color (.map entries)) =
      ColorFamily.read (.map entries) := by
  have schedule := succeeds_readSchedule (isFamily.schedule rfl)
  rw [readSchedule] at schedule
  rw [respelledFamily, Value.mapped, ColorFamily.read, model, model,
    readModes_respelled places .color isFamily, readSchedule, readSchedule,
    fieldOr_of_spelled _ schedule]
  · rw [spelled_changed_of_ne _ (by decide) (by decide),
      spelled_respelledSchedule]
  · intro mode member number
    obtain ⟨item, isMode⟩ := isFamily.exists_isMode member
    exact readPalette_respelled places isMode (isFamily.content mode member)
      number

end Families

/-! ## Design systems -/

section Systems

variable {config : Entries} {modes : Family → List PlainMode}
  (places : Place → Bool)

/-- The reading of a family from its field stays the same. -/
theorem readField_respelled {alpha : Type} (read : Reader alpha)
    (family : Family) {name : String} {entries others : Entries}
    (wellFormed : WellFormed config modes)
    (place : familyValue config family = Entries.given? name entries)
    (found : Entries.get? name others =
      (Entries.get? name entries).map (respelledFamily places family))
    (each : ∀ fields,
      IsFamily ((modes .spacing).map PlainMode.name) family fields
        (modes family) →
      read (respelledFamily places family (.map fields)) =
        read (.map fields)) :
    fieldOr name name none (nullable read) others =
      fieldOr name name none (nullable read) entries := by
  apply nullable_of_changed
    (Acceptance.isNull_respelledFamily places family) found
  intro value given
  obtain ⟨fields, rfl, isFamily⟩ :=
    wellFormed.present family value (place.trans given)
  exact each fields isFamily

theorem readBorder_respelled (wellFormed : WellFormed config modes) :
    fieldOr "border" "border" none (nullable Border.read)
        (changedFamilies (respelledFamily places) config) =
      fieldOr "border" "border" none (nullable Border.read) config := by
  have found : Entries.get? "border"
      (changedFamilies (respelledFamily places) config) =
        (Entries.get? "border" config).map
          (changedBorder (respelledFamily places)) := by
    simp [changedFamilies, Entries.get?_changed]
  apply nullable_of_changed (isNull_changedBorder _) found
  intro value given
  obtain ⟨held, present⟩ := given?_eq_some_iff.1 given
  obtain ⟨entries, rfl⟩ := (wellFormed.border value held).resolve_left present
  have parts (family : Family) {name : String}
      (place : familyValue config family = (Entries.given? "border" config).bind
        fun border => border.entries?.bind (Entries.given? name)) :
      familyValue config family = Entries.given? name entries := by
    rw [place, given]
    rfl
  rw [changedBorder, Value.mapped, Border.read, model, model,
    readField_respelled places (Modes.read (readTokens References.read))
      .borderRadius wellFormed (parts .borderRadius rfl)
      (by rw [Entries.get?_changed, if_neg (by decide), Entries.get?_changed,
        if_pos rfl])
      fun _ => referringModes_respelled places (by decide),
    readField_respelled places (Modes.read (readTokens Width.read))
      .borderWidth wellFormed (parts .borderWidth rfl)
      (by rw [Entries.get?_changed, if_pos rfl, Entries.get?_changed,
        if_neg (by decide)])
      fun _ => plainModes_respelled places (by decide)]

/-- An accepted configuration with keys in their other spelling is read as
before. -/
theorem readSystem_respelled (wellFormed : WellFormed config modes) :
    DesignSystem.read
        (.map (changedFamilies (respelledFamily places) config)) =
      DesignSystem.read (.map config) := by
  have found : ∀ name family,
      (name, family) ∈ [("colors", Family.color), ("spacing", .spacing),
        ("gap", .gap), ("typography", .typography), ("time", .time)] →
      Entries.get? name (changedFamilies (respelledFamily places) config) =
        (Entries.get? name config).map (respelledFamily places family) := by
    intro name family member
    simp only [List.mem_cons, Prod.mk.injEq, List.not_mem_nil,
      or_false] at member
    rcases member with ⟨rfl, rfl⟩ | ⟨rfl, rfl⟩ | ⟨rfl, rfl⟩ | ⟨rfl, rfl⟩ |
      ⟨rfl, rfl⟩
    all_goals simp [changedFamilies, Entries.get?_changed]
  rw [DesignSystem.read, model, model,
    readField_respelled places ColorFamily.read .color wellFormed rfl
      (found _ _ (by decide)) fun _ => readColors_respelled places,
    readField_respelled places (Modes.read (readTokens Scale.read)) .spacing
      wellFormed rfl (found _ _ (by decide)) fun _ =>
        plainModes_respelled places (by decide),
    readField_respelled places (Modes.read (readTokens References.read)) .gap
      wellFormed rfl (found _ _ (by decide)) fun _ =>
        referringModes_respelled places (by decide),
    readField_respelled places (Modes.read (readTokens TypeScale.read))
      .typography wellFormed rfl (found _ _ (by decide)) fun _ =>
        plainModes_respelled places (by decide),
    readBorder_respelled places wellFormed,
    readField_respelled places (Modes.read (readTokens Scale.read)) .time
      wellFormed rfl (found _ _ (by decide)) fun _ =>
        plainModes_respelled places (by decide)]

end Systems

/-! ## Generation -/

theorem readAccepted_respelled (places : Place → Bool) (config : Value) :
    readAccepted (respelled places config) = readAccepted config := by
  rw [readAccepted, readAccepted, Acceptance.accept_respelled]
  cases accepted : Acceptance.accept config with
  | error fault => rfl
  | ok passed =>
      cases config with
      | map entries =>
          obtain ⟨modes, wellFormed⟩ :=
            (Acceptance.acceptEntries_iff entries).1 accepted
          rw [respelled, Value.mapped, readSystem_respelled places wellFormed]
      | _ => rfl

/-- The spelling of keys makes no difference: a configuration with some of
them in their other spelling is accepted or has the same fault, and its token
sheet is the same or is missing for the same reason. -/
theorem generate_respelled (places : Place → Bool)
    (config settings : Value) :
    Acceptance.accept (respelled places config) = Acceptance.accept config ∧
      generate (respelled places config) settings =
        generate config settings := by
  refine ⟨Acceptance.accept_respelled places config, ?_⟩
  rw [generate, generate, readAccepted_respelled]

-- Two keys of a gap mode in their other spelling.
example :
    respelled (fun _ => true) (.map [(.str "gap", .map [(.str "modes",
      .list [.map [(.str "name", .str "wide"), (.str "isDefault", .null),
        (.str "tokens", .map [(.str "spacingMode", .str "regular"),
          (.str "outer", .int 2)])]])])]) =
      .map [(.str "gap", .map [(.str "modes",
        .list [.map [(.str "name", .str "wide"), (.str "is_default", .null),
          (.str "tokens", .map [(.str "spacing_mode", .str "regular"),
            (.str "outer", .int 2)])]])])] :=
  rfl

end DesignTokens
