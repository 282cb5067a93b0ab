import DesignTokens.Proofs.Acceptance.Changing
import DesignTokens.Proofs.Acceptance.Whole
import DesignTokens.Proofs.System.Modes

/-!
# Configurations with keys in their other spelling

The flag of a mode, the opacities of colours and the spacing mode of
references have two spellings. A configuration with some of these keys written
in the other spelling is accepted with the same modes, or it has the same
fault.
-/

namespace DesignTokens

open Acceptance (ContentFault Fault FamilyFault PlainMode)
open Grammar Success

/-! ## Renamed keys -/

/-- A mapping with a key written as another one, in its place. -/
def Entries.renamed (name alternative : String) (entries : Entries) :
    Entries :=
  entries.map fun entry =>
    if entry.1.isText name then (.str alternative, entry.2) else entry

/-- A mapping with a key in its other spelling, if that is chosen. A mapping
that has a key in this spelling already stays as it is. -/
def Entries.respelled (chosen : Bool) (name alternative : String)
    (entries : Entries) : Entries :=
  if chosen && (get? alternative entries).isNone then
    renamed name alternative entries
  else entries

namespace Entries

variable {name alternative : String}

/-- The value under a renamed key is found under the new one. -/
theorem get?_renamed {entries : Entries} (different : name ≠ alternative)
    (absent : get? alternative entries = none) (key : String) :
    get? key (renamed name alternative entries) =
      if key = alternative then get? name entries
      else if key = name then none else get? key entries := by
  rw [get?_eq_none_iff] at absent
  induction entries with
  | nil => simp [renamed, get?]
  | cons first rest inductionHypothesis =>
      obtain ⟨known, value⟩ := first
      obtain ⟨here, later⟩ := List.forall_mem_cons.1 absent
      rw [renamed, List.map_cons]
      change get? key (_ :: renamed name alternative rest) = _
      cases known with
      | str held =>
          -- No key is the new name yet, so that only the old one can become it.
          have other : held ≠ alternative := fun same => here (same ▸ rfl)
          have others := inductionHypothesis later
          by_cases same : held = name
          · subst same
            by_cases sought : key = alternative
            · simp [get?, Value.isText, sought]
            · by_cases own : key = held
              · subst own
                simpa [get?, Value.isText, sought, Ne.symm sought] using
                  others
              · simpa [get?, Value.isText, sought, Ne.symm sought, own,
                  Ne.symm own] using others
          · by_cases sought : key = held
            · simp [get?, Value.isText, sought, same, other]
            · simpa [get?, Value.isText, same, Ne.symm sought] using others
      | _ => simpa [get?, Value.isText] using inductionHypothesis later

theorem renamed_of_absent {entries : Entries}
    (absent : get? name entries = none) :
    renamed name alternative entries = entries := by
  refine (List.map_congr_left fun entry member => ?_).trans (List.map_id _)
  have other : ¬ entry.1.isText name = true := by
    rw [isText_iff]
    exact get?_eq_none_iff.1 absent entry member
  rw [if_neg other, id]

theorem get?_respelled_of_ne {key : String} (chosen : Bool)
    (different : name ≠ alternative) (notName : key ≠ name)
    (notAlternative : key ≠ alternative) (entries : Entries) :
    get? key (respelled chosen name alternative entries) =
      get? key entries := by
  rw [respelled]
  split
  · rename_i renames
    have absent : get? alternative entries = none := by
      simpa using (Bool.and_eq_true_iff.1 renames).2
    rw [get?_renamed different absent, if_neg notAlternative, if_neg notName]
  · rfl

/-- The value of a field is found under either spelling. -/
theorem spelled_respelled (chosen : Bool) (different : name ≠ alternative)
    (entries : Entries) :
    spelled name alternative (respelled chosen name alternative entries) =
      spelled name alternative entries := by
  rw [respelled]
  split
  · rename_i renames
    have absent : get? alternative entries = none := by
      simpa using (Bool.and_eq_true_iff.1 renames).2
    rw [spelled, spelled, get?_renamed different absent,
      get?_renamed different absent, if_neg different, if_pos rfl,
      if_pos rfl, absent, Option.none_or, Option.or_none]
  · rfl

end Entries

/-! ## Respelled configurations -/

/-- A place where a key has two spellings: the flag of a mode, the opacities
of the colours or of one of their modes, the spacing mode of references. -/
inductive Place where
  | flag (family : Family) (mode : Nat)
  | schedule (mode : Option Nat)
  | spacingMode (family : Family) (mode : Nat)

section Respelled

variable (places : Place → Bool) (family : Family)

/-- The tokens of a mode with the spacing mode in its other spelling. -/
def respelledTokens (mode : Nat) : Entries → Entries :=
  Entries.respelled
    (decide (family ∈ referringFamilies) && places (.spacingMode family mode))
    "spacingMode" "spacing_mode"

/-- Colours with their opacities in the other spelling. -/
def respelledSchedule (mode : Option Nat) : Entries → Entries :=
  Entries.respelled (decide (family = .color) && places (.schedule mode))
    "alphaSchedule" "alpha_schedule"

/-- A mode with keys in their other spelling. -/
def respelledMode (mode : Nat) (entries : Entries) : Entries :=
  Entries.changed "tokens" (Value.mapped (respelledTokens places family mode))
    <| respelledSchedule places family (some mode)
    <| Entries.respelled (places (.flag family mode)) "isDefault" "is_default"
      entries

/-- Modes, of which the first has the number `position`. -/
def respelledModes (position : Nat) (modes : List Value) : List Value :=
  modes.mapIdx fun mode =>
    Value.mapped (respelledMode places family (position + mode))

def respelledFamily : Value → Value :=
  Value.mapped fun entries =>
    Entries.changed "modes"
      (Value.relisted (respelledModes places family 0)) <|
      respelledSchedule places family none entries

/-- A configuration with the keys in the chosen places written in their other
spelling. Other values have no such places. -/
def respelled : Value → Value :=
  Value.mapped (changedFamilies (respelledFamily places))

end Respelled

/-! ## Fields of respelled modes -/

section Fields

variable (places : Place → Bool) (family : Family)

theorem get?_respelledSchedule {key : String} (mode : Option Nat)
    (notName : key ≠ "alphaSchedule") (notAlternative : key ≠ "alpha_schedule")
    (entries : Entries) :
    Entries.get? key (respelledSchedule places family mode entries) =
      Entries.get? key entries :=
  Entries.get?_respelled_of_ne _ (by decide) notName notAlternative entries

theorem spelled_respelledSchedule (mode : Option Nat) (entries : Entries) :
    spelled "alphaSchedule" "alpha_schedule"
        (respelledSchedule places family mode entries) =
      spelled "alphaSchedule" "alpha_schedule" entries :=
  Entries.spelled_respelled _ (by decide) entries

theorem get?_unit_respelledTokens (mode : Nat) (tokens : Entries) :
    Entries.get? "unit" (respelledTokens places family mode tokens) =
      Entries.get? "unit" tokens :=
  Entries.get?_respelled_of_ne _ (by decide) (by decide) (by decide) tokens

theorem spelled_mode_respelledTokens (mode : Nat) (tokens : Entries) :
    spelled "spacingMode" "spacing_mode"
        (respelledTokens places family mode tokens) =
      spelled "spacingMode" "spacing_mode" tokens :=
  Entries.spelled_respelled _ (by decide) tokens

theorem get?_name_respelledMode (mode : Nat) (entries : Entries) :
    Entries.get? "name" (respelledMode places family mode entries) =
      Entries.get? "name" entries := by
  rw [respelledMode, Entries.get?_changed, if_neg (by decide),
    get?_respelledSchedule _ _ _ (by decide) (by decide),
    Entries.get?_respelled_of_ne _ (by decide) (by decide) (by decide)]

theorem get?_tokens_respelledMode (mode : Nat) (entries : Entries) :
    Entries.get? "tokens" (respelledMode places family mode entries) =
      (Entries.get? "tokens" entries).map
        (Value.mapped (respelledTokens places family mode)) := by
  rw [respelledMode, Entries.get?_changed, if_pos rfl,
    get?_respelledSchedule _ _ _ (by decide) (by decide),
    Entries.get?_respelled_of_ne _ (by decide) (by decide) (by decide)]

theorem spelled_changed_of_ne {key name alternative : String}
    (change : Value → Value) (notName : name ≠ key)
    (notAlternative : alternative ≠ key) (entries : Entries) :
    spelled name alternative (Entries.changed key change entries) =
      spelled name alternative entries := by
  rw [spelled, Entries.get?_changed, if_neg notName, Entries.get?_changed,
    if_neg notAlternative, spelled]

theorem spelled_flag_respelledMode (mode : Nat) (entries : Entries) :
    spelled "isDefault" "is_default"
        (respelledMode places family mode entries) =
      spelled "isDefault" "is_default" entries := by
  rw [respelledMode, spelled_changed_of_ne _ (by decide) (by decide), spelled,
    get?_respelledSchedule _ _ _ (by decide) (by decide),
    get?_respelledSchedule _ _ _ (by decide) (by decide), ← spelled,
    Entries.spelled_respelled _ (by decide)]

theorem spelled_schedule_respelledMode (mode : Nat) (entries : Entries) :
    spelled "alphaSchedule" "alpha_schedule"
        (respelledMode places family mode entries) =
      spelled "alphaSchedule" "alpha_schedule" entries := by
  rw [respelledMode, spelled_changed_of_ne _ (by decide) (by decide),
    spelled_respelledSchedule, spelled,
    Entries.get?_respelled_of_ne _ (by decide) (by decide) (by decide),
    Entries.get?_respelled_of_ne _ (by decide) (by decide) (by decide),
    spelled]

end Fields

namespace Acceptance

/-! ## Modes -/

section Modes

variable (places : Place → Bool) (family : Family)

/-- A mode with keys in their other spelling, as far as it is accepted. -/
def PlainMode.respelled (number : Nat) (mode : PlainMode) : PlainMode :=
  ⟨mode.name, respelledMode places family number mode.entries,
    respelledTokens places family number mode.tokens⟩

def PlainMode.allRespelled (position : Nat) (modes : List PlainMode) :
    List PlainMode :=
  modes.mapIdx fun number => PlainMode.respelled places family
    (position + number)

theorem modeName?_respelledMode (number : Nat) (entries : Entries) :
    modeName? (respelledMode places family number entries) =
      modeName? entries := by
  rw [modeName?, get?_name_respelledMode, modeName?]

theorem flagValue_respelledMode (number : Nat) (entries : Entries) :
    PlainMode.flagValue (respelledMode places family number entries) =
      PlainMode.flagValue entries := by
  rw [flagValue_eq_spelled, spelled_flag_respelledMode, flagValue_eq_spelled]

theorem flagged_respelled (number : Nat) (mode : PlainMode) :
    (PlainMode.respelled places family number mode).flagged =
      mode.flagged := by
  rw [PlainMode.flagged, PlainMode.respelled, flagValue_respelledMode,
    PlainMode.flagged]

theorem acceptMode_respelled (index number : Nat) (seen : List String)
    (item : Value) :
    acceptMode index seen
        (Value.mapped (respelledMode places family number) item) =
      (acceptMode index seen item).map
        (PlainMode.respelled places family number) := by
  cases item with
  | map entries =>
      simp only [Value.mapped, acceptMode, Value.entries?,
        modeName?_respelledMode, flagValue_respelledMode,
        get?_tokens_respelledMode]
      cases modeName? entries with
      | none => rfl
      | some name =>
          dsimp only
          split
          · rfl
          · split
            · rfl
            · cases Entries.get? "tokens" entries with
              | none => rfl
              | some tokens => cases tokens <;> rfl
  | _ => rfl

theorem allRespelled_cons (position : Nat) (mode : PlainMode)
    (others : List PlainMode) :
    PlainMode.allRespelled places family position (mode :: others) =
      PlainMode.respelled places family position mode ::
        PlainMode.allRespelled places family (position + 1) others := by
  simp [PlainMode.allRespelled, List.mapIdx_cons, Nat.add_assoc,
    Nat.add_comm 1]

theorem respelledModes_cons (position : Nat) (item : Value)
    (others : List Value) :
    respelledModes places family position (item :: others) =
      Value.mapped (respelledMode places family position) item ::
        respelledModes places family (position + 1) others := by
  simp [respelledModes, List.mapIdx_cons, Nat.add_assoc, Nat.add_comm 1]

/-- Respelled modes are accepted one by one, where the others are. -/
theorem acceptModesFrom_respelled (index position : Nat) (seen : List String)
    (items : List Value) :
    acceptModesFrom index seen (respelledModes places family position items) =
      (acceptModesFrom index seen items).map
        (PlainMode.allRespelled places family position) := by
  induction items generalizing index position seen with
  | nil => rfl
  | cons item rest inductionHypothesis =>
      rw [respelledModes_cons, acceptModesFrom, acceptModesFrom,
        acceptMode_respelled, map_bind]
      cases acceptMode index seen item with
      | error fault => rfl
      | ok accepted =>
          have name : (PlainMode.respelled places family position
            accepted).name = accepted.name := rfl
          rw [ok_bind, ok_bind, inductionHypothesis, map_bind, name]
          cases acceptModesFrom (index + 1) (accepted.name :: seen) rest with
          | error fault => rfl
          | ok others =>
              change Except.ok _ = Except.ok _
              rw [allRespelled_cons]

theorem acceptModes_respelled (value : Value) :
    acceptModes (respelledFamily places family value) =
      (acceptModes value).map fun found =>
        (Entries.changed "modes"
            (Value.relisted (respelledModes places family 0))
            (respelledSchedule places family none found.1),
          PlainMode.allRespelled places family 0 found.2) := by
  cases value with
  | map entries =>
      have listed : Entries.get? "modes" (Entries.changed "modes"
            (Value.relisted (respelledModes places family 0))
            (respelledSchedule places family none entries)) =
          (Entries.get? "modes" entries).map
            (Value.relisted (respelledModes places family 0)) := by
        rw [Entries.get?_changed, if_pos rfl,
          get?_respelledSchedule _ _ _ (by decide) (by decide)]
      have items : ((Entries.get? "modes" entries).map
            (Value.relisted (respelledModes places family 0))).bind
              Value.items? =
          ((Entries.get? "modes" entries).bind Value.items?).map
            (respelledModes places family 0) := by
        cases Entries.get? "modes" entries with
        | none => rfl
        | some value => cases value <;> rfl
      rw [respelledFamily, Value.mapped, acceptModes, acceptModes]
      dsimp only [Value.entries?]
      rw [listed, items]
      cases (Entries.get? "modes" entries).bind Value.items? with
      | none => rfl
      | some held =>
          cases held with
          | nil => rfl
          | cons first rest =>
              rw [Option.map_some, respelledModes_cons]
              dsimp only
              rw [← respelledModes_cons, acceptModesFrom_respelled, map_bind]
              cases acceptModesFrom 0 [] (first :: rest) <;> rfl
  | _ => rfl

/-- A check that every mode passes again is passed by all modes again. -/
theorem forM_allRespelled {fault : Type} (check : PlainMode → Except fault Unit)
    (same : ∀ number mode,
      check (PlainMode.respelled places family number mode) = check mode)
    (position : Nat) (modes : List PlainMode) :
    (PlainMode.allRespelled places family position modes).forM check =
      modes.forM check := by
  induction modes generalizing position with
  | nil => rfl
  | cons mode rest inductionHypothesis =>
      rw [allRespelled_cons]
      change (check _ >>= fun _ => List.forM _ check) =
        (check mode >>= fun _ => rest.forM check)
      rw [same, inductionHypothesis]

theorem forall₂_allRespelled (position : Nat) (modes : List PlainMode) :
    List.Forall₂ (fun mode other => mode.name = other.name ∧
      mode.flagged = other.flagged)
      (PlainMode.allRespelled places family position modes) modes := by
  induction modes generalizing position with
  | nil => exact .nil
  | cons mode rest inductionHypothesis =>
      rw [allRespelled_cons]
      exact .cons ⟨rfl, flagged_respelled places family position mode⟩
        (inductionHypothesis _)

theorem names_allRespelled (position : Nat) (modes : List PlainMode) :
    (PlainMode.allRespelled places family position modes).map PlainMode.name =
      modes.map PlainMode.name := by
  induction modes generalizing position with
  | nil => rfl
  | cons mode rest inductionHypothesis =>
      rw [allRespelled_cons, List.map_cons, List.map_cons,
        inductionHypothesis]
      rfl

theorem overrideNames_allRespelled (position : Nat) (modes : List PlainMode) :
    overrideNames (PlainMode.allRespelled places family position modes) =
      overrideNames modes :=
  Selection.map_overrides_eq
    (forall₂_allRespelled places family position modes)

end Modes

/-! ## Content -/

section Content

variable (places : Place → Bool) {family : Family}

theorem respelledTokens_of_not_referring (mode : Nat) (tokens : Entries)
    (plain : family ∉ referringFamilies) :
    respelledTokens places family mode tokens = tokens := by
  rw [respelledTokens, decide_eq_false plain, Bool.false_and,
    Entries.respelled, Bool.false_and, if_neg Bool.false_ne_true]

theorem acceptScheduleField_congr {entries others : Entries}
    (mode : Option String)
    (same : spelled "alphaSchedule" "alpha_schedule" others =
      spelled "alphaSchedule" "alpha_schedule" entries) :
    acceptScheduleField mode others = acceptScheduleField mode entries := by
  rw [acceptScheduleField, acceptScheduleField, either?_eq_spelled,
    either?_eq_spelled, same]

theorem acceptColorMode_respelled (number : Nat) (mode : PlainMode) :
    acceptColorMode (PlainMode.respelled places .color number mode) =
      acceptColorMode mode := by
  rw [acceptColorMode, acceptColorMode, PlainMode.respelled,
    respelledTokens_of_not_referring _ _ _ (by decide),
    acceptScheduleField_congr _
      (spelled_schedule_respelledMode places .color number mode.entries)]

/-- Both spellings of the spacing mode configure the references. -/
theorem acceptReferenceEntries_renamed (tokens : Entries) :
    acceptReferenceEntries
        (Entries.renamed "spacingMode" "spacing_mode" tokens) =
      acceptReferenceEntries tokens := by
  induction tokens with
  | nil => rfl
  | cons first rest inductionHypothesis =>
      obtain ⟨key, value⟩ := first
      rw [Entries.renamed, List.map_cons]
      change acceptReferenceEntries (_ ::
        Entries.renamed "spacingMode" "spacing_mode" rest) = _
      cases key with
      | str name =>
          by_cases renames : name = "spacingMode"
          · subst renames
            simp [Value.isText, acceptReferenceEntries, configurationKeys,
              inductionHypothesis]
          · simp only [Value.isText, renames, decide_false,
              Bool.false_eq_true, if_false, acceptReferenceEntries,
              inductionHypothesis]
      | _ => rfl

theorem acceptReferences_respelledTokens (spacing : List String)
    (number : Nat) (tokens : Entries) :
    acceptReferences spacing (respelledTokens places family number tokens) =
      acceptReferences spacing tokens := by
  have entries : acceptReferenceEntries
      (respelledTokens places family number tokens) =
        acceptReferenceEntries tokens := by
    rw [respelledTokens, Entries.respelled]
    split
    · exact acceptReferenceEntries_renamed tokens
    · rfl
  rw [acceptReferences, acceptReferences, acceptOptionalUnit,
    acceptOptionalUnit, acceptUnit, acceptUnit, Entries.given?,
    Entries.given?, acceptSpacingMode, acceptSpacingMode, either?_eq_spelled,
    either?_eq_spelled, get?_unit_respelledTokens,
    spelled_mode_respelledTokens, entries]

end Content

/-! ## Families -/

section Families

variable (places : Place → Bool)

theorem acceptFamily_respelled (family : Family)
    {check : Entries → Except ContentFault Unit}
    (same : ∀ number tokens,
      check (respelledTokens places family number tokens) = check tokens)
    (value : Value) :
    acceptFamily check (respelledFamily places family value) =
      (acceptFamily check value).map
        (PlainMode.allRespelled places family 0) := by
  rw [acceptFamily, acceptFamily, acceptModes_respelled, map_bind]
  have checks (modes : List PlainMode) :=
    forM_allRespelled places family (fun mode =>
      (check mode.tokens).mapError (FamilyFault.content mode.name))
      (fun number mode => congrArg
        (Except.mapError (FamilyFault.content mode.name))
        (same number mode.tokens)) 0 modes
  cases acceptModes value with
  | error fault => rfl
  | ok found =>
      rw [ok_bind, ok_bind]
      dsimp only
      rw [checks]
      cases found.2.forM fun mode : PlainMode =>
        (check mode.tokens).mapError (FamilyFault.content mode.name) <;> rfl

theorem acceptColorFamily_respelled (value : Value) :
    acceptColorFamily (respelledFamily places .color value) =
      (acceptColorFamily value).map
        (PlainMode.allRespelled places .color 0) := by
  rw [acceptColorFamily, acceptColorFamily, acceptModes_respelled, map_bind]
  cases acceptModes value with
  | error fault => rfl
  | ok found =>
      have schedule : spelled "alphaSchedule" "alpha_schedule"
          (Entries.changed "modes"
            (Value.relisted (respelledModes places .color 0))
            (respelledSchedule places .color none found.1)) =
          spelled "alphaSchedule" "alpha_schedule" found.1 := by
        rw [spelled_changed_of_ne _ (by decide) (by decide),
          spelled_respelledSchedule]
      rw [ok_bind, ok_bind]
      dsimp only
      rw [acceptScheduleField_congr none schedule,
        forM_allRespelled places .color _ (acceptColorMode_respelled places)]
      cases acceptScheduleField none found.1 with
      | error fault => rfl
      | ok passed => cases found.2.forM acceptColorMode <;> rfl

/-- A family with keys in their other spelling passes the same checks. -/
theorem acceptor_respelled (spacing : List String) (family : Family)
    (value : Value) :
    acceptor spacing family (respelledFamily places family value) =
      (acceptor spacing family value).map
        (PlainMode.allRespelled places family 0) := by
  have plain {family : Family} (unreferring : family ∉ referringFamilies)
      {check : Entries → Except ContentFault Unit} (number : Nat)
      (tokens : Entries) :
      check (respelledTokens places family number tokens) = check tokens := by
    rw [respelledTokens_of_not_referring places number tokens unreferring]
  cases family with
  | color => exact acceptColorFamily_respelled places value
  | gap | borderRadius =>
      exact acceptFamily_respelled places _
        (acceptReferences_respelledTokens places spacing) value
  | _ => exact acceptFamily_respelled places _ (plain (by decide)) value

theorem acceptGiven_respelled (spacing : List String) (family : Family)
    (given : Option Value) :
    acceptGiven family (acceptor spacing family)
        (given.map (respelledFamily places family)) =
      (acceptGiven family (acceptor spacing family) given).map
        (PlainMode.allRespelled places family 0) := by
  cases given with
  | none => rfl
  | some value =>
      rw [Option.map_some, acceptGiven, acceptGiven, acceptor_respelled]
      cases acceptor spacing family value <;> rfl

end Families

/-! ## Configurations -/

section Configurations

variable (places : Place → Bool)

theorem isNull_respelledFamily (family : Family) (value : Value) :
    (respelledFamily places family value).isNull = value.isNull :=
  Value.isNull_mapped _ value

theorem needSpacing_map (family : Family) (change changeSpacing : Value → Value)
    (spacing given : Option Value) :
    needSpacing family (spacing.map changeSpacing) (given.map change) =
      needSpacing family spacing given := by
  cases spacing <;> cases given <;> rfl

theorem borderEntries_changedFamilies {change : Family → Value → Value}
    (nulls : ∀ family value, (change family value).isNull = value.isNull)
    (config : Entries) :
    borderEntries (changedFamilies change config) =
      (borderEntries config).map fun border =>
        Entries.changed "width" (change .borderWidth)
          (Entries.changed "radius" (change .borderRadius) border) := by
  rw [borderEntries, borderEntries, given?_border_changedFamilies nulls]
  cases Entries.given? "border" config with
  | none => rfl
  | some value => cases value <;> rfl

theorem acceptOverrides_respelled (taken : List String) (family : Family)
    (modes : List PlainMode) :
    acceptOverrides taken family
        (PlainMode.allRespelled places family 0 modes) =
      acceptOverrides taken family modes := by
  rw [acceptOverrides, overrideNames_allRespelled, acceptOverrides]

theorem acceptFamilies_respelled (given : Family → Option Value) :
    acceptFamilies (fun family =>
        (given family).map (respelledFamily places family)) =
      acceptFamilies given := by
  simp only [acceptFamilies, needSpacing_map, acceptGiven_respelled, map_bind,
    names_allRespelled, overrideNames_allRespelled, acceptOverrides_respelled]

theorem acceptEntries_respelled (config : Entries) :
    acceptEntries (changedFamilies (respelledFamily places) config) =
      acceptEntries config := by
  have nulls := isNull_respelledFamily places
  have someFamily : (familyFields.any fun name => (Entries.given? name
      (changedFamilies (respelledFamily places) config)).isSome) =
      familyFields.any fun name => (Entries.given? name config).isSome := by
    rw [Bool.eq_iff_iff, List.any_eq_true, List.any_eq_true]
    exact exists_congr fun field => and_congr_right fun listed => by
      rw [isSome_given?_changedFamilies nulls config listed]
  have values : familyValue (changedFamilies (respelledFamily places) config) =
      fun family => (familyValue config family).map
        (respelledFamily places family) :=
    funext (familyValue_changedFamilies nulls config)
  rw [acceptEntries_eq, acceptEntries_eq, someFamily,
    borderEntries_changedFamilies nulls, map_bind, values,
    acceptFamilies_respelled]

/-- A configuration with keys in their other spelling is accepted, or has a
fault, as it was. -/
theorem accept_respelled (config : Value) :
    accept (respelled places config) = accept config := by
  cases config with
  | map entries => exact acceptEntries_respelled places entries
  | _ => rfl

end Configurations

end Acceptance

end DesignTokens
