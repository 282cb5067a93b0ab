import DesignTokens.Proofs.Number.Overflow
import DesignTokens.Proofs.Success
import DesignTokens.Proofs.System.Modes
import DesignTokens.Proofs.System.References
import DesignTokens.Proofs.System.Scalar
import DesignTokens.Proofs.System.Writing

/-!
# Written design systems are accepted

A design system that was read from an accepted configuration is accepted once
it is written again. Names and flags stay, whole numbers become doubles of the
same sign, and references stay as they are where only one spelling of the
spacing mode is used.
-/

namespace DesignTokens

open Acceptance (PlainMode)
open DesignTokens.Number
open Grammar Schema Schema.Checked

/-! ## Numbers -/

/-- A kind of numbers that is not left when whole numbers are rounded to
doubles. -/
def KeptByRounding (kind : ℚ → Prop) : Prop :=
  ∀ (n : Int) (x : Float) (q : ℚ), kind n → floatOfInt? n = some x →
    exactValue? x = some q → kind q

theorem keptByRounding_all : KeptByRounding fun _ => True :=
  fun _ _ _ _ _ _ => trivial

theorem keptByRounding_pos : KeptByRounding (0 < ·) := by
  intro n x q positive nearest exact
  exact exactValue_pos_of_floatOfInt? (Int.cast_pos.1 positive) nearest exact

theorem keptByRounding_nonneg : KeptByRounding (0 ≤ ·) := by
  intro n x q nonnegative nearest exact
  exact exactValue_nonneg_of_floatOfInt? (Int.cast_nonneg_iff.1 nonnegative)
    nearest exact

/-- Zero and one are doubles themselves. -/
theorem keptByRounding_unit :
    KeptByRounding fun q => 0 ≤ q ∧ q ≤ 1 := by
  rintro n x q ⟨least, most⟩ nearest exact
  have bounds : 0 ≤ n ∧ n ≤ 1 := by exact_mod_cast And.intro least most
  have ends : n = 0 ∨ n = 1 := by omega
  rcases ends with rfl | rfl
  · have zero : floatOfInt? 0 = some 0 := by decide +kernel
    rw [zero] at nearest
    rw [← Option.some.inj nearest, exactValue?_zero] at exact
    rw [← Option.some.inj exact]
    norm_num
  · have one : floatOfInt? 1 = some 1 := by decide +kernel
    rw [one] at nearest
    rw [← Option.some.inj nearest, exactValue?_one] at exact
    rw [← Option.some.inj exact]
    norm_num

theorem isNumber_of_real {kind : ℚ → Prop} (kept : KeptByRounding kind)
    {value : Value} {x : Float} (number : IsNumber kind value)
    (read : real value = .accepted x) : IsNumber kind (.float x) := by
  obtain ⟨q, denotes, isKind⟩ := number
  rcases denotes_cases denotes with ⟨n, rfl, fits, rfl⟩ | ⟨y, rfl, exact⟩
  · cases nearest : floatOfInt? n with
    | none => simp [real, decoded, nearest, issue] at read
    | some y =>
        have same : y = x := by simpa [real, decoded, nearest] using read
        subst same
        obtain ⟨q, exact⟩ :=
          (isFinite_iff_exact y).1 (isFinite_of_floatOfInt? nearest)
        exact ⟨q, exact, kept n y q isKind nearest exact⟩
  · cases read
    exact ⟨q, exact, isKind⟩

theorem isStepCount_of_whole {value : Value} {n : Int}
    (count : IsStepCount value) (read : whole value = .accepted n) :
    IsStepCount (.int n) := by
  obtain ⟨m, denotes, positive⟩ := count
  have fits := whole_lt_limit denotes read
  have same : m = n := by
    rcases whole_of_isStepCount denotes positive with
      ⟨accepted, _⟩ | ⟨failed, _⟩
    · rw [read] at accepted
      exact (Checked.accepted.inj accepted).symm
    · exact absurd ⟨n, read⟩ failed
  refine ⟨n, ?_, same ▸ positive⟩
  rw [Denotes, Value.numeral?, Option.bind_some, Numeral.value?, if_pos fits]

theorem isName_of_text {value : Value} {held : String}
    (name : IsName value) (read : text value = .accepted held) :
    IsName (.str held) := by
  obtain ⟨given, rfl, named⟩ := name
  cases read
  exact ⟨held, rfl, named⟩

/-! ## Fields -/

section Fields

variable {alpha : Type} {read : Reader alpha} {good : Value → Prop}
  {write : alpha → Value} {tokens : Entries}

/-- A field that held what it should is written as what it should be. -/
theorem good_of_field {field : String} {result : alpha}
    (held : Holds field good tokens)
    (accepted : Schema.field field field read tokens = .accepted result)
    (each : ∀ value, good value → read value = .accepted result →
      good (write result)) : good (write result) := by
  obtain ⟨value, found, isGood⟩ := held
  obtain ⟨again, same, accepted⟩ := field_eq_accepted.1 accepted
  rw [spelled_self, found] at same
  cases same
  exact each value isGood accepted

/-- So is a part that may be absent. -/
theorem optionally_of_fieldOr {name alternative : String}
    {part : Option alpha}
    (optional : Optionally good (spelled name alternative tokens))
    (accepted : fieldOr name alternative none (nullable read) tokens =
      .accepted part)
    (each : ∀ value result, good value → read value = .accepted result →
      good (write result)) : Optionally good (part.map write) := by
  intro written found
  obtain ⟨result, rfl, rfl⟩ := Option.map_eq_some_iff.1 found
  rcases fieldOr_eq_accepted.1 accepted with
    ⟨_, absent⟩ | ⟨value, given, accepted⟩
  · cases absent
  · rcases optional value given with rfl | isGood
    · cases accepted
    · by_cases null : value = .null
      · subst null
        cases accepted
      · obtain ⟨held, accepted, same⟩ := (nullable_eq_accepted null).1 accepted
        cases same
        exact .inr (each value result isGood accepted)

end Fields

/-! ## Scales and widths -/

section Scales

variable {tokens written : Entries}

theorem unit_written {unit : String} (held : Holds "unit" IsName tokens)
    (read : Schema.field "unit" "unit" text tokens = .accepted unit)
    (found : Entries.get? "unit" written = some (.str unit)) :
    Holds "unit" IsName written :=
  ⟨_, found, good_of_field held read fun _ => isName_of_text⟩

theorem number_written {kind : ℚ → Prop} (kept : KeptByRounding kind)
    {field : String} {x : Float} (held : Holds field (IsNumber kind) tokens)
    (read : Schema.field field field real tokens = .accepted x)
    (found : Entries.get? field written = some (.float x)) :
    Holds field (IsNumber kind) written :=
  ⟨_, found, good_of_field held read fun _ => isNumber_of_real kept⟩

theorem count_written {count : Int} (held : Holds "range" IsStepCount tokens)
    (read : Schema.field "range" "range" whole tokens = .accepted count)
    (found : Entries.get? "range" written = some (.int count)) :
    Holds "range" IsStepCount written :=
  ⟨_, found, good_of_field held read fun _ => isStepCount_of_whole⟩

theorem isScale_written {base : ℚ → Prop} (kept : KeptByRounding base)
    {scale : Scale} (isScale : IsScale base tokens)
    (read : Scale.read (.map tokens) = .accepted scale)
    (fields : [Value.entry "tokens" (.map written)] = scale.toEntries) :
    IsScale base written := by
  obtain ⟨_, count, upToLeast, countRead, rfl⟩ := seq_eq_accepted.1 read
  obtain ⟨_, least, upToBase, leastRead, rfl⟩ := seq_eq_accepted.1 upToLeast
  obtain ⟨_, size, upToUnit, sizeRead, rfl⟩ := seq_eq_accepted.1 upToBase
  obtain ⟨unit, unitRead, rfl⟩ := map_eq_accepted.1 upToUnit
  cases fields
  exact ⟨unit_written isScale.unit unitRead (by simp),
    number_written kept isScale.base sizeRead (by simp),
    number_written keptByRounding_nonneg isScale.least leastRead (by simp),
    count_written isScale.count countRead (by simp)⟩

theorem isTypeScale_written {scale : TypeScale}
    (isScale : IsTypeScale tokens)
    (read : TypeScale.read (.map tokens) = .accepted scale)
    (fields : [Value.entry "tokens" (.map written)] = scale.toEntries) :
    IsTypeScale written := by
  obtain ⟨_, count, upToIncrement, countRead, rfl⟩ := seq_eq_accepted.1 read
  obtain ⟨_, increment, upToLeast, incrementRead, rfl⟩ :=
    seq_eq_accepted.1 upToIncrement
  obtain ⟨_, least, upToBase, leastRead, rfl⟩ := seq_eq_accepted.1 upToLeast
  obtain ⟨_, size, upToUnit, sizeRead, rfl⟩ := seq_eq_accepted.1 upToBase
  obtain ⟨unit, unitRead, rfl⟩ := map_eq_accepted.1 upToUnit
  cases fields
  exact ⟨⟨unit_written isScale.unit unitRead (by simp),
      number_written keptByRounding_pos isScale.base sizeRead (by simp),
      number_written keptByRounding_nonneg isScale.least leastRead (by simp),
      count_written isScale.count countRead (by simp)⟩,
    number_written keptByRounding_all isScale.increment incrementRead
      (by simp)⟩

theorem isWidth_written {width : Width} (isWidth : IsWidth tokens)
    (read : Width.read (.map tokens) = .accepted width)
    (fields : [Value.entry "tokens" (.map written)] = width.toEntries) :
    IsWidth written := by
  obtain ⟨_, size, upToUnit, sizeRead, rfl⟩ := seq_eq_accepted.1 read
  obtain ⟨unit, unitRead, rfl⟩ := map_eq_accepted.1 upToUnit
  cases fields
  exact ⟨unit_written isWidth.unit unitRead (by simp),
    number_written keptByRounding_nonneg isWidth.size sizeRead (by simp)⟩

end Scales

/-! ## References -/

section References

variable {spacing : List String} {tokens written : Entries}
  {references : References}

theorem eq_str_of_mem_entryOf {alpha : Type} {name : String}
    {write : alpha → Value} {part : Option alpha} {entry : Value × Value}
    (member : entry ∈ Value.entryOf name write part) :
    entry.1 = .str name := by
  cases part with
  | none => cases member
  | some held => rw [List.mem_singleton.1 member, Value.entry]

/-- What is read as an entry is none of the fields that configure
references. -/
theorem not_configures_of_readEntries {entries : Record Value}
    (once : SpelledOnce tokens)
    (read : References.readEntries (References.modeSpelling tokens) tokens =
      .accepted entries) {entry : String × Value}
    (member : entry ∈ entries) :
    entry.1 ∉ Acceptance.configurationKeys := by
  have listed : (Value.str entry.1, entry.2) ∈
      tokens.omitting Acceptance.configurationKeys := by
    rw [omitting_configurationKeys_iff.2 once, omitting_of_readEntries read]
    exact List.mem_map_of_mem member
  intro configures
  exact (mem_omitting_iff.1 listed).2 entry.1 configures rfl

theorem entries_of_isReferences (isReferences : IsReferences spacing tokens)
    (once : SpelledOnce tokens)
    (read : References.read (.map tokens) = .accepted references) :
    ∀ entry ∈ references.entries, entry.1 ≠ "" ∧
      entry.1 ∉ Acceptance.configurationKeys ∧ IsReference entry.2 := by
  have parts := References.parts_of_read read
  intro entry member
  have kept := not_configures_of_readEntries once parts.entries member
  have inside := (sublist_of_readEntries parts.entries).subset
    (List.mem_map_of_mem member)
  obtain ⟨name, key, nonempty, good⟩ := isReferences.entries _ inside
  cases key
  exact ⟨nonempty, kept, good.resolve_left kept⟩

theorem isWritable_of_read (isReferences : IsReferences spacing tokens)
    (once : SpelledOnce tokens)
    (read : References.read (.map tokens) = .accepted references) :
    references.IsWritable := by
  have each := entries_of_isReferences isReferences once read
  exact ⟨fun entry member => (each entry member).2.1,
    fun entry member => (each entry member).2.2⟩

theorem isReferences_written (isReferences : IsReferences spacing tokens)
    (once : SpelledOnce tokens)
    (read : References.read (.map tokens) = .accepted references)
    (fields : [Value.entry "tokens" (.map written)] = references.toEntries) :
    IsReferences spacing written := by
  have writable := isWritable_of_read isReferences once read
  have each := entries_of_isReferences isReferences once read
  have noUnit := writable.get?_entries (show "unit" ∈ _ by decide)
  have noFirst := writable.get?_entries (show "spacingMode" ∈ _ by decide)
  have noSecond := writable.get?_entries (show "spacing_mode" ∈ _ by decide)
  have parts := References.parts_of_read read
  cases fields
  refine ⟨?_, ?_, ?_⟩
  · have optional := optionally_of_fieldOr
      ((spelled_self "unit" tokens).symm ▸ isReferences.unit) parts.unit
      fun _ _ => isName_of_text
    simpa [noUnit] using optional
  · have optional : Optionally (fun value => ∃ name ∈ spacing,
        value = .str name) (references.spacingMode.map .str) := by
      intro value found
      obtain ⟨name, held, rfl⟩ := Option.map_eq_some_iff.1 found
      exact .inr ⟨name, References.spacingMode_mem isReferences read held, rfl⟩
    simpa [spelled, noFirst, noSecond] using optional
  · intro entry member
    rcases List.mem_append.1 member with before | isReference
    · rcases List.mem_append.1 before with isUnit | isMode
      · rw [eq_str_of_mem_entryOf isUnit]
        exact ⟨"unit", rfl, by decide, .inl (by decide)⟩
      · rw [eq_str_of_mem_entryOf isMode]
        exact ⟨"spacingMode", rfl, by decide, .inl (by decide)⟩
    · rw [referenceEntries_eq writable.values] at isReference
      obtain ⟨held, listed, rfl⟩ := List.mem_map.1 isReference
      obtain ⟨nonempty, _, good⟩ := each held listed
      exact ⟨held.1, rfl, nonempty, .inr good⟩

end References

/-! ## Colours -/

theorem isName_of_readKey {key : Value} {name : String}
    (named : IsName key) (read : readKey key = .accepted name) :
    IsName (.str name) := by
  rw [readKey, within_eq_accepted, within_eq_accepted] at read
  exact isName_of_text named read

theorem isSchedule_written {value : Value} {schedule : AlphaSchedule}
    (isSchedule : IsSchedule value)
    (read : recordOf real value = .accepted schedule) :
    IsSchedule schedule.toValue := by
  obtain ⟨levels, rfl, nonempty, each⟩ := isSchedule
  have pairs := readEntries_eq_accepted.1 read
  refine ⟨_, rfl, ?_, ?_⟩
  · rintro none
    rw [List.map_eq_nil_iff] at none
    subst none
    cases pairs
    exact nonempty rfl
  · intro entry member
    obtain ⟨level, listed, rfl⟩ := List.mem_map.1 member
    obtain ⟨given, inside, key, opacity⟩ :=
      Success.exists_left_of_mem pairs listed
    obtain ⟨named, within⟩ := each given inside
    exact ⟨isName_of_readKey named key,
      isNumber_of_real keptByRounding_unit within opacity⟩

theorem hasSchedule_written {entries written : Entries}
    {schedule : Option AlphaSchedule} (hasSchedule : HasSchedule entries)
    (read : readSchedule entries = .accepted schedule)
    (found : spelled "alphaSchedule" "alpha_schedule" written =
      schedule.map AlphaSchedule.toValue) : HasSchedule written := by
  rw [HasSchedule, found]
  exact optionally_of_fieldOr hasSchedule read fun _ _ => isSchedule_written

theorem isChannels_written {channels written : Entries} {color : Oklch}
    (isChannels : IsChannels channels)
    (read : Oklch.readEntries channels = .accepted color)
    (fields : .map written = color.toValue) : IsChannels written := by
  obtain ⟨_, hue, upToChroma, hueRead, rfl⟩ := seq_eq_accepted.1 read
  obtain ⟨_, chroma, upToLightness, chromaRead, rfl⟩ :=
    seq_eq_accepted.1 upToChroma
  obtain ⟨_, lightness, upToSpace, lightnessRead, rfl⟩ :=
    seq_eq_accepted.1 upToLightness
  obtain ⟨_, _, rfl⟩ := map_eq_accepted.1 upToSpace
  cases fields
  refine ⟨?_, number_written keptByRounding_all isChannels.lightness
    lightnessRead (by simp), number_written keptByRounding_all
    isChannels.chroma chromaRead (by simp), ?_⟩
  · intro value found
    simpa using found.symm
  · have optional := optionally_of_fieldOr
      ((spelled_self "h" channels).symm ▸ isChannels.hue) hueRead
      fun _ _ => isNumber_of_real keptByRounding_all
    simpa using optional

theorem isColor_written {value : Value} {color : Option Oklch}
    (isColor : IsColor value) (plain : ∀ built, value ≠ .color built)
    (read : nullable Oklch.read value = .accepted color) :
    IsColor (Palette.colorValue color) := by
  cases isColor with
  | null =>
      cases read
      exact .null
  | built held => exact absurd rfl (plain held)
  | channels isChannels =>
      obtain ⟨held, accepted, rfl⟩ := map_eq_accepted.1 read
      exact .channels (isChannels_written isChannels accepted rfl)

theorem palette_parts {entries : Entries} {palette : Palette}
    (read : Palette.read entries = .accepted palette) :
    fieldOr "tokens" "tokens" [] (recordOf (nullable Oklch.read)) entries =
        .accepted palette.colors ∧
      readSchedule entries = .accepted palette.alphaSchedule := by
  obtain ⟨_, schedule, first, scheduleRead, rfl⟩ := seq_eq_accepted.1 read
  obtain ⟨colors, colorsRead, rfl⟩ := map_eq_accepted.1 first
  exact ⟨colorsRead, scheduleRead⟩

theorem colors_written {spacing : List String} {mode : PlainMode}
    {palette : Palette} {item : Value} (isMode : IsMode item mode)
    (content : Content spacing .color mode)
    (plain : ∀ entry ∈ mode.tokens, ∀ built, entry.2 ≠ .color built)
    (read : Palette.read mode.entries = .accepted palette) :
    ∀ entry ∈ palette.colors,
      IsName (.str entry.1) ∧ IsColor (Palette.colorValue entry.2) := by
  rcases fieldOr_eq_accepted.1 (palette_parts read).1 with
    ⟨absent, _⟩ | ⟨value, found, accepted⟩
  · rw [spelled_self, isMode.tokens] at absent
    cases absent
  · rw [spelled_self, isMode.tokens] at found
    cases found
    intro entry member
    obtain ⟨given, inside, key, color⟩ :=
      Success.exists_left_of_mem (readEntries_eq_accepted.1 accepted) member
    obtain ⟨named, isColor⟩ := content.1 given inside
    exact ⟨isName_of_readKey named key,
      isColor_written isColor (plain given inside) color⟩

/-! ## Modes -/

section Modes

variable {alpha : Type} {readContent : Entries → Checked alpha}
  {write : alpha → Entries} {spacing : List String} {family : Family}

/-- A written mode as a plain one. -/
def Mode.plain (write : alpha → Entries) (tokens : Entries)
    (mode : Mode alpha) : PlainMode :=
  ⟨mode.name, mode.fields write, tokens⟩

/-- A mode of a family that stands for a plain one: it is well formed, under
the same name and with the same flag. -/
structure StandsFor (spacing : List String) (family : Family)
    (item : Value) (mode other : PlainMode) : Prop where
  isMode : IsMode item other
  name : mode.name = other.name
  flag : mode.flagged = other.flagged
  content : Content spacing family other

theorem flagged_plain {tokens : Entries} {mode : Mode alpha}
    (flagless : spelled "isDefault" "is_default" (write mode.content) =
      none) :
    (mode.plain write tokens).flagged = Modes.flagged mode := by
  rw [PlainMode.flagged, Acceptance.flagValue_eq_spelled, Mode.plain,
    spelled_flag_fields flagless, Modes.flagged]
  cases mode.isDefault with
  | none => rfl
  | some held => cases held <;> rfl

theorem standsFor_written {item : Value} {mode : PlainMode}
    {typed : Mode alpha} {tokens : Entries} (isMode : IsMode item mode)
    (isTyped : Typed readContent mode typed)
    (flagless : spelled "isDefault" "is_default" (write typed.content) =
      none)
    (found : Entries.get? "tokens" (write typed.content) =
      some (.map tokens))
    (content : Content spacing family (typed.plain write tokens)) :
    StandsFor spacing family (typed.toValue write) mode
      (typed.plain write tokens) := by
  refine ⟨⟨rfl, ?_, ?_, ?_, ?_⟩, isTyped.name.symm, ?_, content⟩
  · simp [Mode.plain, Mode.fields]
  · rw [Mode.plain, isTyped.name]
    exact isMode.named
  · rw [Mode.plain, spelled_flag_fields flagless]
    intro value given
    obtain ⟨held, _, rfl⟩ := Option.map_eq_some_iff.1 given
    exact .inr ⟨held, rfl⟩
  · simp [Mode.plain, Mode.fields, found]
  · rw [flagged_plain flagless, isTyped.flag]

theorem standsFor_palette {item : Value} {mode : PlainMode}
    {typed : Mode Palette} (isMode : IsMode item mode)
    (content : Content spacing .color mode)
    (plain : ∀ entry ∈ mode.tokens, ∀ built, entry.2 ≠ .color built)
    (isTyped : Typed Palette.read mode typed) :
    ∃ other, StandsFor spacing .color (typed.toValue Palette.toEntries)
      mode other := by
  have colors := colors_written isMode content plain isTyped.content
  have schedule := (palette_parts isTyped.content).2
  refine ⟨_, standsFor_written isMode isTyped
    (by simp [spelled, Palette.toEntries]) rfl ⟨?_, ?_⟩⟩
  · intro entry member
    obtain ⟨held, listed, rfl⟩ := List.mem_map.1 member
    exact colors held listed
  · apply hasSchedule_written content.2 schedule
    simp [spelled, Mode.plain, Mode.fields, Palette.toEntries]

/-- A mode whose content is its tokens stands for the one it is read from,
where its tokens do. -/
theorem standsFor_tokens {read : Reader alpha} {item : Value}
    {mode : PlainMode} {typed : Mode alpha} {tokens : Entries}
    (isMode : IsMode item mode)
    (isTyped : Typed (readTokens read) mode typed)
    (fields : [Value.entry "tokens" (.map tokens)] = write typed.content)
    (content : Content spacing family (typed.plain write tokens)) :
    ∃ other, StandsFor spacing family (typed.toValue write) mode other := by
  refine ⟨_, standsFor_written isMode isTyped ?_ ?_ content⟩
  · rw [← fields]
    simp [spelled]
  · rw [← fields]
    simp

end Modes

end DesignTokens
