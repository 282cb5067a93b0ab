import DesignTokens.Proofs.Record
import DesignTokens.Proofs.Schema.Reading
import DesignTokens.Token.Wire

/-!
# Reading what was written

A field that was written is found under its name again, and a part that is
absent leaves no field behind. So a mapping is read back field by field.
-/

namespace DesignTokens

open Grammar Schema Schema.Checked

/-! ## Finding written fields -/

namespace Entries

@[simp]
theorem get?_nil (key : String) : get? key [] = none := rfl

@[simp]
theorem get?_entry (key name : String) (value : Value) (rest : Entries) :
    get? key (Value.entry name value :: rest) =
      if name = key then some value else get? key rest := rfl

@[simp]
theorem get?_append (key : String) (first second : Entries) :
    get? key (first ++ second) = (get? key first).or (get? key second) := by
  induction first with
  | nil => rfl
  | cons entry rest inductionHypothesis =>
      obtain ⟨known, value⟩ := entry
      cases known with
      | str name =>
          rw [List.cons_append, get?, get?]
          by_cases same : name = key
          · rw [if_pos same, if_pos same, Option.some_or]
          · rw [if_neg same, if_neg same, inductionHypothesis]
      | _ => exact inductionHypothesis

@[simp]
theorem get?_entryOf {alpha : Type} (key name : String)
    (write : alpha → Value) (part : Option alpha) :
    get? key (Value.entryOf name write part) =
      if name = key then part.map write else none := by
  cases part with
  | none => simp [Value.entryOf]
  | some held => simp [Value.entryOf]

end Entries

namespace Schema

/-! ## Reading fields -/

theorem text_str (held : String) : text (.str held) = .accepted held := rfl

theorem nullable_text_str (held : String) :
    nullable text (.str held) = .accepted (some held) := rfl

theorem nullable_flag_bool (held : Bool) :
    nullable flag (.bool held) = .accepted (some held) := rfl

section Fields

variable {alpha : Type} {name alternative : String} {entries : Entries}
  {read : Reader alpha}

theorem field_eq_of_spelled {value : Value} {result : alpha}
    (found : spelled name alternative entries = some value)
    (accepted : read value = .accepted result) :
    field name alternative read entries = .accepted result :=
  field_eq_accepted.2 ⟨value, found, accepted⟩

theorem fieldOr_eq_of_spelled {fallback : alpha} {value : Value}
    {result : alpha}
    (found : spelled name alternative entries = some value)
    (accepted : read value = .accepted result) :
    fieldOr name alternative fallback read entries = .accepted result :=
  fieldOr_eq_accepted.2 (.inr ⟨value, found, accepted⟩)

/-- A part that may be absent is read back from its field. -/
theorem fieldOr_eq_of_part {beta : Type} {write : beta → Value}
    {part : Option beta} {back : beta → Option alpha}
    (found : spelled name alternative entries = part.map write)
    (each : ∀ held, part = some held →
      nullable read (write held) = .accepted (back held)) :
    fieldOr name alternative none (nullable read) entries =
      .accepted (part.bind back) := by
  cases part with
  | none => exact fieldOr_eq_accepted.2 (.inl ⟨found, rfl⟩)
  | some held => exact fieldOr_eq_of_spelled found (each held rfl)

/-- A part that may be absent is read back, changed by `back`. -/
theorem fieldOr_eq_of_map {beta : Type} {write : beta → Value}
    {part : Option beta} {back : beta → alpha}
    (found : spelled name alternative entries = part.map write)
    (each : ∀ held, part = some held →
      nullable read (write held) = .accepted (some (back held))) :
    fieldOr name alternative none (nullable read) entries =
      .accepted (part.map back) := by
  have accepted := fieldOr_eq_of_part found each
  cases part with
  | none => exact accepted
  | some held => exact accepted

theorem fieldOr_eq_of_written {write : alpha → Value} {part : Option alpha}
    (found : spelled name alternative entries = part.map write)
    (each : ∀ held, nullable read (write held) = .accepted (some held)) :
    fieldOr name alternative none (nullable read) entries =
      .accepted part := by
  have accepted := fieldOr_eq_of_part found fun held _ => each held
  rwa [Option.bind_fun_some] at accepted

/-- A mapping is not null. -/
theorem nullable_of_map {result : alpha}
    (accepted : read (.map entries) = .accepted result) :
    nullable read (.map entries) = .accepted (some result) :=
  map_eq_accepted.2 ⟨result, accepted, rfl⟩

end Fields

/-! ## Lists and records -/

section Collections

variable {alpha beta : Type} {read : Reader beta} {write : alpha → Value}
  {back : alpha → beta}

theorem listOf_map {items : List alpha}
    (each : ∀ item ∈ items, read (write item) = .accepted (back item)) :
    listOf read (.list (items.map write)) = .accepted (items.map back) := by
  apply readItems_eq_accepted.2
  rw [List.forall₂_map_left_iff, List.forall₂_map_right_iff,
    List.forall₂_same]
  exact each

theorem recordOf_toValue {record : Record alpha}
    (each : ∀ entry ∈ record, read (write entry.2) =
      .accepted (back entry.2)) :
    recordOf read (Record.toValue write record) =
      .accepted (Record.mapValues back record) := by
  rw [Record.toValue, recordOf]
  induction record with
  | nil => rfl
  | cons first rest inductionHypothesis =>
      obtain ⟨here, later⟩ := List.forall_mem_cons.1 each
      rw [List.map_cons, Value.entry, readEntries, here,
        inductionHypothesis later]
      rfl

/-- A record is read back as it was where each of its values is. -/
theorem recordOf_toValue_self {read : Reader alpha} {record : Record alpha}
    (each : ∀ entry ∈ record, read (write entry.2) = .accepted entry.2) :
    recordOf read (Record.toValue write record) = .accepted record := by
  have accepted : recordOf read (Record.toValue write record) =
      .accepted (Record.mapValues (fun value => value) record) :=
    recordOf_toValue each
  have same : Record.mapValues (fun value => value) record = record :=
    Record.mapValues_eq_self_iff.2 fun _ _ => rfl
  rwa [same] at accepted

theorem listOf_map_self {read : Reader alpha} {items : List alpha}
    (each : ∀ item ∈ items, read (write item) = .accepted item) :
    listOf read (.list (items.map write)) = .accepted items := by
  have accepted : listOf read (.list (items.map write)) =
      .accepted (items.map fun item => item) :=
    listOf_map each
  rwa [List.map_id'] at accepted

end Collections

end Schema

end DesignTokens
