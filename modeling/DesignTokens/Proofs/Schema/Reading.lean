import DesignTokens.Proofs.Acceptance.Grammar
import DesignTokens.Schema.Field

/-!
# When typed readings succeed

A combined reading succeeds where all of its parts do, and its result is made
of theirs.
-/

namespace DesignTokens.Schema

open DesignTokens.Grammar

variable {alpha beta : Type}

/-! ## Results -/

namespace Checked

/-- A reading that has a result. -/
def Succeeds (checked : Checked alpha) : Prop :=
  ∃ result, checked = .accepted result

theorem map_eq_accepted {f : alpha → beta} {checked : Checked alpha}
    {result : beta} :
    f <$> checked = .accepted result ↔
      ∃ value, checked = .accepted value ∧ f value = result := by
  cases checked with
  | accepted value =>
      exact ⟨fun equal => ⟨value, rfl, Checked.accepted.inj equal⟩,
        fun ⟨_, same, equal⟩ => by cases same; cases equal; rfl⟩
  | refused issues => exact iff_of_false nofun nofun

theorem seq_eq_accepted {combined : Checked (alpha → beta)}
    {checked : Checked alpha} {result : beta} :
    combined <*> checked = .accepted result ↔
      ∃ f value, combined = .accepted f ∧ checked = .accepted value ∧
        f value = result := by
  cases combined with
  | accepted f =>
      cases checked with
      | accepted value =>
          exact ⟨fun equal => ⟨f, value, rfl, rfl,
              Checked.accepted.inj equal⟩,
            fun ⟨_, _, sameF, same, equal⟩ => by
              cases sameF; cases same; cases equal; rfl⟩
      | refused issues => exact iff_of_false nofun nofun
  | refused issues =>
      refine iff_of_false ?_ nofun
      cases checked <;> nofun

@[simp]
theorem within_eq_accepted {step : Step} {checked : Checked alpha}
    {result : alpha} :
    checked.within step = .accepted result ↔
      checked = .accepted result := by
  cases checked <;> simp [within]

theorem toExcept_eq_ok {checked : Checked alpha} {result : alpha} :
    checked.toExcept = .ok result ↔ checked = .accepted result := by
  cases checked <;> simp [toExcept]

@[simp]
theorem succeeds_accepted (result : alpha) :
    (Checked.accepted result).Succeeds :=
  ⟨result, rfl⟩

@[simp]
theorem not_succeeds_issue (kind : IssueKind) :
    ¬ (issue kind : Checked alpha).Succeeds :=
  nofun

@[simp]
theorem succeeds_map {f : alpha → beta} {checked : Checked alpha} :
    (f <$> checked).Succeeds ↔ checked.Succeeds := by
  simp [Succeeds, map_eq_accepted]

@[simp]
theorem succeeds_seq {combined : Checked (alpha → beta)}
    {checked : Checked alpha} :
    (combined <*> checked).Succeeds ↔
      combined.Succeeds ∧ checked.Succeeds := by
  simp only [Succeeds, seq_eq_accepted]
  constructor
  · rintro ⟨_, f, value, first, second, _⟩
    exact ⟨⟨f, first⟩, value, second⟩
  · rintro ⟨⟨f, first⟩, value, second⟩
    exact ⟨_, f, value, first, second, rfl⟩

@[simp]
theorem succeeds_within {step : Step} {checked : Checked alpha} :
    (checked.within step).Succeeds ↔ checked.Succeeds := by
  simp [Succeeds]

end Checked

open Checked

/-! ## Fields -/

theorem spelled?_cases (name alternative : String) (entries : Entries) :
    (Entries.spelled? name alternative entries = none ∧
        spelled name alternative entries = none) ∨
      ∃ spelling value,
        Entries.spelled? name alternative entries = some (spelling, value) ∧
          spelled name alternative entries = some value := by
  rw [Entries.spelled?, spelled]
  cases Entries.get? name entries with
  | some value => exact .inr ⟨name, value, rfl, rfl⟩
  | none =>
      cases Entries.get? alternative entries with
      | some value => exact .inr ⟨alternative, value, rfl, rfl⟩
      | none => exact .inl ⟨rfl, rfl⟩

theorem fieldOr_eq_accepted {name alternative : String} {fallback : alpha}
    {read : Reader alpha} {entries : Entries} {result : alpha} :
    fieldOr name alternative fallback read entries = .accepted result ↔
      (spelled name alternative entries = none ∧ fallback = result) ∨
        ∃ value, spelled name alternative entries = some value ∧
          read value = .accepted result := by
  rw [fieldOr]
  rcases spelled?_cases name alternative entries with
    ⟨absent, missing⟩ | ⟨spelling, value, present, found⟩
  · simp [absent, missing]
  · simp [present, found]

theorem field_eq_accepted {name alternative : String}
    {read : Reader alpha} {entries : Entries} {result : alpha} :
    field name alternative read entries = .accepted result ↔
      ∃ value, spelled name alternative entries = some value ∧
        read value = .accepted result := by
  rw [field]
  rcases spelled?_cases name alternative entries with
    ⟨absent, missing⟩ | ⟨spelling, value, present, found⟩
  · simp [absent, missing]
  · simp [present, found]

theorem succeeds_fieldOr {name alternative : String} {fallback : alpha}
    {read : Reader alpha} {entries : Entries} :
    (fieldOr name alternative fallback read entries).Succeeds ↔
      ∀ value, spelled name alternative entries = some value →
        (read value).Succeeds := by
  simp only [Succeeds, fieldOr_eq_accepted]
  cases spelled name alternative entries <;> simp

theorem succeeds_field {name alternative : String} {read : Reader alpha}
    {entries : Entries} :
    (field name alternative read entries).Succeeds ↔
      ∃ value, spelled name alternative entries = some value ∧
        (read value).Succeeds := by
  simp only [Succeeds, field_eq_accepted]
  cases spelled name alternative entries <;> simp

/-! ## Lists and mappings -/

theorem model_eq_accepted {read : Entries → Checked alpha} {value : Value}
    {result : alpha} :
    model read value = .accepted result ↔
      ∃ entries, value = .map entries ∧ read entries = .accepted result := by
  cases value <;> simp [model, issue]

theorem succeeds_nullable {read : Reader alpha} {value : Value} :
    (nullable read value).Succeeds ↔
      value = .null ∨ (read value).Succeeds := by
  cases value <;> simp [nullable]

theorem nullable_eq_accepted {read : Reader alpha} {value : Value}
    {result : Option alpha} (present : value ≠ .null) :
    nullable read value = .accepted result ↔
      ∃ held, read value = .accepted held ∧ some held = result := by
  cases value <;> first | exact absurd rfl present | exact map_eq_accepted

theorem readItems_eq_accepted {read : Reader alpha} {position : Int}
    {items : List Value} {results : List alpha} :
    readItems read position items = .accepted results ↔
      List.Forall₂ (fun item result => read item = .accepted result) items
        results := by
  induction items generalizing position results with
  | nil => simp [readItems, eq_comm]
  | cons item rest inductionHypothesis =>
      rw [readItems, seq_eq_accepted, List.forall₂_cons_left_iff]
      constructor
      · rintro ⟨_, others, first, second, rfl⟩
        obtain ⟨result, held, rfl⟩ := map_eq_accepted.1 first
        exact ⟨result, others, within_eq_accepted.1 held,
          inductionHypothesis.1 second, rfl⟩
      · rintro ⟨result, others, first, second, rfl⟩
        exact ⟨_, others, map_eq_accepted.2
            ⟨result, within_eq_accepted.2 first, rfl⟩,
          inductionHypothesis.2 second, rfl⟩

theorem succeeds_readItems {read : Reader alpha} {position : Int}
    {items : List Value} :
    (readItems read position items).Succeeds ↔
      ∀ item ∈ items, (read item).Succeeds := by
  induction items generalizing position with
  | nil => simp [readItems]
  | cons item rest inductionHypothesis =>
      simp [readItems, inductionHypothesis]

theorem listOf_of_lists {read : Reader alpha} {value : Value}
    {items : List Value} (listed : Lists value items) :
    listOf read value = readItems read 0 items := by
  rcases listed with rfl | rfl <;> rfl

theorem readEntries_eq_accepted {read : Reader alpha} {entries : Entries}
    {record : Record alpha} :
    readEntries read entries = .accepted record ↔
      List.Forall₂ (fun entry result => readKey entry.1 = .accepted result.1 ∧
        read entry.2 = .accepted result.2) entries record := by
  induction entries generalizing record with
  | nil => simp [readEntries, eq_comm]
  | cons entry rest inductionHypothesis =>
      rw [readEntries, seq_eq_accepted, List.forall₂_cons_left_iff]
      constructor
      · rintro ⟨_, others, first, second, rfl⟩
        obtain ⟨_, value, third, held, rfl⟩ := seq_eq_accepted.1 first
        obtain ⟨name, key, rfl⟩ := map_eq_accepted.1 third
        exact ⟨(name, value), others, ⟨key, within_eq_accepted.1 held⟩,
          inductionHypothesis.1 second, rfl⟩
      · rintro ⟨⟨name, value⟩, others, ⟨key, held⟩, second, rfl⟩
        exact ⟨_, others, seq_eq_accepted.2 ⟨_, value, map_eq_accepted.2
            ⟨name, key, rfl⟩, within_eq_accepted.2 held, rfl⟩,
          inductionHypothesis.2 second, rfl⟩

theorem succeeds_readEntries {read : Reader alpha} {entries : Entries} :
    (readEntries read entries).Succeeds ↔
      ∀ entry ∈ entries, (readKey entry.1).Succeeds ∧
        (read entry.2).Succeeds := by
  induction entries with
  | nil => simp [readEntries]
  | cons entry rest inductionHypothesis =>
      simp [readEntries, inductionHypothesis, and_assoc]

end DesignTokens.Schema
