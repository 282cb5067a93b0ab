import DesignTokens.Acceptance.Content
import DesignTokens.Proofs.Schema.Reading
import DesignTokens.System.Reading

/-!
# Entries of references

The entries of references are the fields of a mapping, in order, less the ones
that configure the references.
-/

namespace DesignTokens

open Grammar Schema Schema.Checked

/-- The parts of references, each read from its fields. -/
structure References.ReadParts (tokens : Entries) (references : References) :
    Prop where
  unit : fieldOr "unit" "unit" none (nullable text) tokens =
    .accepted references.unit
  spacingMode : fieldOr "spacingMode" "spacing_mode" none (nullable text)
    tokens = .accepted references.spacingMode
  entries : References.readEntries (References.modeSpelling tokens) tokens =
    .accepted references.entries

theorem References.parts_of_read {tokens : Entries} {references : References}
    (read : References.read (.map tokens) = .accepted references) :
    References.ReadParts tokens references := by
  obtain ⟨_, entries, upToMode, entriesRead, rfl⟩ := seq_eq_accepted.1 read
  obtain ⟨_, mode, upToUnit, modeRead, rfl⟩ := seq_eq_accepted.1 upToMode
  obtain ⟨unit, unitRead, rfl⟩ := map_eq_accepted.1 upToUnit
  exact ⟨unitRead, modeRead, entriesRead⟩

/-- References name a spacing mode that there is, if they name one. -/
theorem References.spacingMode_mem {spacing : List String} {tokens : Entries}
    {references : References} (isReferences : IsReferences spacing tokens)
    (read : References.read (.map tokens) = .accepted references)
    {name : String} (named : references.spacingMode = some name) :
    name ∈ spacing := by
  have parts := (References.parts_of_read read).spacingMode
  rw [named] at parts
  rcases fieldOr_eq_accepted.1 parts with ⟨_, absent⟩ | ⟨value, found, held⟩
  · cases absent
  · rcases isReferences.spacingMode value found with rfl | ⟨known, listed, rfl⟩
    · cases held
    · cases held
      exact listed

/-- The entries of a mapping under other keys than these. -/
def Entries.omitting (keys : List String) (entries : Entries) : Entries :=
  entries.filter fun entry => !keys.any entry.1.isText

theorem mem_omitting_iff {keys : List String} {entries : Entries}
    {entry : Value × Value} :
    entry ∈ entries.omitting keys ↔
      entry ∈ entries ∧ ∀ key ∈ keys, entry.1 ≠ .str key := by
  simp [Entries.omitting, ← Bool.not_eq_true, isText_iff]

theorem sublist_omitting {keys others : List String} (fewer : keys ⊆ others)
    (entries : Entries) :
    (entries.omitting others).Sublist (entries.omitting keys) := by
  apply List.monotone_filter_right
  intro entry kept
  simp only [Bool.not_eq_true', List.any_eq_false] at kept ⊢
  exact fun key listed => kept key (fewer listed)

/-- What is read are the entries under all keys but the unit and the spacing
mode. -/
theorem omitting_of_readEntries {spelling : String} {tokens : Entries}
    {entries : Record Value}
    (read : References.readEntries spelling tokens = .accepted entries) :
    tokens.omitting ["unit", spelling] =
      entries.map fun entry => (Value.str entry.1, entry.2) := by
  induction tokens generalizing entries with
  | nil =>
      cases read
      rfl
  | cons first rest inductionHypothesis =>
      obtain ⟨key, value⟩ := first
      cases key with
      | str name =>
          rw [References.readEntries] at read
          split at read
          · rename_i skipped
            have omitted : ["unit", spelling].any (Value.str name).isText =
                true := by
              simpa [Value.isText] using skipped
            rw [Entries.omitting, List.filter_cons_of_neg (by simp [omitted])]
            exact inductionHypothesis read
          · rename_i kept
            have listed : ["unit", spelling].any (Value.str name).isText =
                false := by
              simpa [Value.isText] using kept
            obtain ⟨others, more, rfl⟩ := map_eq_accepted.1 read
            rw [Entries.omitting, List.filter_cons_of_pos (by simp [listed]),
              List.map_cons, ← inductionHypothesis more]
            rfl
      | _ =>
          obtain ⟨_, _, refused, _, _⟩ := seq_eq_accepted.1 read
          cases refused

theorem forall_readEntries_iff {spelling : String} {tokens : Entries}
    {entries : Record Value} (good : Value → Prop)
    (read : References.readEntries spelling tokens = .accepted entries) :
    (∀ entry ∈ entries, good entry.2) ↔
      ∀ entry ∈ tokens, entry.1 ≠ .str "unit" → entry.1 ≠ .str spelling →
        good entry.2 := by
  have values : (∀ entry ∈ entries, good entry.2) ↔
      ∀ entry ∈ tokens.omitting ["unit", spelling], good entry.2 := by
    rw [omitting_of_readEntries read, List.forall_mem_map]
  rw [values]
  simp [mem_omitting_iff, and_imp]

theorem sublist_of_readEntries {spelling : String} {tokens : Entries}
    {entries : Record Value}
    (read : References.readEntries spelling tokens = .accepted entries) :
    (entries.map fun entry => (Value.str entry.1, entry.2)).Sublist
      tokens := by
  rw [← omitting_of_readEntries read]
  exact List.filter_sublist

/-! ## Spellings of the spacing mode -/

/-- Tokens that give a spacing mode in one spelling at most. -/
def SpelledOnce (tokens : Entries) : Prop :=
  Entries.get? "spacingMode" tokens = none ∨
    Entries.get? "spacing_mode" tokens = none

theorem modeSpelling_configures (tokens : Entries) :
    References.modeSpelling tokens ∈ Acceptance.configurationKeys := by
  rw [References.modeSpelling]
  split
  · decide
  · decide

/-- The keys that configure references are those that are skipped, unless
both spellings of the spacing mode are given. -/
theorem omitting_configurationKeys_iff {tokens : Entries} :
    tokens.omitting Acceptance.configurationKeys =
        tokens.omitting ["unit", References.modeSpelling tokens] ↔
      SpelledOnce tokens := by
  constructor
  · intro same
    by_contra twice
    obtain ⟨first, second⟩ := not_or.1 twice
    have spelling : References.modeSpelling tokens = "spacingMode" :=
      if_pos (Option.isSome_iff_ne_none.2 first)
    rw [get?_eq_none_iff] at second
    push Not at second
    obtain ⟨entry, member, key⟩ := second
    -- The second spelling is among the entries, although it configures them.
    have listed : entry ∈ tokens.omitting Acceptance.configurationKeys := by
      rw [same, spelling, mem_omitting_iff, key]
      exact ⟨member, by simp⟩
    exact (mem_omitting_iff.1 listed).2 "spacing_mode" (by decide) key
  · intro once
    apply List.filter_congr
    intro entry member
    have absent (key : String) (missing : Entries.get? key tokens = none) :
        entry.1.isText key = false := by
      rw [← Bool.not_eq_true, isText_iff]
      exact get?_eq_none_iff.1 missing entry member
    rw [References.modeSpelling]
    cases given : Entries.get? "spacingMode" tokens with
    | none => simp [Acceptance.configurationKeys, absent _ given]
    | some held =>
        have other := once.resolve_left (by simp [given])
        simp [Acceptance.configurationKeys, absent _ other]

end DesignTokens
