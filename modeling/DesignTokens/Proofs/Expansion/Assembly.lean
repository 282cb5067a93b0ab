import DesignTokens.Proofs.Expansion.Isolation
import DesignTokens.Proofs.Expansion.Merging
import DesignTokens.Proofs.Expansion.ModeByMode

/-!
# Assembled token sheets

The overrides of an assembled sheet are the override modes with tokens, each
once and in the order of their first mention, and under every mode stand the
merged tokens that the families have for it.
-/

namespace DesignTokens

open Grammar Success

/-! ## Overrides -/

theorem Family.mem_all (family : Family) : family ∈ all := by
  cases family <;> decide

theorem ofCategory_assemble (expansions : Expansions) (category : Category) :
    expansions.assemble.sheet.modes.ofCategory category =
      expansions.modeInfo category := by
  cases category <;> rfl

namespace Expansions

variable {expansions : Expansions}

/-- Whether some family has tokens for an override mode. -/
def hasTokens (expansions : Expansions) (name : String) : Bool :=
  !(expansions.overridesOf name).isEmpty

theorem merged_of_mem {entry : String × Record Token × List Notice}
    (member : entry ∈ expansions.mergedOverrides) :
    entry.2 = mergeTokens (expansions.overridesOf entry.1) := by
  obtain ⟨named, inNamed, kept⟩ := List.mem_filterMap.1 member
  obtain ⟨name, _, rfl⟩ := List.mem_map.1 inNamed
  dsimp only at kept
  split at kept
  · cases kept
  · cases kept
    rfl

theorem overrides_assemble (expansions : Expansions) :
    expansions.assemble.sheet.overrides =
      ((expansions.overrideNames Family.all).filter expansions.hasTokens).map
        fun name =>
          (name, (mergeTokens (expansions.overridesOf name)).1) := by
  change (((expansions.overrideNames Family.all).map _).filterMap _).map _ = _
  generalize expansions.overrideNames Family.all = names
  induction names with
  | nil => rfl
  | cons name rest inductionHypothesis =>
      rw [List.map_cons, List.filterMap_cons]
      by_cases empty : (expansions.overridesOf name).isEmpty = true
      · have dropped : expansions.hasTokens name = false := by
          rw [hasTokens, empty]
          rfl
        rw [if_pos empty, List.filter_cons_of_neg (by simp [dropped])]
        exact inductionHypothesis
      · have kept : expansions.hasTokens name = true := by
          simp [hasTokens, empty]
        rw [if_neg empty, List.filter_cons_of_pos kept]
        rw [List.map_cons, List.map_cons, inductionHypothesis]

theorem names_overrides_assemble (expansions : Expansions) :
    expansions.assemble.sheet.overrides.names =
      (expansions.overrideNames Family.all).filter expansions.hasTokens := by
  rw [overrides_assemble, Record.names, List.map_map]
  exact List.map_id _

theorem nodup_names_overrides_assemble (expansions : Expansions) :
    expansions.assemble.sheet.overrides.names.Nodup := by
  rw [names_overrides_assemble]
  exact (nodup_eraseDups _).filter _

theorem mem_overridesOf_iff {name : String} {token : Token} :
    token ∈ expansions.overridesOf name ↔
      ∃ family, token ∈ (expansions.ofFamily family).tokensOf name := by
  rw [overridesOf, List.mem_flatMap]
  constructor
  · rintro ⟨family, _, member⟩
    exact ⟨family, member⟩
  · rintro ⟨family, member⟩
    exact ⟨family, family.mem_all, member⟩

theorem hasTokens_iff {name : String} :
    expansions.hasTokens name = true ↔
      ∃ family, (expansions.ofFamily family).tokensOf name ≠ [] := by
  rw [hasTokens, Bool.not_eq_true', List.isEmpty_eq_false_iff_exists_mem]
  simp only [mem_overridesOf_iff]
  constructor
  · rintro ⟨token, family, member⟩
    exact ⟨family, List.ne_nil_of_mem member⟩
  · rintro ⟨family, nonempty⟩
    obtain ⟨token, member⟩ := List.exists_mem_of_ne_nil _ nonempty
    exact ⟨token, family, member⟩

/-- Only the override modes of a family have tokens there. -/
theorem Apart.mem_of_hasTokens {names : Family → List String}
    (apart : expansions.Apart names) {name : String}
    (has : expansions.hasTokens name = true) :
    name ∈ expansions.overrideNames Family.all := by
  obtain ⟨family, nonempty⟩ := hasTokens_iff.1 has
  apply mem_overrideNames_iff.2
  refine ⟨family, family.mem_all, ?_⟩
  cases found : (expansions.ofFamily family).overrides.lookup name with
  | none =>
      rw [Expansion.tokensOf, found] at nonempty
      exact absurd rfl nonempty
  | some tokens =>
      rw [(apart.ofFamily family).listed]
      exact (apart.ofFamily family).keys _ (Record.mem_of_lookup found)

/-- A mode has an entry where some family has tokens for it. -/
theorem Apart.lookup_overrides {names : Family → List String}
    (apart : expansions.Apart names) (name : String) :
    expansions.assemble.sheet.overrides.lookup name =
      if expansions.hasTokens name then
        some (mergeTokens (expansions.overridesOf name)).1
      else none := by
  have distinct := nodup_names_overrides_assemble expansions
  cases has : expansions.hasTokens name with
  | true =>
      have listed := List.mem_filter.2 ⟨apart.mem_of_hasTokens has, has⟩
      have member :
          (name, (mergeTokens (expansions.overridesOf name)).1) ∈
            expansions.assemble.sheet.overrides := by
        rw [overrides_assemble]
        exact List.mem_map.2 ⟨name, listed, rfl⟩
      exact Record.lookup_of_mem distinct member
  | false =>
      have absent :
          name ∉ expansions.assemble.sheet.overrides.names := by
        rw [names_overrides_assemble]
        intro listed
        rw [(List.mem_filter.1 listed).2] at has
        cases has
      exact Record.lookup_eq_none absent

/-- Under every mode stand the merged tokens of all families. -/
theorem Apart.overridesOf_assemble {names : Family → List String}
    (apart : expansions.Apart names) (name : String) :
    expansions.assemble.sheet.overridesOf name =
      (mergeTokens (expansions.overridesOf name)).1 := by
  rw [TokenSheet.overridesOf, apart.lookup_overrides]
  cases has : expansions.hasTokens name with
  | true => rfl
  | false =>
      have empty : expansions.overridesOf name = [] := by
        simpa [hasTokens] using has
      rw [empty]
      rfl

end Expansions

/-! ## Accepted configurations -/

/-- The expansions that a sheet is assembled from. -/
theorem exists_expansions {system : DesignSystem} {settings : Settings}
    {generated : Generated}
    (made : system.expand settings = .ok generated) :
    ∃ expansions, Expansions.ofSystem settings system = .ok expansions ∧
      generated = expansions.assemble := by
  obtain ⟨expansions, expanded, same⟩ := bind_eq_ok.1 made
  rw [mapError_eq_ok] at expanded
  exact ⟨expansions, expanded, (Except.ok.inj same).symm⟩

/-- An accepted configuration that is read has these modes. -/
theorem exists_modes {config : Value} {system : DesignSystem}
    (accepted : Acceptance.accept config = .ok ())
    (read : DesignSystem.read config = .accepted system) :
    ∃ entries modes, config = .map entries ∧ WellFormed entries modes ∧
      ReadFrom modes system := by
  cases config with
  | map entries =>
      obtain ⟨modes, wellFormed⟩ :=
        (Acceptance.acceptEntries_iff entries).1 accepted
      exact ⟨entries, modes, rfl, wellFormed,
        readFrom_of_read wellFormed read⟩
  | _ => cases accepted

end DesignTokens
