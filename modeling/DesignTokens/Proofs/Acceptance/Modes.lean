import DesignTokens.Proofs.Acceptance.Content

/-!
# Accepted modes are well formed

Names are distinct because every name is compared with the ones before it.
-/

namespace DesignTokens.Acceptance

open DesignTokens.Grammar DesignTokens.Success

theorem modeName?_eq_some_iff {entries : Entries} {name : String} :
    modeName? entries = some name ↔
      Entries.get? "name" entries = some (.str name) ∧ name ≠ "" := by
  rw [modeName?]
  cases Entries.get? "name" entries with
  | none => simp
  | some value =>
      cases value with
      | str held =>
          by_cases blank : held = ""
          · simp only [blank, if_pos, reduceCtorEq, false_iff]
            rintro ⟨same, named⟩
            cases same
            exact named rfl
          · simp only [if_neg blank, Option.some.injEq, Value.str.injEq]
            exact ⟨fun same => ⟨same, same ▸ blank⟩, And.left⟩
      | _ => simp

theorem isFlag_iff (given : Option Value) :
    isFlag given = true ↔
      Optionally (fun value => ∃ held, value = .bool held) given := by
  refine optionally_iff (fun absent => by rw [absent]; rfl)
    (fun null => by rw [null]; rfl) fun value found present => ?_
  rw [found]
  cases value with
  | null => exact absurd rfl present
  | bool held => exact iff_of_true rfl ⟨held, rfl⟩
  | _ => exact iff_of_false nofun nofun

theorem flagValue_eq_spelled (entries : Entries) :
    PlainMode.flagValue entries = spelled "isDefault" "is_default" entries :=
  either?_eq_spelled ..

theorem acceptMode_iff (index : Nat) (seen : List String) (value : Value)
    (mode : PlainMode) :
    acceptMode index seen value = .ok mode ↔
      IsMode value mode ∧ mode.name ∉ seen := by
  constructor
  · intro accepted
    unfold acceptMode at accepted
    split at accepted
    · cases accepted
    · rename_i entries mapping
      split at accepted
      · cases accepted
      · rename_i name held
        split at accepted
        · cases accepted
        · rename_i fresh
          split at accepted
          · cases accepted
          · rename_i flag
            split at accepted
            · rename_i tokens
              cases accepted
              obtain ⟨field, named⟩ := modeName?_eq_some_iff.1 held
              rw [flagValue_eq_spelled, Bool.not_eq_true', Bool.not_eq_false,
                isFlag_iff] at flag
              exact ⟨⟨(entries?_eq_some_iff ..).1 mapping, field, named, flag,
                tokens⟩, by simpa using fresh⟩
            · cases accepted
  · rintro ⟨⟨mapping, field, named, flag, tokens⟩, fresh⟩
    rw [← isFlag_iff, ← flagValue_eq_spelled] at flag
    simp [acceptMode, mapping, Value.entries?,
      modeName?_eq_some_iff.2 ⟨field, named⟩, fresh, flag, tokens]

/-- Modes are accepted one by one where each has a name that is not yet
taken. -/
theorem acceptModesFrom_iff (index : Nat) (seen : List String)
    (items : List Value) (modes : List PlainMode) :
    acceptModesFrom index seen items = .ok modes ↔
      List.Forall₂ IsMode items modes ∧
        (modes.map PlainMode.name).Nodup ∧
          ∀ mode ∈ modes, mode.name ∉ seen := by
  induction items generalizing index seen modes with
  | nil =>
      rw [acceptModesFrom, List.forall₂_nil_left_iff]
      constructor
      · rintro equal
        cases equal
        exact ⟨rfl, List.nodup_nil, nofun⟩
      · rintro ⟨rfl, _, _⟩
        rfl
  | cons item rest inductionHypothesis =>
      rw [acceptModesFrom, bind_eq_ok, List.forall₂_cons_left_iff]
      constructor
      · rintro ⟨mode, first, following⟩
        obtain ⟨others, second, equal⟩ := bind_eq_ok.1 following
        cases equal
        obtain ⟨isMode, fresh⟩ := (acceptMode_iff ..).1 first
        obtain ⟨areModes, distinct, apart⟩ :=
          (inductionHypothesis ..).1 second
        refine ⟨⟨mode, others, isMode, areModes, rfl⟩, ?_, ?_⟩
        · rw [List.map_cons, List.nodup_cons]
          refine ⟨fun member => ?_, distinct⟩
          obtain ⟨other, otherMember, same⟩ := List.mem_map.1 member
          exact apart other otherMember (by simp [same])
        · rw [List.forall_mem_cons]
          exact ⟨fresh, fun other member taken =>
            apart other member (List.mem_cons_of_mem _ taken)⟩
      · rintro ⟨⟨mode, others, isMode, areModes, rfl⟩, distinct, apart⟩
        rw [List.map_cons, List.nodup_cons] at distinct
        rw [List.forall_mem_cons] at apart
        refine ⟨mode, (acceptMode_iff ..).2 ⟨isMode, apart.1⟩,
          bind_eq_ok.2 ⟨others, (inductionHypothesis ..).2
            ⟨areModes, distinct.2, ?_⟩, rfl⟩⟩
        intro other member taken
        rcases List.mem_cons.1 taken with same | earlier
        · exact distinct.1 (List.mem_map.2 ⟨other, member, same⟩)
        · exact apart.2 other member earlier

theorem acceptModes_iff (family : Value) (entries : Entries)
    (modes : List PlainMode) :
    acceptModes family = .ok (entries, modes) ↔
      family = .map entries ∧
        Holds "modes" (fun value => ∃ items, Lists value items ∧
          List.Forall₂ IsMode items modes) entries ∧
        modes ≠ [] ∧ (modes.map PlainMode.name).Nodup := by
  constructor
  · intro accepted
    unfold acceptModes at accepted
    split at accepted
    · cases accepted
    · rename_i fields mapping
      split at accepted
      · cases accepted
      · cases accepted
      · rename_i items notNil given
        obtain ⟨found, second, equal⟩ := bind_eq_ok.1 accepted
        cases equal
        obtain ⟨value, field, listed⟩ := Option.bind_eq_some_iff.1 given
        obtain ⟨areModes, distinct, _⟩ := (acceptModesFrom_iff ..).1 second
        refine ⟨(entries?_eq_some_iff ..).1 mapping, ⟨value, field, items,
          (items?_eq_some_iff ..).1 listed, areModes⟩, ?_, distinct⟩
        rintro rfl
        cases areModes
        exact notNil rfl
  · rintro ⟨rfl, ⟨value, field, items, listed, areModes⟩, nonempty, distinct⟩
    have given : (Entries.get? "modes" entries).bind Value.items? =
        some items := by
      rw [field, Option.bind_some, (items?_eq_some_iff ..).2 listed]
    have accepted : acceptModesFrom 0 [] items = .ok modes :=
      (acceptModesFrom_iff ..).2 ⟨areModes, distinct, nofun⟩
    cases areModes with
    | nil => exact absurd rfl nonempty
    | cons =>
        simp only [acceptModes, Value.entries?, given, accepted]
        rfl

/-! ## Overrides -/

theorem isDefault_unique {modes earlier later : List PlainMode}
    {default mode : PlainMode}
    (split : Selection.Split PlainMode.flagged modes earlier default later)
    (isDefault : IsDefault modes mode) : mode = default := by
  obtain ⟨_, _, other⟩ := isDefault
  exact Option.some.inj (other.default?_eq.symm.trans split.default?_eq)

/-- The names that are compared between categories are those of the
overrides. -/
theorem mem_overrideNames_iff {modes : List PlainMode}
    (distinct : (modes.map PlainMode.name).Nodup) (name : String) :
    name ∈ overrideNames modes ↔ IsOverride modes name := by
  rcases eq_or_ne modes [] with rfl | nonempty
  · simp [overrideNames, Selection.overrides, IsOverride]
  obtain ⟨earlier, default, later, split⟩ :=
    Selection.exists_split PlainMode.flagged nonempty
  rw [overrideNames, split.overrides_eq, List.mem_map]
  constructor
  · rintro ⟨mode, member, rfl⟩
    have apart : default ∉ earlier ++ later := by
      have noduplicates := distinct.of_map
      rw [split.parts, List.nodup_middle, List.nodup_cons] at noduplicates
      exact noduplicates.1
    refine ⟨mode, ?_, rfl, fun isDefault => apart ?_⟩
    · rw [split.parts, List.mem_append, List.mem_cons]
      rcases List.mem_append.1 member with before | after
      · exact .inl before
      · exact .inr (.inr after)
    · rwa [← isDefault_unique split isDefault]
  · rintro ⟨mode, member, rfl, notDefault⟩
    refine ⟨mode, ?_, rfl⟩
    rw [split.parts, List.mem_append, List.mem_cons] at member
    rcases member with before | rfl | after
    · exact List.mem_append_left _ before
    · exact absurd ⟨earlier, later, split⟩ notDefault
    · exact List.mem_append_right _ after

end DesignTokens.Acceptance
