import DesignTokens.Proofs.Acceptance.Grammar
import DesignTokens.Proofs.Success
import DesignTokens.Proofs.Value.Trail
import DesignTokens.Value.Pairs

/-!
# Mappings that have each key once

A value is a list of entries at every mapping. Writing entries one after the
other never gives a key twice, a change of what stands under the keys keeps
them apart, and what is inside a value whose mappings have each key once is
such a value again.
-/

namespace DesignTokens

/-! ## One mapping -/

namespace Entries

/-- Whether a mapping has each of its keys once. -/
def keysDistinct : Entries → Bool
  | [] => true
  | (key, _) :: rest =>
      rest.all (fun entry => !key.sameKey entry.1) && keysDistinct rest

theorem keysDistinct_cons_iff {key value : Value} {rest : Entries} :
    keysDistinct ((key, value) :: rest) = true ↔
      (∀ entry ∈ rest, key.sameKey entry.1 = false) ∧
        keysDistinct rest = true := by
  simp [keysDistinct]

/-- Whether each key stands once is told by the keys alone. -/
theorem keysDistinct_iff_pairwise {entries : Entries} :
    keysDistinct entries = true ↔
      (entries.map Prod.fst).Pairwise fun first second =>
        first.sameKey second = false := by
  induction entries with
  | nil => exact iff_of_true rfl List.Pairwise.nil
  | cons first rest inductionHypothesis =>
      rw [keysDistinct_cons_iff, List.map_cons, List.pairwise_cons,
        List.forall_mem_map, inductionHypothesis]

theorem sameKey_str (name : String) :
    (Value.str name).sameKey (.str name) = true := by
  simp [Value.sameKey]

/-- Names that are the keys of a mapping are all different. -/
theorem nodup_of_keys {entries : Entries} {names : List String}
    (distinct : keysDistinct entries = true)
    (keys : (names.map Value.str).Sublist (entries.map Prod.fst)) :
    names.Nodup := by
  have apart := keysDistinct_iff_pairwise.1 distinct
  have kept := List.pairwise_map.1 (apart.sublist keys)
  apply kept.imp
  intro first second different same
  rw [same, sameKey_str] at different
  cases different

/-- An entry of a mapping into which a value is written is an old one, or it
holds that value, under the key or under an old one. -/
theorem entry_of_mem_put {key value : Value} {entries : Entries}
    {entry : Value × Value} (member : entry ∈ put key value entries) :
    entry ∈ entries ∨ entry.2 = value ∧
      (entry.1 = key ∨ ∃ held, (entry.1, held) ∈ entries) := by
  induction entries with
  | nil =>
      rw [List.mem_singleton.1 member]
      exact .inr ⟨rfl, .inl rfl⟩
  | cons first rest inductionHypothesis =>
      obtain ⟨known, old⟩ := first
      rw [put] at member
      by_cases same : known.sameKey key = true
      · rw [if_pos same] at member
        rcases List.mem_cons.1 member with rfl | later
        · exact .inr ⟨rfl, .inr ⟨old, List.mem_cons_self ..⟩⟩
        · exact .inl (List.mem_cons_of_mem _ later)
      · rw [if_neg same] at member
        rcases List.mem_cons.1 member with rfl | later
        · exact .inl (List.mem_cons_self ..)
        · rcases inductionHypothesis later with kept | ⟨written, place⟩
          · exact .inl (List.mem_cons_of_mem _ kept)
          · refine .inr ⟨written, place.imp_right ?_⟩
            exact fun ⟨held, inside⟩ =>
              ⟨held, List.mem_cons_of_mem _ inside⟩

section Writing

variable {key value : Value} {entries : Entries}

theorem forall_key_put (good : Value → Prop) (new : good key)
    (old : ∀ entry ∈ entries, good entry.1) :
    ∀ entry ∈ put key value entries, good entry.1 := by
  intro entry member
  rcases entry_of_mem_put member with kept | ⟨-, same | ⟨held, inside⟩⟩
  · exact old entry kept
  · rw [same]
    exact new
  · exact old (entry.1, held) inside

theorem forall_value_put (good : Value → Prop) (new : good value)
    (old : ∀ entry ∈ entries, good entry.2) :
    ∀ entry ∈ put key value entries, good entry.2 := by
  intro entry member
  rcases entry_of_mem_put member with kept | ⟨same, -⟩
  · exact old entry kept
  · rw [same]
    exact new

theorem keysDistinct_put (distinct : keysDistinct entries = true) :
    keysDistinct (put key value entries) = true := by
  induction entries with
  | nil => rfl
  | cons first rest inductionHypothesis =>
      obtain ⟨known, old⟩ := first
      have parts := keysDistinct_cons_iff.1 distinct
      rw [put]
      by_cases same : known.sameKey key = true
      · rw [if_pos same]
        exact keysDistinct_cons_iff.2 parts
      · rw [if_neg same]
        have apart : known.sameKey key = false := by simpa using same
        have others : ∀ entry ∈ put key value rest,
            known.sameKey entry.1 = false :=
          forall_key_put (known.sameKey · = false) apart parts.1
        exact keysDistinct_cons_iff.2
          ⟨others, inductionHypothesis parts.2⟩

end Writing

/-- Every mapping that is written entry by entry has each key once. -/
theorem keysDistinct_ofList (entries : List (Value × Value)) :
    keysDistinct (ofList entries) = true :=
  List.foldlRecOn (motive := fun mapping => keysDistinct mapping = true)
    entries _ rfl fun _ distinct _ _ => keysDistinct_put distinct

theorem mem_of_get? {key : String} {entries : Entries} {value : Value}
    (found : get? key entries = some value) :
    (.str key, value) ∈ entries := by
  induction entries with
  | nil => cases found
  | cons first rest inductionHypothesis =>
      obtain ⟨known, held⟩ := first
      cases known with
      | str name =>
          rw [get?] at found
          by_cases same : name = key
          · rw [if_pos same] at found
            cases found
            rw [same]
            exact List.mem_cons_self ..
          · rw [if_neg same] at found
            exact List.mem_cons_of_mem _ (inductionHypothesis found)
      | _ => exact List.mem_cons_of_mem _ (inductionHypothesis found)

end Entries

/-! ## Mappings inside a value -/

namespace Value

mutual

/-- Whether every mapping inside a value has each of its keys once. -/
def keysDistinct : Value → Bool
  | .list items => itemKeysDistinct items
  | .tuple items => itemKeysDistinct items
  | .map entries => Entries.keysDistinct entries && entryKeysDistinct entries
  | _ => true

/-- `keysDistinct` of every item. -/
def itemKeysDistinct : List Value → Bool
  | [] => true
  | item :: rest => item.keysDistinct && itemKeysDistinct rest

/-- `keysDistinct` of every value of a mapping. -/
def entryKeysDistinct : List (Value × Value) → Bool
  | [] => true
  | (_, value) :: rest => value.keysDistinct && entryKeysDistinct rest

end

theorem itemKeysDistinct_iff {items : List Value} :
    itemKeysDistinct items = true ↔
      ∀ item ∈ items, item.keysDistinct = true := by
  induction items with
  | nil => exact iff_of_true rfl nofun
  | cons first rest inductionHypothesis =>
      rw [itemKeysDistinct, Bool.and_eq_true, inductionHypothesis,
        List.forall_mem_cons]

theorem itemKeysDistinct_map {change : Value → Value} {items : List Value}
    (keeps : ∀ item, item.keysDistinct = true →
      (change item).keysDistinct = true)
    (distinct : itemKeysDistinct items = true) :
    itemKeysDistinct (items.map change) = true := by
  rw [itemKeysDistinct_iff] at distinct ⊢
  rw [List.forall_mem_map]
  exact fun item member => keeps item (distinct item member)

theorem entryKeysDistinct_iff {entries : Entries} :
    entryKeysDistinct entries = true ↔
      ∀ entry ∈ entries, entry.2.keysDistinct = true := by
  induction entries with
  | nil => exact iff_of_true rfl nofun
  | cons first rest inductionHypothesis =>
      rw [entryKeysDistinct, Bool.and_eq_true, inductionHypothesis,
        List.forall_mem_cons]

theorem keysDistinct_map_iff {entries : Entries} :
    (Value.map entries).keysDistinct = true ↔
      Entries.keysDistinct entries = true ∧
        ∀ entry ∈ entries, entry.2.keysDistinct = true := by
  rw [keysDistinct, Bool.and_eq_true, entryKeysDistinct_iff]

theorem keysDistinct_of_get? {key : String} {entries : Entries}
    {value : Value} (distinct : (Value.map entries).keysDistinct = true)
    (found : Entries.get? key entries = some value) :
    value.keysDistinct = true :=
  (keysDistinct_map_iff.1 distinct).2 _ (Entries.mem_of_get? found)

/-- Of a mapping and of pairs alike come entries with each key once. -/
theorem keysDistinct_of_toEntries {value : Value} {entries : Entries}
    (distinct : value.keysDistinct = true)
    (taken : value.toEntries = .ok entries) :
    Entries.keysDistinct entries = true := by
  rw [toEntries.eq_def] at taken
  split at taken
  · cases taken
    exact (keysDistinct_map_iff.1 distinct).1
  · split at taken
    · cases taken
    · obtain ⟨pairs, -, rfl⟩ := Success.map_eq_ok.1 taken
      exact Entries.keysDistinct_ofList pairs

/-- A change of the values right inside a value that keeps their keys apart
keeps those of the value apart. -/
theorem keysDistinct_mapInner {change : Label → Value → Value}
    {value : Value}
    (keeps : ∀ label held, held.keysDistinct = true →
      (change label held).keysDistinct = true)
    (distinct : value.keysDistinct = true) :
    (value.mapInner change).keysDistinct = true := by
  cases value with
  | list items => exact itemKeysDistinct_map (keeps .item) distinct
  | tuple items => exact itemKeysDistinct_map (keeps .part) distinct
  | map entries =>
      obtain ⟨apart, inside⟩ := keysDistinct_map_iff.1 distinct
      rw [mapInner, keysDistinct_map_iff, List.forall_mem_map,
        Entries.keysDistinct_iff_pairwise, List.map_map]
      exact ⟨Entries.keysDistinct_iff_pairwise.1 apart,
        fun entry member => keeps _ entry.2 (inside entry member)⟩
  | _ => exact distinct

end Value

theorem Trail.keysDistinct_changeAlong {change : Value → Value}
    {trail : Trail} {value : Value}
    (keeps : ∀ held : Value, held.keysDistinct = true →
      (change held).keysDistinct = true)
    (distinct : value.keysDistinct = true) :
    (trail.changeAlong change value).keysDistinct = true := by
  induction trail generalizing value with
  | nil => exact keeps value distinct
  | cons fits trail inductionHypothesis =>
      rw [changeAlong]
      refine Value.keysDistinct_mapInner ?_ distinct
      intro label held heldDistinct
      split
      · exact inductionHypothesis heldDistinct
      · exact heldDistinct

/-! ## The tokens of a mode -/

namespace Grammar

theorem keysDistinct_of_spelled {name alternative : String}
    {entries : Entries} {value : Value}
    (distinct : (Value.map entries).keysDistinct = true)
    (found : spelled name alternative entries = some value) :
    value.keysDistinct = true := by
  rcases Option.or_eq_some_iff.1 found with first | ⟨_, second⟩
  · exact Value.keysDistinct_of_get? distinct first
  · exact Value.keysDistinct_of_get? distinct second

theorem keysDistinct_of_given {key : String} {entries : Entries}
    {value : Value} (distinct : (Value.map entries).keysDistinct = true)
    (found : Entries.given? key entries = some value) :
    value.keysDistinct = true :=
  Value.keysDistinct_of_get? distinct (given?_eq_some_iff.1 found).1

theorem keysDistinct_of_familyValue {config : Entries} {family : Family}
    {value : Value} (distinct : (Value.map config).keysDistinct = true)
    (found : familyValue config family = some value) :
    value.keysDistinct = true := by
  have bordered {field : String}
      (inside : (Entries.given? "border" config).bind (fun border =>
        border.entries?.bind (Entries.given? field)) = some value) :
      value.keysDistinct = true := by
    obtain ⟨border, given, step⟩ := Option.bind_eq_some_iff.1 inside
    obtain ⟨entries, mapping, held⟩ := Option.bind_eq_some_iff.1 step
    rw [entries?_eq_some_iff] at mapping
    have borderDistinct := keysDistinct_of_given distinct given
    rw [mapping] at borderDistinct
    exact keysDistinct_of_given borderDistinct held
  cases family with
  | borderRadius => exact bordered found
  | borderWidth => exact bordered found
  | _ => exact keysDistinct_of_given distinct found

theorem keysDistinct_of_inside {field : String} {good : Value → Prop}
    {value : Value} (distinct : value.keysDistinct = true)
    (inside : Inside field good value) :
    ∃ held, good held ∧ held.keysDistinct = true := by
  obtain ⟨entries, rfl, held, found, isGood⟩ := inside
  exact ⟨held, isGood, Value.keysDistinct_of_get? distinct found⟩

theorem keysDistinct_of_lists {value : Value} {items : List Value}
    (distinct : value.keysDistinct = true) (lists : Lists value items) :
    ∀ item ∈ items, item.keysDistinct = true := by
  rcases lists with rfl | rfl
  · exact Value.itemKeysDistinct_iff.1 distinct
  · exact Value.itemKeysDistinct_iff.1 distinct

theorem IsFamily.keysDistinct {spacing : List String} {family : Family}
    {entries : Entries} {modes : List Acceptance.PlainMode}
    (isFamily : IsFamily spacing family entries modes)
    (distinct : (Value.map entries).keysDistinct = true) :
    ∀ mode ∈ modes, (Value.map mode.entries).keysDistinct = true := by
  obtain ⟨listing, given, items, listed, areModes⟩ := isFamily.listed
  have listingDistinct := Value.keysDistinct_of_get? distinct given
  intro mode member
  obtain ⟨item, inside, isMode⟩ :=
    Success.exists_left_of_mem areModes member
  rw [← isMode.mapping]
  exact keysDistinct_of_lists listingDistinct listed item inside

/-- Where all mappings of a configuration have each key once, so have the
tokens of every mode. -/
theorem keysDistinct_of_givesTokens {config : Value} {family : Family}
    {tokens : Entries} (distinct : config.keysDistinct = true)
    (gives : GivesTokens config family tokens) :
    Entries.keysDistinct tokens = true := by
  obtain ⟨entries, value, rfl, found, inside⟩ := gives
  obtain ⟨listing, ⟨items, listed, mode, member, held⟩, listingDistinct⟩ :=
    keysDistinct_of_inside (keysDistinct_of_familyValue distinct found) inside
  have modeDistinct :=
    keysDistinct_of_lists listingDistinct listed mode member
  obtain ⟨_, rfl, tokensDistinct⟩ :=
    keysDistinct_of_inside modeDistinct held
  exact (Value.keysDistinct_map_iff.1 tokensDistinct).1

end Grammar

end DesignTokens
