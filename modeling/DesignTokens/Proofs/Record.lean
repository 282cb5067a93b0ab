import DesignTokens.Record
import Mathlib.Tactic

/-!
# Entries of ordered records

A record holds nothing but what was written into it.
-/

namespace DesignTokens.Record

variable {alpha : Type} {entry : String × alpha}

theorem mem_put {name : String} {value : alpha} {record : Record alpha}
    (member : entry ∈ put name value record) :
    entry = (name, value) ∨ entry ∈ record := by
  induction record with
  | nil => exact .inl (List.mem_singleton.1 member)
  | cons held rest inductionHypothesis =>
      obtain ⟨key, old⟩ := held
      rw [put] at member
      split at member
      · rename_i same
        rcases List.mem_cons.1 member with rfl | later
        · exact .inl (congrArg (·, value) same)
        · exact .inr (List.mem_cons_of_mem _ later)
      · rcases List.mem_cons.1 member with rfl | later
        · exact .inr (List.mem_cons_self ..)
        · exact (inductionHypothesis later).imp_right
            (List.mem_cons_of_mem _)

theorem mem_overlay {base top : Record alpha}
    (member : entry ∈ overlay base top) : entry ∈ base ∨ entry ∈ top := by
  induction top generalizing base with
  | nil => exact .inl member
  | cons first rest inductionHypothesis =>
      rcases inductionHypothesis member with written | later
      · rcases mem_put written with rfl | kept
        · exact .inr (List.mem_cons_self ..)
        · exact .inl kept
      · exact .inr (List.mem_cons_of_mem _ later)

theorem mem_ofList {entries : List (String × alpha)}
    (member : entry ∈ ofList entries) : entry ∈ entries :=
  (mem_overlay member).resolve_left List.not_mem_nil

theorem mem_of_lookup {record : Record alpha} {name : String} {value : alpha}
    (found : record.lookup name = some value) : (name, value) ∈ record := by
  induction record with
  | nil => cases found
  | cons first rest inductionHypothesis =>
      obtain ⟨key, held⟩ := first
      by_cases same : name = key
      · subst same
        rw [List.lookup_cons_self] at found
        cases found
        exact List.mem_cons_self ..
      · rw [List.lookup_cons, beq_false_of_ne same] at found
        exact List.mem_cons_of_mem _ (inductionHypothesis found)

/-! ## Finding values -/

theorem lookup_cons_of_ne {key name : String} {value : alpha}
    {rest : Record alpha} (different : name ≠ key) :
    List.lookup name ((key, value) :: rest) = rest.lookup name := by
  rw [List.lookup_cons, beq_false_of_ne different]

theorem mem_names {record : Record alpha} (member : entry ∈ record) :
    entry.1 ∈ record.names :=
  List.mem_map.2 ⟨entry, member, rfl⟩

theorem lookup_eq_none {record : Record alpha} {name : String}
    (absent : name ∉ record.names) : record.lookup name = none := by
  rw [List.lookup_eq_none_iff]
  intro entry member
  have different : name ≠ entry.1 := by
    intro same
    exact absent (same ▸ mem_names member)
  simpa using different

theorem lookup_of_mem {record : Record alpha} {name : String} {value : alpha}
    (distinct : record.names.Nodup) (member : (name, value) ∈ record) :
    record.lookup name = some value := by
  induction record with
  | nil => cases member
  | cons first rest inductionHypothesis =>
      have parts := List.nodup_cons.1 distinct
      rcases List.mem_cons.1 member with same | later
      · rw [← same, List.lookup_cons_self]
      · have different : name ≠ first.1 := by
          intro same
          exact parts.1 (same ▸ mem_names later)
        rw [lookup_cons_of_ne different]
        exact inductionHypothesis parts.2 later

theorem lookup_isSome_of_mem {record : Record alpha}
    (member : entry ∈ record) :
    ∃ value, record.lookup entry.1 = some value := by
  apply Option.ne_none_iff_exists'.1
  intro absent
  have differs := List.lookup_eq_none_iff.1 absent entry member
  simp at differs

theorem lookup_filter_eq_none {record : Record alpha} {name : String}
    (keep : String × alpha → Bool) (absent : record.lookup name = none) :
    List.lookup name (record.filter keep) = none := by
  rw [List.lookup_eq_none_iff] at absent ⊢
  intro entry member
  exact absent entry (List.mem_filter.1 member).1

theorem eq_of_mem_of_name {record : Record alpha} {other : String × alpha}
    (distinct : record.names.Nodup) (member : entry ∈ record)
    (inside : other ∈ record) (same : entry.1 = other.1) : entry = other := by
  have found := lookup_of_mem distinct inside
  rw [← same, lookup_of_mem distinct member] at found
  exact Prod.ext same (Option.some.inj found)

/-- An entry is found among those that are kept if it is kept itself. -/
theorem lookup_filter {record : Record alpha}
    (distinct : record.names.Nodup) (keep : String × alpha → Bool)
    (member : entry ∈ record) :
    List.lookup entry.1 (record.filter keep) =
      if keep entry then some entry.2 else none := by
  have kept : (names (record.filter keep)).Nodup :=
    distinct.sublist (List.filter_sublist.map Prod.fst)
  by_cases keeps : keep entry = true
  · rw [if_pos keeps]
    exact lookup_of_mem kept (List.mem_filter.2 ⟨member, keeps⟩)
  · rw [if_neg keeps]
    apply lookup_eq_none
    intro listed
    obtain ⟨other, inKept, same⟩ := List.mem_map.1 listed
    have parts := List.mem_filter.1 inKept
    have equal := eq_of_mem_of_name distinct parts.1 member same
    exact keeps (equal ▸ parts.2)

theorem lookup_put (name key : String) (value : alpha)
    (record : Record alpha) :
    (put name value record).lookup key =
      if key = name then some value else record.lookup key := by
  induction record with
  | nil =>
      by_cases same : key = name
      · subst same
        simp [put]
      · simp [put, same]
  | cons first rest inductionHypothesis =>
      obtain ⟨known, held⟩ := first
      rw [put]
      by_cases written : known = name
      · subst written
        rw [if_pos rfl]
        by_cases same : key = known
        · subst same
          simp
        · rw [lookup_cons_of_ne same, lookup_cons_of_ne same, if_neg same]
      · rw [if_neg written]
        by_cases same : key = known
        · subst same
          simp [written]
        · rw [lookup_cons_of_ne same, lookup_cons_of_ne same,
            inductionHypothesis]

/-- What is written over a record is found before what it held. -/
theorem lookup_overlay {base top : Record alpha} (name : String)
    (distinct : top.names.Nodup) :
    (overlay base top).lookup name =
      (top.lookup name).or (base.lookup name) := by
  induction top generalizing base with
  | nil => rfl
  | cons first rest inductionHypothesis =>
      obtain ⟨key, value⟩ := first
      have parts := List.nodup_cons.1 distinct
      change (overlay (put key value base) rest).lookup name = _
      rw [inductionHypothesis parts.2, lookup_put]
      by_cases same : name = key
      · subst same
        rw [lookup_eq_none parts.1]
        simp
      · rw [lookup_cons_of_ne same, if_neg same]

/-! ## Orders -/

theorem lookup_eq_of_perm {record other : Record alpha}
    (perm : record.Perm other) (distinct : record.names.Nodup)
    (name : String) : record.lookup name = other.lookup name := by
  have apart : other.names.Nodup := (perm.map Prod.fst).nodup_iff.1 distinct
  cases found : record.lookup name with
  | some value =>
      have member := perm.mem_iff.1 (mem_of_lookup found)
      exact (lookup_of_mem apart member).symm
  | none =>
      rw [List.lookup_eq_none_iff] at found
      apply Eq.symm
      rw [List.lookup_eq_none_iff]
      exact fun entry member => found entry (perm.mem_iff.2 member)

/-- Records that hold the same under every name differ in their order only. -/
theorem perm_of_lookup_eq {record other : Record alpha}
    (distinct : record.names.Nodup) (apart : other.names.Nodup)
    (same : ∀ name, record.lookup name = other.lookup name) :
    record.Perm other := by
  have entries : record.Nodup := distinct.of_map
  have others : other.Nodup := apart.of_map
  apply (List.perm_ext_iff_of_nodup entries others).2
  intro entry
  constructor
  · intro member
    have found := lookup_of_mem distinct member
    rw [same] at found
    exact mem_of_lookup found
  · intro member
    have found := lookup_of_mem apart member
    rw [← same] at found
    exact mem_of_lookup found

/-! ## Writing new names -/

theorem put_of_not_mem {name : String} {value : alpha}
    {record : Record alpha} (absent : name ∉ record.names) :
    put name value record = record ++ [(name, value)] := by
  induction record with
  | nil => rfl
  | cons first rest inductionHypothesis =>
      have different : first.1 ≠ name :=
        (List.ne_of_not_mem_cons absent).symm
      have later := List.not_mem_of_not_mem_cons absent
      rw [put, if_neg different, inductionHypothesis later]
      rfl

theorem names_put_of_mem {name : String} {value : alpha}
    {record : Record alpha} (known : name ∈ record.names) :
    (put name value record).names = record.names := by
  induction record with
  | nil => cases known
  | cons first rest inductionHypothesis =>
      rw [put]
      by_cases written : first.1 = name
      · rw [if_pos written]
        rfl
      · have later : name ∈ names rest :=
          (List.mem_cons.1 known).resolve_left (Ne.symm written)
        rw [if_neg written]
        exact congrArg (first.1 :: ·) (inductionHypothesis later)

theorem nodup_names_put {record : Record alpha}
    (distinct : record.names.Nodup) (name : String) (value : alpha) :
    (put name value record).names.Nodup := by
  by_cases known : name ∈ record.names
  · rwa [names_put_of_mem known]
  · rw [put_of_not_mem known, names, List.map_append]
    exact distinct.append (List.nodup_singleton name)
      (List.disjoint_singleton.2 known)

theorem overlay_of_nodup {base top : Record alpha}
    (distinct : (base ++ top).names.Nodup) :
    overlay base top = base ++ top := by
  induction top generalizing base with
  | nil => exact (List.append_nil base).symm
  | cons first rest inductionHypothesis =>
      have absent : first.1 ∉ base.names := by
        intro inBase
        rw [names, List.map_append] at distinct
        exact (List.nodup_append.1 distinct).2.2 _ inBase _
          (List.mem_cons_self ..) rfl
      change overlay (put first.1 first.2 base) rest = _
      rw [put_of_not_mem absent, inductionHypothesis]
      · exact List.append_assoc base [first] rest
      · rwa [List.append_assoc]

/-- Entries under different names are a record as they are. -/
theorem ofList_of_nodup {entries : List (String × alpha)}
    (distinct : (names entries).Nodup) : ofList entries = entries :=
  overlay_of_nodup (List.nil_append entries ▸ distinct)

theorem ofList_perm {entries others : List (String × alpha)}
    (perm : entries.Perm others) (distinct : (names entries).Nodup) :
    (ofList entries).Perm (ofList others) := by
  have apart : (names others).Nodup :=
    (perm.map Prod.fst).nodup_iff.1 distinct
  rwa [ofList_of_nodup distinct, ofList_of_nodup apart]

/-! ## Changing values -/

section Map

variable {beta : Type}

/-- A record with every value changed; the names stay. -/
def mapValues (f : alpha → beta) (record : Record alpha) : Record beta :=
  record.map fun entry => (entry.1, f entry.2)

theorem names_mapValues (f : alpha → beta) (record : Record alpha) :
    (mapValues f record).names = record.names :=
  List.map_map

theorem mapValues_eq_nil_iff {f : alpha → beta} {record : Record alpha} :
    mapValues f record = [] ↔ record = [] :=
  List.map_eq_nil_iff

theorem mapValues_put (f : alpha → beta) (name : String) (value : alpha)
    (record : Record alpha) :
    mapValues f (put name value record) =
      put name (f value) (mapValues f record) := by
  induction record with
  | nil => rfl
  | cons first rest inductionHypothesis =>
      rw [put]
      by_cases written : first.1 = name
      · rw [if_pos written]
        simp [mapValues, put, written]
      · rw [if_neg written]
        have kept := congrArg ((first.1, f first.2) :: ·) inductionHypothesis
        simpa [mapValues, put, written] using kept

/-- It is the same to change values before or after they are written over
others. -/
theorem mapValues_overlay (f : alpha → beta) (base top : Record alpha) :
    mapValues f (overlay base top) =
      overlay (mapValues f base) (mapValues f top) := by
  induction top generalizing base with
  | nil => rfl
  | cons first rest inductionHypothesis =>
      change mapValues f (overlay (put first.1 first.2 base) rest) = _
      rw [inductionHypothesis, mapValues_put]
      rfl

theorem mapValues_eq_self_iff {f : alpha → alpha}
    {record : Record alpha} :
    mapValues f record = record ↔ ∀ entry ∈ record,
      f entry.2 = entry.2 := by
  induction record with
  | nil => exact iff_of_true rfl (List.forall_mem_nil _)
  | cons first rest inductionHypothesis =>
      rw [List.forall_mem_cons, ← inductionHypothesis]
      simp [mapValues, Prod.ext_iff]

end Map

end DesignTokens.Record
