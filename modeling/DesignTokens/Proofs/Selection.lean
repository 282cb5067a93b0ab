import DesignTokens.Selection
import Mathlib.Tactic

/-!
# The default among modes

Where the default stands among the modes, and that the overrides are the modes
around it.
-/

namespace DesignTokens.Selection

variable {alpha : Type} {flagged : alpha → Bool}
  {modes earlier later : List alpha} {default : alpha}

/-- The default stands between these modes: it is the first one that is
flagged, or the first one of all where none is. -/
structure Split (flagged : alpha → Bool) (modes earlier : List alpha)
    (default : alpha) (later : List alpha) : Prop where
  parts : modes = earlier ++ default :: later
  first : flagged default = true ∧
      (∀ other ∈ earlier, flagged other = false) ∨
    earlier = [] ∧ ∀ other ∈ modes, flagged other = false

theorem exists_split (flagged : alpha → Bool) (nonempty : modes ≠ []) :
    ∃ earlier default later, Split flagged modes earlier default later := by
  cases found : modes.find? flagged with
  | some mode =>
      obtain ⟨held, earlier, later, parts, unflagged⟩ :=
        List.find?_eq_some_iff_append.1 found
      exact ⟨earlier, mode, later, parts, .inl ⟨held, fun other member => by
        simpa using unflagged other member⟩⟩
  | none =>
      obtain ⟨mode, later, parts⟩ := List.exists_cons_of_ne_nil nonempty
      exact ⟨[], mode, later, parts, .inr ⟨rfl, fun other member => by
        simpa using List.find?_eq_none.1 found other member⟩⟩

theorem Split.defaultIndex_eq
    (split : Split flagged modes earlier default later) :
    defaultIndex flagged modes = earlier.length := by
  rw [defaultIndex]
  rcases split.first with ⟨held, unflagged⟩ | ⟨rfl, unflagged⟩
  · have absent : earlier.findIdx? flagged = none :=
      List.findIdx?_eq_none_iff.2 unflagged
    rw [split.parts, List.findIdx?_append, absent, List.findIdx?_cons,
      if_pos held]
    simp
  · rw [List.findIdx?_eq_none_iff.2 unflagged]
    rfl

theorem Split.default?_eq
    (split : Split flagged modes earlier default later) :
    default? flagged modes = some default := by
  rw [default?, split.defaultIndex_eq, split.parts]
  simp

theorem Split.overrides_eq
    (split : Split flagged modes earlier default later) :
    overrides flagged modes = earlier ++ later := by
  rw [overrides, split.defaultIndex_eq, split.parts,
    List.eraseIdx_append_of_length_le le_rfl]
  simp

theorem Split.first_eq
    (split : Split flagged modes earlier default later) :
    (modes.find? flagged).or modes.head? = some default := by
  rcases split.first with ⟨held, unflagged⟩ | ⟨rfl, unflagged⟩
  · have absent : earlier.find? flagged = none :=
      List.find?_eq_none.2 (by simpa using unflagged)
    rw [split.parts, List.find?_append, absent, Option.none_or,
      List.find?_cons_of_pos held]
    rfl
  · have absent : modes.find? flagged = none :=
      List.find?_eq_none.2 (by simpa using unflagged)
    rw [absent, split.parts]
    rfl

/-- The overrides are the modes of other names, in order. -/
theorem Split.overrides_eq_filter {beta : Type} [DecidableEq beta]
    {name : alpha → beta}
    (split : Split flagged modes earlier default later)
    (distinct : (modes.map name).Nodup) :
    overrides flagged modes =
      modes.filter fun mode => name mode ≠ name default := by
  rw [split.parts, List.map_append, List.map_cons, List.nodup_middle,
    List.nodup_cons, List.mem_append, not_or] at distinct
  obtain ⟨⟨notEarlier, notLater⟩, -⟩ := distinct
  have others {part : List alpha} (absent : name default ∉ part.map name) :
      (part.filter fun mode => name mode ≠ name default) = part := by
    rw [List.filter_eq_self]
    intro mode member
    apply decide_eq_true
    intro same
    exact absent (same ▸ List.mem_map_of_mem member)
  rw [split.overrides_eq, split.parts, List.filter_append,
    List.filter_cons_of_neg (by simp), others notEarlier, others notLater]

/-- There are contenders as soon as two modes are flagged. -/
theorem Split.contenders_eq
    (split : Split flagged modes earlier default later) :
    contenders flagged modes =
      if 2 ≤ modes.countP flagged then
        some (default, (modes.filter flagged).tail)
      else none := by
  rw [contenders, List.countP_eq_length_filter]
  rcases split.first with ⟨held, unflagged⟩ | ⟨-, unflagged⟩
  · have front : earlier.filter flagged = [] :=
      List.filter_eq_nil_iff.2 (by simpa using unflagged)
    have found : modes.filter flagged =
        default :: later.filter flagged := by
      rw [split.parts, List.filter_append, front, List.nil_append,
        List.filter_cons_of_pos held]
    rw [found]
    cases later.filter flagged <;> simp
  · have found : modes.filter flagged = [] :=
      List.filter_eq_nil_iff.2 (by simpa using unflagged)
    rw [found]
    simp

/-! ## Marks -/

theorem map_fst_marked (flagged : alpha → Bool) (modes : List alpha) :
    (marked flagged modes).map Prod.fst = modes := by
  rw [marked, List.map_map]
  exact List.zipIdx_map_fst 0 modes

/-- No two modes are marked as the default. -/
theorem pairwise_marked (flagged : alpha → Bool) (modes : List alpha) :
    (marked flagged modes).Pairwise fun first second =>
      first.2 = true → second.2 = false := by
  have places : (modes.zipIdx.map Prod.snd).Pairwise (· < ·) := by
    rw [List.zipIdx_map_snd]
    exact List.pairwise_lt_range'
  rw [List.pairwise_map] at places
  rw [marked, List.pairwise_map]
  apply places.imp
  intro first second before isDefault
  have place : first.2 = defaultIndex flagged modes := by
    simpa using isDefault
  have later : second.2 ≠ defaultIndex flagged modes := by omega
  simpa using later

section Maps

variable {beta gamma : Type}

theorem overrides_map (f : alpha → beta) (flag : beta → Bool)
    (modes : List alpha) :
    overrides flag (modes.map f) = (overrides (flag ∘ f) modes).map f := by
  rw [overrides, overrides, List.eraseIdx_map, defaultIndex, defaultIndex,
    List.findIdx?_map]

theorem default?_map (f : alpha → beta) (flag : beta → Bool)
    (modes : List alpha) :
    default? flag (modes.map f) = (default? (flag ∘ f) modes).map f := by
  rw [default?, default?, List.getElem?_map, defaultIndex, defaultIndex,
    List.findIdx?_map]

theorem marked_map (f : alpha → beta) (flag : beta → Bool)
    (modes : List alpha) :
    marked flag (modes.map f) =
      (marked (flag ∘ f) modes).map fun entry => (f entry.1, entry.2) := by
  have index : defaultIndex flag (modes.map f) =
      defaultIndex (flag ∘ f) modes := by
    rw [defaultIndex, defaultIndex, List.findIdx?_map]
  rw [marked, marked, index, List.zipIdx_map, List.map_map, List.map_map]
  rfl

theorem contenders_map (f : alpha → beta) (flag : beta → Bool)
    (modes : List alpha) :
    contenders flag (modes.map f) =
      (contenders (flag ∘ f) modes).map fun found =>
        (f found.1, found.2.map f) := by
  rw [contenders, contenders, List.filter_map]
  cases modes.filter (flag ∘ f) with
  | nil => rfl
  | cons first rest => cases rest <;> rfl

theorem labels_eq {flag : beta → Bool} {others : List beta}
    {f : alpha → gamma} {g : beta → gamma}
    (same : List.Forall₂
      (fun mode other => f mode = g other ∧ flagged mode = flag other)
      modes others) :
    modes.map (fun mode => (f mode, flagged mode)) =
      others.map fun other => (g other, flag other) := by
  induction same with
  | nil => rfl
  | cons agree _ inductionHypothesis =>
      rw [List.map_cons, List.map_cons, inductionHypothesis, agree.1,
        agree.2]

/-- Modes that agree on their names and flags agree on the names of their
overrides. -/
theorem map_overrides_eq {flag : beta → Bool} {others : List beta}
    {f : alpha → gamma} {g : beta → gamma}
    (same : List.Forall₂
      (fun mode other => f mode = g other ∧ flagged mode = flag other)
      modes others) :
    (overrides flagged modes).map f = (overrides flag others).map g := by
  have left := overrides_map (fun mode => (f mode, flagged mode)) Prod.snd
    modes
  have right := overrides_map (fun other => (g other, flag other)) Prod.snd
    others
  rw [labels_eq same, right] at left
  have names := congrArg (List.map Prod.fst) left
  simp only [List.map_map] at names
  exact names.symm

/-- They agree on the name of their default, too. -/
theorem map_default?_eq {flag : beta → Bool} {others : List beta}
    {f : alpha → gamma} {g : beta → gamma}
    (same : List.Forall₂
      (fun mode other => f mode = g other ∧ flagged mode = flag other)
      modes others) :
    (default? flagged modes).map f = (default? flag others).map g := by
  have left := default?_map (fun mode => (f mode, flagged mode)) Prod.snd
    modes
  have right := default?_map (fun other => (g other, flag other)) Prod.snd
    others
  rw [labels_eq same, right] at left
  have names := congrArg (Option.map Prod.fst) left
  simp only [Option.map_map] at names
  exact names.symm

end Maps

/-! ## Orders -/

section Orders

variable {others : List alpha}

/-- The same modes in any order, as long as the default stays the same. -/
structure Reordered (flagged : alpha → Bool) (modes others : List alpha) :
    Prop where
  perm : modes.Perm others
  default : default? flagged modes = default? flagged others

theorem mem_of_default? (chosen : default? flagged modes = some default) :
    default ∈ modes :=
  List.mem_of_getElem? chosen

theorem perm_default_overrides
    (chosen : default? flagged modes = some default) :
    (default :: overrides flagged modes).Perm modes := by
  obtain ⟨inside, rfl⟩ := List.getElem?_eq_some_iff.1 chosen
  exact List.getElem_cons_eraseIdx_perm inside

theorem default?_eq_none_iff :
    default? flagged modes = none ↔ modes = [] := by
  constructor
  · intro missing
    by_contra nonempty
    obtain ⟨_, _, _, split⟩ := exists_split flagged nonempty
    rw [split.default?_eq] at missing
    cases missing
  · rintro rfl
    rfl

theorem Reordered.overrides (reordered : Reordered flagged modes others) :
    (Selection.overrides flagged modes).Perm
      (Selection.overrides flagged others) := by
  cases chosen : default? flagged modes with
  | none =>
      have empty := default?_eq_none_iff.1 chosen
      have perm := reordered.perm
      rw [empty] at perm
      rw [empty, perm.nil_eq.symm]
  | some default =>
      have same := reordered.default.symm.trans chosen
      have both := (perm_default_overrides chosen).trans
        (reordered.perm.trans (perm_default_overrides same).symm)
      exact both.cons_inv

/-- Modes with names of their own have the same default as soon as it has the
same name. -/
theorem reordered_of_names {beta : Type} {name : alpha → beta}
    (perm : modes.Perm others) (distinct : (modes.map name).Nodup)
    (same : (default? flagged modes).map name =
      (default? flagged others).map name) :
    Reordered flagged modes others := by
  refine ⟨perm, ?_⟩
  cases chosen : default? flagged modes with
  | none =>
      rw [chosen] at same
      exact (Option.map_eq_none_iff.1 same.symm).symm
  | some mode =>
      rw [chosen] at same
      obtain ⟨other, found, equal⟩ := Option.map_eq_some_iff.1 same.symm
      have inside := perm.mem_iff.2 (mem_of_default? found)
      rw [found, List.inj_on_of_nodup_map distinct inside
        (mem_of_default? chosen) equal]

/-- Among modes with names of their own the default is marked by its name. -/
theorem marked_eq {beta : Type} [DecidableEq beta] {name : alpha → beta}
    (distinct : (modes.map name).Nodup)
    (chosen : default? flagged modes = some default) :
    marked flagged modes = modes.map fun mode =>
      (mode, decide (name mode = name default)) := by
  obtain ⟨inside, rfl⟩ := List.getElem?_eq_some_iff.1 chosen
  apply List.ext_getElem
  · simp [marked]
  · intro index left right
    have within : index < modes.length := by simpa [marked] using left
    have place : index = defaultIndex flagged modes ↔
        name modes[index] = name modes[defaultIndex flagged modes] := by
      have apart := @List.Nodup.getElem_inj_iff _ _ distinct index
        (by simpa using within) (defaultIndex flagged modes)
        (by simpa using inside)
      simpa using apart.symm
    have mark : (index == defaultIndex flagged modes) =
        decide (name modes[index] =
          name modes[defaultIndex flagged modes]) := by
      rw [Bool.eq_iff_iff, beq_iff_eq, decide_eq_true_eq]
      exact place
    simp [marked, mark]

theorem Reordered.marked {beta : Type} {name : alpha → beta}
    (reordered : Reordered flagged modes others)
    (distinct : (modes.map name).Nodup) :
    (Selection.marked flagged modes).Perm
      (Selection.marked flagged others) := by
  classical
  cases chosen : default? flagged modes with
  | none =>
      have empty := default?_eq_none_iff.1 chosen
      have perm := reordered.perm
      rw [empty] at perm
      rw [empty, perm.nil_eq.symm]
  | some default =>
      have apart := (reordered.perm.map name).nodup_iff.1 distinct
      rw [marked_eq distinct chosen,
        marked_eq apart (reordered.default.symm.trans chosen)]
      exact reordered.perm.map _

/-- Names of their own lead to the same modes in any order. -/
theorem find?_eq_of_perm {beta : Type} [DecidableEq beta]
    {name : alpha → beta} (perm : modes.Perm others)
    (distinct : (modes.map name).Nodup) (key : beta) :
    (modes.find? fun mode => name mode = key) =
      others.find? fun mode => name mode = key := by
  cases found : modes.find? fun mode => name mode = key with
  | none =>
      rw [List.find?_eq_none] at found
      apply Eq.symm
      rw [List.find?_eq_none]
      exact fun mode member => found mode (perm.mem_iff.2 member)
  | some mode =>
      have named : name mode = key := by simpa using List.find?_some found
      have inside := List.mem_of_find?_eq_some found
      cases again : others.find? fun mode => name mode = key with
      | none =>
          rw [List.find?_eq_none] at again
          have differs := again mode (perm.mem_iff.1 inside)
          simp [named] at differs
      | some other =>
          have same : name other = key := by simpa using List.find?_some again
          have among := perm.mem_iff.2 (List.mem_of_find?_eq_some again)
          rw [List.inj_on_of_nodup_map distinct inside among
            (named.trans same.symm)]

end Orders

end DesignTokens.Selection
