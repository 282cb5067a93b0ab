import Mathlib.Tactic

/-!
# Successful computations

When a computation that may fail gives a result: step by step, and over a
list.
-/

namespace DesignTokens.Success

universe u

section Steps

variable {fault other alpha beta : Type u}

theorem not_isOk_error {found : fault} :
    ¬ ∃ result : alpha, Except.error found = .ok result := by
  rintro ⟨_, ⟨⟩⟩

theorem bind_eq_ok {first : Except fault alpha}
    {next : alpha → Except fault beta} {result : beta} :
    (first >>= next) = .ok result ↔
      ∃ middle, first = .ok middle ∧ next middle = .ok result := by
  cases first with
  | error found => exact iff_of_false nofun nofun
  | ok middle => exact ⟨fun equal => ⟨middle, rfl, equal⟩,
      fun ⟨_, same, equal⟩ => by cases same; exact equal⟩

theorem ok_bind (value : alpha) (next : alpha → Except fault beta) :
    (Except.ok value >>= next) = next value := rfl

theorem map_bind {gamma : Type u} (f : alpha → beta)
    (outcome : Except fault alpha) (next : beta → Except fault gamma) :
    (outcome.map f >>= next) = outcome >>= fun value => next (f value) := by
  cases outcome <;> rfl

theorem mapError_eq_ok {outcome : Except fault alpha} (wrap : fault → other)
    {result : alpha} :
    outcome.mapError wrap = .ok result ↔ outcome = .ok result := by
  cases outcome <;> simp [Except.mapError]

theorem toOption_eq_some {outcome : Except fault alpha} {result : alpha} :
    outcome.toOption = some result ↔ outcome = .ok result := by
  cases outcome <;> simp [Except.toOption]

theorem map_eq_ok {outcome : Except fault alpha} {f : alpha → beta}
    {result : beta} :
    outcome.map f = .ok result ↔
      ∃ value, outcome = .ok value ∧ f value = result := by
  cases outcome <;> simp [Except.map]

end Steps

/-- A check that is passed gives nothing but its success. -/
theorem check_bind_eq_ok {fault alpha : Type} {check : Except fault Unit}
    {next : Unit → Except fault alpha} {result : alpha} :
    (check >>= next) = .ok result ↔
      check = .ok () ∧ next () = .ok result := by
  rw [bind_eq_ok]
  exact ⟨fun ⟨(), passed, following⟩ => ⟨passed, following⟩,
    fun ⟨passed, following⟩ => ⟨(), passed, following⟩⟩

section Lists

variable {fault alpha beta : Type}

theorem forM_eq_ok {items : List alpha} {act : alpha → Except fault Unit} :
    items.forM act = .ok () ↔ ∀ item ∈ items, act item = .ok () := by
  induction items with
  | nil => exact iff_of_true rfl nofun
  | cons item rest inductionHypothesis =>
      change (act item >>= fun _ => rest.forM act) = .ok () ↔ _
      rw [check_bind_eq_ok, List.forall_mem_cons, ← inductionHypothesis]

theorem exists_left_of_mem {related : alpha → beta → Prop}
    {items : List alpha} {results : List beta}
    (all : List.Forall₂ related items results) {result : beta}
    (member : result ∈ results) : ∃ item ∈ items, related item result := by
  induction all with
  | nil => cases member
  | cons first _ inductionHypothesis =>
      rcases List.mem_cons.1 member with rfl | later
      · exact ⟨_, List.mem_cons_self .., first⟩
      · obtain ⟨item, inside, held⟩ := inductionHypothesis later
        exact ⟨item, List.mem_cons_of_mem _ inside, held⟩

theorem exists_right_of_mem {related : alpha → beta → Prop}
    {items : List alpha} {results : List beta}
    (all : List.Forall₂ related items results) {item : alpha}
    (member : item ∈ items) : ∃ result ∈ results, related item result :=
  exists_left_of_mem all.flip member

/-- Items in another order have the same results in another order. -/
theorem exists_of_perm {related : alpha → beta → Prop}
    {items others : List alpha} {results : List beta}
    (perm : items.Perm others)
    (all : List.Forall₂ related items results) :
    ∃ more, results.Perm more ∧ List.Forall₂ related others more := by
  obtain ⟨more, relatedMore, same⟩ := List.perm_comp_forall₂ perm.symm all
  exact ⟨more, same.symm, relatedMore⟩

theorem mapM_eq_ok {items : List alpha} {act : alpha → Except fault beta}
    {results : List beta} :
    items.mapM act = .ok results ↔
      List.Forall₂ (fun item result => act item = .ok result) items
        results := by
  induction items generalizing results with
  | nil =>
      rw [List.mapM_nil, List.forall₂_nil_left_iff]
      exact ⟨fun equal => (Except.ok.inj equal).symm, fun equal => by
        rw [equal]; rfl⟩
  | cons item rest inductionHypothesis =>
      rw [List.mapM_cons, bind_eq_ok, List.forall₂_cons_left_iff]
      constructor
      · rintro ⟨result, first, following⟩
        obtain ⟨others, second, equal⟩ := bind_eq_ok.1 following
        exact ⟨result, others, first, inductionHypothesis.1 second,
          (Except.ok.inj equal).symm⟩
      · rintro ⟨result, others, first, second, rfl⟩
        exact ⟨result, first, bind_eq_ok.2
          ⟨others, inductionHypothesis.2 second, rfl⟩⟩

theorem exists_mapM_of_perm {items others : List alpha}
    {act : alpha → Except fault beta} {results : List beta}
    (perm : items.Perm others) (made : items.mapM act = .ok results) :
    ∃ more, results.Perm more ∧ others.mapM act = .ok more := by
  obtain ⟨more, same, related⟩ := exists_of_perm perm (mapM_eq_ok.1 made)
  exact ⟨more, same, mapM_eq_ok.2 related⟩

theorem mem_of_mapM {items : List alpha}
    {act : alpha → Except fault beta} {results : List beta}
    (made : items.mapM act = .ok results) {result : beta}
    (member : result ∈ results) : ∃ item ∈ items, act item = .ok result :=
  exists_left_of_mem (mapM_eq_ok.1 made) member

theorem mem_mapM_of_mem {items : List alpha}
    {act : alpha → Except fault beta} {results : List beta}
    (made : items.mapM act = .ok results) {item : alpha}
    (member : item ∈ items) :
    ∃ result ∈ results, act item = .ok result :=
  exists_right_of_mem (mapM_eq_ok.1 made) member

/-- Over a list there are results exactly where every item has one. -/
theorem exists_mapM_eq_ok {items : List alpha}
    {act : alpha → Except fault beta} :
    (∃ results, items.mapM act = .ok results) ↔
      ∀ item ∈ items, ∃ result, act item = .ok result := by
  induction items with
  | nil => exact iff_of_true ⟨[], rfl⟩ nofun
  | cons item rest inductionHypothesis =>
      rw [List.forall_mem_cons, ← inductionHypothesis]
      simp only [mapM_eq_ok, List.forall₂_cons_left_iff]
      constructor
      · rintro ⟨_, result, others, first, second, rfl⟩
        exact ⟨⟨result, first⟩, others, second⟩
      · rintro ⟨⟨result, first⟩, others, second⟩
        exact ⟨_, result, others, first, second, rfl⟩

end Lists

end DesignTokens.Success
