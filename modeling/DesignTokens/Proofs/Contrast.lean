import DesignTokens.Contrast
import DesignTokens.Proofs.Number.Exact
import DesignTokens.Proofs.Record
import DesignTokens.Proofs.Success

/-!
# Headroom and the verdict

In exact arithmetic the least headroom among the colours of a verdict is the
distance between the groups less the required one. The verdict is favourable
exactly where no colour breaks its limit.
-/

namespace DesignTokens.Contrast

open Number Success

/-! ## Extremes of a group -/

section Extremes

variable {alpha : Type} [LinearOrder alpha]

theorem isGreatest_largest (first : alpha) (rest : List alpha) :
    IsGreatest {number | number ∈ first :: rest} (largest first rest) := by
  induction rest generalizing first with
  | nil => simp [largest, IsGreatest, upperBounds]
  | cons next rest inductionHypothesis =>
      have better : largest first (next :: rest) =
          largest (max first next) rest := by
        rw [max_def_lt]
        rfl
      obtain ⟨member, above⟩ := inductionHypothesis (max first next)
      rw [better]
      constructor
      · rcases List.mem_cons.1 member with same | later
        · rcases max_choice first next with left | right
          · rw [same, left]
            exact List.mem_cons_self ..
          · rw [same, right]
            exact List.mem_cons_of_mem _ (List.mem_cons_self ..)
        · exact List.mem_cons_of_mem _ (List.mem_cons_of_mem _ later)
      · have top := above (List.mem_cons_self ..)
        intro number listed
        rcases List.mem_cons.1 listed with rfl | others
        · exact (le_max_left number next).trans top
        · rcases List.mem_cons.1 others with rfl | later
          · exact (le_max_right first number).trans top
          · exact above (List.mem_cons_of_mem _ later)

/-- The smallest number is the largest one in the opposite order. -/
theorem isLeast_smallest (first : alpha) (rest : List alpha) :
    IsLeast {number | number ∈ first :: rest} (smallest first rest) :=
  @isGreatest_largest alphaᵒᵈ _ first rest

end Extremes

/-! ## Headrooms -/

section Headrooms

variable {alpha : Type}

/-- The headrooms that are reported. -/
def headrooms (colors : Record (Diagnostic alpha)) : Set alpha :=
  {room | ∃ entry ∈ colors, entry.2.headroom = room}

/-- A least headroom that is written over others stays the least one, where
none of those is less. -/
theorem isLeast_headrooms_overlay [Preorder alpha]
    {base top : Record (Diagnostic alpha)} {least : alpha}
    (distinct : top.names.Nodup)
    (below : least ∈ lowerBounds (headrooms base))
    (held : IsLeast (headrooms top) least) :
    IsLeast (headrooms (Record.overlay base top)) least := by
  constructor
  · obtain ⟨entry, inside, same⟩ := held.1
    have found : (Record.overlay base top).lookup entry.1 =
        (top.lookup entry.1).or (base.lookup entry.1) :=
      Record.lookup_overlay entry.1 distinct
    rw [Record.lookup_of_mem distinct inside] at found
    exact ⟨_, Record.mem_of_lookup found, same⟩
  · intro room reported
    obtain ⟨entry, inside, same⟩ := reported
    rcases Record.mem_overlay inside with inBase | inTop
    · exact below ⟨entry, inBase, same⟩
    · exact held.2 ⟨entry, inTop, same⟩

theorem exists_values {colors : Record alpha} (filled : colors ≠ []) :
    ∃ first rest, colors.map Prod.snd = first :: rest :=
  List.exists_cons_of_ne_nil (mt List.map_eq_nil_iff.1 filled)

variable [AddCommGroup alpha]

theorem names_diagnose (group : Group) (bound : Bound) (limit : alpha)
    (colors : Record alpha) :
    (diagnose group bound limit colors).names = colors.names := by
  rw [Record.names, diagnose, List.map_map]
  rfl

theorem headrooms_diagnose (group : Group) (bound : Bound) (limit : alpha)
    (colors : Record alpha) :
    headrooms (diagnose group bound limit colors) =
      headroom bound limit '' {number | number ∈ colors.map Prod.snd} := by
  ext room
  constructor
  · rintro ⟨_, reported, rfl⟩
    obtain ⟨entry, inside, rfl⟩ := List.mem_map.1 reported
    exact ⟨entry.2, List.mem_map_of_mem inside, rfl⟩
  · rintro ⟨_, measured, rfl⟩
    obtain ⟨entry, inside, rfl⟩ := List.mem_map.1 measured
    exact ⟨_, List.mem_map_of_mem inside, rfl⟩

variable [LinearOrder alpha] [IsOrderedAddMonoid alpha]

theorem isLeast_headrooms_most (group : Group) (limit : alpha)
    {colors : Record alpha} {first : alpha} {rest : List alpha}
    (values : colors.map Prod.snd = first :: rest) :
    IsLeast (headrooms (diagnose group .most limit colors))
      (limit - largest first rest) := by
  have falling : Antitone (headroom Bound.most limit) :=
    fun _ _ higher => sub_le_sub_left higher limit
  rw [headrooms_diagnose, values]
  exact falling.map_isGreatest (isGreatest_largest first rest)

theorem isLeast_headrooms_least (group : Group) (limit : alpha)
    {colors : Record alpha} {first : alpha} {rest : List alpha}
    (values : colors.map Prod.snd = first :: rest) :
    IsLeast (headrooms (diagnose group .least limit colors))
      (smallest first rest - limit) := by
  have rising : Monotone (headroom Bound.least limit) :=
    fun _ _ higher => sub_le_sub_right higher limit
  rw [headrooms_diagnose, values]
  exact rising.map_isLeast (isLeast_smallest first rest)

end Headrooms

/-! ## Judgements -/

section Judgement

variable {alpha : Type} [LT alpha] [DecidableLT alpha] [Add alpha]
  [Sub alpha] [LE alpha] [DecidableLE alpha] [OfNat alpha 0]
  {background foreground : Record alpha}

theorem judge_of_empty (polarity : Polarity) (required : alpha)
    (empty : background = [] ∨ foreground = []) :
    judge polarity required background foreground =
      undecided polarity required := by
  rcases empty with rfl | rfl
  · rfl
  · cases background <;> rfl

theorem judge_required (polarity : Polarity) (required : alpha)
    (background foreground : Record alpha) :
    (judge polarity required background foreground).required =
      required := by
  unfold judge
  split <;> rfl

theorem judge_colors (polarity : Polarity) (required : alpha)
    (behind : background ≠ []) (ahead : foreground ≠ []) :
    (judge polarity required background foreground).colors =
      Record.overlay
        (diagnose .background (polarity.bound .background)
          (judge polarity required background foreground).backgroundLimit
          background)
        (diagnose .foreground (polarity.bound .foreground)
          (judge polarity required background foreground).foregroundLimit
          foreground) := by
  obtain ⟨first, others, values⟩ := exists_values behind
  obtain ⟨other, rest, more⟩ := exists_values ahead
  rw [judge, values, more]

theorem judge_valid (polarity : Polarity) (required : alpha)
    (behind : background ≠ []) (ahead : foreground ≠ []) :
    (judge polarity required background foreground).valid =
      decide (required ≤
        (judge polarity required background foreground).actual) := by
  obtain ⟨first, others, values⟩ := exists_values behind
  obtain ⟨other, rest, more⟩ := exists_values ahead
  rw [judge, values, more]

end Judgement

section Verdicts

variable {alpha : Type} [AddCommGroup alpha] [LinearOrder alpha]
  [IsOrderedAddMonoid alpha] {background foreground : Record alpha}

/-- Each group has its least headroom at the colour nearest to the other
group, and both groups have the same one. -/
theorem isLeast_headrooms_judge (polarity : Polarity) (required : alpha)
    (distinct : foreground.names.Nodup) (behind : background ≠ [])
    (ahead : foreground ≠ []) :
    IsLeast (headrooms (judge polarity required background foreground).colors)
      ((judge polarity required background foreground).actual -
        required) := by
  obtain ⟨first, others, values⟩ := exists_values behind
  obtain ⟨other, rest, more⟩ := exists_values ahead
  have apart (bound : Bound) (limit : alpha) :
      (diagnose .foreground bound limit foreground).names.Nodup := by
    rwa [names_diagnose]
  rw [judge, values, more]
  cases polarity with
  | negative =>
      have dark := isLeast_headrooms_most .background
        (smallest other rest - required) values
      have light := isLeast_headrooms_least .foreground
        (largest first others + required) more
      rw [sub_right_comm] at dark
      rw [← sub_sub] at light
      exact isLeast_headrooms_overlay (apart ..) dark.2 light
  | positive =>
      have light := isLeast_headrooms_least .background
        (largest other rest + required) values
      have dark := isLeast_headrooms_most .foreground
        (smallest first others - required) more
      rw [← sub_sub] at light
      rw [sub_right_comm] at dark
      exact isLeast_headrooms_overlay (apart ..) light.2 dark

theorem judge_valid_iff (polarity : Polarity) (required : alpha)
    (distinct : foreground.names.Nodup) (behind : background ≠ [])
    (ahead : foreground ≠ []) :
    (judge polarity required background foreground).valid = true ↔
      ∀ entry ∈ (judge polarity required background foreground).colors,
        0 ≤ entry.2.headroom := by
  have least :=
    isLeast_headrooms_judge polarity required distinct behind ahead
  rw [judge_valid polarity required behind ahead, decide_eq_true_iff,
    ← sub_nonneg]
  constructor
  · intro enough entry reported
    exact enough.trans (least.2 ⟨entry, reported, rfl⟩)
  · intro unbroken
    obtain ⟨entry, reported, same⟩ := least.1
    exact same ▸ unbroken entry reported

end Verdicts

/-! ## Colours by key -/

/-- There is a finite lightness, or no colour, under a key. -/
def Measured (colors : Value) (key : String) : Prop :=
  ∃ found, lightness? colors key = .ok found ∧
    ∀ lightness, found = some lightness → lightness.isFinite = true

/-- Some of the keys have a colour. -/
def Filled (colors : Value) (keys : List String) : Prop :=
  ∃ key ∈ keys, ∃ lightness, lightness? colors key = .ok (some lightness)

/-- Each key has one lightness, and it is a finite one. -/
structure Finite (found : Record Float) : Prop where
  distinct : found.names.Nodup
  finite : ∀ entry ∈ found, entry.2.isFinite = true

theorem Finite.put {found : Record Float} (sound : Finite found)
    (key : String) {lightness : Float}
    (finite : lightness.isFinite = true) :
    Finite (Record.put key lightness found) where
  distinct := Record.nodup_names_put sound.distinct key lightness
  finite entry member := by
    rcases Record.mem_put member with written | kept
    · rw [written]
      exact finite
    · exact sound.finite entry kept

theorem exists_lightnesses {colors : Value} {keys : List String}
    (measured : ∀ key ∈ keys, Measured colors key) {held : Record Float}
    (sound : Finite held) :
    ∃ found, lightnesses colors held keys = .ok found ∧ Finite found ∧
      (found ≠ [] ↔ held ≠ [] ∨ Filled colors keys) := by
  induction keys generalizing held with
  | nil => exact ⟨held, rfl, sound, by simp [Filled]⟩
  | cons key rest inductionHypothesis =>
      have later := fun other inside =>
        measured other (List.mem_cons_of_mem key inside)
      obtain ⟨lightness, read, finite⟩ := measured key (List.mem_cons_self ..)
      cases lightness with
      | none =>
          obtain ⟨found, made, soundly, filled⟩ :=
            inductionHypothesis later sound
          refine ⟨found, ?_, soundly, ?_⟩
          · rw [lightnesses, read]
            exact made
          · simpa [Filled, read] using filled
      | some number =>
          have written : Record.put key number held ≠ [] :=
            List.ne_nil_of_mem (Record.mem_of_lookup
              ((Record.lookup_put ..).trans (if_pos rfl)))
          obtain ⟨found, made, soundly, filled⟩ := inductionHypothesis later
            (sound.put key (finite number rfl))
          refine ⟨found, ?_, soundly, ?_⟩
          · rw [lightnesses, read]
            exact made
          · exact iff_of_true (filled.2 (.inl written))
              (.inr ⟨key, List.mem_cons_self .., number, read⟩)

theorem lightnesses_eq_ok {colors : Value} {keys : List String}
    (measured : ∀ key ∈ keys, Measured colors key) :
    ∃ found, lightnesses colors [] keys = .ok found ∧ Finite found ∧
      (found ≠ [] ↔ Filled colors keys) := by
  have none : Finite [] := ⟨List.nodup_nil, nofun⟩
  simpa using exists_lightnesses measured none

/-! ## The exact reading -/

/-- The number that a finite double is exactly. -/
def exactly (x : Float) : ℚ :=
  (exactValue? x).getD 0

theorem exactValue?_eq_exactly {x : Float} (finite : x.isFinite = true) :
    exactValue? x = some (exactly x) := by
  obtain ⟨number, exact⟩ := (isFinite_iff_exact x).1 finite
  rw [exactly, exact]
  rfl

/-- Judge the colours of a mapping with exact sums and differences. -/
def Constraint.checkExactly (constraint : Constraint) (colors : Value) :
    Except Fault (Verdict ℚ) := do
  let background ← lightnesses colors [] constraint.background
  let foreground ← lightnesses colors [] constraint.foreground
  return judge constraint.polarity (exactly constraint.required)
    (Record.mapValues exactly background)
    (Record.mapValues exactly foreground)

/-- Two verdicts report the same colours, in the same groups and with the same
lightness. -/
def SameColors (verdict : Verdict Float) (exact : Verdict ℚ) : Prop :=
  Record.mapValues (fun color => (color.group, exactValue? color.lightness))
      verdict.colors =
    Record.mapValues (fun color => (color.group, some color.lightness))
      exact.colors

theorem sameColors_diagnose (group : Group) (bound : Bound) (limit : Float)
    (exactLimit : ℚ) {colors : Record Float} (sound : Finite colors) :
    Record.mapValues (fun color => (color.group, exactValue? color.lightness))
        (diagnose group bound limit colors) =
      Record.mapValues (fun color => (color.group, some color.lightness))
        (diagnose group bound exactLimit
          (Record.mapValues exactly colors)) := by
  simp only [Record.mapValues, diagnose, List.map_map]
  apply List.map_congr_left
  intro entry member
  simp [exactValue?_eq_exactly (sound.finite entry member)]

theorem sameColors_judge (polarity : Polarity) (required : Float)
    {background foreground : Record Float} (first : Finite background)
    (second : Finite foreground) :
    SameColors (judge polarity required background foreground)
      (judge polarity (exactly required)
        (Record.mapValues exactly background)
        (Record.mapValues exactly foreground)) := by
  have none {colors : Record Float} : Record.mapValues exactly colors = [] ↔
      colors = [] := Record.mapValues_eq_nil_iff
  by_cases empty : background = [] ∨ foreground = []
  · rw [judge_of_empty _ _ empty,
      judge_of_empty _ _ (empty.imp none.2 none.2)]
    rfl
  · obtain ⟨behind, ahead⟩ := not_or.1 empty
    rw [SameColors, judge_colors _ _ behind ahead,
      judge_colors _ _ (mt none.1 behind) (mt none.1 ahead),
      Record.mapValues_overlay, Record.mapValues_overlay,
      sameColors_diagnose _ _ _ _ first, sameColors_diagnose _ _ _ _ second]

/-- With exact sums and differences, the least headroom that is reported is
the distance of the groups less the required one, so the verdict is favourable
exactly where no headroom is negative. Where a group has no colour nothing is
reported, and the verdict is not favourable. -/
theorem least_headroom {constraint : Constraint} {colors : Value}
    (finite : constraint.required.isFinite = true)
    (measured : ∀ key ∈ constraint.background ++ constraint.foreground,
      Measured colors key) :
    ∃ verdict exact, constraint.check colors = .ok verdict ∧
      constraint.checkExactly colors = .ok exact ∧
      verdict.required = constraint.required ∧
      exactValue? constraint.required = some exact.required ∧
      SameColors verdict exact ∧
      (Filled colors constraint.background →
        Filled colors constraint.foreground →
          IsLeast (headrooms exact.colors) (exact.actual - exact.required) ∧
            (exact.valid = true ↔
              ∀ entry ∈ exact.colors, 0 ≤ entry.2.headroom)) ∧
      (¬ (Filled colors constraint.background ∧
          Filled colors constraint.foreground) →
        verdict.colors = [] ∧ verdict.valid = false ∧
          exact.colors = [] ∧ exact.valid = false) := by
  obtain ⟨background, behind, first, filled⟩ := lightnesses_eq_ok
    fun key inside => measured key (List.mem_append_left _ inside)
  obtain ⟨foreground, ahead, second, occupied⟩ := lightnesses_eq_ok
    fun key inside => measured key (List.mem_append_right _ inside)
  have exact : constraint.checkExactly colors =
      .ok (judge constraint.polarity (exactly constraint.required)
        (Record.mapValues exactly background)
        (Record.mapValues exactly foreground)) := by
    rw [Constraint.checkExactly, behind, ahead]
    rfl
  have rounded : constraint.check colors =
      .ok (judge constraint.polarity constraint.required background
        foreground) := by
    rw [Constraint.check, behind, ahead]
    rfl
  refine ⟨_, _, rounded, exact, judge_required .., ?_,
    sameColors_judge _ _ first second, ?_, ?_⟩
  · rw [judge_required]
    exact exactValue?_eq_exactly finite
  · intro someBehind someAhead
    have dark : Record.mapValues exactly background ≠ [] :=
      mt Record.mapValues_eq_nil_iff.1 (filled.2 someBehind)
    have light : Record.mapValues exactly foreground ≠ [] :=
      mt Record.mapValues_eq_nil_iff.1 (occupied.2 someAhead)
    have distinct : (Record.mapValues exactly foreground).names.Nodup := by
      rw [Record.names_mapValues]
      exact second.distinct
    rw [judge_required]
    exact ⟨isLeast_headrooms_judge _ _ distinct dark light,
      judge_valid_iff _ _ distinct dark light⟩
  · intro missing
    have empty : background = [] ∨ foreground = [] := by
      rw [← filled, ← occupied] at missing
      tauto
    have none : Record.mapValues exactly background = [] ∨
        Record.mapValues exactly foreground = [] :=
      empty.imp Record.mapValues_eq_nil_iff.2 Record.mapValues_eq_nil_iff.2
    rw [judge_of_empty _ _ empty, judge_of_empty _ _ none]
    exact ⟨rfl, rfl, rfl, rfl⟩

/-- A grey that belongs to both groups, a repeated key, and keys without a
colour. -/
def overlapping : Constraint where
  polarity := .negative
  required := -0.5
  background := ["night", "grey", "night", "gone"]
  foreground := ["none", "grey", "day"]

def greys : Value :=
  .map [(.str "night", .color ⟨0.25, 0, none⟩), (.str "gone", .null),
    (.str "grey", .color ⟨0.5, 0, none⟩), (.str "day", .color ⟨1, 0, none⟩)]

theorem least_headroom_greys :
    ∃ verdict exact, overlapping.check greys = .ok verdict ∧
      overlapping.checkExactly greys = .ok exact ∧
      SameColors verdict exact ∧
      verdict.colors.names = ["night", "grey", "day"] ∧
      IsLeast (headrooms exact.colors) (exact.actual - exact.required) ∧
      (exact.valid = true ↔ ∀ entry ∈ exact.colors, 0 ≤ entry.2.headroom) := by
  have measured : ∀ key ∈ overlapping.background ++ overlapping.foreground,
      Measured greys key := by
    intro key inside
    simp only [overlapping, List.cons_append, List.nil_append,
      List.mem_cons, List.not_mem_nil, or_false] at inside
    rcases inside with rfl | rfl | rfl | rfl | rfl | rfl | rfl <;>
      refine ⟨_, rfl, ?_⟩ <;> intro lightness read <;> cases read <;>
      decide +kernel
  obtain ⟨verdict, exact, made, exactly, _, _, same, agree, _⟩ :=
    least_headroom (by decide +kernel) measured
  have filled : Filled greys overlapping.background :=
    ⟨"night", by decide, _, rfl⟩
  have occupied : Filled greys overlapping.foreground :=
    ⟨"day", by decide, _, rfl⟩
  obtain ⟨least, valid⟩ := agree filled occupied
  cases made
  exact ⟨_, _, rfl, exactly, same, rfl, least, valid⟩

end DesignTokens.Contrast
