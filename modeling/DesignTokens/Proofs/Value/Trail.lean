import DesignTokens.Value.Basic
import Mathlib.Tactic

/-!
# Trails into a value

A place inside a value is told by the steps that lead to it, a trail tells what
stands at each step of many places at once. To change a value along a trail
changes what stands at its places. Elsewhere everything stays, and what leads
to these places keeps its kind, its keys and its length.
-/

namespace DesignTokens

/-- How a value stands inside another one: under a key, or as an item of a
list or of a tuple. -/
inductive Label where
  | key (key : Value)
  | item
  | part

/-- A step to one of the values inside a value. -/
structure Step where
  position : Nat
  label : Label

namespace Value

/-! ## Values inside a value -/

/-- The values right inside a value, in order. -/
def inner : Value → List (Label × Value)
  | .map entries => entries.map fun entry => (.key entry.1, entry.2)
  | .list items => items.map fun item => (.item, item)
  | .tuple items => items.map fun item => (.part, item)
  | _ => []

/-- Change the values right inside a value. -/
def mapInner (change : Label → Value → Value) : Value → Value
  | .map entries =>
      .map (entries.map fun entry => (entry.1, change (.key entry.1) entry.2))
  | .list items => .list (items.map (change .item))
  | .tuple items => .tuple (items.map (change .part))
  | value => value

/-- A value without those inside it: its kind, its keys in order and its
length. A value that holds no others is left whole. -/
def outline (value : Value) : Value :=
  value.mapInner fun _ _ => .null

/-- What stands in a value where these steps lead. -/
def HasAt : Value → List Step → Value → Prop
  | value, [], held => held = value
  | value, step :: place, held => ∃ between,
      value.inner[step.position]? = some (step.label, between) ∧
        between.HasAt place held

section Inner

variable {change further : Label → Value → Value} {value other : Value}

theorem inner_mapInner :
    (value.mapInner change).inner =
      value.inner.map fun entry => (entry.1, change entry.1 entry.2) := by
  cases value <;> simp [inner, mapInner]

theorem mapInner_mapInner :
    (value.mapInner change).mapInner further =
      value.mapInner fun label held => further label (change label held) := by
  cases value <;> simp [mapInner]

theorem mapInner_self : value.mapInner (fun _ held => held) = value := by
  cases value <;> simp [mapInner]

theorem outline_mapInner :
    (value.mapInner change).outline = value.outline :=
  mapInner_mapInner

/-- What a step finds in a changed value. -/
theorem inner_mapInner_eq_some_iff {step : Step} {held : Value} :
    (value.mapInner change).inner[step.position]? = some (step.label, held) ↔
      ∃ given, value.inner[step.position]? = some (step.label, given) ∧
        held = change step.label given := by
  rw [inner_mapInner, List.getElem?_map, Option.map_eq_some_iff]
  constructor
  · rintro ⟨⟨label, given⟩, found, same⟩
    obtain ⟨rfl, rfl⟩ := Prod.mk.inj same
    exact ⟨given, found, rfl⟩
  · rintro ⟨given, found, rfl⟩
    exact ⟨(step.label, given), found, rfl⟩

theorem hasAt_cons_iff {step : Step} {place : List Step}
    {between held : Value}
    (found : value.inner[step.position]? = some (step.label, between)) :
    value.HasAt (step :: place) held ↔ between.HasAt place held := by
  simp [HasAt, found]

theorem eq_of_inner (outlines : value.outline = other.outline)
    (same : value.inner = other.inner) : value = other := by
  cases value with
  | map entries =>
      cases other with
      | map others =>
          have injective : Function.Injective
              fun entry : Value × Value => (Label.key entry.1, entry.2) := by
            rintro ⟨key, held⟩ ⟨other, given⟩ equal
            cases equal
            rfl
          rw [injective.list_map same]
      | _ => simp [outline, mapInner] at outlines
  | list items =>
      cases other with
      | list others =>
          rw [(Prod.mk_right_injective Label.item).list_map same]
      | _ => simp [outline, mapInner] at outlines
  | tuple items =>
      cases other with
      | tuple others =>
          rw [(Prod.mk_right_injective Label.part).list_map same]
      | _ => simp [outline, mapInner] at outlines
  | _ =>
      cases other <;> first
        | exact outlines
        | simp [outline, mapInner] at outlines

theorem labels_of_outline (outlines : value.outline = other.outline) :
    value.inner.map Prod.fst = other.inner.map Prod.fst := by
  have labels (held : Value) :
      held.outline.inner.map Prod.fst = held.inner.map Prod.fst := by
    rw [outline, inner_mapInner, List.map_map]
    rfl
  rw [← labels value, outlines, labels other]

/-- Two values of one outline hold, one by one, what goes together. -/
def Alike (related : Label → Value → Value → Prop) (value other : Value) :
    Prop :=
  value.outline = other.outline ∧
    List.Forall₂ (fun entry given => entry.1 = given.1 ∧
      related entry.1 entry.2 given.2) value.inner other.inner

theorem alike_of_steps {related : Label → Value → Value → Prop}
    (outlines : value.outline = other.outline)
    (each : ∀ step : Step, ∀ held given,
      value.inner[step.position]? = some (step.label, held) →
        other.inner[step.position]? = some (step.label, given) →
          related step.label held given) :
    Alike related value other := by
  have labels := labels_of_outline outlines
  have lengths : value.inner.length = other.inner.length := by
    simpa using congrArg List.length labels
  refine ⟨outlines, List.forall₂_iff_get.2 ⟨lengths, ?_⟩⟩
  intro position left right
  have label : value.inner[position].1 = other.inner[position].1 := by
    have same := List.getElem_of_eq labels
      (by rwa [List.length_map] : position < _)
    rwa [List.getElem_map, List.getElem_map] at same
  refine ⟨label, ?_⟩
  apply each ⟨position, value.inner[position].1⟩
  · exact List.getElem?_eq_getElem left
  · rw [label]
    exact List.getElem?_eq_getElem right

/-- Values become one value where the values inside them do. -/
theorem Alike.mapInner_eq {related : Label → Value → Value → Prop}
    (alike : Alike related value other)
    (each : ∀ label held given, related label held given →
      change label held = further label given) :
    value.mapInner change = other.mapInner further := by
  obtain ⟨outlines, inside⟩ := alike
  apply eq_of_inner
  · rw [outline_mapInner, outline_mapInner, outlines]
  · rw [inner_mapInner, inner_mapInner]
    generalize value.inner = entries at inside ⊢
    generalize other.inner = others at inside ⊢
    induction inside with
    | nil => rfl
    | cons agree _ inductionHypothesis =>
        rw [List.map_cons, List.map_cons, inductionHypothesis,
          each _ _ _ agree.2, agree.1]

end Inner

end Value

/-! ## Trails -/

/-- Which labels may stand at each step. -/
abbrev Trail := List (Label → Bool)

namespace Trail

/-- Change the values to which a trail leads. -/
def changeAlong (change : Value → Value) : Trail → Value → Value
  | [], value => change value
  | fits :: trail, value => value.mapInner fun label held =>
      if fits label then changeAlong change trail held else held

/-- The steps of a place fit a trail, one by one. -/
def Fits (trail : Trail) (place : List Step) : Prop :=
  List.Forall₂ (fun fits step => fits step.label = true) trail place

/-- Some step of a place does not fit a trail. -/
inductive Strays : Trail → List Step → Prop
  | here {fits : Label → Bool} {trail : Trail} {step : Step}
      {place : List Step} : fits step.label = false →
      Strays (fits :: trail) (step :: place)
  | later {fits : Label → Bool} {trail : Trail} {step : Step}
      {place : List Step} : Strays trail place →
      Strays (fits :: trail) (step :: place)

/-- A value is another one with what stands at the places of a trail replaced
by what goes with it. What stands elsewhere is kept, and so are the outlines of
all that leads to these places. -/
structure Replaces (related : Value → Value → Prop) (trail : Trail)
    (value changed : Value) : Prop where
  replaced : ∀ place held, Fits trail place →
    (changed.HasAt place held ↔
      ∃ given, value.HasAt place given ∧ related given held)
  aside : ∀ place held, Strays trail place →
    (changed.HasAt place held ↔ value.HasAt place held)
  way : ∀ before fits after place outline, trail = before ++ fits :: after →
    Fits before place →
    ((∃ held, changed.HasAt place held ∧ held.outline = outline) ↔
      ∃ held, value.HasAt place held ∧ held.outline = outline)

/-- Two values differ at the places of a trail only, where what stands in the
one goes with what stands in the other. -/
def Differ (related : Value → Value → Prop) : Trail → Value → Value → Prop
  | [], value, other => related value other
  | fits :: trail, value, other =>
      Value.Alike (fun label held given =>
        if fits label then Differ related trail held given else given = held)
        value other

section Changes

variable {change : Value → Value} {trail before after : Trail}
  {value held : Value} {place : List Step}

/-- What stands on the way along a trail is changed along the rest of it. -/
theorem hasAt_changeAlong_append (fits : Fits before place) :
    (changeAlong change (before ++ after) value).HasAt place held ↔
      ∃ given, value.HasAt place given ∧
        held = changeAlong change after given := by
  induction fits generalizing value with
  | nil => simp [Value.HasAt]
  | cons fit _ inductionHypothesis =>
      rw [List.cons_append, changeAlong, Value.HasAt]
      simp only [Value.inner_mapInner_eq_some_iff, fit, if_true]
      constructor
      · rintro ⟨_, ⟨between, found, rfl⟩, inside⟩
        obtain ⟨given, stands, same⟩ := inductionHypothesis.1 inside
        exact ⟨given, ⟨between, found, stands⟩, same⟩
      · rintro ⟨given, ⟨between, found, stands⟩, same⟩
        exact ⟨_, ⟨between, found, rfl⟩,
          inductionHypothesis.2 ⟨given, stands, same⟩⟩

theorem hasAt_changeAlong (fits : Fits trail place) :
    (changeAlong change trail value).HasAt place held ↔
      ∃ given, value.HasAt place given ∧ held = change given := by
  have along := @hasAt_changeAlong_append change trail [] value held place fits
  rwa [List.append_nil] at along

/-- A change along a trail leaves everything beside it as it is. -/
theorem hasAt_changeAlong_of_strays (strays : Strays trail place) :
    (changeAlong change trail value).HasAt place held ↔
      value.HasAt place held := by
  induction strays generalizing value with
  | here misfit =>
      rw [changeAlong, Value.HasAt, Value.HasAt]
      simp only [Value.inner_mapInner_eq_some_iff, misfit]
      simp
  | @later fits trail step place _ inductionHypothesis =>
      rw [changeAlong, Value.HasAt, Value.HasAt]
      simp only [Value.inner_mapInner_eq_some_iff]
      by_cases fit : fits step.label = true
      · simp only [fit, if_true]
        constructor
        · rintro ⟨_, ⟨between, found, rfl⟩, inside⟩
          exact ⟨between, found, inductionHypothesis.1 inside⟩
        · rintro ⟨between, found, inside⟩
          exact ⟨_, ⟨between, found, rfl⟩, inductionHypothesis.2 inside⟩
      · simp [fit]

theorem outline_changeAlong {fits : Label → Bool} :
    (changeAlong change (fits :: trail) value).outline = value.outline :=
  Value.outline_mapInner

/-- What leads to the places of a trail keeps its outline. -/
theorem outline_hasAt_changeAlong {fits : Label → Bool}
    {outline : Value} (fitsBefore : Fits before place) :
    (∃ held, (changeAlong change (before ++ fits :: after) value).HasAt place
        held ∧ held.outline = outline) ↔
      ∃ held, value.HasAt place held ∧ held.outline = outline := by
  simp only [hasAt_changeAlong_append fitsBefore]
  constructor
  · rintro ⟨_, ⟨given, stands, rfl⟩, same⟩
    exact ⟨given, stands, outline_changeAlong.symm.trans same⟩
  · rintro ⟨given, stands, same⟩
    exact ⟨_, ⟨given, stands, rfl⟩, outline_changeAlong.trans same⟩

theorem changeAlong_changeAlong {further : Value → Value} :
    changeAlong further trail (changeAlong change trail value) =
      changeAlong (further ∘ change) trail value := by
  induction trail generalizing value with
  | nil => rfl
  | cons fits trail inductionHypothesis =>
      rw [changeAlong, changeAlong, Value.mapInner_mapInner, changeAlong]
      congr 1
      funext label held
      by_cases fit : fits label = true
      · simp only [fit, if_true]
        exact inductionHypothesis
      · simp [fit]

/-- Changes that make related values one make values one that differ along a
trail. -/
theorem changeAlong_eq_of_differ {related : Value → Value → Prop}
    {further : Value → Value} {other : Value}
    (same : ∀ held given, related held given → change held = further given)
    (differ : Differ related trail value other) :
    changeAlong change trail value = changeAlong further trail other := by
  induction trail generalizing value other with
  | nil => exact same value other differ
  | cons fits trail inductionHypothesis =>
      rw [changeAlong, changeAlong]
      apply Value.Alike.mapInner_eq differ
      intro label held given agree
      by_cases fit : fits label = true
      · simp only [fit, if_true] at agree ⊢
        exact inductionHypothesis agree
      · simp only [fit] at agree ⊢
        exact agree.symm

theorem changeAlong_self : changeAlong id trail value = value := by
  induction trail generalizing value with
  | nil => rfl
  | cons fits trail inductionHypothesis =>
      simp only [changeAlong, inductionHypothesis, ite_self]
      exact Value.mapInner_self

/-! ## What a change along a trail comes to -/

theorem Replaces.outline_eq {related : Value → Value → Prop}
    {fits : Label → Bool} {changed : Value}
    (replaces : Replaces related (fits :: trail) value changed) :
    value.outline = changed.outline := by
  have kept := replaces.way [] fits trail [] value.outline rfl .nil
  obtain ⟨held, rfl, same⟩ := kept.2 ⟨value, rfl, rfl⟩
  exact same.symm

/-- One step along the trail nothing else is replaced. -/
theorem Replaces.of_step {related : Value → Value → Prop}
    {fits : Label → Bool} {changed given : Value} {step : Step}
    (replaces : Replaces related (fits :: trail) value changed)
    (fit : fits step.label = true)
    (found : value.inner[step.position]? = some (step.label, held))
    (again : changed.inner[step.position]? = some (step.label, given)) :
    Replaces related trail held given := by
  constructor
  · intro place last fitsPlace
    have here := replaces.replaced (step :: place) last (.cons fit fitsPlace)
    simpa only [Value.hasAt_cons_iff found, Value.hasAt_cons_iff again]
      using here
  · intro place last strays
    have here := replaces.aside (step :: place) last (.later strays)
    rwa [Value.hasAt_cons_iff found, Value.hasAt_cons_iff again] at here
  · intro before next after place outline parts fitsBefore
    have here := replaces.way (fits :: before) next after (step :: place)
      outline (by rw [parts, List.cons_append]) (.cons fit fitsBefore)
    simpa only [Value.hasAt_cons_iff found, Value.hasAt_cons_iff again]
      using here

theorem Replaces.differ {related : Value → Value → Prop} {changed : Value}
    (replaces : Replaces related trail value changed) :
    Differ related trail value changed := by
  induction trail generalizing value changed with
  | nil =>
      obtain ⟨given, rfl, isRelated⟩ :=
        (replaces.replaced [] changed .nil).1 rfl
      exact isRelated
  | cons fits trail inductionHypothesis =>
      apply Value.alike_of_steps replaces.outline_eq
      intro step held given found again
      by_cases fit : fits step.label = true
      · simp only [fit, if_true]
        exact inductionHypothesis (replaces.of_step fit found again)
      · have misfit : fits step.label = false := by simpa using fit
        have here := replaces.aside [step] given (.here misfit)
        simp only [misfit]
        exact (Value.hasAt_cons_iff found).1
          (here.1 ((Value.hasAt_cons_iff again).2 rfl))

/-- To change a value along a trail is to replace what stands at its places,
and nothing else. -/
theorem replaces_iff {changed : Value} :
    Replaces (fun given held => held = change given) trail value changed ↔
      changed = changeAlong change trail value := by
  constructor
  · intro replaces
    have same : changeAlong change trail value =
        changeAlong id trail changed :=
      changeAlong_eq_of_differ (fun _ _ equal => equal.symm) replaces.differ
    rw [same, changeAlong_self]
  · rintro rfl
    refine ⟨fun _ _ => hasAt_changeAlong,
      fun _ _ => hasAt_changeAlong_of_strays, ?_⟩
    intro before fits after place outline parts fitsBefore
    rw [parts]
    exact outline_hasAt_changeAlong fitsBefore

end Changes

end Trail

end DesignTokens
