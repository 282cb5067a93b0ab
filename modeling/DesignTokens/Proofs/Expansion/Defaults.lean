import DesignTokens.Proofs.Expansion.Overrides

/-!
# Defaults that override

The default of a category is the default mode of its leading family, while its
overrides come from all of its families. A mode of the same name in another
family of the category overrides under the name of the default, unless it is
the default there, too. Colours and times have no other family.
-/

namespace DesignTokens

open Acceptance (PlainMode)
open Grammar Success

/-! ## Defaults of leading families -/

/-- What is reported as the default of a family: the name of its default mode,
or nothing where it has no modes. -/
def NamesDefault (modes : List PlainMode) (name : String) : Prop :=
  (modes = [] ∧ name = "") ∨ ∃ mode, IsDefault modes mode ∧ mode.name = name

theorem exists_isDefault {alpha : Type}
    {readContent : Entries → Schema.Checked alpha} {plain : List PlainMode}
    {typed : Modes alpha} {default : Mode alpha}
    (areTyped : List.Forall₂ (Typed readContent) plain typed)
    (found : typed.default = .ok default) :
    ∃ mode, IsDefault plain mode ∧ mode.name = default.name := by
  have nonempty : plain ≠ [] := by
    rintro rfl
    cases areTyped
    cases found
  obtain ⟨earlier, mode, later, split⟩ :=
    Selection.exists_split PlainMode.flagged nonempty
  have chosen : Selection.default? Modes.flagged typed = some default := by
    rw [Modes.default] at found
    split at found
    · rename_i held
      cases found
      exact held
    · cases found
  have same := Selection.map_default?_eq (f := PlainMode.name) (g := Mode.name)
    (areTyped.imp fun _ _ isTyped => ⟨isTyped.name.symm, isTyped.flag.symm⟩)
  rw [split.default?_eq, chosen] at same
  exact ⟨mode, ⟨earlier, later, split⟩, Option.some.inj same⟩

theorem namesDefault_of_given {alpha : Type}
    {readContent : Entries → Schema.Checked alpha} {plain : List PlainMode}
    {given : Option (Modes alpha)}
    {expand : Modes alpha → Except ExpansionFault Expansion}
    {expansion : Expansion} (matched : Matches readContent plain given)
    (each : ∀ typed expansion, expand typed = .ok expansion →
      ∃ default, typed.default = .ok default ∧
        expansion.modes.default = default.name)
    (expanded : expandGiven expand given = .ok expansion) :
    NamesDefault plain expansion.modes.default := by
  rcases expandGiven_eq_ok expanded with
    ⟨rfl, rfl⟩ | ⟨typed, rfl, expanded⟩
  · exact .inl ⟨matched.of_none, rfl⟩
  · obtain ⟨default, found, named⟩ := each typed expansion expanded
    rw [named]
    exact .inr (exists_isDefault matched.of_some found)

theorem default_of_expand {alpha : Type} {typed : Modes alpha}
    {expandMode : Mode alpha → Except ExpansionFault (List Token)}
    {expansion : Expansion}
    (expanded : typed.expand expandMode = .ok expansion) :
    ∃ default, typed.default = .ok default ∧
      expansion.modes.default = default.name := by
  obtain ⟨default, found, step⟩ := bind_eq_ok.1 expanded
  obtain ⟨_, _, step⟩ := bind_eq_ok.1 step
  obtain ⟨_, _, same⟩ := bind_eq_ok.1 step
  cases same
  exact ⟨default, found, rfl⟩

theorem default_of_expandTime {settings : Settings} {typed : Modes Scale}
    {expansion : Expansion}
    (expanded : expandTime settings typed = .ok expansion) :
    ∃ default, typed.default = .ok default ∧
      expansion.modes.default = default.name := by
  obtain ⟨default, found, step⟩ := bind_eq_ok.1 expanded
  obtain ⟨_, _, same⟩ := bind_eq_ok.1 step
  cases same
  exact ⟨default, found, rfl⟩

theorem default_of_expandColors {settings : Settings} {family : ColorFamily}
    {expansion : Expansion}
    (expanded : expandColors settings family = .ok expansion) :
    ∃ default, Modes.default family.modes = .ok default ∧
      expansion.modes.default = default.name := by
  obtain ⟨default, found, step⟩ := bind_eq_ok.1 expanded
  obtain ⟨_, _, step⟩ := bind_eq_ok.1 step
  obtain ⟨_, _, same⟩ := bind_eq_ok.1 step
  cases same
  exact ⟨default, found, rfl⟩

section Families

variable {config : Entries} {modes : Family → List PlainMode}
  {system : DesignSystem} {settings : Settings} {expansions : Expansions}

/-- The default of a category is named by its leading family. -/
theorem namesDefault_of_leading (readFrom : ReadFrom modes system)
    (expanded : Expansions.ofSystem settings system = .ok expansions)
    (category : Category) :
    NamesDefault (modes category.leading)
      (expansions.modeInfo category).default := by
  have made := ofSystem_eq_ok expanded category.leading
  rw [Expansions.modeInfo]
  generalize expansions.ofFamily category.leading = expansion at made
  cases category with
  | size =>
      exact namesDefault_of_given readFrom.spacing
        (fun _ _ => default_of_expand) made
  | time =>
      exact namesDefault_of_given readFrom.time
        (fun _ _ => default_of_expandTime) made
  | color =>
      have matched := readFrom.color
      rcases expandGiven_eq_ok made with
        ⟨missing, rfl⟩ | ⟨colors, given, colorsMade⟩
      · rw [missing] at matched
        exact .inl ⟨matched.of_none, rfl⟩
      · rw [given] at matched
        obtain ⟨default, found, named⟩ := default_of_expandColors colorsMade
        rw [named]
        exact .inr (exists_isDefault matched.of_some found)

/-! ## Names that override -/

theorem mem_overridesIn_iff (wellFormed : WellFormed config modes)
    {family : Family} {name : String} :
    name ∈ overridesIn modes family ↔
      family ≠ .time ∧ IsOverride (modes family) name := by
  rw [overridesIn]
  by_cases isTime : family = .time
  · rw [if_pos isTime]
    exact iff_of_false List.not_mem_nil fun overriding =>
      overriding.1 isTime
  · rw [if_neg isTime]
    exact (Acceptance.mem_overrideNames_iff (wellFormed.distinct family)
      name).trans (and_iff_right isTime).symm

end Families

section Assembled

variable {expansions : Expansions} {names : Family → List String}

/-- The category of a name is that of the families in which it is the name of
an override mode. -/
theorem Expansions.Apart.categoryOf_eq_some_iff
    (apart : expansions.Apart names) {name : String} {category : Category} :
    expansions.assemble.sheet.categoryOf name = some category ↔
      ∃ family, family.category = category ∧ name ∈ names family := by
  constructor
  · intro found
    have listed := List.find?_some found
    rw [List.contains_iff_mem, ofCategory_assemble] at listed
    obtain ⟨family, inCategory, member⟩ :=
      apart.mem_overrideNames_iff.1 listed
    exact ⟨family, (mem_families_iff category family).1 inCategory, member⟩
  · rintro ⟨family, rfl, member⟩
    exact categoryOf_of_only (apart.mem_ofCategory_iff member)

/-- A style sheet has a block for an override mode of this name. -/
def TokenSheet.RendersMode (sheet : TokenSheet) (selectors : Selectors)
    (name : String) : Prop :=
  ∃ entry ∈ sheet.overrides, entry.1 = name ∧
    ∃ text, sheet.overrideBlock? selectors entry = some text

theorem Expansions.Apart.rendersMode_iff (apart : expansions.Apart names)
    {selectors : Selectors} {name : String} :
    expansions.assemble.sheet.RendersMode selectors name ↔
      expansions.hasTokens name = true := by
  constructor
  · rintro ⟨entry, member, rfl, -⟩
    have listed := List.mem_map_of_mem (f := Prod.fst) member
    rw [← Record.names, expansions.names_overrides_assemble] at listed
    exact (List.mem_filter.1 listed).2
  · intro has
    have listed : name ∈ expansions.assemble.sheet.overrides.names := by
      rw [expansions.names_overrides_assemble]
      exact List.mem_filter.2 ⟨apart.mem_of_hasTokens has, has⟩
    obtain ⟨entry, member, rfl⟩ := List.mem_map.1 listed
    obtain ⟨category, isolated⟩ := isolated_of_assemble apart member
    obtain ⟨text, written, -⟩ := overrideBlock_of_category isolated.found
      (ne_nil_of_mem_overrides member) selectors
    exact ⟨entry, member, rfl, text, written⟩

end Assembled

/-! ## Accepted configurations -/

theorem not_isOverride_of_namesDefault {modes : List PlainMode}
    {name : String} (distinct : (modes.map PlainMode.name).Nodup)
    (named : NamesDefault modes name) : ¬ IsOverride modes name := by
  rintro ⟨mode, member, rfl, notDefault⟩
  rcases named with ⟨rfl, -⟩ | ⟨default, isDefault, same⟩
  · cases member
  · have inside : default ∈ modes := by
      obtain ⟨earlier, later, split⟩ := isDefault
      rw [split.parts]
      exact List.mem_append_right _ List.mem_cons_self
    obtain rfl := List.inj_on_of_nodup_map distinct inside member same
    exact notDefault isDefault

/-- What the default of a category overrides. It is never an override of its
leading family, so that the defaults of colours and times override nothing in
their own category. It is one of the overrides of the category exactly if
another family of the category has a mode of its name that is not the default
there. Its name belongs to the category of the families, time apart, in which
it is the name of such a mode, and it has a block in a style sheet exactly if
such a mode gives tokens. -/
theorem default_overrides {config settings : Value} {generated : Generated}
    (made : generate config settings = .ok generated) :
    ∃ entries modes system,
      config = .map entries ∧ WellFormed entries modes ∧
      DesignSystem.read config = .accepted system ∧
      ∀ category name,
        (generated.sheet.modes.ofCategory category).default = name →
        NamesDefault (modes category.leading) name ∧
        (name ∈ (generated.sheet.modes.ofCategory category).overrides ↔
          ∃ family ∈ category.following, IsOverride (modes family) name) ∧
        (∀ other, generated.sheet.categoryOf name = some other ↔
          ∃ family, family ≠ .time ∧ family.category = other ∧
            IsOverride (modes family) name) ∧
        ∀ selectors, generated.sheet.RendersMode selectors name ↔
          system.changes name = true := by
  obtain ⟨accepted, system, chosen, expansions, read, _, expanded, rfl⟩ :=
    generate_iff.1 made
  obtain ⟨entries, modes, rfl, wellFormed, readFrom⟩ :=
    exists_modes accepted read
  have apart := apart_of_wellFormed wellFormed readFrom expanded
  refine ⟨entries, modes, system, rfl, wellFormed, read, ?_⟩
  rintro category name rfl
  rw [ofCategory_assemble]
  have named := namesDefault_of_leading readFrom expanded category
  refine ⟨named, ?_, ?_, ?_⟩
  · have leads := not_isOverride_of_namesDefault
      (wellFormed.distinct category.leading) named
    have ofFollowing : ∀ family ∈ category.following, family ≠ .time := by
      cases category <;> decide
    refine apart.mem_overrideNames_iff.trans ?_
    simp only [mem_overridesIn_iff wellFormed, Category.families,
      List.exists_mem_cons_iff, leads, and_false, false_or]
    refine exists_congr fun family => and_congr_right fun member => ?_
    exact and_iff_right (ofFollowing family member)
  · intro other
    rw [apart.categoryOf_eq_some_iff]
    refine exists_congr fun family => ?_
    rw [mem_overridesIn_iff wellFormed, and_left_comm]
  · intro selectors
    rw [apart.rendersMode_iff,
      hasTokens_eq_changes wellFormed readFrom expanded]

/-- Colours whose default has the name of a spacing mode, and gaps whose
default is not that of spacing. -/
def crossedTheme : Value :=
  .map [(.str "colors", writtenFamily
      [("wide", [(.str "ink", .null)]), ("dark", [(.str "ink", .null)])]),
    (.str "spacing", writtenFamily
      [("regular", writtenScale 8 (.int 2)),
        ("wide", writtenScale 16 (.int 2))]),
    (.str "gap", writtenFamily
      [("wide", [(.str "s", .int 1)]), ("regular", [(.str "s", .int 2)])])]

theorem crossedTheme_default :
    ∃ generated, generate crossedTheme .null = .ok generated ∧
      generated.sheet.modes.size.default = "regular" ∧
      ∃ entries modes, crossedTheme = .map entries ∧
        WellFormed entries modes ∧ NamesDefault (modes .spacing) "regular" ∧
        ∃ family ∈ Category.size.following,
          IsOverride (modes family) "regular" := by
  refine ⟨_, rfl, rfl, ?_⟩
  obtain ⟨entries, modes, _, written, wellFormed, _, each⟩ :=
    @default_overrides crossedTheme .null _ rfl
  obtain ⟨named, overriding, _⟩ := each .size "regular" rfl
  have listed : "regular" ∈ ["wide", "regular"] := by decide
  exact ⟨entries, modes, written, wellFormed, named, overriding.1 listed⟩

/-- The default of the sizes is one of their overrides and has a block, and
the name of the default of the colours belongs to the sizes. -/
theorem crossedTheme_renders :
    ∃ generated, generate crossedTheme .null = .ok generated ∧
      generated.sheet.modes.size.default ∈
        generated.sheet.modes.size.overrides ∧
      generated.sheet.categoryOf generated.sheet.modes.size.default =
        some .size ∧
      generated.sheet.RendersMode {} generated.sheet.modes.size.default ∧
      generated.sheet.modes.color.default ∉
        generated.sheet.modes.color.overrides ∧
      generated.sheet.categoryOf generated.sheet.modes.color.default =
        some .size := by
  have sizes : "regular" ∈ ["wide", "regular"] := by decide
  have colors : "wide" ∉ ["dark"] := by decide
  refine ⟨_, rfl, sizes, rfl, ?_, colors, rfl⟩
  exact ⟨_, List.mem_cons_of_mem _ List.mem_cons_self, rfl, _, rfl⟩

end DesignTokens
