import DesignTokens.Proofs.Acceptance.Reordering
import DesignTokens.Proofs.Expansion.Assembly
import DesignTokens.Proofs.Expansion.Naming

/-!
# Token sheets of reordered modes

The order in which the modes of a family are listed shows in the order of the
sheet only, as long as the default stays the same. Modes are found by their
names, and so are tokens. The time scales are the one family whose default
tokens change their order: they come last, and no two of them share a name.
-/

namespace DesignTokens

open Acceptance (PlainMode)
open Grammar Success

/-! ## Modes -/

/-- The default tokens of a family, which stay in order except for the time
scales. -/
def SameDefaults : Family → List Token → List Token → Prop
  | .time => fun tokens others =>
      tokens.Perm others ∧ (tokens.map Token.name).Nodup
  | _ => Eq

theorem SameDefaults.nil (family : Family) : SameDefaults family [] [] := by
  cases family with
  | time => exact ⟨.refl [], List.nodup_nil⟩
  | _ => rfl

/-- The expansions of a family whose modes are reordered. -/
structure Expansion.Reordered (family : Family)
    (expansion other : Expansion) : Prop where
  defaults : SameDefaults family expansion.defaults other.defaults
  overrides : expansion.overrides.Perm other.overrides
  names : expansion.overrides.names.Nodup
  default : other.modes.default = expansion.modes.default
  listed : expansion.modes.overrides.Perm other.modes.overrides

theorem Expansion.Reordered.empty (family : Family) :
    Expansion.Reordered family {} {} :=
  ⟨.nil family, .refl [], List.nodup_nil, rfl, .refl []⟩

theorem Expansion.Reordered.tokensOf_eq {family : Family}
    {expansion other : Expansion}
    (reordered : Expansion.Reordered family expansion other)
    (name : String) : other.tokensOf name = expansion.tokensOf name := by
  rw [Expansion.tokensOf, Expansion.tokensOf,
    Record.lookup_eq_of_perm reordered.overrides reordered.names]

section Modes

variable {alpha : Type} {modes others : Modes alpha}
  {expandMode : Mode alpha → Except ExpansionFault (List Token)}

theorem default_eq_of_reordered
    (same : Selection.Reordered Modes.flagged modes others) :
    others.default = modes.default := by
  rw [Modes.default, Modes.default, same.default]

theorem listed_of_reordered
    (same : Selection.Reordered Modes.flagged modes others) :
    (modes.overrides.map Mode.name).Perm (others.overrides.map Mode.name) :=
  same.overrides.map Mode.name

/-- The override modes are expanded in the order in which they are listed. -/
theorem exists_named_reordered {named : List (String × List Token)}
    (same : Selection.Reordered Modes.flagged modes others)
    (expanded : modes.overrides.mapM (fun mode => do
      let tokens ← expandMode mode
      return (mode.name, tokens)) = .ok named)
    (distinct : (modes.map Mode.name).Nodup) :
    ∃ more, others.overrides.mapM (fun mode => do
        let tokens ← expandMode mode
        return (mode.name, tokens)) = .ok more ∧
      named.Perm more ∧ (Record.names named).Nodup := by
  obtain ⟨more, perm, made⟩ := exists_mapM_of_perm same.overrides expanded
  refine ⟨more, made, perm, ?_⟩
  rw [names_of_mapM_named expanded]
  exact nodup_overrides distinct

theorem exists_expand_reordered {family : Family} {expansion : Expansion}
    (sameDefaults : ∀ tokens, SameDefaults family tokens tokens)
    (same : Selection.Reordered Modes.flagged modes others)
    (distinct : (modes.map Mode.name).Nodup)
    (expanded : modes.expand expandMode = .ok expansion) :
    ∃ other, others.expand expandMode = .ok other ∧
      Expansion.Reordered family expansion other := by
  obtain ⟨default, found, step⟩ := bind_eq_ok.1 expanded
  obtain ⟨defaults, made, rest⟩ := bind_eq_ok.1 step
  obtain ⟨named, overrides, equal⟩ := bind_eq_ok.1 rest
  cases equal
  obtain ⟨more, moreMade, perm, names⟩ :=
    exists_named_reordered same overrides distinct
  refine ⟨_, bind_eq_ok.2 ⟨default, (default_eq_of_reordered same).trans found,
    bind_eq_ok.2 ⟨defaults, made, bind_eq_ok.2 ⟨more, moreMade, rfl⟩⟩⟩, ?_⟩
  refine ⟨sameDefaults defaults, Record.ofList_perm perm names, ?_, rfl,
    listed_of_reordered same⟩
  rwa [Record.ofList_of_nodup names]

end Modes

/-! ## Colours, references and time -/

theorem exists_expandColors_reordered {settings : Settings}
    {family other : ColorFamily} {expansion : Expansion}
    (same : family.Reordered other)
    (distinct : (family.modes.map Mode.name).Nodup)
    (expanded : expandColors settings family = .ok expansion) :
    ∃ result, expandColors settings other = .ok result ∧
      Expansion.Reordered .color expansion result := by
  obtain ⟨default, found, step⟩ := bind_eq_ok.1 expanded
  obtain ⟨defaults, made, rest⟩ := bind_eq_ok.1 step
  obtain ⟨named, overrides, equal⟩ := bind_eq_ok.1 rest
  cases equal
  obtain ⟨more, moreMade, perm, names⟩ :=
    exists_named_reordered same.modes overrides distinct
  have kept : (Record.names
      (named.filter fun entry => !entry.2.isEmpty)).Nodup :=
    names.sublist (List.filter_sublist.map Prod.fst)
  have sameDefault := (default_eq_of_reordered same.modes).trans found
  rw [expandColors, same.schedule]
  refine ⟨_, bind_eq_ok.2 ⟨default, sameDefault, bind_eq_ok.2
    ⟨defaults, made, bind_eq_ok.2 ⟨more, moreMade, rfl⟩⟩⟩, ?_⟩
  refine ⟨rfl, Record.ofList_perm (perm.filter _) kept, ?_, rfl,
    listed_of_reordered same.modes⟩
  rwa [Record.ofList_of_nodup kept]

theorem named?_of_reordered {spacing others : Modes Scale}
    (same : Selection.Reordered Modes.flagged spacing others)
    (distinct : (spacing.map Mode.name).Nodup) (name : String) :
    others.named? name = spacing.named? name :=
  (Selection.find?_eq_of_perm same.perm distinct name).symm

/-- The spacing mode of references is found by its name, or it is the
default. -/
theorem spacingMode_of_reordered {spacing others : Modes Scale}
    (same : Selection.Reordered Modes.flagged spacing others)
    (distinct : (spacing.map Mode.name).Nodup) (mode : Mode References) :
    mode.spacingMode others = mode.spacingMode spacing := by
  have chosen : mode.content.chosenMode? others =
      mode.content.chosenMode? spacing := by
    simp only [References.chosenMode?, named?_of_reordered same distinct]
  simp only [Mode.spacingMode, Mode.matching?, chosen,
    named?_of_reordered same distinct, default_eq_of_reordered same]

theorem exists_expandReferences_reordered {family : Family}
    {settings : Settings} {spacing scales : Modes Scale}
    {modes others : Modes References} {expansion : Expansion}
    (sameDefaults : ∀ tokens, SameDefaults family tokens tokens)
    (sameSpacing : Selection.Reordered Modes.flagged spacing scales)
    (distinctSpacing : (spacing.map Mode.name).Nodup)
    (same : Selection.Reordered Modes.flagged modes others)
    (distinct : (modes.map Mode.name).Nodup)
    (expanded : expandReferences family settings spacing modes =
      .ok expansion) :
    ∃ other, expandReferences family settings scales others = .ok other ∧
      Expansion.Reordered family expansion other := by
  obtain ⟨held, modesExpanded, step⟩ := bind_eq_ok.1 expanded
  obtain ⟨default, found, equal⟩ := bind_eq_ok.1 step
  cases equal
  obtain ⟨other, otherExpanded, reordered⟩ :=
    exists_expand_reordered sameDefaults same distinct modesExpanded
  -- The other modes are still expanded against the spacing as it was listed.
  simp only [← spacingMode_of_reordered sameSpacing distinctSpacing]
    at otherExpanded
  refine ⟨_, bind_eq_ok.2 ⟨other, otherExpanded, bind_eq_ok.2 ⟨default,
    (default_eq_of_reordered same).trans found, rfl⟩⟩, ?_⟩
  exact ⟨reordered.defaults, reordered.overrides, reordered.names,
    reordered.default, reordered.listed⟩

theorem exists_expandTime_reordered {settings : Settings}
    {modes others : Modes Scale} {expansion : Expansion}
    (same : Selection.Reordered Modes.flagged modes others)
    (distinct : (modes.map Mode.name).Nodup)
    (expanded : expandTime settings modes = .ok expansion) :
    ∃ other, expandTime settings others = .ok other ∧
      Expansion.Reordered .time expansion other := by
  obtain ⟨default, found, step⟩ := bind_eq_ok.1 expanded
  obtain ⟨tokens, made, equal⟩ := bind_eq_ok.1 step
  cases equal
  obtain ⟨more, perm, moreMade⟩ :=
    exists_mapM_of_perm (same.marked distinct) made
  refine ⟨_, bind_eq_ok.2 ⟨default, (default_eq_of_reordered same).trans found,
    bind_eq_ok.2 ⟨more, moreMade, rfl⟩⟩, ?_⟩
  exact ⟨⟨perm.flatten, nodup_timeNames distinct made⟩, .refl [],
    List.nodup_nil, rfl, .refl []⟩

/-! ## Families of an accepted configuration -/

section Families

variable {config : Entries} {modes : Family → List PlainMode}
  {system other : DesignSystem} {settings : Settings} {expansion : Expansion}

theorem exists_expandGiven_reordered {alpha : Type} {family : Family}
    {related : alpha → alpha → Prop} {given others : Option alpha}
    {expand expandOther : alpha → Except ExpansionFault Expansion}
    (same : Option.Rel related given others)
    (each : ∀ held more, given = some held → related held more →
      expand held = .ok expansion →
        ∃ result, expandOther more = .ok result ∧
          Expansion.Reordered family expansion result)
    (expanded : expandGiven expand given = .ok expansion) :
    ∃ result, expandGiven expandOther others = .ok result ∧
      Expansion.Reordered family expansion result := by
  cases same with
  | none =>
      cases expanded
      exact ⟨{}, rfl, .empty family⟩
  | some held => exact each _ _ rfl held expanded

theorem exists_expandReferring_reordered {family : Family}
    {given others : Option (Modes References)}
    (sameDefaults : ∀ tokens, SameDefaults family tokens tokens)
    (wellFormed : WellFormed config modes)
    (spacing : Matches (readTokens Scale.read) (modes .spacing)
      system.spacing)
    (matched : Matches (readTokens References.read) (modes family) given)
    (sameSpacing : Option.Rel (Selection.Reordered Modes.flagged)
      system.spacing other.spacing)
    (same : Option.Rel (Selection.Reordered Modes.flagged) given others)
    (expanded : expandReferring family settings system.spacing given =
      .ok expansion) :
    ∃ result,
      expandReferring family settings other.spacing others = .ok result ∧
        Expansion.Reordered family expansion result := by
  generalize system.spacing = scales at spacing sameSpacing expanded
  generalize other.spacing = otherScales at sameSpacing
  cases sameSpacing with
  | none =>
      cases expanded
      exact ⟨{}, rfl, .empty family⟩
  | some sameScales =>
      apply exists_expandGiven_reordered same ?_ expanded
      rintro held more rfl sameModes made
      exact exists_expandReferences_reordered sameDefaults sameScales
        (nodup_of_matches wellFormed spacing) sameModes
        (nodup_of_matches wellFormed matched) made

theorem rel_bind_border {border others : Option Border}
    (same : Option.Rel Border.Reordered border others) :
    Option.Rel (Selection.Reordered Modes.flagged)
        (border.bind Border.radius) (others.bind Border.radius) ∧
      Option.Rel (Selection.Reordered Modes.flagged)
        (border.bind Border.width) (others.bind Border.width) := by
  cases same with
  | none => exact ⟨.none, .none⟩
  | some held => exact ⟨held.radius, held.width⟩

/-- Every family expands to the same tokens in another order. -/
theorem exists_expandFamily_reordered (family : Family)
    (wellFormed : WellFormed config modes)
    (readFrom : ReadFrom modes system) (same : system.Reordered other)
    (expanded : system.expandFamily settings family = .ok expansion) :
    ∃ result, other.expandFamily settings family = .ok result ∧
      Expansion.Reordered family expansion result := by
  obtain ⟨sameRadius, sameWidth⟩ := rel_bind_border same.border
  cases family with
  | color =>
      apply exists_expandGiven_reordered same.colors ?_ expanded
      intro held more given sameColors made
      have matched := readFrom.color
      rw [given] at matched
      exact exists_expandColors_reordered sameColors
        (nodup_of_matches wellFormed matched) made
  | spacing =>
      apply exists_expandGiven_reordered same.spacing ?_ expanded
      intro held more given sameModes made
      exact exists_expand_reordered (fun _ => rfl) sameModes
        (nodup_of_matches wellFormed (given ▸ readFrom.spacing)) made
  | gap =>
      exact exists_expandReferring_reordered (fun _ => rfl) wellFormed
        readFrom.spacing readFrom.gap same.spacing same.gap expanded
  | typography =>
      apply exists_expandGiven_reordered same.typography ?_ expanded
      intro held more given sameModes made
      exact exists_expand_reordered (fun _ => rfl) sameModes
        (nodup_of_matches wellFormed (given ▸ readFrom.typography)) made
  | borderRadius =>
      exact exists_expandReferring_reordered (fun _ => rfl) wellFormed
        readFrom.spacing readFrom.borderRadius same.spacing sameRadius
        expanded
  | borderWidth =>
      apply exists_expandGiven_reordered sameWidth ?_ expanded
      intro held more given sameModes made
      exact exists_expand_reordered (fun _ => rfl) sameModes
        (nodup_of_matches wellFormed (given ▸ readFrom.borderWidth)) made
  | time =>
      apply exists_expandGiven_reordered same.time ?_ expanded
      intro held more given sameModes made
      exact exists_expandTime_reordered sameModes
        (nodup_of_matches wellFormed (given ▸ readFrom.time)) made

end Families

/-! ## Assembled sheets -/

/-- The expansions of a design system with reordered modes. -/
def Expansions.Reordered (expansions others : Expansions) : Prop :=
  ∀ family, Expansion.Reordered family (expansions.ofFamily family)
    (others.ofFamily family)

namespace Expansions.Reordered

variable {expansions others : Expansions}

theorem overridesOf_eq (reordered : expansions.Reordered others)
    (name : String) :
    others.overridesOf name = expansions.overridesOf name := by
  apply List.flatMap_congr
  intro family _
  exact (reordered family).tokensOf_eq name

/-- A name leads to the same default token. The time scales come last and
have names of their own, so that their order does not matter. -/
theorem find?_defaults_eq (reordered : expansions.Reordered others)
    (name : String) :
    (others.defaults.find? fun token => token.name = name) =
      expansions.defaults.find? fun token => token.name = name := by
  obtain ⟨perm, distinct⟩ := (reordered .time).defaults
  have color : _ = _ := (reordered .color).defaults
  have spacing : _ = _ := (reordered .spacing).defaults
  have gap : _ = _ := (reordered .gap).defaults
  have typography : _ = _ := (reordered .typography).defaults
  have borderRadius : _ = _ := (reordered .borderRadius).defaults
  have borderWidth : _ = _ := (reordered .borderWidth).defaults
  have time := Selection.find?_eq_of_perm perm distinct name
  simp only [Expansions.defaults, Family.all, List.flatMap_cons,
    List.flatMap_nil, List.append_nil, List.find?_append, color, spacing, gap,
    typography, borderRadius, borderWidth, time]

theorem tokens_perm (reordered : expansions.Reordered others) :
    expansions.assemble.sheet.tokens.Perm others.assemble.sheet.tokens := by
  apply Record.perm_of_lookup_eq (nodup_names_mergeTokens _)
    (nodup_names_mergeTokens _)
  intro name
  rw [lookup_mergeTokens, lookup_mergeTokens, reordered.find?_defaults_eq]

theorem overrides_perm {names more : Family → List String}
    (reordered : expansions.Reordered others)
    (apart : expansions.Apart names) (apartOthers : others.Apart more) :
    expansions.assemble.sheet.overrides.Perm
      others.assemble.sheet.overrides := by
  apply Record.perm_of_lookup_eq
    (nodup_names_overrides_assemble expansions)
    (nodup_names_overrides_assemble others)
  intro name
  have tokens := reordered.overridesOf_eq name
  rw [apart.lookup_overrides, apartOthers.lookup_overrides, hasTokens,
    hasTokens, tokens]

theorem modes_perm (reordered : expansions.Reordered others)
    (category : Category) :
    (others.assemble.sheet.modes.ofCategory category).default =
        (expansions.assemble.sheet.modes.ofCategory category).default ∧
      (expansions.assemble.sheet.modes.ofCategory category).overrides.Perm
        (others.assemble.sheet.modes.ofCategory category).overrides := by
  rw [ofCategory_assemble, ofCategory_assemble]
  have distinct (held : Expansions) :
      (held.overrideNames category.families).Nodup :=
    nodup_eraseDups _
  have members (name : String) :
      name ∈ expansions.overrideNames category.families ↔
        name ∈ others.overrideNames category.families := by
    have each (family : Family) :
        name ∈ (expansions.ofFamily family).modes.overrides ↔
          name ∈ (others.ofFamily family).modes.overrides :=
      (reordered family).listed.mem_iff
    rw [mem_overrideNames_iff, mem_overrideNames_iff]
    simp only [each]
  exact ⟨(reordered category.leading).default,
    (List.perm_ext_iff_of_nodup (distinct expansions)
      (distinct others)).2 members⟩

end Expansions.Reordered

/-! ## Accepted configurations -/

/-- The modes of each family can be listed in any order in which the same mode
is the default: the configuration stays accepted, and its token sheet holds
the same tokens and modes in another order, whatever the prefixes are. -/
theorem generate_reordered {config : Entries} {order : Order}
    (accepted : Acceptance.accept (.map config) = .ok ())
    (keeps : order.Keeps config) :
    Acceptance.accept (.map (reordered order config)) = .ok () ∧
    ∀ settings generated,
      generate (.map config) settings = .ok generated →
      ∃ result,
        generate (.map (reordered order config)) settings = .ok result ∧
        generated.sheet.tokens.Perm result.sheet.tokens ∧
        generated.sheet.overrides.Perm result.sheet.overrides ∧
        ∀ category,
          (result.sheet.modes.ofCategory category).default =
              (generated.sheet.modes.ofCategory category).default ∧
            (generated.sheet.modes.ofCategory category).overrides.Perm
              (result.sheet.modes.ofCategory category).overrides := by
  obtain ⟨modes, wellFormed⟩ :=
    (Acceptance.acceptEntries_iff config).1 accepted
  obtain ⟨others, wellFormedOthers⟩ :=
    exists_wellFormed_reordered wellFormed keeps
  have again : Acceptance.accept (.map (reordered order config)) = .ok () :=
    (Acceptance.acceptEntries_iff _).2 ⟨others, wellFormedOthers⟩
  refine ⟨again, ?_⟩
  intro settings generated made
  obtain ⟨_, system, chosen, expansions, read, settled, expanded, rfl⟩ :=
    generate_iff.1 made
  obtain ⟨other, readOther, same⟩ :=
    exists_read_reordered wellFormed keeps read
  have readFrom := readFrom_of_read wellFormed read
  have readFromOther := readFrom_of_read wellFormedOthers readOther
  obtain ⟨results, expandedOther, sameExpansions⟩ := exists_ofSystem
    fun family => exists_expandFamily_reordered family wellFormed readFrom
      same (ofSystem_iff.1 expanded family)
  have sameSheets : expansions.Reordered results := sameExpansions
  exact ⟨results.assemble, generate_iff.2 ⟨again, other, chosen, results,
      readOther, settled, expandedOther, rfl⟩, sameSheets.tokens_perm,
    sameSheets.overrides_perm
      (apart_of_wellFormed wellFormed readFrom expanded)
      (apart_of_wellFormed wellFormedOthers readFromOther expandedOther),
    sameSheets.modes_perm⟩

/-- Three spacing modes, the second of which is flagged as the default. -/
def flaggedSpacing : Entries :=
  [(.str "spacing", .map [(.str "modes", .list
    [.map [(.str "name", .str "compact"),
        (.str "tokens", .map (writtenScale 4 (.int 1)))],
      .map [(.str "name", .str "regular"), (.str "isDefault", .bool true),
        (.str "tokens", .map (writtenScale 8 (.int 1)))],
      .map [(.str "name", .str "wide"),
        (.str "tokens", .map (writtenScale 16 (.int 1)))]])])]

theorem flaggedSpacing_reordered :
    ∃ generated result,
      generate (.map flaggedSpacing) .null = .ok generated ∧
      generate (.map (reordered (fun _ => List.reverse) flaggedSpacing))
        .null = .ok result ∧
      generated.sheet.overrides.names = ["compact", "wide"] ∧
      generated.sheet.tokens.Perm result.sheet.tokens ∧
      generated.sheet.overrides.Perm result.sheet.overrides ∧
      result.sheet.modes.size.default = "regular" := by
  have keeps : Order.Keeps (fun _ => List.reverse) flaggedSpacing := by
    constructor
    · intro family items _
      exact (List.reverse_perm items).symm
    · intro family items lists
      obtain ⟨value, found, fields, rfl, listing, given, listed⟩ := lists
      cases family with
      | spacing =>
          cases found
          cases given
          rw [← items?_eq_some_iff] at listed
          cases listed
          rfl
      | _ => cases found
  have made : ∃ generated, generate (.map flaggedSpacing) .null =
      .ok generated ∧ generated.sheet.overrides.names = ["compact", "wide"] ∧
        generated.sheet.modes.size.default = "regular" :=
    ⟨_, rfl, rfl, rfl⟩
  obtain ⟨generated, made, names, default⟩ := made
  obtain ⟨result, again, tokens, overrides, modes⟩ :=
    (generate_reordered rfl keeps).2 .null generated made
  exact ⟨generated, result, made, again, names, tokens, overrides,
    (modes .size).1.trans default⟩

end DesignTokens
