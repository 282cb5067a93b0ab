import DesignTokens.Proofs.Expansion.Origins
import DesignTokens.Proofs.System.Colors
import DesignTokens.Proofs.Expansion.Variants

/-!
# Groups of colour tokens

Every colour of a mode gives a group of tokens, its base and its variants. Where
no colour has the first letter of the separator in its name, all of these
tokens have different names. They come before the tokens of all other families,
so that none of them is lost, whatever the prefixes are.
-/

namespace DesignTokens

open Grammar Success

/-! ## Colours of a mode -/

/-- The entries of a record that have a value. -/
def Record.given {alpha : Type} (record : Record (Option alpha)) :
    Record alpha :=
  record.filterMap fun entry => entry.2.map (entry.1, ·)

theorem Record.sublist_names_given {alpha : Type}
    (record : Record (Option alpha)) :
    record.given.names.Sublist record.names := by
  induction record with
  | nil => exact List.Sublist.refl _
  | cons first rest inductionHypothesis =>
      obtain ⟨name, value⟩ := first
      cases value with
      | none => exact inductionHypothesis.cons name
      | some value => exact inductionHypothesis.cons_cons name

/-- The opacities of a mode, or else those that its family has. -/
def Palette.applied (palette : Palette) (shared : Option AlphaSchedule) :
    AlphaSchedule :=
  (palette.alphaSchedule.or shared).getD []

theorem Palette.Sound.schedule_eq {palette : Palette} (sound : palette.Sound)
    (shared : Option AlphaSchedule) :
    palette.schedule shared = palette.applied shared := by
  rw [Palette.schedule, Palette.applied]
  cases own : palette.alphaSchedule with
  | none => rfl
  | some schedule =>
      cases schedule with
      | nil => exact absurd rfl (sound.schedule _ own).nonempty
      | cons level rest => rfl

theorem ColorFamily.Sound.nodup_applied {family : ColorFamily}
    (sound : family.Sound) {mode : Mode Palette}
    (member : mode ∈ family.modes) :
    (Record.names (mode.content.applied family.alphaSchedule)).Nodup := by
  rw [Palette.applied]
  cases own : mode.content.alphaSchedule with
  | some schedule =>
      exact ((sound.modes mode member).schedule schedule own).distinct
  | none =>
      cases shared : family.alphaSchedule with
      | some schedule => exact (sound.schedule schedule shared).distinct
      | none => exact List.nodup_nil

/-! ## Groups -/

/-- The names of the tokens of a colour: its base, and a variant for every
level. -/
def Settings.groupNames (settings : Settings) (schedule : AlphaSchedule)
    (color : String × Oklch) : List String :=
  settings.colorName color.1 ::
    schedule.names.map (settings.variantName color.1)

/-- The tokens of a colour: its base, and a variant for every level in
order. -/
def Token.IsGroup (settings : Settings) (schedule : AlphaSchedule)
    (color : String × Oklch) (group : List Token) : Prop :=
  ∃ base variants, group = base :: variants ∧
    Token.ofColor settings color.1 color.2 = .ok base ∧
    List.Forall₂ (fun level variant =>
      Token.ofVariant settings color.1 color.2 level = .ok variant)
      schedule variants

section Groups

variable {settings : Settings} {schedule : AlphaSchedule}
  {tokens : List Token}

theorem groups_of_colors {colors : Record (Option Oklch)}
    (made : Token.ofColors settings schedule colors = .ok tokens) :
    ∃ groups, List.Forall₂ (Token.IsGroup settings schedule)
        colors.given groups ∧
      tokens = groups.flatten := by
  induction colors generalizing tokens with
  | nil =>
      cases made
      exact ⟨[], .nil, rfl⟩
  | cons first rest inductionHypothesis =>
      obtain ⟨name, color⟩ := first
      cases color with
      | none => exact inductionHypothesis made
      | some color =>
          obtain ⟨group, groupMade, step⟩ := bind_eq_ok.1 made
          obtain ⟨others, othersMade, same⟩ := bind_eq_ok.1 step
          cases same
          obtain ⟨groups, related, rfl⟩ := inductionHypothesis othersMade
          obtain ⟨base, baseMade, step⟩ := bind_eq_ok.1 groupMade
          obtain ⟨variants, variantsMade, same⟩ := bind_eq_ok.1 step
          cases same
          exact ⟨_ :: groups,
            .cons ⟨base, variants, rfl, baseMade, mapM_eq_ok.1 variantsMade⟩
              related, rfl⟩

theorem names_of_group {color : String × Oklch} {group : List Token}
    (isGroup : Token.IsGroup settings schedule color group) :
    group.map Token.name = settings.groupNames schedule color := by
  obtain ⟨base, variants, rfl, baseMade, related⟩ := isGroup
  have first : base.name = settings.colorName color.1 := by
    obtain ⟨value, _, same⟩ := bind_eq_ok.1 baseMade
    cases same
    rfl
  rw [List.map_cons, Settings.groupNames, first]
  congr 1
  induction related with
  | nil => rfl
  | cons levelMade _ inductionHypothesis =>
      rw [List.map_cons, (level_of_variant levelMade).1, inductionHypothesis]
      rfl

variable {colors : Record Oklch} {groups : List (List Token)}

theorem names_of_groups
    (related : List.Forall₂ (Token.IsGroup settings schedule) colors groups) :
    groups.flatten.map Token.name =
      colors.flatMap (settings.groupNames schedule) := by
  induction related with
  | nil => rfl
  | cons isGroup _ inductionHypothesis =>
      rw [List.flatten_cons, List.map_append, names_of_group isGroup,
        inductionHypothesis]
      rfl

theorem length_groupNames (settings : Settings) (schedule : AlphaSchedule)
    (colors : Record Oklch) :
    (colors.flatMap (settings.groupNames schedule)).length =
      colors.length * (1 + schedule.length) := by
  induction colors with
  | nil => exact (Nat.zero_mul _).symm
  | cons color rest inductionHypothesis =>
      have own : (settings.groupNames schedule color).length =
          1 + schedule.length := by
        simp [Settings.groupNames, Record.names, Nat.add_comm]
      rw [List.flatMap_cons, List.length_append, inductionHypothesis, own,
        List.length_cons]
      ring

end Groups

/-! ## Names that differ -/

section Names

variable {settings : Settings} {schedule : AlphaSchedule} {mark : Char}
  {more : List Char}

theorem append_injective (stem : String) :
    Function.Injective fun label => stem ++ label := by
  intro first second same
  have texts := congrArg String.toList same
  simp only [String.toList_append] at texts
  exact String.toList_injective (List.append_cancel_left texts)

/-- A name of a group ends with the colour or goes on with the mark. -/
theorem toList_of_mem_groupNames
    (marked : settings.separators.modifier.toList = mark :: more)
    {color : String × Oklch} {name : String}
    (member : name ∈ settings.groupNames schedule color) :
    name = settings.colorName color.1 ∨ ∃ rest,
      name.toList = (settings.colorName color.1).toList ++ mark :: rest := by
  rcases List.mem_cons.1 member with base | variant
  · exact .inl base
  · obtain ⟨level, _, rfl⟩ := List.mem_map.1 variant
    right
    simp only [Settings.variantName, String.toList_append, marked,
      List.append_assoc, List.cons_append]
    exact ⟨_, rfl⟩

/-- What a name of a group says about its colour, where the colour does not
have the mark. -/
theorem colorOf_groupNames
    (marked : settings.separators.modifier.toList = mark :: more)
    {color : String × Oklch} (plain : mark ∉ color.1.toList) {name : String}
    (member : name ∈ settings.groupNames schedule color) :
    (name.toList.drop (settings.prefixes.color ++ "-").length).takeWhile
      (· != mark) = color.1.toList := by
  have start : (settings.colorName color.1).toList =
      (settings.prefixes.color ++ "-").toList ++ color.1.toList :=
    String.toList_append ..
  have size : (settings.prefixes.color ++ "-").length =
      (settings.prefixes.color ++ "-").toList.length :=
    String.length_toList.symm
  rcases toList_of_mem_groupNames marked member with rfl | ⟨rest, text⟩
  · rw [start, size, List.drop_left, List.takeWhile_eq_self_iff]
    intro letter inside
    have different : letter ≠ mark := fun same => plain (same ▸ inside)
    simpa using different
  · rw [text, start, List.append_assoc, size, List.drop_left,
      takeWhile_plain plain]

theorem nodup_groupNames
    (marked : settings.separators.modifier.toList = mark :: more)
    (levels : (Record.names schedule).Nodup) (color : String × Oklch) :
    (settings.groupNames schedule color).Nodup := by
  apply List.nodup_cons.2
  constructor
  · intro member
    obtain ⟨level, _, same⟩ := List.mem_map.1 member
    have lengths := congrArg (fun name => name.toList.length) same
    simp only [Settings.variantName, String.toList_append, marked,
      List.length_append, List.length_cons] at lengths
    omega
  · exact levels.map (append_injective _)

/-- No two tokens of some colours share a name, where no colour has the first
letter of the separator. -/
theorem nodup_flatMap_groupNames {colors : Record Oklch}
    (marked : settings.separators.modifier.toList = mark :: more)
    (levels : (Record.names schedule).Nodup) (distinct : colors.names.Nodup)
    (plain : ∀ name ∈ colors.names, mark ∉ name.toList) :
    (colors.flatMap (settings.groupNames schedule)).Nodup := by
  apply List.nodup_flatMap.2
  constructor
  · intro color _
    exact nodup_groupNames marked levels color
  · rw [Record.names, List.Nodup, List.pairwise_map] at distinct
    apply distinct.imp_of_mem
    intro first second inFirst inSecond different name member again
    have left := colorOf_groupNames marked
      (plain _ (Record.mem_names inFirst)) member
    have right := colorOf_groupNames marked
      (plain _ (Record.mem_names inSecond)) again
    exact different (String.toList_injective (left.symm.trans right))

end Names

/-! ## Colours of a sheet -/

/-- The colours among the tokens of a record. -/
def colorsIn (record : Record Token) : Record Token :=
  record.filter fun entry => entry.2.family = .color

/-- The colours of a record are, colour by colour, the base and its variants
in the order of the levels. -/
structure HoldsColors (settings : Settings) (schedule : AlphaSchedule)
    (colors : Record Oklch) (record : Record Token) : Prop where
  groups : ∃ groups,
    List.Forall₂ (Token.IsGroup settings schedule) colors groups ∧
      colorsIn record =
        groups.flatten.map fun token => (token.name, token)
  names : (colorsIn record).names =
    colors.flatMap (settings.groupNames schedule)
  count : (colorsIn record).length = colors.length * (1 + schedule.length)

theorem holdsColors_of_merge {settings : Settings} {family : ColorFamily}
    {mode : Mode Palette} {tokens others : List Token} {mark : Char}
    {more : List Char} (sound : family.Sound) (member : mode ∈ family.modes)
    (marked : settings.separators.modifier.toList = mark :: more)
    (plain : ∀ name ∈ mode.content.colors.given.names, mark ∉ name.toList)
    (made : family.expandMode settings mode = .ok tokens)
    (apart : ∀ token ∈ others, token.family ≠ .color) :
    HoldsColors settings (mode.content.applied family.alphaSchedule)
      mode.content.colors.given (mergeTokens (tokens ++ others)).1 := by
  have modeSound := sound.modes mode member
  have colored := family_of_colors made
  rw [ColorFamily.expandMode, modeSound.schedule_eq] at made
  obtain ⟨groups, related, rfl⟩ := groups_of_colors made
  have names := names_of_groups related
  have distinct : (groups.flatten.map Token.name).Nodup := by
    rw [names]
    exact nodup_flatMap_groupNames marked (sound.nodup_applied member)
      (modeSound.colors.sublist (Record.sublist_names_given _)) plain
  have kept : colorsIn (mergeTokens (groups.flatten ++ others)).1 =
      groups.flatten.map fun token => (token.name, token) :=
    filter_mergeTokens distinct
      (fun token inside => decide_eq_true (colored token inside))
      (fun token inside => decide_eq_false (apart token inside))
  have keys : (colorsIn (mergeTokens (groups.flatten ++ others)).1).names =
      mode.content.colors.given.flatMap (settings.groupNames
        (mode.content.applied family.alphaSchedule)) := by
    rw [kept, ← names, Record.names, List.map_map]
    rfl
  refine ⟨⟨groups, related, kept⟩, keys, ?_⟩
  rw [← length_groupNames settings, ← keys, Record.names, List.length_map]

/-! ## Accepted configurations -/

/-- The families other than the colours, in the order of output. -/
def Family.plain : List Family :=
  [.spacing, .gap, .typography, .borderRadius, .borderWidth, .time]

theorem flatMap_families {tokensOf : Family → List Token} :
    Family.all.flatMap tokensOf =
      tokensOf .color ++ Family.plain.flatMap tokensOf :=
  List.flatMap_cons ..

theorem family_ne_color {tokensOf : Family → List Token}
    (belongs : ∀ family, ∀ token ∈ tokensOf family, token.family = family) :
    ∀ token ∈ Family.plain.flatMap tokensOf, token.family ≠ .color := by
  intro token member isColor
  obtain ⟨family, isPlain, inside⟩ := List.mem_flatMap.1 member
  rw [belongs family token inside] at isColor
  rw [isColor] at isPlain
  exact absurd isPlain (by decide)

/-- Where no colour of a mode has the first letter of the separator in its
name, the tokens of the mode hold all of its colours: `k` colours and `m`
levels make `k * (1 + m)` tokens, and none of them is lost. -/
theorem colors_counted {config : Value} {system : DesignSystem}
    {settings : Settings} {generated : Generated} {colors : ColorFamily}
    {mode : Mode Palette} {mark : Char} {more : List Char}
    (distinct : config.keysDistinct = true)
    (accepted : Acceptance.accept config = .ok ())
    (read : DesignSystem.read config = .accepted system)
    (made : system.expand settings = .ok generated)
    (found : system.colors = some colors)
    (marked : settings.separators.modifier.toList = mark :: more)
    (plain : ∀ name ∈ mode.content.colors.given.names,
      mark ∉ name.toList) :
    (colors.modes.default = .ok mode →
      HoldsColors settings (mode.content.applied colors.alphaSchedule)
        mode.content.colors.given generated.sheet.tokens) ∧
    (mode ∈ colors.modes.overrides →
      HoldsColors settings (mode.content.applied colors.alphaSchedule)
          mode.content.colors.given
          (generated.sheet.overridesOf mode.name) ∧
        (mode.content.colors.given ≠ [] →
          generated.sheet.overrides.lookup mode.name =
            some (generated.sheet.overridesOf mode.name))) := by
  obtain ⟨entries, modes, rfl, wellFormed, readFrom⟩ :=
    exists_modes accepted read
  obtain ⟨expansions, expanded, rfl⟩ := exists_expansions made
  have apart := apart_of_wellFormed wellFormed readFrom expanded
  have follows := follows_of_systemColors wellFormed readFrom expanded found
  have sound := soundColors_of_read wellFormed distinct read found
  have origins := from_of_ofSystem wellFormed readFrom expanded
  constructor
  · intro isDefault
    obtain ⟨default, member, again, defaultMade⟩ := follows.defaults
    rw [isDefault] at again
    cases again
    change HoldsColors _ _ _ (mergeTokens expansions.defaults).1
    rw [Expansions.defaults, flatMap_families]
    apply holdsColors_of_merge sound member marked plain defaultMade
    apply family_ne_color
    intro family token inside
    exact ((origins family).defaults token inside).family_eq
  · intro override
    have modeMade := follows.overrides mode override
    have member : mode ∈ colors.modes := List.mem_of_mem_eraseIdx override
    have holds : HoldsColors settings
        (mode.content.applied colors.alphaSchedule)
        mode.content.colors.given
        (expansions.assemble.sheet.overridesOf mode.name) := by
      rw [apart.overridesOf_assemble, Expansions.overridesOf,
        flatMap_families]
      apply holdsColors_of_merge sound member marked plain modeMade
      apply family_ne_color
      intro family token inside
      exact ((origins family).tokensOf mode.name token inside).family_eq
    refine ⟨holds, fun nonempty => ?_⟩
    rw [TokenSheet.overridesOf]
    cases held : expansions.assemble.sheet.overrides.lookup mode.name with
    | some record => rfl
    | none =>
        have count := holds.count
        rw [TokenSheet.overridesOf, held] at count
        have some : 0 < mode.content.colors.given.length :=
          List.length_pos_iff.2 nonempty
        exact absurd count.symm (by positivity)

/-- Colours and a spacing scale under one prefix. The second mode has opacities
of its own. -/
def crowdedTheme : Value :=
  .map [(.str "colors", .map [
      (.str "alphaSchedule", .map [(.str "lo", .float 0.25)]),
      (.str "modes", .list [
        .map [(.str "name", .str "light"), (.str "tokens", .map
          [(.str "min", .map [(.str "l", .int 1), (.str "c", .int 0)]),
            (.str "none", .null),
            (.str "bg", .map [(.str "l", .int 0), (.str "c", .int 0)])])],
        .map [(.str "name", .str "contrast"),
          (.str "alphaSchedule", .map [(.str "half", .float 0.5),
            (.str "full", .int 1)]),
          (.str "tokens", .map
            [(.str "bg", .map [(.str "l", .int 1), (.str "c", .int 0)])])]])]),
    (.str "spacing", writtenFamily [("regular", writtenScale 8 (.int 2))])]

def crowdedSettings : Settings where
  prefixes := { spacing := "clr" }

theorem crowdedTheme_counted :
    ∃ system generated colors mode other,
      crowdedTheme.keysDistinct = true ∧
      Acceptance.accept crowdedTheme = .ok () ∧
      DesignSystem.read crowdedTheme = .accepted system ∧
      system.expand crowdedSettings = .ok generated ∧
      system.colors = some colors ∧
      crowdedSettings.separators.modifier.toList = ['-'] ∧
      colors.modes.default = .ok mode ∧
      mode.content.colors.given.names = ["min", "bg"] ∧
      (colorsIn generated.sheet.tokens).names =
        ["clr-min", "clr-min-a-lo", "clr-bg", "clr-bg-a-lo"] ∧
      other ∈ colors.modes.overrides ∧
      (colorsIn (generated.sheet.overridesOf "contrast")).names =
        ["clr-bg", "clr-bg-a-half", "clr-bg-a-full"] := by
  obtain ⟨system, read⟩ :
      ∃ system, DesignSystem.read crowdedTheme = .accepted system :=
    ⟨_, rfl⟩
  have expands : (system.expand crowdedSettings).toOption.isSome := by
    cases read
    decide +kernel
  obtain ⟨generated, made⟩ := Option.isSome_iff_exists.1 expands
  rw [toOption_eq_some] at made
  cases read
  have default := (@colors_counted crowdedTheme _ crowdedSettings generated _
    _ '-' [] rfl rfl rfl made rfl rfl (by decide)).1 rfl
  have override := ((@colors_counted crowdedTheme _ crowdedSettings generated
    _ _ '-' [] rfl rfl rfl made rfl rfl (by decide)).2
      (List.mem_cons_self ..)).1
  exact ⟨_, generated, _, _, _, rfl, rfl, rfl, made, rfl, rfl, rfl, rfl,
    default.names, List.mem_cons_self .., override.names⟩

end DesignTokens
