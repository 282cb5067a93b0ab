import DesignTokens.Proofs.Expansion.Soundness

/-!
# Families whose modes are expanded one by one

Under the name of every override mode stand the tokens of that mode, and the
default tokens are those of the default mode. This holds of all families but
the time scales, which are all in use at once.
-/

namespace DesignTokens

open Acceptance (PlainMode)
open Grammar Schema Success

/-- The tokens of an override mode; a mode without tokens may be missing. -/
def Expansion.tokensOf (expansion : Expansion) (name : String) :
    List Token :=
  (expansion.overrides.lookup name).getD []

theorem Expansion.tokensOf_of_mem {expansion : Expansion}
    (distinct : expansion.overrides.names.Nodup)
    {entry : String × List Token} (member : entry ∈ expansion.overrides) :
    expansion.tokensOf entry.1 = entry.2 := by
  rw [tokensOf, Record.lookup_of_mem distinct member]
  rfl

/-- A notice of a selection with several flags, not of a lost token. -/
def Notice.IsSelection (notice : Notice) : Prop :=
  ∃ chosen others, notice = .severalDefaults chosen others

section Modes

variable {alpha : Type} {modes : Modes alpha}
  {expandMode : Mode alpha → Except ExpansionFault (List Token)}
  {expansion : Expansion}

theorem isSelection_of_mem_notices {notice : Notice}
    (member : notice ∈ modes.notices) : notice.IsSelection := by
  rw [Modes.notices] at member
  split at member
  · exact ⟨_, _, List.mem_singleton.1 member⟩
  · cases member

theorem Modes.mem_of_default {default : Mode alpha}
    (found : modes.default = .ok default) : default ∈ modes := by
  rw [Modes.default] at found
  split at found
  · rename_i chosen selected
    cases found
    exact List.mem_of_getElem? selected
  · cases found

/-- An expansion that holds, mode by mode, what the modes expand to. -/
structure Expansion.Follows (expansion : Expansion) (modes : Modes alpha)
    (expandMode : Mode alpha → Except ExpansionFault (List Token)) :
    Prop where
  defaults : ∃ default ∈ modes, modes.default = .ok default ∧
    expandMode default = .ok expansion.defaults
  overrides : ∀ mode ∈ modes.overrides,
    expandMode mode = .ok (expansion.tokensOf mode.name)
  names : expansion.overrides.names.Nodup
  listed : ∀ entry ∈ expansion.overrides, ∃ mode ∈ modes.overrides,
    mode.name = entry.1
  notices : ∀ notice ∈ expansion.notices, notice.IsSelection

theorem Expansion.Follows.tokensOf_eq_nil
    (follows : expansion.Follows modes expandMode) {name : String}
    (absent : name ∉ modes.overrides.map Mode.name) :
    expansion.tokensOf name = [] := by
  have unknown : name ∉ expansion.overrides.names := by
    intro known
    obtain ⟨entry, member, rfl⟩ := List.mem_map.1 known
    obtain ⟨mode, inside, same⟩ := follows.listed entry member
    exact absent (List.mem_map.2 ⟨mode, inside, same⟩)
  rw [tokensOf, Record.lookup_eq_none unknown]
  rfl

/-- All tokens are tokens of a mode. -/
theorem Expansion.Follows.forall_tokens
    (follows : expansion.Follows modes expandMode)
    {good : List Token → Prop}
    (each : ∀ mode ∈ modes, ∀ tokens, expandMode mode = .ok tokens →
      good tokens) :
    good expansion.defaults ∧
      ∀ entry ∈ expansion.overrides, good entry.2 := by
  constructor
  · obtain ⟨default, member, _, made⟩ := follows.defaults
    exact each default member _ made
  · intro entry member
    obtain ⟨mode, inside, same⟩ := follows.listed entry member
    have made := follows.overrides mode inside
    rw [same, Expansion.tokensOf_of_mem follows.names member] at made
    exact each mode (List.mem_of_mem_eraseIdx inside) _ made

theorem names_of_mapM_named {named : List (String × List Token)}
    (expanded : modes.mapM (fun mode => do
      let tokens ← expandMode mode
      return (mode.name, tokens)) = .ok named) :
    Record.names named = modes.map Mode.name := by
  have related := mapM_eq_ok.1 expanded
  clear expanded
  induction related with
  | nil => rfl
  | cons first _ inductionHypothesis =>
      obtain ⟨tokens, _, same⟩ := bind_eq_ok.1 first
      cases same
      rw [List.map_cons, ← inductionHypothesis]
      rfl

theorem nodup_overrides (distinct : (modes.map Mode.name).Nodup) :
    (modes.overrides.map Mode.name).Nodup :=
  distinct.sublist ((List.eraseIdx_sublist ..).map Mode.name)

/-- Modes may be left out of the overrides where they have no tokens. -/
theorem follows_of_named {named : List (String × List Token)}
    (distinct : (modes.map Mode.name).Nodup)
    (defaults : ∃ default, modes.default = .ok default ∧
      expandMode default = .ok expansion.defaults)
    (expanded : modes.overrides.mapM (fun mode => do
      let tokens ← expandMode mode
      return (mode.name, tokens)) = .ok named)
    {keep : String × List Token → Bool}
    (drops : ∀ entry, keep entry = false → entry.2 = [])
    (entries : expansion.overrides = Record.ofList (named.filter keep))
    (notices : ∀ notice ∈ expansion.notices, notice.IsSelection) :
    expansion.Follows modes expandMode := by
  have names : (Record.names named).Nodup := by
    rw [names_of_mapM_named expanded]
    exact nodup_overrides distinct
  have kept : (Record.names (named.filter keep)).Nodup :=
    names.sublist (List.filter_sublist.map Prod.fst)
  rw [Record.ofList_of_nodup kept] at entries
  refine ⟨?_, ?_, entries ▸ kept, ?_, notices⟩
  · obtain ⟨default, found, made⟩ := defaults
    exact ⟨default, Modes.mem_of_default found, found, made⟩
  · intro mode member
    obtain ⟨entry, inside, step⟩ := mem_mapM_of_mem expanded member
    obtain ⟨tokens, made, same⟩ := bind_eq_ok.1 step
    cases same
    have found : expansion.tokensOf mode.name = tokens := by
      have kept := Record.lookup_filter names keep inside
      rw [Expansion.tokensOf, entries, kept]
      cases keeps : keep (mode.name, tokens) with
      | true => rfl
      | false =>
          -- A mode that was left out has no tokens, and none are found for it.
          exact (drops _ keeps).symm
    rw [found]
    exact made
  · intro entry member
    rw [entries] at member
    obtain ⟨mode, inside, same, _⟩ :=
      mem_of_mapM_named expanded (List.mem_filter.1 member).1
    exact ⟨mode, inside, same⟩

theorem Modes.follows_of_expand (distinct : (modes.map Mode.name).Nodup)
    (expanded : modes.expand expandMode = .ok expansion) :
    expansion.Follows modes expandMode := by
  obtain ⟨default, found, step⟩ := bind_eq_ok.1 expanded
  obtain ⟨defaults, made, rest⟩ := bind_eq_ok.1 step
  obtain ⟨named, overrides, same⟩ := bind_eq_ok.1 rest
  cases same
  have all : named.filter (fun _ => true) = named := List.filter_true named
  exact follows_of_named distinct ⟨default, found, made⟩ overrides
    (fun _ never => by cases never) (congrArg Record.ofList all.symm)
    fun _ => isSelection_of_mem_notices

end Modes

/-! ## Colours and references -/

def ColorFamily.expandMode (settings : Settings) (family : ColorFamily)
    (mode : Mode Palette) : Except ExpansionFault (List Token) :=
  Token.ofColors settings (mode.content.schedule family.alphaSchedule)
    mode.content.colors

def Mode.expandReferences (family : Family) (settings : Settings)
    (spacing : Modes Scale) (mode : Mode References) :
    Except ExpansionFault (List Token) := do
  let found ← mode.spacingMode spacing
  mode.content.tokens family settings found.content

theorem follows_of_colors {settings : Settings} {family : ColorFamily}
    {expansion : Expansion} (distinct : (family.modes.map Mode.name).Nodup)
    (expanded : expandColors settings family = .ok expansion) :
    expansion.Follows family.modes (family.expandMode settings) := by
  obtain ⟨default, found, step⟩ := bind_eq_ok.1 expanded
  obtain ⟨defaults, made, rest⟩ := bind_eq_ok.1 step
  obtain ⟨named, overrides, same⟩ := bind_eq_ok.1 rest
  cases same
  have drops (entry : String × List Token)
      (dropped : (!entry.2.isEmpty) = false) : entry.2 = [] := by
    simpa using dropped
  exact follows_of_named distinct ⟨default, found, made⟩ overrides drops rfl
    fun _ => isSelection_of_mem_notices

theorem isSelection_of_spacingNotices {mode : Mode References}
    {spacing : Modes Scale} {notice : Notice}
    (member : notice ∈ mode.spacingNotices spacing) :
    notice.IsSelection := by
  rw [Mode.spacingNotices] at member
  split at member
  · cases member
  · exact isSelection_of_mem_notices member

theorem follows_of_references {family : Family} {settings : Settings}
    {spacing : Modes Scale} {modes : Modes References} {expansion : Expansion}
    (distinct : (modes.map Mode.name).Nodup)
    (expanded : expandReferences family settings spacing modes =
      .ok expansion) :
    expansion.Follows modes
      (Mode.expandReferences family settings spacing) := by
  obtain ⟨held, modesExpanded, step⟩ := bind_eq_ok.1 expanded
  obtain ⟨default, _, same⟩ := bind_eq_ok.1 step
  cases same
  have follows : held.Follows modes
      (Mode.expandReferences family settings spacing) :=
    Modes.follows_of_expand distinct modesExpanded
  refine ⟨follows.defaults, follows.overrides, follows.names,
    follows.listed, ?_⟩
  intro notice member
  rcases List.mem_append.1 member with own | lookup
  · exact follows.notices notice own
  · obtain ⟨mode, _, inside⟩ := List.mem_flatMap.1 lookup
    exact isSelection_of_spacingNotices inside

/-! ## Families of an accepted configuration -/

section Families

variable {config : Entries} {modes : Family → List PlainMode}
  {system : DesignSystem} {settings : Settings} {expansion : Expansion}

/-- A family is missing and expands to nothing, or its typed modes, which have
names of their own, are expanded. -/
theorem expanded_cases {alpha : Type} {readContent : Entries → Checked alpha}
    {family : Family} {given : Option (Modes alpha)}
    {expand : Modes alpha → Except ExpansionFault Expansion}
    (wellFormed : WellFormed config modes)
    (matched : Matches readContent (modes family) given)
    (expanded : expandGiven expand given = .ok expansion) :
    (given = none ∧ expansion = {}) ∨ ∃ typed, given = some typed ∧
      (typed.map Mode.name).Nodup ∧ expand typed = .ok expansion := by
  rcases expandGiven_eq_ok expanded with
    ⟨missing, empty⟩ | ⟨typed, found, expanded⟩
  · exact .inl ⟨missing, empty⟩
  · have names := nodup_of_matches wellFormed (found ▸ matched)
    exact .inr ⟨typed, found, names, expanded⟩

theorem expandedColors_cases (wellFormed : WellFormed config modes)
    (readFrom : ReadFrom modes system)
    (expanded : system.expandFamily settings .color = .ok expansion) :
    (system.colors = none ∧ expansion = {}) ∨ ∃ colors,
      system.colors = some colors ∧ (colors.modes.map Mode.name).Nodup ∧
        expandColors settings colors = .ok expansion := by
  rcases expandGiven_eq_ok expanded with
    ⟨missing, empty⟩ | ⟨colors, found, expanded⟩
  · exact .inl ⟨missing, empty⟩
  · have matched := readFrom.color
    rw [found] at matched
    exact .inr ⟨colors, found, nodup_of_matches wellFormed matched, expanded⟩

/-- References are missing, or they are expanded against spacing that is
there. -/
theorem expandedReferring_cases {family : Family}
    {given : Option (Modes References)} (wellFormed : WellFormed config modes)
    (spacing : Matches (readTokens Scale.read) (modes .spacing)
      system.spacing)
    (matched : Matches (readTokens References.read) (modes family) given)
    (refers : family ∈ referringFamilies)
    (expanded : expandReferring family settings system.spacing given =
      .ok expansion) :
    (given = none ∧ expansion = {}) ∨ ∃ scales typed,
      system.spacing = some scales ∧ given = some typed ∧
        (typed.map Mode.name).Nodup ∧
        expandReferences family settings scales typed = .ok expansion := by
  cases found : system.spacing with
  | some scales =>
      rw [found] at expanded
      rcases expanded_cases wellFormed matched expanded with
        missing | ⟨typed, given, names, made⟩
      · exact .inl missing
      · exact .inr ⟨scales, typed, rfl, given, names, made⟩
  | none =>
      rw [found] at expanded spacing
      cases expanded
      cases given with
      | none => exact .inl ⟨rfl, rfl⟩
      | some typed =>
          have nonempty : modes family ≠ [] := by
            generalize modes family = plain at matched
            cases matched with
            | present nonempty _ => exact nonempty
          exact absurd spacing.of_none
            (spacing_nonempty wellFormed refers nonempty)

end Families

end DesignTokens
