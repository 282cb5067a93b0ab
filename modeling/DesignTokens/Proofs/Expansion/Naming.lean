import DesignTokens.Proofs.Expansion.Merging
import DesignTokens.Proofs.Expansion.ModeByMode

/-!
# Names of tokens

A name begins with the prefix of its family, up to the first dash. Within a
mode of a family other than the colours no two tokens share a name: the labels
of a scale differ and so do the keys of references. The time scales, all of
which are in use at once, are told apart by what stands before the last dash.
-/

namespace DesignTokens

open Success

/-! ## Dashes -/

/-- What stands before the first dash of a name. -/
def nameLead (name : String) : List Char :=
  name.toList.takeWhile (· != '-')

theorem toList_dashed (stem label : String) :
    (stem ++ "-" ++ label).toList = stem.toList ++ '-' :: label.toList := by
  simp

/-- What stands before a mark ends at the mark. -/
theorem takeWhile_plain {mark : Char} {front : List Char}
    (plain : mark ∉ front) (rest : List Char) :
    (front ++ mark :: rest).takeWhile (· != mark) = front := by
  have letters : ∀ letter ∈ front, (letter != mark) = true := by
    intro letter member
    have different : letter ≠ mark := fun same => plain (same ▸ member)
    simpa using different
  rw [List.takeWhile_append_of_pos letters]
  simp

theorem nameLead_dashed {stem : String} (plain : '-' ∉ stem.toList)
    (label : String) : nameLead (stem ++ "-" ++ label) = stem.toList := by
  rw [nameLead, toList_dashed, takeWhile_plain plain]

theorem nameLead_plain {stem : String} (plain : '-' ∉ stem.toList) :
    nameLead stem = stem.toList := by
  rw [nameLead, List.takeWhile_eq_self_iff]
  intro letter member
  have different : letter ≠ '-' := fun same => plain (same ▸ member)
  simpa using different

theorem dashed_injective (stem : String) :
    Function.Injective fun label => stem ++ "-" ++ label := by
  intro first second same
  have texts := congrArg String.toList same
  simp only [toList_dashed] at texts
  have labels := List.append_cancel_left texts
  exact String.toList_injective (List.cons.inj labels).2

/-- A name is cut at its last dash where the labels have none. -/
theorem dashed_inj {stem other label second : String}
    (plain : '-' ∉ label.toList) (otherPlain : '-' ∉ second.toList)
    (same : stem ++ "-" ++ label = other ++ "-" ++ second) :
    stem = other ∧ label = second := by
  have texts := congrArg String.toList same
  simp only [toList_dashed] at texts
  have mirrored := congrArg
    (fun text => text.reverse.takeWhile (· != '-')) texts
  simp only [List.reverse_append, List.reverse_cons, List.append_assoc,
    List.singleton_append] at mirrored
  rw [takeWhile_plain (mt List.mem_reverse.1 plain),
    takeWhile_plain (mt List.mem_reverse.1 otherPlain)] at mirrored
  have labels := List.reverse_injective mirrored
  rw [labels] at texts
  have stems := List.append_cancel_right texts
  exact ⟨String.toList_injective stems, String.toList_injective labels⟩

/-! ## Labels of a scale -/

theorem toList_wholeText (n : Nat) :
    (Number.wholeText n).toList = Nat.toDigits 10 n := by
  have notNegative : ¬ ((n : Int) < 0) := by omega
  rw [Number.wholeText, String.toList_ofList, Number.wholeDigits,
    if_neg notNegative]
  rfl

theorem wholeText_injective :
    Function.Injective fun n : Nat => Number.wholeText n := by
  intro first second same
  have digits : Nat.toDigits 10 first = Nat.toDigits 10 second := by
    rw [← toList_wholeText, ← toList_wholeText]
    exact congrArg String.toList same
  calc
    first = Nat.ofDigitChars 10 (Nat.toDigits 10 first) 0 :=
      Nat.ofDigitChars_ten_toDigits.symm
    _ = Nat.ofDigitChars 10 (Nat.toDigits 10 second) 0 := by rw [digits]
    _ = second := Nat.ofDigitChars_ten_toDigits

theorem isDigit_of_mem_wholeText {n : Nat} {letter : Char}
    (member : letter ∈ (Number.wholeText n).toList) :
    letter.isDigit = true := by
  rw [toList_wholeText] at member
  exact Nat.isDigit_of_mem_toDigits (by decide) (by decide) member

/-- The labels of a scale with this many steps. -/
def scaleLabels (count : Int) : List String :=
  "min" :: (stepNumbers count).map fun (n : Nat) => Number.wholeText n

theorem dash_not_mem_of_scaleLabels {count : Int} {label : String}
    (member : label ∈ scaleLabels count) : '-' ∉ label.toList := by
  rcases List.mem_cons.1 member with rfl | step
  · decide
  · obtain ⟨n, _, rfl⟩ := List.mem_map.1 step
    intro dash
    have digit := isDigit_of_mem_wholeText dash
    exact absurd digit (by decide)

theorem wholeText_ne_min (n : Nat) : Number.wholeText n ≠ "min" := by
  intro same
  have letter : 'm' ∈ (Number.wholeText n).toList := by
    rw [same]
    decide
  exact absurd (isDigit_of_mem_wholeText letter) (by decide)

theorem nodup_scaleLabels (count : Int) : (scaleLabels count).Nodup := by
  have steps : (stepNumbers count).Nodup :=
    List.nodup_range.map (add_left_injective 1)
  apply List.nodup_cons.2
  constructor
  · intro member
    obtain ⟨n, _, same⟩ := List.mem_map.1 member
    exact wholeText_ne_min n same
  · exact steps.map wholeText_injective

theorem labels_of_labelledValues {minimum : Float} {count : Int}
    {step : Int → Except Number.ArithmeticFault Float}
    {values : List (String × Float)}
    (made : labelledValues minimum count step = .ok values) :
    values.map Prod.fst = scaleLabels count := by
  obtain ⟨steps, found, same⟩ := bind_eq_ok.1 made
  cases same
  have related := mapM_eq_ok.1 found
  rw [List.map_cons, scaleLabels]
  congr 1
  clear made found
  generalize stepNumbers count = numbers at related
  induction related with
  | nil => rfl
  | cons first _ inductionHypothesis =>
      obtain ⟨size, _, same⟩ := bind_eq_ok.1 first
      cases same
      rw [List.map_cons, List.map_cons, inductionHypothesis]

theorem names_of_scaleTokens {stem : String} {token : String × Float → Token}
    {minimum : Float} {count : Int}
    {step : Int → Except Number.ArithmeticFault Float} {tokens : List Token}
    (each : ∀ entry, (token entry).name = stem ++ "-" ++ entry.1)
    (made : scaleTokens token (labelledValues minimum count step) =
      .ok tokens) :
    tokens.map Token.name =
      (scaleLabels count).map (stem ++ "-" ++ ·) := by
  obtain ⟨values, found, rfl⟩ := map_eq_ok.1 ((mapError_eq_ok _).1 made)
  rw [← labels_of_labelledValues found, List.map_map, List.map_map]
  exact List.map_congr_left fun entry _ => each entry

/-! ## Tokens of one family -/

/-- Prefixes that differ from family to family and have no dash. -/
structure Prefixes.Apart (prefixes : Prefixes) : Prop where
  distinct : Function.Injective prefixes.ofFamily
  plain : ∀ family, '-' ∉ (prefixes.ofFamily family).toList

theorem Prefixes.apart_default : Prefixes.Apart {} := by
  constructor
  · intro first second
    cases first <;> cases second <;> decide
  · intro family
    cases family <;> decide

/-- Tokens of a family, of which only colours may share a name. -/
structure NamedIn (prefixes : Prefixes) (family : Family)
    (tokens : List Token) : Prop where
  belongs : ∀ token ∈ tokens, token.family = family
  lead : ∀ token ∈ tokens,
    nameLead token.name = (prefixes.ofFamily family).toList
  distinct : family ≠ .color → (tokens.map Token.name).Nodup

theorem NamedIn.nil (prefixes : Prefixes) (family : Family) :
    NamedIn prefixes family [] :=
  ⟨List.forall_mem_nil _, List.forall_mem_nil _, fun _ => List.nodup_nil⟩

section Named

variable {prefixes : Prefixes} {family : Family} {tokens : List Token}

theorem NamedIn.pairwise (named : NamedIn prefixes family tokens) :
    tokens.Pairwise Token.Compatible := by
  by_cases color : family = .color
  · apply List.pairwise_of_forall_mem_list
    intro first inside second among _
    rw [named.belongs first inside, named.belongs second among]
    exact ⟨color, color⟩
  · have names := named.distinct color
    rw [List.Nodup, List.pairwise_map] at names
    exact names.imp fun different same => absurd same different

/-- Tokens of different families never share a name. -/
theorem pairwise_flatMap_families {tokensOf : Family → List Token}
    (apart : prefixes.Apart)
    (named : ∀ family, NamedIn prefixes family (tokensOf family)) :
    (Family.all.flatMap tokensOf).Pairwise Token.Compatible := by
  apply List.pairwise_flatMap.2
  constructor
  · intro family _
    exact (named family).pairwise
  · have families : Family.all.Pairwise (· ≠ ·) := by decide
    apply families.imp
    intro left right different first inLeft second inRight same
    have leads : nameLead first.name = nameLead second.name := by rw [same]
    rw [(named left).lead first inLeft, (named right).lead second inRight]
      at leads
    have equal := apart.distinct (String.toList_injective leads)
    exact absurd equal different

theorem namedIn_of_dashed {labels : List String} (apart : prefixes.Apart)
    (families : ∀ token ∈ tokens, token.family = family)
    (names : tokens.map Token.name =
      labels.map (prefixes.ofFamily family ++ "-" ++ ·))
    (distinct : labels.Nodup) : NamedIn prefixes family tokens := by
  refine ⟨families, ?_, ?_⟩
  · intro token member
    have listed : token.name ∈ tokens.map Token.name :=
      List.mem_map.2 ⟨token, member, rfl⟩
    rw [names] at listed
    obtain ⟨label, _, same⟩ := List.mem_map.1 listed
    rw [← same]
    exact nameLead_dashed (apart.plain family) label
  · intro _
    rw [names]
    exact distinct.map (dashed_injective _)

end Named

/-! ## Modes of one family -/

section Families

variable {settings : Settings} {tokens : List Token}

theorem namedIn_of_spacing {scale : Scale}
    (apart : settings.prefixes.Apart)
    (made : scale.spacingTokens settings.prefixes.spacing = .ok tokens) :
    NamedIn settings.prefixes .spacing tokens :=
  namedIn_of_dashed apart (family_of_spacing made)
    (names_of_scaleTokens (fun _ => rfl) made) (nodup_scaleLabels _)

theorem namedIn_of_typography {scale : TypeScale}
    (apart : settings.prefixes.Apart)
    (made : scale.tokens settings.prefixes.typography = .ok tokens) :
    NamedIn settings.prefixes .typography tokens :=
  namedIn_of_dashed apart (family_of_typography made)
    (names_of_scaleTokens (fun _ => rfl) made) (nodup_scaleLabels _)

theorem namedIn_of_width (width : Width) (apart : settings.prefixes.Apart) :
    NamedIn settings.prefixes .borderWidth
      (width.tokens settings.prefixes.borderWidth) := by
  refine ⟨List.forall_mem_singleton.2 rfl, List.forall_mem_singleton.2 ?_,
    fun _ => List.nodup_singleton _⟩
  exact nameLead_plain (apart.plain .borderWidth)

theorem names_of_references {family : Family} {scale : Scale}
    {references : References}
    (made : references.tokens family settings scale = .ok tokens) :
    tokens.map Token.name = references.entries.names.map
      (settings.prefixes.ofFamily family ++ "-" ++ ·) := by
  have related := mapM_eq_ok.1 made
  clear made
  generalize references.entries = entries at related
  induction related with
  | nil => rfl
  | cons first _ inductionHypothesis =>
      obtain ⟨size, _, same⟩ := bind_eq_ok.1 first
      cases same
      rw [List.map_cons, inductionHypothesis]
      rfl

theorem namedIn_of_references {family : Family} {spacing : Modes Scale}
    {mode : Mode References} (apart : settings.prefixes.Apart)
    (distinct : mode.content.entries.names.Nodup)
    (made : mode.expandReferences family settings spacing = .ok tokens) :
    NamedIn settings.prefixes family tokens := by
  obtain ⟨found, _, referring⟩ := bind_eq_ok.1 made
  exact namedIn_of_dashed apart (family_of_references referring)
    (names_of_references referring) distinct

theorem dashed_of_namedColor {schedule : AlphaSchedule} {name : String}
    {color : Oklch}
    (made : Token.ofNamedColor settings schedule name color = .ok tokens) :
    ∀ token ∈ tokens, ∃ label,
      token.name = settings.prefixes.color ++ "-" ++ label := by
  obtain ⟨base, baseMade, step⟩ := bind_eq_ok.1 made
  obtain ⟨variants, variantsMade, same⟩ := bind_eq_ok.1 step
  cases same
  refine List.forall_mem_cons.2 ⟨?_, ?_⟩
  · obtain ⟨value, _, same⟩ := bind_eq_ok.1 baseMade
    cases same
    exact ⟨name, rfl⟩
  · intro token member
    obtain ⟨level, _, held⟩ := mem_of_mapM variantsMade member
    obtain ⟨value, _, same⟩ := bind_eq_ok.1 held
    cases same
    refine ⟨name ++ settings.separators.modifier
      ++ settings.colorFormat.alphaModifier ++ settings.separators.value
      ++ level.1, ?_⟩
    simp [Settings.variantName, Settings.colorName, String.append_assoc]

theorem dashed_of_colors {schedule : AlphaSchedule}
    {colors : Record (Option Oklch)}
    (made : Token.ofColors settings schedule colors = .ok tokens) :
    ∀ token ∈ tokens, ∃ label,
      token.name = settings.prefixes.color ++ "-" ++ label := by
  intro token member
  obtain ⟨name, color, named, _, namedMade, inside⟩ :=
    exists_namedColor_of_mem made member
  exact dashed_of_namedColor namedMade token inside

theorem namedIn_of_colors {family : ColorFamily} {mode : Mode Palette}
    (apart : settings.prefixes.Apart)
    (made : family.expandMode settings mode = .ok tokens) :
    NamedIn settings.prefixes .color tokens := by
  refine ⟨family_of_colors made, ?_, fun never => absurd rfl never⟩
  intro token member
  obtain ⟨label, same⟩ := dashed_of_colors made token member
  rw [same]
  exact nameLead_dashed (apart.plain .color) label

end Families

/-! ## Time scales -/

/-- The part of a time token's name that follows the prefix. -/
def timeLabel (entry : Mode Scale × Bool) (label : String) : String :=
  if entry.2 then label else entry.1.name ++ "-" ++ label

theorem dashed_timeStem (settings : Settings) (entry : Mode Scale × Bool)
    (label : String) :
    timeStem settings entry.1 entry.2 ++ "-" ++ label =
      settings.prefixes.time ++ "-" ++ timeLabel entry label := by
  rw [timeStem, timeLabel]
  by_cases isDefault : entry.2 = true
  · rw [if_pos isDefault, if_pos isDefault]
  · rw [if_neg isDefault, if_neg isDefault]
    simp only [String.append_assoc]

/-- The labels of several scales, each with the answer to whether it is the
default. -/
def timeLabels (entries : List (Mode Scale × Bool)) : List String :=
  entries.flatMap fun entry =>
    (scaleLabels entry.1.content.count).map (timeLabel entry)

theorem timeLabel_injective (entry : Mode Scale × Bool) :
    Function.Injective (timeLabel entry) := by
  intro first second same
  rw [timeLabel, timeLabel] at same
  by_cases isDefault : entry.2 = true
  · rwa [if_pos isDefault, if_pos isDefault] at same
  · rw [if_neg isDefault, if_neg isDefault] at same
    exact dashed_injective _ same

/-- A label of the default scale has no dash, that of any other one has. -/
theorem default_of_dash_not_mem {entry : Mode Scale × Bool} {label : String}
    (plain : '-' ∉ (timeLabel entry label).toList) : entry.2 = true := by
  by_contra named
  rw [timeLabel, if_neg named, toList_dashed] at plain
  simp at plain

theorem timeLabel_inj {entry other : Mode Scale × Bool}
    {label second : String} (plain : '-' ∉ label.toList)
    (otherPlain : '-' ∉ second.toList)
    (same : timeLabel entry label = timeLabel other second) :
    entry.2 = true ∧ other.2 = true ∨ entry.1.name = other.1.name := by
  by_cases isDefault : entry.2 = true
  · have short : timeLabel entry label = label := if_pos isDefault
    rw [short] at same
    exact .inl ⟨isDefault, default_of_dash_not_mem (same ▸ plain)⟩
  · by_cases otherDefault : other.2 = true
    · have short : timeLabel other second = second := if_pos otherDefault
      rw [short] at same
      have named := default_of_dash_not_mem (same.symm ▸ otherPlain)
      exact absurd named isDefault
    · rw [timeLabel, timeLabel, if_neg isDefault, if_neg otherDefault] at same
      exact .inr (dashed_inj plain otherPlain same).1

theorem nodup_timeLabels {modes : Modes Scale}
    (distinct : (modes.map Mode.name).Nodup) :
    (timeLabels (Selection.marked Modes.flagged modes)).Nodup := by
  have names : (Selection.marked Modes.flagged modes).Pairwise
      fun first second => first.1.name ≠ second.1.name := by
    rw [← Selection.map_fst_marked Modes.flagged modes, List.map_map,
      List.Nodup, List.pairwise_map] at distinct
    exact distinct
  apply List.nodup_flatMap.2
  constructor
  · intro entry _
    exact (nodup_scaleLabels _).map (timeLabel_injective entry)
  · apply (names.and (Selection.pairwise_marked Modes.flagged modes)).imp
    intro first second apart text inFirst inSecond
    obtain ⟨label, listed, rfl⟩ := List.mem_map.1 inFirst
    obtain ⟨other, otherListed, same⟩ := List.mem_map.1 inSecond
    -- Two scales are not both the default, nor do they share a name.
    rcases timeLabel_inj (dash_not_mem_of_scaleLabels otherListed)
        (dash_not_mem_of_scaleLabels listed) same with
      ⟨secondDefault, firstDefault⟩ | sameName
    · rw [apart.2 firstDefault] at secondDefault
      cases secondDefault
    · exact apart.1 sameName.symm

theorem names_of_timeTokens {settings : Settings}
    {entries : List (Mode Scale × Bool)} {tokens : List (List Token)}
    (made : entries.mapM (fun entry => entry.1.content.timeTokens
      (timeStem settings entry.1 entry.2) entry.1.name) = .ok tokens) :
    tokens.flatten.map Token.name =
      (timeLabels entries).map (settings.prefixes.time ++ "-" ++ ·) := by
  have related := mapM_eq_ok.1 made
  clear made
  induction related with
  | nil => rfl
  | @cons entry scale others more first _ inductionHypothesis =>
      have names := names_of_scaleTokens (fun _ => rfl) first
      rw [List.flatten_cons, List.map_append, inductionHypothesis, names,
        timeLabels, timeLabels, List.flatMap_cons, List.map_append,
        List.map_map]
      congr 1
      exact List.map_congr_left fun label _ =>
        dashed_timeStem settings entry label

theorem family_of_time {stem category : String} {scale : Scale}
    {tokens : List Token}
    (made : scale.timeTokens stem category = .ok tokens) :
    ∀ token ∈ tokens, token.family = .time := by
  rw [Scale.timeTokens] at made
  refine family_of_scaleTokens ?_ made
  exact fun _ => rfl

/-- No two tokens of all time scales together share a name, whatever their
prefix is. -/
theorem nodup_timeNames {settings : Settings} {modes : Modes Scale}
    {tokens : List (List Token)} (distinct : (modes.map Mode.name).Nodup)
    (made : (Selection.marked Modes.flagged modes).mapM (fun entry =>
      entry.1.content.timeTokens (timeStem settings entry.1 entry.2)
        entry.1.name) = .ok tokens) :
    (tokens.flatten.map Token.name).Nodup := by
  rw [names_of_timeTokens made]
  exact (nodup_timeLabels distinct).map (dashed_injective _)

theorem namedIn_of_time {settings : Settings} {modes : Modes Scale}
    {expansion : Expansion} (apart : settings.prefixes.Apart)
    (distinct : (modes.map Mode.name).Nodup)
    (expanded : expandTime settings modes = .ok expansion) :
    NamedIn settings.prefixes .time expansion.defaults := by
  obtain ⟨default, _, step⟩ := bind_eq_ok.1 expanded
  obtain ⟨tokens, made, same⟩ := bind_eq_ok.1 step
  cases same
  apply namedIn_of_dashed apart ?_ (names_of_timeTokens made)
    (nodup_timeLabels distinct)
  intro token member
  obtain ⟨scale, inTokens, inScale⟩ := List.mem_flatten.1 member
  obtain ⟨entry, _, scaleMade⟩ := mem_of_mapM made inTokens
  exact family_of_time scaleMade token inScale

end DesignTokens
