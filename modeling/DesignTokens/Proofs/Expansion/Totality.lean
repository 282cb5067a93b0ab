import DesignTokens.Expansion.Whole
import DesignTokens.Proofs.System.Modes
import DesignTokens.Proofs.System.References
import DesignTokens.Proofs.System.Scalar

/-!
# Expanding accepted configurations

Scales and widths of an accepted configuration can always be expanded. Gaps
and corner radii can be expanded exactly where all of their entries refer to
something.
-/

namespace DesignTokens

open Acceptance (PlainMode)
open Grammar Schema Schema.Checked Success
open DesignTokens.Number (Numeral doubleLimit)

/-! ## Modes -/

section Modes

variable {alpha : Type} {modes : Modes alpha}

theorem Modes.exists_default (nonempty : modes ≠ []) :
    ∃ default, modes.default = .ok default ∧ default ∈ modes ∧
      ∀ mode, mode ∈ modes ↔ mode = default ∨ mode ∈ modes.overrides := by
  obtain ⟨earlier, default, later, split⟩ :=
    Selection.exists_split Modes.flagged nonempty
  refine ⟨default, ?_, ?_, fun mode => ?_⟩
  · rw [Modes.default, split.default?_eq]
  · rw [split.parts]
    exact List.mem_append_right _ (List.mem_cons_self ..)
  · rw [Modes.overrides, split.overrides_eq, split.parts]
    simp only [List.mem_append, List.mem_cons]
    exact or_left_comm

/-- A family can be expanded where each of its modes can. -/
theorem Modes.expand_isOk_iff (nonempty : modes ≠ [])
    {expandMode : Mode alpha → Except ExpansionFault (List Token)} :
    (∃ expansion, modes.expand expandMode = .ok expansion) ↔
      ∀ mode ∈ modes, ∃ tokens, expandMode mode = .ok tokens := by
  obtain ⟨default, found, _, members⟩ := Modes.exists_default nonempty
  have overrides : (∃ named, modes.overrides.mapM (fun mode => do
        let tokens ← expandMode mode
        return (mode.name, tokens)) = .ok named) ↔
      ∀ mode ∈ modes.overrides, ∃ tokens, expandMode mode = .ok tokens := by
    rw [exists_mapM_eq_ok]
    refine forall₂_congr fun mode _ => ?_
    cases expandMode mode with
    | error fault => exact iff_of_false not_isOk_error not_isOk_error
    | ok tokens => exact iff_of_true ⟨_, rfl⟩ ⟨tokens, rfl⟩
  simp only [members, forall_eq_or_imp, ← overrides]
  rw [Modes.expand, found]
  constructor
  · rintro ⟨expansion, expanded⟩
    obtain ⟨_, same, step⟩ := bind_eq_ok.1 expanded
    cases same
    obtain ⟨tokens, first, rest⟩ := bind_eq_ok.1 step
    obtain ⟨named, second, _⟩ := bind_eq_ok.1 rest
    exact ⟨⟨tokens, first⟩, named, second⟩
  · rintro ⟨⟨tokens, first⟩, named, second⟩
    exact ⟨_, bind_eq_ok.2 ⟨default, rfl, bind_eq_ok.2
      ⟨tokens, first, bind_eq_ok.2 ⟨named, second, rfl⟩⟩⟩⟩

end Modes

/-! ## Scales and widths -/

theorem toFloat_whole_isOk_iff (n : Int) :
    (∃ x, (Numeral.whole n).toFloat = .ok x) ↔ n.natAbs < doubleLimit := by
  rw [← Number.floatOfInt?_isSome_iff, Option.isSome_iff_exists]
  exact exists_congr fun _ => Numeral.toFloat_whole_eq_ok

theorem mem_stepNumbers_iff {count : Int} {n : Nat} :
    n ∈ stepNumbers count ↔ 1 ≤ n ∧ (n : Int) ≤ count := by
  constructor
  · intro member
    obtain ⟨k, inside, rfl⟩ := List.mem_map.1 member
    have bound := List.mem_range.1 inside
    omega
  · rintro ⟨least, most⟩
    exact List.mem_map.2 ⟨n - 1, List.mem_range.2 (by omega), by omega⟩

theorem labelledValues_isOk {minimum : Float} {count : Int}
    {step : Int → Except Number.ArithmeticFault Float}
    (each : ∀ n : Nat, 1 ≤ n → (n : Int) ≤ count →
      ∃ size, step n = .ok size) :
    ∃ values, labelledValues minimum count step = .ok values := by
  have steps : ∃ named, (stepNumbers count).mapM (fun (n : Nat) => do
      let size ← step n
      return (Number.wholeText n, size)) = .ok named := by
    rw [exists_mapM_eq_ok]
    intro n member
    obtain ⟨least, most⟩ := mem_stepNumbers_iff.1 member
    obtain ⟨size, found⟩ := each n least most
    exact ⟨_, bind_eq_ok.2 ⟨size, found, rfl⟩⟩
  obtain ⟨named, found⟩ := steps
  exact ⟨_, bind_eq_ok.2 ⟨named, found, rfl⟩⟩

theorem scaleTokens_isOk {token : String × Float → Token}
    {values : Except Number.ArithmeticFault (List (String × Float))}
    (given : ∃ list, values = .ok list) :
    ∃ tokens, scaleTokens token values = .ok tokens := by
  obtain ⟨list, rfl⟩ := given
  exact ⟨_, rfl⟩

theorem bind_whole_eq_ok {n : Int} {result : Float → Float} {size : Float} :
    (do let factor ← (Numeral.whole n).toFloat
        return result factor) = Except.ok size ↔
      ∃ factor, Number.floatOfInt? n = some factor ∧ result factor = size := by
  rw [bind_eq_ok]
  constructor
  · rintro ⟨factor, converted, same⟩
    exact ⟨factor, Numeral.toFloat_whole_eq_ok.1 converted,
      Except.ok.inj same⟩
  · rintro ⟨factor, nearest, rfl⟩
    exact ⟨factor, Numeral.toFloat_whole_eq_ok.2 nearest, rfl⟩

/-- A step is a number of bases. -/
theorem Scale.step_eq_ok {scale : Scale} {n : Int} {size : Float} :
    scale.step n = .ok size ↔ ∃ factor,
      Number.floatOfInt? n = some factor ∧ scale.base * factor = size := by
  rw [Scale.step]
  exact bind_whole_eq_ok

/-- A further step of type sizes is the base and a number of increments. -/
theorem TypeScale.step_eq_ok {scale : TypeScale} {n : Int} {size : Float}
    (further : n ≠ 1) :
    scale.step n = .ok size ↔ ∃ factor,
      Number.floatOfInt? (n - 1) = some factor ∧
        scale.base + scale.increment * factor = size := by
  rw [TypeScale.step, if_neg further]
  exact bind_whole_eq_ok

theorem exists_floatOfInt? {n : Int} (small : n.natAbs < doubleLimit) :
    ∃ factor, Number.floatOfInt? n = some factor :=
  Option.isSome_iff_exists.1 ((Number.floatOfInt?_isSome_iff n).2 small)

theorem Scale.values_isOk {scale : Scale}
    (small : scale.count.natAbs < doubleLimit) :
    ∃ values, scale.values = .ok values := by
  refine labelledValues_isOk fun n least most => ?_
  obtain ⟨factor, found⟩ := exists_floatOfInt? (n := n) (by omega)
  exact ⟨_, Scale.step_eq_ok.2 ⟨factor, found, rfl⟩⟩

theorem TypeScale.values_isOk {scale : TypeScale}
    (small : scale.count.natAbs < doubleLimit) :
    ∃ values, scale.values = .ok values := by
  refine labelledValues_isOk fun n least most => ?_
  by_cases one : (n : Int) = 1
  · rw [TypeScale.step, if_pos one]
    exact ⟨_, rfl⟩
  · obtain ⟨factor, found⟩ := exists_floatOfInt? (n := n - 1) (by omega)
    exact ⟨_, (TypeScale.step_eq_ok one).2 ⟨factor, found, rfl⟩⟩

theorem count_lt_limit {tokens : Entries} {count : Int}
    (held : Holds "range" IsStepCount tokens)
    (read : field "range" "range" whole tokens = .accepted count) :
    count.natAbs < doubleLimit := by
  obtain ⟨value, found, n, denotes, _⟩ := held
  obtain ⟨again, same, accepted⟩ := field_eq_accepted.1 read
  rw [spelled_self, found] at same
  cases same
  exact whole_lt_limit denotes accepted

theorem scale_count_lt_limit {base : ℚ → Prop} {tokens : Entries}
    {scale : Scale} (isScale : IsScale base tokens)
    (read : Scale.read (.map tokens) = .accepted scale) :
    scale.count.natAbs < doubleLimit := by
  obtain ⟨_, count, upToLeast, countRead, rfl⟩ := seq_eq_accepted.1 read
  obtain ⟨_, least, upToBase, _, rfl⟩ := seq_eq_accepted.1 upToLeast
  obtain ⟨_, base, upToUnit, _, rfl⟩ := seq_eq_accepted.1 upToBase
  obtain ⟨unit, _, rfl⟩ := map_eq_accepted.1 upToUnit
  exact count_lt_limit isScale.count countRead

theorem typeScale_count_lt_limit {tokens : Entries} {scale : TypeScale}
    (isScale : IsTypeScale tokens)
    (read : TypeScale.read (.map tokens) = .accepted scale) :
    scale.count.natAbs < doubleLimit := by
  obtain ⟨_, count, upToIncrement, countRead, rfl⟩ := seq_eq_accepted.1 read
  obtain ⟨_, increment, upToLeast, _, rfl⟩ := seq_eq_accepted.1 upToIncrement
  obtain ⟨_, least, upToBase, _, rfl⟩ := seq_eq_accepted.1 upToLeast
  obtain ⟨_, base, upToUnit, _, rfl⟩ := seq_eq_accepted.1 upToBase
  obtain ⟨unit, _, rfl⟩ := map_eq_accepted.1 upToUnit
  exact count_lt_limit isScale.count countRead

/-! ## References -/

/-- A value that refers to something on every scale. -/
inductive Resolvable : Value → Prop
  | least : Resolvable (.str "min")
  | flag (held : Bool) : Resolvable (.bool held)
  | whole (n : Int) : n.natAbs < doubleLimit → Resolvable (.int n)
  | real (x : Float) : Resolvable (.float x)

/-- A number of bases is found where the number is within the doubles. -/
theorem resolve_counted_isOk_iff (scale : Scale) {value : Value} {n : Int}
    (notText : value.isText "min" = false)
    (counted : value.counted? = some (.whole n)) :
    (∃ size, scale.resolve value = .ok size) ↔ n.natAbs < doubleLimit := by
  rw [← toFloat_whole_isOk_iff, Scale.resolve, notText, counted]
  change (∃ size, ((Numeral.whole n).toFloat.map
    (· * scale.base)).mapError _ = .ok size) ↔ _
  cases (Numeral.whole n).toFloat with
  | error fault => exact iff_of_false not_isOk_error not_isOk_error
  | ok x => exact iff_of_true ⟨_, rfl⟩ ⟨x, rfl⟩

/-- A number refers to the step of this number, whether or not it is among the
steps. -/
theorem Scale.resolve_int_eq_ok {scale : Scale} {n : Int} {size : Float} :
    scale.resolve (.int n) = .ok size ↔ scale.step n = .ok size := by
  change ((Numeral.whole n).toFloat.map (· * scale.base)).mapError
    ExpansionFault.arithmetic = .ok size ↔ _
  rw [mapError_eq_ok, map_eq_ok, Scale.step_eq_ok]
  simp only [Numeral.toFloat_whole_eq_ok]
  refine exists_congr fun factor => and_congr_right fun _ => ?_
  rw [Number.product_comm]

theorem resolve_isOk_iff (scale : Scale) (value : Value) :
    (∃ size, scale.resolve value = .ok size) ↔ Resolvable value := by
  cases value with
  | str held =>
      by_cases least : held = "min"
      · subst least
        exact iff_of_true ⟨scale.minimum, rfl⟩ .least
      · refine iff_of_false ?_ fun resolvable => ?_
        · simp [Scale.resolve, Value.isText, least, Value.counted?,
            Value.numeral?]
        · cases resolvable
          exact least rfl
  | int n =>
      rw [resolve_counted_isOk_iff scale rfl rfl]
      refine ⟨.whole n, fun resolvable => ?_⟩
      cases resolvable with
      | whole _ small => exact small
  | bool held =>
      refine iff_of_true ((resolve_counted_isOk_iff scale rfl rfl).2 ?_)
        (.flag held)
      have small : 1 < doubleLimit :=
        lt_of_lt_of_le (by decide : 1 < 2 ^ 1)
          (Number.two_pow_le_limit (by decide))
      cases held
      · exact Nat.lt_of_succ_lt small
      · exact small
  | float x => exact iff_of_true ⟨x * scale.base, rfl⟩ (.real x)
  | _ =>
      refine iff_of_false not_isOk_error fun resolvable => ?_
      cases resolvable

theorem References.tokens_isOk_iff (family : Family) (settings : Settings)
    (scale : Scale) (references : References) :
    (∃ tokens, references.tokens family settings scale = .ok tokens) ↔
      ∀ entry ∈ references.entries, Resolvable entry.2 := by
  rw [References.tokens, exists_mapM_eq_ok]
  refine forall₂_congr fun entry _ => ?_
  rw [← resolve_isOk_iff scale]
  constructor
  · rintro ⟨token, made⟩
    obtain ⟨size, resolved, _⟩ := bind_eq_ok.1 made
    exact ⟨size, resolved⟩
  · rintro ⟨size, resolved⟩
    exact ⟨_, bind_eq_ok.2 ⟨size, resolved, rfl⟩⟩

theorem Mode.spacingMode_isOk (mode : Mode References)
    {spacing : Modes Scale} (nonempty : spacing ≠ []) :
    ∃ found, mode.spacingMode spacing = .ok found := by
  rw [Mode.spacingMode]
  cases mode.matching? spacing with
  | some found => exact ⟨found, rfl⟩
  | none =>
      obtain ⟨default, found, _⟩ := Modes.exists_default nonempty
      exact ⟨default, found⟩

theorem expandReferences_isOk_iff (family : Family) (settings : Settings)
    {spacing : Modes Scale} {modes : Modes References}
    (spacingNonempty : spacing ≠ []) (nonempty : modes ≠ []) :
    (∃ expansion,
        expandReferences family settings spacing modes = .ok expansion) ↔
      ∀ mode ∈ modes, ∀ entry ∈ mode.content.entries, Resolvable entry.2 := by
  obtain ⟨default, found, _⟩ := Modes.exists_default nonempty
  have expanded : (∃ expansion,
        expandReferences family settings spacing modes = .ok expansion) ↔
      ∃ expansion, (modes.expand fun mode => do
        let found ← mode.spacingMode spacing
        mode.content.tokens family settings found.content) =
          .ok expansion := by
    rw [expandReferences]
    constructor
    · rintro ⟨_, whole⟩
      obtain ⟨expansion, held, _⟩ := bind_eq_ok.1 whole
      exact ⟨expansion, held⟩
    · rintro ⟨expansion, held⟩
      exact ⟨_, bind_eq_ok.2 ⟨expansion, held,
        bind_eq_ok.2 ⟨default, found, rfl⟩⟩⟩
  rw [expanded, Modes.expand_isOk_iff nonempty]
  refine forall₂_congr fun mode _ => ?_
  obtain ⟨scale, chosen⟩ := mode.spacingMode_isOk spacingNonempty
  rw [chosen, ← References.tokens_isOk_iff family settings scale.content]
  rfl

/-! ## References as they are written -/

/-- The tokens of a mode whose entries all refer to something. The unit and
the spelling of the spacing mode that is in use are no entries. -/
def ResolvableTokens (tokens : Entries) : Prop :=
  ∀ entry ∈ tokens, entry.1 ≠ .str "unit" →
    entry.1 ≠ .str (References.modeSpelling tokens) → Resolvable entry.2

theorem resolvableTokens_iff {tokens : Entries} {references : References}
    (read : References.read (.map tokens) = .accepted references) :
    (∀ entry ∈ references.entries, Resolvable entry.2) ↔
      ResolvableTokens tokens :=
  forall_readEntries_iff Resolvable (References.parts_of_read read).entries

/-! ## Families -/

section Families

variable {alpha : Type} {read : Reader alpha} {config : Entries}
  {modes : Family → List PlainMode}

/-- What holds of the content of all typed modes is what holds of the tokens
of all plain ones. -/
theorem forall_content_iff {spacing : List String} {family : Family}
    {entries : Entries} {plain : List PlainMode} {typed : Modes alpha}
    (held : alpha → Prop) (stated : Entries → Prop)
    (isFamily : IsFamily spacing family entries plain)
    (areTyped : List.Forall₂ (Typed (readTokens read)) plain typed)
    (each : ∀ (mode : PlainMode) content, Content spacing family mode →
      read (.map mode.tokens) = .accepted content →
        (held content ↔ stated mode.tokens)) :
    (∀ mode ∈ typed, held mode.content) ↔
      ∀ mode ∈ plain, stated mode.tokens := by
  have known : ∀ mode ∈ plain,
      (∃ item, IsMode item mode) ∧ Content spacing family mode :=
    fun mode member =>
      ⟨isFamily.exists_isMode member, isFamily.content mode member⟩
  clear isFamily
  induction areTyped with
  | nil => exact iff_of_true nofun nofun
  | cons first others inductionHypothesis =>
      obtain ⟨⟨⟨item, isMode⟩, content⟩, later⟩ :=
        List.forall_mem_cons.1 known
      rw [List.forall_mem_cons, List.forall_mem_cons]
      exact and_congr (each _ _ content (tokens_of_typed isMode first))
        (inductionHypothesis later)

theorem expandGiven_isOk {family : Family} {given : Option (Modes alpha)}
    {expand : Modes alpha → Except ExpansionFault Expansion}
    (known : alpha → Prop) (wellFormed : WellFormed config modes)
    (matched : Matches (readTokens read) (modes family) given)
    (each : ∀ (mode : PlainMode) content,
      Content ((modes .spacing).map PlainMode.name) family mode →
        read (.map mode.tokens) = .accepted content → known content)
    (expands : ∀ typed : Modes alpha, typed ≠ [] →
      (∀ mode ∈ typed, known mode.content) →
        ∃ expansion, expand typed = .ok expansion) :
    ∃ expansion, expandGiven expand given = .ok expansion := by
  rcases given_cases wellFormed matched with
    ⟨rfl, _⟩ | ⟨typed, entries, rfl, nonempty, isFamily, areTyped⟩
  · exact ⟨{}, rfl⟩
  · refine expands typed nonempty ((forall_content_iff known (fun _ => True)
      isFamily areTyped fun mode content isContent accepted => ?_).2
        fun _ _ => trivial)
    exact iff_of_true (each mode content isContent accepted) trivial

theorem expandReferring_isOk_iff {family : Family} {system : DesignSystem}
    {given : Option (Modes References)} {settings : Settings}
    (wellFormed : WellFormed config modes)
    (spacing : Matches (readTokens Scale.read) (modes .spacing)
      system.spacing)
    (matched : Matches (readTokens References.read) (modes family) given)
    (refers : family ∈ referringFamilies) :
    (∃ expansion, expandReferring family settings system.spacing given =
        .ok expansion) ↔
      ∀ mode ∈ modes family, ResolvableTokens mode.tokens := by
  rcases given_cases wellFormed matched with
    ⟨rfl, none⟩ | ⟨typed, entries, rfl, nonempty, isFamily, areTyped⟩
  · rw [none]
    refine iff_of_true ⟨{}, ?_⟩ nofun
    cases system.spacing <;> rfl
  · rcases given_cases wellFormed spacing with
      ⟨_, none⟩ | ⟨scales, fields, found, scalesNonempty, _, _⟩
    · exact absurd none (spacing_nonempty wellFormed refers
        isFamily.nonempty)
    · rw [found]
      change (∃ expansion, expandReferences family settings scales typed =
        .ok expansion) ↔ _
      rw [expandReferences_isOk_iff family settings scalesNonempty nonempty]
      exact forall_content_iff
        (fun references : References =>
          ∀ entry ∈ references.entries, Resolvable entry.2)
        ResolvableTokens isFamily areTyped
        fun _ _ _ accepted => resolvableTokens_iff accepted

end Families

theorem mem_of_mem_marked {alpha : Type} {flagged : alpha → Bool}
    {modes : List alpha} {entry : alpha × Bool}
    (member : entry ∈ Selection.marked flagged modes) : entry.1 ∈ modes := by
  obtain ⟨⟨mode, index⟩, inside, rfl⟩ := List.mem_map.1 member
  exact (List.mem_zipIdx' inside).2 ▸ List.getElem_mem _

theorem expandTime_isOk (settings : Settings) {modes : Modes Scale}
    (nonempty : modes ≠ [])
    (small : ∀ mode ∈ modes, mode.content.count.natAbs < doubleLimit) :
    ∃ expansion, expandTime settings modes = .ok expansion := by
  obtain ⟨default, found, _⟩ := Modes.exists_default nonempty
  have tokens : ∃ tokens, (Selection.marked Modes.flagged modes).mapM
      (fun entry => entry.1.content.timeTokens
        (timeStem settings entry.1 entry.2) entry.1.name) = .ok tokens := by
    rw [exists_mapM_eq_ok]
    intro entry member
    exact scaleTokens_isOk
      (Scale.values_isOk (small entry.1 (mem_of_mem_marked member)))
  obtain ⟨tokens, expanded⟩ := tokens
  exact ⟨_, bind_eq_ok.2 ⟨default, found, bind_eq_ok.2
    ⟨tokens, expanded, rfl⟩⟩⟩

/-- A family other than the colours can be expanded where it is a scale or a
width, or where all of its references refer to something. -/
theorem expandFamily_isOk_of_wellFormed {config : Entries}
    {modes : Family → List PlainMode} {system : DesignSystem}
    (wellFormed : WellFormed config modes)
    (readFrom : ReadFrom modes system) (settings : Settings) {family : Family}
    (plain : family ≠ .color) :
    (∃ expansion, system.expandFamily settings family = .ok expansion) ↔
      (family ∈ referringFamilies →
        ∀ mode ∈ modes family, ResolvableTokens mode.tokens) := by
  have always (expands : ∃ expansion,
        system.expandFamily settings family = .ok expansion)
      (apart : family ∉ referringFamilies) :
      (∃ expansion, system.expandFamily settings family = .ok expansion) ↔
        (family ∈ referringFamilies →
          ∀ mode ∈ modes family, ResolvableTokens mode.tokens) :=
    iff_of_true expands fun member => absurd member apart
  cases family with
  | color => exact absurd rfl plain
  | spacing =>
      refine always (expandGiven_isOk
        (fun scale : Scale => scale.count.natAbs < doubleLimit) wellFormed
        readFrom.spacing (fun _ _ => scale_count_lt_limit)
        fun typed nonempty small => ?_) (by decide)
      exact (Modes.expand_isOk_iff nonempty).2 fun mode member =>
        scaleTokens_isOk (Scale.values_isOk (small mode member))
  | typography =>
      refine always (expandGiven_isOk
        (fun scale : TypeScale => scale.count.natAbs < doubleLimit) wellFormed
        readFrom.typography (fun _ _ => typeScale_count_lt_limit)
        fun typed nonempty small => ?_) (by decide)
      exact (Modes.expand_isOk_iff nonempty).2 fun mode member =>
        scaleTokens_isOk (TypeScale.values_isOk (small mode member))
  | borderWidth =>
      refine always (expandGiven_isOk (fun _ => True) wellFormed
        readFrom.borderWidth (fun _ _ _ _ => trivial)
        fun typed nonempty _ => ?_) (by decide)
      exact (Modes.expand_isOk_iff nonempty).2 fun mode _ => ⟨_, rfl⟩
  | time =>
      refine always (expandGiven_isOk
        (fun scale : Scale => scale.count.natAbs < doubleLimit) wellFormed
        readFrom.time (fun _ _ => scale_count_lt_limit)
        fun typed nonempty small => ?_) (by decide)
      exact expandTime_isOk settings nonempty small
  | gap =>
      rw [imp_iff_right (by decide)]
      exact expandReferring_isOk_iff wellFormed readFrom.spacing readFrom.gap
        (by decide)
  | borderRadius =>
      rw [imp_iff_right (by decide)]
      exact expandReferring_isOk_iff wellFormed readFrom.spacing
        readFrom.borderRadius (by decide)

/-- An accepted configuration that is read: every family other than the
colours can be expanded, except that gaps and corner radii need references
that all refer to something. -/
theorem expandFamily_isOk_iff {config : Value} {system : DesignSystem}
    (accepted : Acceptance.accept config = .ok ())
    (read : DesignSystem.read config = .accepted system)
    (settings : Settings) {family : Family} (plain : family ≠ .color) :
    (∃ expansion, system.expandFamily settings family = .ok expansion) ↔
      (family ∈ referringFamilies → ∀ tokens,
        GivesTokens config family tokens → ResolvableTokens tokens) := by
  cases config with
  | map entries =>
      obtain ⟨modes, wellFormed⟩ :=
        (Acceptance.acceptEntries_iff entries).1 accepted
      rw [expandFamily_isOk_of_wellFormed wellFormed
        (readFrom_of_read wellFormed read) settings plain]
      simp only [wellFormed.givesTokens_iff, forall_exists_index, and_imp,
        forall_apply_eq_imp_iff₂]
  | _ => cases accepted

/-- One mode of gaps with these tokens beside one spacing mode. -/
def gapOf (gaps : Entries) : Value :=
  .map [(.str "spacing", writtenFamily [("default", writtenScale 8 (.int 4))]),
    (.str "gap", writtenFamily [("default", gaps)])]

/-- Two gaps that refer to a step and to the least size. -/
def plainGaps : Value :=
  gapOf [(.str "s", .int 2), (.str "m", .str "min")]

theorem plainGaps_resolvable :
    ∃ system, Acceptance.accept plainGaps = .ok () ∧
      DesignSystem.read plainGaps = .accepted system ∧
      (∃ expansion, system.expandFamily {} .gap = .ok expansion) ∧
      ∀ tokens, GivesTokens plainGaps .gap tokens → ResolvableTokens tokens :=
  ⟨_, rfl, rfl, ⟨_, rfl⟩,
    (expandFamily_isOk_iff rfl rfl {} (by decide)).1 ⟨_, rfl⟩ (by decide)⟩

/-- Gaps that name their spacing mode in both spellings. Only the first one is
checked and read, so the second one is taken for a gap. -/
def twiceSpelledGaps : Value :=
  gapOf [(.str "spacingMode", .str "default"), (.str "spacing_mode", .str "s")]

theorem twiceSpelledGaps_notCountable :
    Acceptance.accept twiceSpelledGaps = .ok () ∧
      ∃ system, DesignSystem.read twiceSpelledGaps = .accepted system ∧
        system.expandFamily {} .gap = .error .notCountable :=
  ⟨rfl, _, rfl, rfl⟩

end DesignTokens
