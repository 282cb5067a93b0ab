import DesignTokens.Color.Gamut
import DesignTokens.Proofs.Number.Rounding

/-!
# The search for a displayable chroma

Every halving keeps the interval between zero and the chroma of the colour and
leaves half of its width, whatever the tests say. So in exact arithmetic the
search ends, and what it ends with are the clipped channels of a chroma in
that range.
-/

namespace DesignTokens.ColorSpace

open Number

/-! ## Runs without a limit -/

section Runs

variable {alpha epsilon : Type} [Add alpha] [Sub alpha] [Div alpha]
  [OfNat alpha 0] [OfNat alpha 1] [OfNat alpha 2] [LT alpha]
  [DecidableLT alpha]

namespace SearchState

/-- The state in which the search for a colour of this chroma and these
channels begins. -/
def start (chroma : alpha) (encoded : Channels alpha) : SearchState alpha where
  low := 0
  high := chroma
  lowInGamut := true
  clipped := encoded.clip

/-- The chroma that halves the interval. -/
def middle (state : SearchState alpha) : alpha :=
  (state.low + state.high) / 2

end SearchState

variable (trial : Trial alpha epsilon) (tolerance : alpha)

/-- All that one step of the search can do, and when. -/
inductive Halving (state : SearchState alpha) :
    Except epsilon (Progress alpha) → Prop
  | narrow : ¬ tolerance < state.high - state.low →
      Halving state (.ok (.done state.clipped))
  | unencoded {fault : epsilon} : tolerance < state.high - state.low →
      trial.encode state.middle = .error fault →
      Halving state (.error fault)
  | inGamut {candidate : Channels alpha} :
      tolerance < state.high - state.low →
      trial.encode state.middle = .ok candidate →
      (state.lowInGamut && trial.inGamut candidate) = true →
      Halving state (.ok (.ongoing { state with low := state.middle }))
  | uncompared {candidate : Channels alpha} {fault : epsilon} :
      tolerance < state.high - state.low →
      trial.encode state.middle = .ok candidate →
      (state.lowInGamut && trial.inGamut candidate) = false →
      trial.compare state.middle candidate.clip = .error fault →
      Halving state (.error fault)
  | settled {candidate : Channels alpha} :
      tolerance < state.high - state.low →
      trial.encode state.middle = .ok candidate →
      (state.lowInGamut && trial.inGamut candidate) = false →
      trial.compare state.middle candidate.clip = .ok .settled →
      Halving state (.ok (.done candidate.clip))
  | close {candidate : Channels alpha} :
      tolerance < state.high - state.low →
      trial.encode state.middle = .ok candidate →
      (state.lowInGamut && trial.inGamut candidate) = false →
      trial.compare state.middle candidate.clip = .ok .close →
      Halving state (.ok (.ongoing
        { low := state.middle, high := state.high, lowInGamut := false
          clipped := candidate.clip }))
  | far {candidate : Channels alpha} :
      tolerance < state.high - state.low →
      trial.encode state.middle = .ok candidate →
      (state.lowInGamut && trial.inGamut candidate) = false →
      trial.compare state.middle candidate.clip = .ok .far →
      Halving state (.ok (.ongoing
        { state with high := state.middle, clipped := candidate.clip }))

theorem halving_searchStep (state : SearchState alpha) :
    Halving trial tolerance state (searchStep trial tolerance state) := by
  rw [searchStep]
  by_cases wide : tolerance < state.high - state.low
  · rw [if_pos wide]
    change Halving trial tolerance state (trial.encode state.middle >>= _)
    cases encoded : trial.encode state.middle with
    | error fault => exact .unencoded wide encoded
    | ok candidate =>
        change Halving trial tolerance state (ite _ _ _)
        cases inside : state.lowInGamut && trial.inGamut candidate with
        | true => exact .inGamut wide encoded inside
        | false =>
            change Halving trial tolerance state
              (trial.compare state.middle candidate.clip >>= _)
            cases compared : trial.compare state.middle candidate.clip with
            | error fault => exact .uncompared wide encoded inside compared
            | ok closeness =>
                cases closeness with
                | settled => exact .settled wide encoded inside compared
                | close => exact .close wide encoded inside compared
                | far => exact .far wide encoded inside compared
  · rw [if_neg wide]
    exact .narrow wide

/-- The search goes on from one state to the next. -/
def Leads (state next : SearchState alpha) : Prop :=
  searchStep trial tolerance state = .ok (.ongoing next)

/-- The outcome of a search that goes on for as long as it takes. -/
inductive Search : SearchState alpha → Except epsilon (Channels alpha) → Prop
  | done {state : SearchState alpha} {result : Channels alpha} :
      searchStep trial tolerance state = .ok (.done result) →
      Search state (.ok result)
  | failed {state : SearchState alpha} {fault : epsilon} :
      searchStep trial tolerance state = .error fault →
      Search state (.error fault)
  | ongoing {state next : SearchState alpha}
      {outcome : Except epsilon (Channels alpha)} :
      Leads trial tolerance state next → Search next outcome →
      Search state outcome

section Reductions

variable [LE alpha] [DecidableLE alpha]

/-- The ways in which a colour of this lightness and chroma is made
displayable, with a search that has no limit. -/
inductive Reduction (lightness chroma : alpha) :
    Except epsilon (Channels alpha) → Prop
  | unencoded {fault : epsilon} : trial.encode chroma = .error fault →
      Reduction lightness chroma (.error fault)
  | inGamut {encoded : Channels alpha} :
      trial.encode chroma = .ok encoded → trial.inGamut encoded = true →
      Reduction lightness chroma (.ok encoded.clip)
  | white {encoded : Channels alpha} :
      trial.encode chroma = .ok encoded → trial.inGamut encoded = false →
      1 ≤ lightness → Reduction lightness chroma (.ok .white)
  | black {encoded : Channels alpha} :
      trial.encode chroma = .ok encoded → trial.inGamut encoded = false →
      ¬ 1 ≤ lightness → lightness ≤ 0 →
      Reduction lightness chroma (.ok .black)
  | uncompared {encoded : Channels alpha} {fault : epsilon} :
      trial.encode chroma = .ok encoded → trial.inGamut encoded = false →
      ¬ 1 ≤ lightness → ¬ lightness ≤ 0 →
      trial.compare chroma encoded.clip = .error fault →
      Reduction lightness chroma (.error fault)
  | close {encoded : Channels alpha} {closeness : Closeness} :
      trial.encode chroma = .ok encoded → trial.inGamut encoded = false →
      ¬ 1 ≤ lightness → ¬ lightness ≤ 0 →
      trial.compare chroma encoded.clip = .ok closeness →
      closeness ≠ .far → Reduction lightness chroma (.ok encoded.clip)
  | searched {encoded : Channels alpha}
      {outcome : Except epsilon (Channels alpha)} :
      trial.encode chroma = .ok encoded → trial.inGamut encoded = false →
      ¬ 1 ≤ lightness → ¬ lightness ≤ 0 →
      trial.compare chroma encoded.clip = .ok .far →
      Search trial tolerance (.start chroma encoded) outcome →
      Reduction lightness chroma outcome

variable {trial tolerance}

/-- A search that ends within its limit ends as it would without one. -/
theorem reduction_reduceChroma {lightness chroma : alpha}
    (ends : ∀ encoded, ∃ outcome,
      Search trial tolerance (.start chroma encoded) outcome ∧
        searchFor trial tolerance searchBudget (.start chroma encoded) =
          outcome.map Progress.done) :
    Reduction trial tolerance lightness chroma
      (reduceChroma trial tolerance lightness chroma) := by
  rw [reduceChroma]
  rcases encodes : trial.encode chroma with fault | encoded
  · exact .unencoded encodes
  change Reduction trial tolerance lightness chroma (ite _ _ _)
  by_cases inside : trial.inGamut encoded = true
  · rw [if_pos inside]
    exact .inGamut encodes inside
  rw [if_neg inside]
  rw [Bool.not_eq_true] at inside
  by_cases light : 1 ≤ lightness
  · rw [if_pos light]
    exact .white encodes inside light
  rw [if_neg light]
  by_cases dark : lightness ≤ 0
  · rw [if_pos dark]
    exact .black encodes inside light dark
  rw [if_neg dark]
  cases compared : trial.compare chroma encoded.clip with
  | error fault => exact .uncompared encodes inside light dark compared
  | ok closeness =>
      cases closeness with
      | settled => exact .close encodes inside light dark compared nofun
      | close => exact .close encodes inside light dark compared nofun
      | far =>
          obtain ⟨outcome, search, within⟩ := ends encoded
          change Reduction trial tolerance lightness chroma
            (searchFor trial tolerance searchBudget
              (.start chroma encoded) >>= _)
          rw [within]
          have searched : Reduction trial tolerance lightness chroma outcome :=
            .searched encodes inside light dark compared search
          cases outcome with
          | error fault => exact searched
          | ok result => exact searched

end Reductions

end Runs

/-! ## Bounds -/

section Bounds

variable {alpha epsilon : Type} [Field alpha] [LinearOrder alpha]
  (trial : Trial alpha epsilon) {tolerance lightness chroma : alpha}
  {state later : SearchState alpha}
  {outcome : Except epsilon (Channels alpha)}

/-- Every channel is at least zero and at most one. -/
structure Channels.InRange (color : Channels alpha) : Prop where
  red : color.red ∈ Set.Icc 0 1
  green : color.green ∈ Set.Icc 0 1
  blue : color.blue ∈ Set.Icc 0 1

/-- A chroma that is tried for a colour: its own, or one from zero up to its
own. -/
def IsTried (chroma tried : alpha) : Prop :=
  tried = chroma ∨ tried ∈ Set.Icc 0 chroma

/-- The channels of a chroma that is tried, cut off at zero and one. -/
def IsClipped (chroma : alpha) (shown : Channels alpha) : Prop :=
  ∃ tried encoded, IsTried chroma tried ∧
    trial.encode tried = .ok encoded ∧ shown = encoded.clip

/-- A question about a chroma that is tried has no answer. -/
def Fails (chroma : alpha) (fault : epsilon) : Prop :=
  ∃ tried, IsTried chroma tried ∧
    (trial.encode tried = .error fault ∨ ∃ encoded,
      trial.encode tried = .ok encoded ∧
        trial.compare tried encoded.clip = .error fault)

/-- What holds in every state of a search. -/
structure Sound (chroma : alpha) (state : SearchState alpha) : Prop where
  nonnegative : 0 ≤ state.low
  ordered : 0 ≤ chroma → state.low ≤ state.high
  bounded : state.high ≤ chroma
  clipped : IsClipped trial chroma state.clipped

/-- What comes of a search: clipped channels, unless there is a question
without an answer. -/
def Finds (chroma : alpha) : Except epsilon (Channels alpha) → Prop
  | .ok shown => IsClipped trial chroma shown
  | .error fault => Fails trial chroma fault

/-- What comes of a colour: white, black or clipped channels, unless there is
a question without an answer. -/
def Displays (lightness chroma : alpha) :
    Except epsilon (Channels alpha) → Prop
  | .ok shown =>
      (shown = .white ∧ 1 ≤ lightness ∨ shown = .black ∧ lightness ≤ 0 ∨
        IsClipped trial chroma shown) ∧ shown.InRange
  | .error fault => Fails trial chroma fault

variable {trial}

theorem sound_start {encoded : Channels alpha}
    (encodes : trial.encode chroma = .ok encoded) :
    Sound trial chroma (.start chroma encoded) where
  nonnegative := le_rfl
  ordered := id
  bounded := le_rfl
  clipped := ⟨chroma, encoded, .inl rfl, encodes, rfl⟩

variable [IsStrictOrderedRing alpha]

theorem clipChannel_mem (channel : alpha) :
    clipChannel channel ∈ Set.Icc 0 1 := by
  rw [clipChannel]
  split_ifs with negative high high
  · exact ⟨zero_le_one, le_rfl⟩
  · exact ⟨le_rfl, zero_le_one⟩
  · exact ⟨zero_le_one, le_rfl⟩
  · exact ⟨not_lt.1 negative, not_lt.1 high⟩

theorem IsClipped.inRange {shown : Channels alpha}
    (clipped : IsClipped trial chroma shown) : shown.InRange := by
  obtain ⟨_, encoded, _, _, rfl⟩ := clipped
  exact ⟨clipChannel_mem _, clipChannel_mem _, clipChannel_mem _⟩

theorem Channels.inRange_white : (white : Channels alpha).InRange :=
  ⟨⟨zero_le_one, le_rfl⟩, ⟨zero_le_one, le_rfl⟩, ⟨zero_le_one, le_rfl⟩⟩

theorem Channels.inRange_black : (black : Channels alpha).InRange :=
  ⟨⟨le_rfl, zero_le_one⟩, ⟨le_rfl, zero_le_one⟩, ⟨le_rfl, zero_le_one⟩⟩

/-! ## What every run keeps -/

section Runs

variable (tolerant : 0 ≤ tolerance)

include tolerant

theorem low_le_middle (wide : tolerance < state.high - state.low) :
    state.low ≤ state.middle :=
  (left_lt_add_div_two.2 (sub_pos.1 (tolerant.trans_lt wide))).le

theorem middle_le_high (wide : tolerance < state.high - state.low) :
    state.middle ≤ state.high :=
  (add_div_two_lt_right.2 (sub_pos.1 (tolerant.trans_lt wide))).le

theorem Sound.isTried_middle (sound : Sound trial chroma state)
    (wide : tolerance < state.high - state.low) :
    IsTried chroma state.middle :=
  .inr ⟨sound.nonnegative.trans (low_le_middle tolerant wide),
    (middle_le_high tolerant wide).trans sound.bounded⟩

/-- Whatever the tests say, one halving keeps what holds. -/
theorem Sound.next (sound : Sound trial chroma state)
    (leads : Leads trial tolerance state later) :
    Sound trial chroma later := by
  have halving := halving_searchStep trial tolerance state
  rw [Leads.eq_1] at leads
  rw [leads] at halving
  cases halving with
  | inGamut wide =>
      exact {
        nonnegative := sound.nonnegative.trans (low_le_middle tolerant wide)
        ordered := fun _ => middle_le_high tolerant wide
        bounded := sound.bounded
        clipped := sound.clipped }
  | close wide encodes =>
      exact {
        nonnegative := sound.nonnegative.trans (low_le_middle tolerant wide)
        ordered := fun _ => middle_le_high tolerant wide
        bounded := sound.bounded
        clipped := ⟨_, _, sound.isTried_middle tolerant wide, encodes, rfl⟩ }
  | far wide encodes =>
      exact {
        nonnegative := sound.nonnegative
        ordered := fun _ => low_le_middle tolerant wide
        bounded := (middle_le_high tolerant wide).trans sound.bounded
        clipped := ⟨_, _, sound.isTried_middle tolerant wide, encodes, rfl⟩ }

/-- What holds at the start of a search holds in every state that it comes
to. -/
theorem Sound.reached (sound : Sound trial chroma state)
    (reached : Relation.ReflTransGen (Leads trial tolerance) state later) :
    Sound trial chroma later := by
  induction reached with
  | refl => exact sound
  | tail _ leads inductionHypothesis =>
      exact inductionHypothesis.next tolerant leads

theorem Sound.done (sound : Sound trial chroma state)
    {result : Channels alpha}
    (ends : searchStep trial tolerance state = .ok (.done result)) :
    IsClipped trial chroma result := by
  have halving := halving_searchStep trial tolerance state
  rw [ends] at halving
  cases halving with
  | narrow => exact sound.clipped
  | settled wide encodes =>
      exact ⟨_, _, sound.isTried_middle tolerant wide, encodes, rfl⟩

theorem Sound.failed (sound : Sound trial chroma state) {fault : epsilon}
    (fails : searchStep trial tolerance state = .error fault) :
    Fails trial chroma fault := by
  have halving := halving_searchStep trial tolerance state
  rw [fails] at halving
  cases halving with
  | unencoded wide encodes =>
      exact ⟨_, sound.isTried_middle tolerant wide, .inl encodes⟩
  | uncompared wide encodes _ compared =>
      exact ⟨_, sound.isTried_middle tolerant wide,
        .inr ⟨_, encodes, compared⟩⟩

theorem Search.finds (search : Search trial tolerance state outcome)
    (sound : Sound trial chroma state) : Finds trial chroma outcome := by
  induction search with
  | done ends => exact sound.done tolerant ends
  | failed fails => exact sound.failed tolerant fails
  | ongoing leads _ inductionHypothesis =>
      exact inductionHypothesis (sound.next tolerant leads)

theorem Reduction.displays
    (reduction : Reduction trial tolerance lightness chroma outcome) :
    Displays trial lightness chroma outcome := by
  have own : IsTried chroma chroma := .inl rfl
  cases reduction with
  | unencoded encodes => exact ⟨chroma, own, .inl encodes⟩
  | inGamut encodes =>
      have clipped : IsClipped trial chroma _ :=
        ⟨chroma, _, own, encodes, rfl⟩
      exact ⟨.inr (.inr clipped), clipped.inRange⟩
  | white _ _ light => exact ⟨.inl ⟨rfl, light⟩, Channels.inRange_white⟩
  | black _ _ _ dark =>
      exact ⟨.inr (.inl ⟨rfl, dark⟩), Channels.inRange_black⟩
  | uncompared encodes _ _ _ compared =>
      exact ⟨chroma, own, .inr ⟨_, encodes, compared⟩⟩
  | close encodes =>
      have clipped : IsClipped trial chroma _ :=
        ⟨chroma, _, own, encodes, rfl⟩
      exact ⟨.inr (.inr clipped), clipped.inRange⟩
  | searched encodes _ _ _ _ search =>
      have found := search.finds tolerant (sound_start encodes)
      cases outcome with
      | error fault => exact found
      | ok shown => exact ⟨.inr (.inr found), IsClipped.inRange found⟩

end Runs

/-! ## The end of a search -/

theorem Leads.width (leads : Leads trial tolerance state later) :
    later.high - later.low = (state.high - state.low) / 2 := by
  have halving := halving_searchStep trial tolerance state
  rw [Leads.eq_1] at leads
  rw [leads] at halving
  have lower : state.middle - state.low = (state.high - state.low) / 2 := by
    rw [SearchState.middle]
    ring
  have upper : state.high - state.middle =
      (state.high - state.low) / 2 := by
    rw [SearchState.middle]
    ring
  cases halving with
  | inGamut => exact upper
  | close => exact upper
  | far => exact lower

/-- A search ends as soon as its interval, halved that often, is within the
tolerance. -/
theorem exists_search {steps : Nat}
    (narrow : state.high - state.low ≤ tolerance * 2 ^ steps) :
    ∃ outcome, Search trial tolerance state outcome ∧
      searchFor trial tolerance (steps + 1) state =
        outcome.map Progress.done := by
  induction steps generalizing state with
  | zero =>
      rw [pow_zero, mul_one] at narrow
      have ends : searchStep trial tolerance state =
          .ok (.done state.clipped) := by
        rw [searchStep, if_neg (not_lt.2 narrow)]
        rfl
      refine ⟨.ok state.clipped, .done ends, ?_⟩
      rw [searchFor, ends]
      rfl
  | succ steps inductionHypothesis =>
      rw [searchFor]
      rcases stepped : searchStep trial tolerance state with
        fault | result | later
      · exact ⟨.error fault, .failed stepped, rfl⟩
      · exact ⟨.ok result, .done stepped, rfl⟩
      · have half : later.high - later.low ≤ tolerance * 2 ^ steps := by
          rw [Leads.width stepped, div_le_iff₀ two_pos, mul_assoc,
            ← pow_succ]
          exact narrow
        obtain ⟨outcome, search, within⟩ := inductionHypothesis half
        exact ⟨outcome, .ongoing stepped search, within⟩

end Bounds

/-! ## Finite doubles -/

/-- What holds of the search for a colour of this chroma and these channels,
which is not begun where the chroma is negative. -/
structure SearchEnds {epsilon : Type} (trial : Trial ℚ epsilon)
    (tolerance chroma : ℚ) (encoded : Channels ℚ) : Prop where
  ends : ∃ outcome, Search trial tolerance (.start chroma encoded) outcome
  bounds : ∀ state, Relation.ReflTransGen (Leads trial tolerance)
      (.start chroma encoded) state →
    0 ≤ chroma →
      0 ≤ state.low ∧ state.low ≤ state.high ∧ state.high ≤ chroma
  skipped : chroma < 0 → searchStep trial tolerance (.start chroma encoded) =
    .ok (.done encoded.clip)

theorem exactValue?_searchTolerance :
    exactValue? searchTolerance = some (7378697629483821 * 2 ^ (-66 : ℤ)) := by
  have finite : meaning searchTolerance =
      .finite ⟨false, 7378697629483821, -66⟩ := by decide +kernel
  rw [exactValue?, finite]
  rfl

/-- The tolerance is that wide after the last halving but one. -/
theorem pow_le_tolerance :
    (2 : ℚ) ^ 1024 ≤ 7378697629483821 * 2 ^ (-66 : ℤ) * 2 ^ 1099 := by
  have wide : (2 : ℚ) ^ 52 ≤ 7378697629483821 := by norm_num
  calc (2 : ℚ) ^ 1024 ≤ 2 ^ 52 * 2 ^ (-66 : ℤ) * 2 ^ 1099 := by
        rw [← zpow_natCast, ← zpow_natCast, ← zpow_natCast,
          ← zpow_add₀ two_ne_zero, ← zpow_add₀ two_ne_zero]
        exact zpow_le_zpow_right₀ one_le_two (by norm_num)
    _ ≤ 7378697629483821 * 2 ^ (-66 : ℤ) * 2 ^ 1099 := by gcongr

/-- With exact arithmetic on lightness and chroma, and whatever the tests for
displayable and for close colours say, every finite colour is made displayable
in finitely many steps. The search keeps its interval between zero and the
chroma. The result is white, black or the clipped channels of a chroma that is
tried, each from zero to one; there is none only if a conversion or a
comparison for such a chroma has none. -/
theorem reduceChroma_displays {epsilon : Type} (trial : Trial ℚ epsilon)
    {color : Lch} (light : color.lightness.isFinite = true)
    (colored : color.chroma.isFinite = true) :
    ∃ tolerance lightness chroma,
      exactValue? searchTolerance = some tolerance ∧
      exactValue? color.lightness = some lightness ∧
      exactValue? color.chroma = some chroma ∧
      (∀ encoded, trial.encode chroma = .ok encoded →
        SearchEnds trial tolerance chroma encoded) ∧
      Reduction trial tolerance lightness chroma
        (reduceChroma trial tolerance lightness chroma) ∧
      Displays trial lightness chroma
        (reduceChroma trial tolerance lightness chroma) := by
  obtain ⟨lightness, lightExact⟩ := (isFinite_iff_exact _).1 light
  obtain ⟨chroma, chromaExact⟩ := (isFinite_iff_exact _).1 colored
  generalize same : (7378697629483821 * 2 ^ (-66 : ℤ) : ℚ) = tolerance
  have tolerant : 0 ≤ tolerance := by
    rw [← same]
    positivity
  have narrow : chroma - 0 ≤ tolerance * 2 ^ 1099 := by
    rw [sub_zero, ← same]
    exact (lt_of_abs_lt (abs_lt_of_exact chromaExact)).le.trans
      pow_le_tolerance
  have ends (encoded : Channels ℚ) : ∃ outcome,
      Search trial tolerance (.start chroma encoded) outcome ∧
        searchFor trial tolerance searchBudget (.start chroma encoded) =
          outcome.map Progress.done := exists_search narrow
  have reduction : Reduction trial tolerance lightness chroma
      (reduceChroma trial tolerance lightness chroma) :=
    reduction_reduceChroma ends
  refine ⟨tolerance, lightness, chroma, same ▸ exactValue?_searchTolerance,
    lightExact, chromaExact, fun encoded encodes => ?_, reduction,
    reduction.displays tolerant⟩
  obtain ⟨outcome, search, -⟩ := ends encoded
  constructor
  · exact ⟨outcome, search⟩
  · intro state reached above
    have sound := (sound_start encodes).reached tolerant reached
    exact ⟨sound.nonnegative, sound.ordered above, sound.bounded⟩
  · intro negative
    have none : ¬ tolerance < chroma - 0 := by
      rw [sub_zero]
      exact not_lt.2 (negative.le.trans tolerant)
    rw [searchStep, SearchState.start, if_neg none]
    rfl

/-- A colour with more chroma than can be shown. -/
def vivid : Lch :=
  ⟨0.5, 0.4, 30⟩

/-- Colours whose red grows with the chroma, and that differ as their reds
do. -/
def reddening : Trial ℚ Unit where
  encode chroma := .ok ⟨4 * chroma, 1 / 2, 1 / 2⟩
  inGamut color := decide (color.red ≤ 1)
  compare chroma clipped :=
    let difference := 4 * chroma - clipped.red
    if difference < 1 / 50 then
      if 1 / 50 - difference < 1 / 10000 then .ok .settled else .ok .close
    else .ok .far

theorem vivid_displays :
    ∃ tolerance lightness chroma shown,
      exactValue? searchTolerance = some tolerance ∧
      exactValue? vivid.lightness = some lightness ∧
      exactValue? vivid.chroma = some chroma ∧
      SearchEnds reddening tolerance chroma ⟨4 * chroma, 1 / 2, 1 / 2⟩ ∧
      reduceChroma reddening tolerance lightness chroma = .ok shown ∧
      shown.InRange := by
  obtain ⟨tolerance, lightness, chroma, tolerated, light, colored, ends, -,
      displays⟩ :=
    @reduceChroma_displays Unit reddening vivid (by decide +kernel)
      (by decide +kernel)
  rcases outcome : reduceChroma reddening tolerance lightness chroma with
    fault | shown
  · rw [outcome] at displays
    obtain ⟨tried, -, missing | ⟨encoded, -, missing⟩⟩ := displays
    · cases missing
    · simp only [reddening] at missing
      split at missing
      · split at missing <;> cases missing
      · cases missing
  · rw [outcome] at displays
    exact ⟨tolerance, lightness, chroma, shown, tolerated, light, colored,
      ends _ rfl, outcome, displays.2⟩

end DesignTokens.ColorSpace
