import DesignTokens.Stylesheet.Selector
import Mathlib.Tactic

/-!
# Templates and their places for a mode

A template is cut at its places for a mode into pieces, in one way only. To
fill it is to put the name of the mode between these pieces, whatever the name
is. As soon as there is a place, different modes have different selectors.
-/

namespace DesignTokens

/-! ## Pieces between separators -/

section Separators

variable {alpha : Type}

theorem intercalate_modifyHead_cons (separator : List alpha) (item : alpha)
    {pieces : List (List alpha)} (nonempty : pieces ≠ []) :
    separator.intercalate (pieces.modifyHead (item :: ·)) =
      item :: separator.intercalate pieces := by
  cases pieces with
  | nil => exact absurd rfl nonempty
  | cons piece rest =>
      cases rest with
      | nil => simp
      | cons next others => simp [List.intercalate_cons_cons]

theorem length_intercalate_cons (separator first : List alpha)
    (rest : List (List alpha)) :
    (separator.intercalate (first :: rest)).length =
      first.length + (rest.map List.length).sum +
        rest.length * separator.length := by
  induction rest generalizing first with
  | nil => simp
  | cons next others inductionHypothesis =>
      rw [List.intercalate_cons_cons, List.length_append, List.length_append,
        inductionHypothesis, List.map_cons, List.sum_cons, List.length_cons,
        Nat.succ_mul]
      omega

/-- Where a separator is used at all, the joined text tells which one it
is. -/
theorem eq_of_intercalate_eq {separator other first second : List alpha}
    {rest : List (List alpha)}
    (same : separator.intercalate (first :: second :: rest) =
      other.intercalate (first :: second :: rest)) : separator = other := by
  have lengths := congrArg List.length same
  rw [length_intercalate_cons, length_intercalate_cons,
    Nat.add_left_cancel_iff] at lengths
  have equal : separator.length = other.length :=
    Nat.eq_of_mul_eq_mul_left (Nat.succ_pos rest.length) lengths
  rw [List.intercalate_cons_cons, List.intercalate_cons_cons,
    List.append_assoc, List.append_assoc, List.append_cancel_left_eq] at same
  exact (List.append_inj same equal).1

end Separators

/-! ## Places in a template -/

/-- The text in the place of a mode. -/
def modePlace : List Char :=
  "\x7bmode\x7d".toList

/-- A template is cut at its places for a mode, and at all of them. -/
structure CutAtPlaces (template : List Char) (pieces : List (List Char)) :
    Prop where
  nonempty : pieces ≠ []
  whole : modePlace.intercalate pieces = template
  clear : ∀ piece ∈ pieces, ¬ modePlace <:+: piece

/-- The texts before, between and after the places for a mode. -/
def templatePieces : List Char → List (List Char)
  | '{' :: 'm' :: 'o' :: 'd' :: 'e' :: '}' :: rest =>
      [] :: templatePieces rest
  | character :: rest => (templatePieces rest).modifyHead (character :: ·)
  | [] => [[]]

theorem templatePieces_ne_nil (template : List Char) :
    templatePieces template ≠ [] := by
  fun_induction templatePieces template with
  | case1 => exact List.cons_ne_nil _ _
  | case2 character rest _ inductionHypothesis =>
      rw [Ne, List.modifyHead_eq_nil_iff]
      exact inductionHypothesis
  | case3 => exact List.cons_ne_nil _ _

/-- To fill a template is to put the mode between its pieces. -/
theorem fillTemplate_eq_intercalate (mode template : List Char) :
    fillTemplate mode template =
      mode.intercalate (templatePieces template) := by
  fun_induction templatePieces template with
  | case1 rest inductionHypothesis =>
      rw [fillTemplate, inductionHypothesis,
        List.intercalate_cons_of_ne_nil (templatePieces_ne_nil rest)]
      rfl
  | case2 character rest notPlace inductionHypothesis =>
      rw [fillTemplate, inductionHypothesis,
        intercalate_modifyHead_cons _ _ (templatePieces_ne_nil rest)]
      exact notPlace
  | case3 => rfl

theorem fillTemplate_modePlace (template : List Char) :
    fillTemplate modePlace template = template := by
  fun_induction fillTemplate modePlace template with
  | case1 rest inductionHypothesis =>
      rw [inductionHypothesis]
      rfl
  | case2 character rest _ inductionHypothesis => rw [inductionHypothesis]
  | case3 => rfl

theorem intercalate_templatePieces (template : List Char) :
    modePlace.intercalate (templatePieces template) = template := by
  rw [← fillTemplate_eq_intercalate, fillTemplate_modePlace]

theorem prefix_of_templatePieces {template piece : List Char}
    {others : List (List Char)}
    (cut : templatePieces template = piece :: others) :
    piece <+: template := by
  have whole := intercalate_templatePieces template
  rw [cut] at whole
  cases others with
  | nil =>
      rw [List.intercalate_singleton] at whole
      exact whole ▸ List.prefix_rfl
  | cons next rest =>
      rw [List.intercalate_cons_cons, List.append_assoc] at whole
      exact ⟨_, whole⟩

theorem clear_templatePieces (template : List Char) :
    ∀ piece ∈ templatePieces template, ¬ modePlace <:+: piece := by
  fun_induction templatePieces template with
  | case1 rest inductionHypothesis =>
      exact List.forall_mem_cons.2 ⟨by decide, inductionHypothesis⟩
  | case2 character rest notPlace inductionHypothesis =>
      obtain ⟨piece, others, cut⟩ :=
        List.exists_cons_of_ne_nil (templatePieces_ne_nil rest)
      rw [cut] at inductionHypothesis ⊢
      obtain ⟨first, later⟩ := List.forall_mem_cons.1 inductionHypothesis
      refine List.forall_mem_cons.2 ⟨fun inside => ?_, later⟩
      rcases List.infix_cons_iff.1 inside with ahead | inPiece
      · have starts := ahead.trans
          ((List.prefix_cons_inj character).2 (prefix_of_templatePieces cut))
        obtain ⟨after, same⟩ := starts
        cases same
        exact notPlace after rfl rfl
      · exact first inPiece
  | case3 => exact List.forall_mem_singleton.2 (by decide)

/-! ## One way to cut -/

/-- A place does not begin in a text that holds none, not even where the text
goes on with a place. -/
theorem not_place_of_clear {character : Char} {piece rest after : List Char}
    (clear : ¬ modePlace <:+: character :: piece)
    (brace : character = '{')
    (found : piece ++ modePlace ++ rest =
      'm' :: 'o' :: 'd' :: 'e' :: '}' :: after) : False := by
  subst brace
  -- A shorter piece would have the brace of the next place inside this one.
  match piece with
  | [] => simp [modePlace] at found
  | [_] => simp [modePlace] at found
  | [_, _] => simp [modePlace] at found
  | [_, _, _] => simp [modePlace] at found
  | [_, _, _, _] => simp [modePlace] at found
  | first :: second :: third :: fourth :: fifth :: more =>
      simp only [List.cons_append, List.cons.injEq] at found
      obtain ⟨rfl, rfl, rfl, rfl, rfl, -⟩ := found
      exact clear ⟨[], more, rfl⟩

theorem templatePieces_append {piece : List Char}
    (clear : ¬ modePlace <:+: piece) (rest : List Char) :
    templatePieces (piece ++ modePlace ++ rest) =
      piece :: templatePieces rest := by
  induction piece with
  | nil => rfl
  | cons character others inductionHypothesis =>
      have later : ¬ modePlace <:+: others :=
        fun inside => clear (List.infix_cons inside)
      rw [List.cons_append, List.cons_append, templatePieces,
        inductionHypothesis later, List.modifyHead_cons]
      exact fun _ brace found => not_place_of_clear clear brace found

theorem templatePieces_of_clear {piece : List Char}
    (clear : ¬ modePlace <:+: piece) : templatePieces piece = [piece] := by
  induction piece with
  | nil => rfl
  | cons character others inductionHypothesis =>
      have later : ¬ modePlace <:+: others :=
        fun inside => clear (List.infix_cons inside)
      rw [templatePieces, inductionHypothesis later, List.modifyHead_cons]
      rintro after rfl rfl
      exact clear ⟨[], after, rfl⟩

theorem CutAtPlaces.eq_templatePieces {template : List Char}
    {pieces : List (List Char)} (cut : CutAtPlaces template pieces) :
    pieces = templatePieces template := by
  obtain ⟨nonempty, rfl, clear⟩ := cut
  induction pieces with
  | nil => exact absurd rfl nonempty
  | cons piece rest inductionHypothesis =>
      obtain ⟨first, later⟩ := List.forall_mem_cons.1 clear
      cases rest with
      | nil =>
          rw [List.intercalate_singleton, templatePieces_of_clear first]
      | cons next others =>
          rw [List.intercalate_cons_cons, templatePieces_append first,
            ← inductionHypothesis (List.cons_ne_nil _ _) later]

/-- A template is cut in one way only. -/
theorem cutAtPlaces_iff (template : List Char)
    (pieces : List (List Char)) :
    CutAtPlaces template pieces ↔ pieces = templatePieces template := by
  constructor
  · exact CutAtPlaces.eq_templatePieces
  · rintro rfl
    exact ⟨templatePieces_ne_nil template,
      intercalate_templatePieces template, clear_templatePieces template⟩

/-! ## Selectors of modes -/

/-- A template has a place for a mode exactly if it has several pieces. -/
theorem exists_several_iff (template : List Char) :
    (∃ first second rest,
      templatePieces template = first :: second :: rest) ↔
        modePlace <:+: template := by
  constructor
  · rintro ⟨first, second, rest, cut⟩
    have whole := intercalate_templatePieces template
    rw [cut, List.intercalate_cons_cons] at whole
    exact ⟨first, _, whole⟩
  · intro inside
    obtain ⟨first, others, cut⟩ :=
      List.exists_cons_of_ne_nil (templatePieces_ne_nil template)
    cases others with
    | cons second rest => exact ⟨first, second, rest, cut⟩
    | nil =>
        have whole := intercalate_templatePieces template
        have clear := clear_templatePieces template first
        rw [cut, List.intercalate_singleton] at whole
        rw [cut, whole] at clear
        exact absurd inside (clear List.mem_cons_self)

namespace Selectors

theorem toList_ofMode (selectors : Selectors) (category : Category)
    (mode : String) :
    (selectors.ofMode category mode).toList = mode.toList.intercalate
      (templatePieces (selectors.template category).toList) := by
  rw [ofMode, String.toList_ofList, fillTemplate_eq_intercalate]

/-- A template of a category is cut at its places for a mode in one way, and
the selector of a mode has its name between the pieces, just as it is.
Different modes have different selectors exactly if there is a place. -/
theorem modes_told_apart (selectors : Selectors) (category : Category) :
    (∃ pieces,
      (∀ others, CutAtPlaces (selectors.template category).toList others ↔
        others = pieces) ∧
      ∀ mode, (selectors.ofMode category mode).toList =
        mode.toList.intercalate pieces) ∧
      (Function.Injective (selectors.ofMode category) ↔
        modePlace <:+: (selectors.template category).toList) := by
  constructor
  · exact ⟨templatePieces (selectors.template category).toList,
      cutAtPlaces_iff _, selectors.toList_ofMode category⟩
  · rw [← exists_several_iff]
    constructor
    · intro injective
      obtain ⟨first, others, cut⟩ := List.exists_cons_of_ne_nil
        (templatePieces_ne_nil (selectors.template category).toList)
      cases others with
      | cons second rest => exact ⟨first, second, rest, cut⟩
      | nil =>
          -- Without a place, all modes have the template as their selector.
          have constant : selectors.ofMode category "" =
              selectors.ofMode category "\x7bmode\x7d" := by
            apply String.toList_injective
            rw [toList_ofMode, toList_ofMode, cut,
              List.intercalate_singleton, List.intercalate_singleton]
          exact absurd (injective constant) (by decide)
    · rintro ⟨first, second, rest, cut⟩ left right same
      have texts := congrArg String.toList same
      rw [toList_ofMode, toList_ofMode, cut] at texts
      exact String.toList_injective (eq_of_intercalate_eq texts)

/-- A name that holds the text of a place is not filled again. -/
example :
    ({ colorMode := ".\x7bmode\x7d-\x7bmode\x7d" } : Selectors).ofMode .color
        "a\x7bmode\x7d" = ".a\x7bmode\x7d-a\x7bmode\x7d" := by
  decide

end Selectors

end DesignTokens
