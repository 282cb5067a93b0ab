import DesignTokens.Proofs.Schema.Reading

/-!
# Reading what the grammar allows

Well-formed scalars can all be read, but for whole numbers that are written as
doubles of more than 64 bits.
-/

namespace DesignTokens.Schema

open DesignTokens.Grammar DesignTokens.Number Checked

theorem text_of_isName {value : Value} (name : IsName value) :
    (text value).Succeeds := by
  obtain ⟨held, rfl, _⟩ := name
  exact ⟨held, rfl⟩

/-- The forms of a value that stands for a number. -/
theorem denotes_cases {value : Value} {q : ℚ} (denotes : Denotes value q) :
    (∃ n : Int, value = .int n ∧ n.natAbs < doubleLimit ∧ q = n) ∨
      ∃ x, value = .float x ∧ exactValue? x = some q := by
  cases value with
  | int n =>
      rw [Denotes, Value.numeral?, Option.bind_some, Numeral.value?,
        Option.ite_none_right_eq_some] at denotes
      exact .inl ⟨n, rfl, denotes.1, (Option.some.inj denotes.2).symm⟩
  | float x => exact .inr ⟨x, rfl, denotes⟩
  | _ => cases denotes

theorem real_of_isNumber {kind : ℚ → Prop} {value : Value}
    (number : IsNumber kind value) : (real value).Succeeds := by
  obtain ⟨q, denotes, _⟩ := number
  rcases denotes_cases denotes with ⟨n, rfl, fits, _⟩ | ⟨x, rfl, _⟩
  · obtain ⟨x, nearest⟩ :=
      Option.isSome_iff_exists.1 ((floatOfInt?_isSome_iff n).2 fits)
    refine ⟨x, ?_⟩
    simp [real, decoded, nearest]
  · exact ⟨x, rfl⟩

/-- A double that is a whole number of more than 64 bits. -/
def IsWide (value : Value) : Prop :=
  ∃ x, ∃ n : Int, value = .float x ∧ exactValue? x = some (n : ℚ) ∧
    ¬ (-2 ^ 63 ≤ n ∧ n < 2 ^ 63)

theorem whole_of_isStepCount {value : Value} {n : Int}
    (denotes : Denotes value n) (positive : 1 ≤ n) :
    (whole value = .accepted n ∧ ¬ IsWide value) ∨
      (¬ (whole value).Succeeds ∧ IsWide value) := by
  rcases denotes_cases denotes with ⟨m, rfl, _, same⟩ | ⟨x, rfl, exact⟩
  · refine .inl ⟨?_, nofun⟩
    rw [Int.cast_inj.1 same]
    rfl
  · have read : whole (.float x) = if n.natAbs < twoTo 63 then .accepted n
        else issue .wholeTooLarge := by
      change wholeOfFloat x = _
      rw [wholeOfFloat, (isFinite_iff_exact x).2 ⟨_, exact⟩,
        (wholeValue?_eq_some_iff x n).2 exact]
      rfl
    have wide : IsWide (.float x) ↔ ¬ n.natAbs < 2 ^ 63 := by
      constructor
      · rintro ⟨y, m, same, value, wide⟩
        cases same
        rw [exact, Option.some.injEq, Int.cast_inj] at value
        omega
      · intro large
        exact ⟨x, n, rfl, exact, by omega⟩
    rw [read, wide]
    change _ ∨ ¬ (if n.natAbs < 2 ^ 63 then _ else _ : Checked Int).Succeeds ∧ _
    by_cases fits : n.natAbs < 2 ^ 63
    · exact .inl ⟨if_pos fits, not_not.2 fits⟩
    · rw [if_neg fits]
      exact .inr ⟨not_succeeds_issue _, fits⟩

/-- A whole number that is read from a finite number is one of the doubles'
range. -/
theorem whole_lt_limit {value : Value} {q : ℚ} (denotes : Denotes value q)
    {n : Int} (read : whole value = .accepted n) :
    n.natAbs < doubleLimit := by
  rcases denotes_cases denotes with ⟨m, rfl, small, _⟩ | ⟨x, rfl, _⟩
  · cases read
    exact small
  · have read : wholeOfFloat x = .accepted n := read
    unfold wholeOfFloat at read
    split at read
    · cases read
    · split at read
      · cases read
      · split at read
        · rename_i m _ short
          cases read
          have limit : 2 ^ 63 ≤ doubleLimit := two_pow_le_limit (by decide)
          have short : n.natAbs < 2 ^ 63 := short
          omega
        · cases read

theorem flag_of_optionally {given : Option Value}
    (optional : Optionally (fun value => ∃ held, value = .bool held) given)
    {value : Value} (found : given = some value) :
    (nullable flag value).Succeeds := by
  rcases optional value found with rfl | ⟨held, rfl⟩
  · exact ⟨none, rfl⟩
  · exact ⟨some held, rfl⟩

end DesignTokens.Schema
