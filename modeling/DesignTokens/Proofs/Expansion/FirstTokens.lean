import DesignTokens.Proofs.Expansion.Merging

/-!
# Every token is kept or reported

Tokens are merged one after the other: a token is added under a new name, or a
notice tells that its name is taken. So the merged record holds the first token
of every name, in the order of these tokens, and there is one notice for each
of the others.
-/

namespace DesignTokens

/-! ## Repeated names -/

/-- The token at this place comes after another one of its name. -/
def Token.Repeats (tokens : List Token) (entry : Token × Nat) : Prop :=
  entry.1.name ∈ (tokens.take entry.2).map Token.name

instance (tokens : List Token) (entry : Token × Nat) :
    Decidable (Token.Repeats tokens entry) :=
  inferInstanceAs (Decidable (_ ∈ _))

/-- The tokens that come after another one of their name, in order. -/
def repeatedTokens (tokens : List Token) : List Token :=
  (tokens.zipIdx.filter fun entry => Token.Repeats tokens entry).map Prod.fst

theorem repeatedTokens_concat (tokens : List Token) (token : Token) :
    repeatedTokens (tokens ++ [token]) = repeatedTokens tokens ++
      if token.name ∈ tokens.map Token.name then [token] else [] := by
  have earlier : (tokens.zipIdx.filter fun entry =>
        Token.Repeats (tokens ++ [token]) entry) =
      tokens.zipIdx.filter fun entry => Token.Repeats tokens entry := by
    apply List.filter_congr
    intro entry member
    have place := List.snd_lt_of_mem_zipIdx member
    apply decide_eq_decide.2
    rw [Token.Repeats, Token.Repeats,
      List.take_append_of_le_length place.le]
  have last : Token.Repeats (tokens ++ [token]) (token, tokens.length) ↔
      token.name ∈ tokens.map Token.name := by
    rw [Token.Repeats, List.take_left]
  rw [repeatedTokens, List.zipIdx_append, List.filter_append, earlier,
    List.map_append, repeatedTokens, Nat.zero_add]
  by_cases again : token.name ∈ tokens.map Token.name
  · rw [if_pos again]
    simp [last.2 again]
  · rw [if_neg again]
    simp [mt last.1 again]

/-- A notice names a token, its family, and the family of the first token of
its name. -/
def Notice.Reports (tokens : List Token) (token : Token)
    (notice : Notice) : Prop :=
  ∃ kept, (tokens.find? fun other => other.name = token.name) = some kept ∧
    notice = .collision token.name token.family kept.family

theorem Notice.Reports.concat {tokens : List Token} {token : Token}
    {notice : Notice} (reports : notice.Reports tokens token)
    (more : Token) : notice.Reports (tokens ++ [more]) token := by
  obtain ⟨kept, first, text⟩ := reports
  refine ⟨kept, ?_, text⟩
  rw [List.find?_append, first]
  rfl

/-! ## Merged tokens -/

/-- There is one notice for each token that is not kept, in order. -/
theorem reports_mergeTokens (tokens : List Token) :
    List.Forall₂ (fun token notice => Notice.Reports tokens token notice)
      (repeatedTokens tokens) (mergeTokens tokens).2 := by
  induction tokens using List.reverseRecOn with
  | nil => exact .nil
  | append_singleton tokens token inductionHypothesis =>
      have earlier := inductionHypothesis.imp fun _ _ reports =>
        Notice.Reports.concat reports token
      rw [repeatedTokens_concat]
      cases found : tokens.find? fun other => other.name = token.name with
      | some kept =>
          have reports : Notice.Reports (tokens ++ [token]) token
              (.collision token.name token.family kept.family) :=
            Notice.Reports.concat ⟨kept, found, rfl⟩ token
          rw [mergeTokens_concat_of_taken found,
            if_pos (name_mem_of_taken found)]
          exact List.rel_append earlier (.cons reports .nil)
      | none =>
          rw [mergeTokens_concat_of_new found,
            if_neg (name_not_mem_of_new found), List.append_nil]
          exact earlier

theorem length_mergeTokens (tokens : List Token) :
    (mergeTokens tokens).1.length + (mergeTokens tokens).2.length =
      tokens.length := by
  induction tokens using List.reverseRecOn with
  | nil => rfl
  | append_singleton tokens token inductionHypothesis =>
      cases found : tokens.find? fun other => other.name = token.name with
      | some kept =>
          rw [mergeTokens_concat_of_taken found, List.length_append,
            List.length_append]
          simp only [List.length_singleton]
          omega
      | none =>
          rw [mergeTokens_concat_of_new found, List.length_append,
            List.length_append]
          simp only [List.length_singleton]
          omega

/-- Tokens with names of their own are kept one and all, without a notice. -/
theorem mergeTokens_of_nodup {tokens : List Token}
    (distinct : (tokens.map Token.name).Nodup) :
    mergeTokens tokens =
      (tokens.map fun token => (token.name, token), []) := by
  have record : (mergeTokens tokens).1 =
      tokens.map fun token => (token.name, token) :=
    mergeInto_of_nodup distinct
  have count := length_mergeTokens tokens
  rw [record, List.length_map, Nat.add_eq_left] at count
  exact Prod.ext record (List.eq_nil_of_length_eq_zero count)

theorem mergeTokens_mergeTokens (tokens : List Token) :
    mergeTokens ((mergeTokens tokens).1.map Prod.snd) =
      ((mergeTokens tokens).1, []) := by
  have named := name_of_mem_mergeTokens tokens
  have names : ((mergeTokens tokens).1.map Prod.snd).map Token.name =
      (mergeTokens tokens).1.names := by
    rw [List.map_map]
    exact List.map_congr_left named
  have entries : (((mergeTokens tokens).1.map Prod.snd).map fun token =>
      (token.name, token)) = (mergeTokens tokens).1 := by
    rw [List.map_map]
    refine (List.map_congr_left fun entry member => ?_).trans (List.map_id _)
    exact Prod.ext (named entry member) rfl
  rw [mergeTokens_of_nodup (names ▸ nodup_names_mergeTokens tokens), entries]

/-- Merged tokens stand under their names, in the order in which these come
first, and each is the first token of its name. A notice for each of the other
tokens, in their order, names it, its family and the family of the token that
is kept. So nothing is lost without a notice, and nothing more happens when
merged tokens are merged again. -/
theorem mergeTokens_exact (tokens : List Token) :
    (mergeTokens tokens).1.names = (tokens.map Token.name).eraseDups ∧
      (∀ name, (mergeTokens tokens).1.lookup name =
        tokens.find? fun token => token.name = name) ∧
      (∀ entry ∈ (mergeTokens tokens).1, entry.2.name = entry.1) ∧
      List.Forall₂ (fun token notice => Notice.Reports tokens token notice)
        (repeatedTokens tokens) (mergeTokens tokens).2 ∧
      (mergeTokens tokens).1.length + (mergeTokens tokens).2.length =
        tokens.length ∧
      mergeTokens ((mergeTokens tokens).1.map Prod.snd) =
        ((mergeTokens tokens).1, []) :=
  ⟨names_mergeTokens tokens, lookup_mergeTokens tokens,
    name_of_mem_mergeTokens tokens, reports_mergeTokens tokens,
    length_mergeTokens tokens, mergeTokens_mergeTokens tokens⟩

end DesignTokens
