import DesignTokens.Expansion.Whole
import DesignTokens.Proofs.Record

/-!
# Merging tokens

A merged record finds under every name the first token that has it. A notice
stands for two tokens of one name, the first of which is kept.
-/

namespace DesignTokens

/-! ## Names and first tokens -/

theorem lookup_mergeInto (record : Record Token) (tokens : List Token)
    (name : String) :
    (mergeInto record tokens).1.lookup name =
      (record.lookup name).or
        (tokens.find? fun token => token.name = name) := by
  induction tokens generalizing record with
  | nil => exact (Option.or_none).symm
  | cons token rest inductionHypothesis =>
      rw [mergeInto]
      cases taken : record.lookup token.name with
      | some kept =>
          rw [inductionHypothesis]
          by_cases same : token.name = name
          · rw [← same, taken]
            rfl
          · rw [List.find?_cons_of_neg (by simpa using same)]
      | none =>
          rw [inductionHypothesis, List.lookup_append]
          by_cases same : token.name = name
          · rw [List.find?_cons_of_pos (by simpa using same), ← same, taken,
              List.lookup_cons_self]
            rfl
          · rw [List.find?_cons_of_neg (by simpa using same),
              Record.lookup_cons_of_ne (Ne.symm same), List.lookup_nil,
              Option.or_none]

theorem lookup_mergeTokens (tokens : List Token) (name : String) :
    (mergeTokens tokens).1.lookup name =
      tokens.find? fun token => token.name = name := by
  rw [mergeTokens, lookup_mergeInto]
  rfl

theorem mergeTokens_ne_nil {tokens : List Token} (nonempty : tokens ≠ []) :
    (mergeTokens tokens).1 ≠ [] := by
  obtain ⟨token, rest, rfl⟩ := List.exists_cons_of_ne_nil nonempty
  intro empty
  have found := lookup_mergeTokens (token :: rest) token.name
  rw [empty, List.find?_cons_of_pos (by simp)] at found
  cases found

/-! ## One more token -/

theorem mergeInto_append (record : Record Token) (first second : List Token) :
    (mergeInto record (first ++ second)).1 =
      (mergeInto (mergeInto record first).1 second).1 := by
  induction first generalizing record with
  | nil => rfl
  | cons token rest inductionHypothesis =>
      rw [List.cons_append, mergeInto, mergeInto]
      cases record.lookup token.name with
      | some kept => exact inductionHypothesis record
      | none => exact inductionHypothesis _

theorem notices_mergeInto_append (record : Record Token)
    (first second : List Token) :
    (mergeInto record (first ++ second)).2 = (mergeInto record first).2 ++
      (mergeInto (mergeInto record first).1 second).2 := by
  induction first generalizing record with
  | nil => rfl
  | cons token rest inductionHypothesis =>
      rw [List.cons_append, mergeInto, mergeInto]
      cases record.lookup token.name with
      | some kept => exact congrArg (_ :: ·) (inductionHypothesis record)
      | none => exact inductionHypothesis _

theorem mergeTokens_concat (tokens : List Token) (token : Token) :
    mergeTokens (tokens ++ [token]) =
      ((mergeInto (mergeTokens tokens).1 [token]).1, (mergeTokens tokens).2 ++
        (mergeInto (mergeTokens tokens).1 [token]).2) :=
  Prod.ext (mergeInto_append ..) (notices_mergeInto_append ..)

section Concat

variable {tokens : List Token} {token kept : Token}

/-- A token whose name is taken changes nothing and is reported. -/
theorem mergeTokens_concat_of_taken
    (taken : (tokens.find? fun other => other.name = token.name) =
      some kept) :
    mergeTokens (tokens ++ [token]) =
      ((mergeTokens tokens).1, (mergeTokens tokens).2 ++
        [.collision token.name token.family kept.family]) := by
  rw [← lookup_mergeTokens] at taken
  simp only [mergeTokens_concat, mergeInto, taken]

/-- A token under a new name is added without a notice. -/
theorem mergeTokens_concat_of_new
    (new : (tokens.find? fun other => other.name = token.name) = none) :
    mergeTokens (tokens ++ [token]) =
      ((mergeTokens tokens).1 ++ [(token.name, token)],
        (mergeTokens tokens).2) := by
  rw [← lookup_mergeTokens] at new
  simp only [mergeTokens_concat, mergeInto, new, List.append_nil]

theorem name_mem_of_taken
    (taken : (tokens.find? fun other => other.name = token.name) =
      some kept) : token.name ∈ tokens.map Token.name := by
  have same : kept.name = token.name := by simpa using List.find?_some taken
  rw [← same]
  exact List.mem_map_of_mem (List.mem_of_find?_eq_some taken)

theorem name_not_mem_of_new
    (new : (tokens.find? fun other => other.name = token.name) = none) :
    token.name ∉ tokens.map Token.name := by
  intro listed
  obtain ⟨other, member, same⟩ := List.mem_map.1 listed
  have differs := List.find?_eq_none.1 new other member
  simp [same] at differs

end Concat

/-! ## Names without repetition -/

theorem eraseDups_concat {alpha : Type} [DecidableEq alpha]
    (items : List alpha) (item : alpha) :
    (items ++ [item]).eraseDups =
      items.eraseDups ++ if item ∈ items then [] else [item] := by
  rw [List.eraseDups_append, List.removeAll]
  by_cases again : item ∈ items
  · simp [again]
  · simp [again, List.eraseDups_cons]

theorem nodup_eraseDups {alpha : Type} [DecidableEq alpha]
    (items : List alpha) : items.eraseDups.Nodup := by
  induction items using List.reverseRecOn with
  | nil => exact List.nodup_nil
  | append_singleton items item inductionHypothesis =>
      rw [eraseDups_concat]
      by_cases again : item ∈ items
      · rwa [if_pos again, List.append_nil]
      · have apart : (item :: items.eraseDups).Nodup :=
          List.nodup_cons.2 ⟨mt List.mem_eraseDups.1 again,
            inductionHypothesis⟩
        rw [if_neg again]
        exact (List.perm_append_singleton _ _).nodup_iff.2 apart

/-! ## The names of merged tokens -/

theorem names_mergeTokens (tokens : List Token) :
    (mergeTokens tokens).1.names =
      (tokens.map Token.name).eraseDups := by
  induction tokens using List.reverseRecOn with
  | nil => rfl
  | append_singleton tokens token inductionHypothesis =>
      rw [List.map_append, List.map_singleton, eraseDups_concat,
        ← inductionHypothesis]
      cases found : tokens.find? fun other => other.name = token.name with
      | some kept =>
          rw [mergeTokens_concat_of_taken found,
            if_pos (name_mem_of_taken found), List.append_nil]
      | none =>
          rw [mergeTokens_concat_of_new found,
            if_neg (name_not_mem_of_new found)]
          exact List.map_append

theorem nodup_names_mergeTokens (tokens : List Token) :
    (mergeTokens tokens).1.names.Nodup :=
  names_mergeTokens tokens ▸ nodup_eraseDups _

/-- Every entry is the first token of its name. -/
theorem find?_of_mem_mergeTokens {tokens : List Token}
    {entry : String × Token} (member : entry ∈ (mergeTokens tokens).1) :
    (tokens.find? fun token => token.name = entry.1) = some entry.2 := by
  rw [← lookup_mergeTokens]
  exact Record.lookup_of_mem (nodup_names_mergeTokens tokens) member

theorem mem_mergeTokens {tokens : List Token} {entry : String × Token}
    (member : entry ∈ (mergeTokens tokens).1) : entry.2 ∈ tokens :=
  List.mem_of_find?_eq_some (find?_of_mem_mergeTokens member)

theorem name_of_mem_mergeTokens (tokens : List Token) :
    ∀ entry ∈ (mergeTokens tokens).1, entry.2.name = entry.1 := by
  intro entry member
  simpa using List.find?_some (find?_of_mem_mergeTokens member)

/-! ## Some of the tokens -/

/-- Two tokens of one name are kept together, or neither of them is. -/
def Token.KeptAlike (keep : Token → Bool) (first second : Token) : Prop :=
  first.name = second.name → keep first = keep second

theorem mergeInto_filter {keep : Token → Bool} {record : Record Token}
    {tokens : List Token}
    (named : ∀ entry ∈ record, entry.2.name = entry.1)
    (alike : (record.map Prod.snd ++ tokens).Pairwise
      (Token.KeptAlike keep)) :
    (mergeInto (record.filter fun entry => keep entry.2)
        (tokens.filter keep)).1 =
      (mergeInto record tokens).1.filter fun entry => keep entry.2 := by
  induction tokens generalizing record with
  | nil => rfl
  | cons token rest inductionHypothesis =>
      have parts := List.pairwise_append.1 alike
      have fewer : (record.map Prod.snd ++ rest).Pairwise
          (Token.KeptAlike keep) :=
        alike.sublist ((List.Sublist.refl _).append
          (List.sublist_cons_self ..))
      have added : ((record ++ [(token.name, token)]).map Prod.snd
          ++ rest).Pairwise (Token.KeptAlike keep) := by
        rwa [List.map_append, List.append_assoc]
      have stillNamed : ∀ entry ∈ record ++ [(token.name, token)],
          entry.2.name = entry.1 := by
        rw [List.forall_mem_append, List.forall_mem_singleton]
        exact ⟨named, rfl⟩
      rw [mergeInto]
      cases keeps : keep token with
      | false =>
          rw [List.filter_cons_of_neg (by simp [keeps])]
          cases taken : record.lookup token.name with
          | some kept => exact inductionHypothesis named fewer
          | none =>
              have same := inductionHypothesis stillNamed added
              simpa [keeps] using same
      | true =>
          rw [List.filter_cons_of_pos keeps, mergeInto]
          cases taken : record.lookup token.name with
          | some kept =>
              have inRecord := Record.mem_of_lookup taken
              have agree := parts.2.2 kept
                (List.mem_map.2 ⟨_, inRecord, rfl⟩) token
                (List.mem_cons_self ..) (named _ inRecord)
              have inKept : (token.name, kept) ∈
                  record.filter fun entry => keep entry.2 :=
                List.mem_filter.2 ⟨inRecord, agree.trans keeps⟩
              obtain ⟨found, again⟩ := Record.lookup_isSome_of_mem inKept
              rw [again]
              exact inductionHypothesis named fewer
          | none =>
              rw [Record.lookup_filter_eq_none _ taken]
              have same := inductionHypothesis stillNamed added
              simpa [keeps] using same

/-- Tokens that are left out are left out of the merged record, if all tokens
of their names are. -/
theorem mergeTokens_filter {keep : Token → Bool} {tokens : List Token}
    (alike : tokens.Pairwise (Token.KeptAlike keep)) :
    (mergeTokens (tokens.filter keep)).1 =
      (mergeTokens tokens).1.filter fun entry => keep entry.2 :=
  mergeInto_filter (List.forall_mem_nil _) alike

/-! ## Tokens that come first -/

/-- Tokens under new names that all differ are added as they are. -/
theorem mergeInto_of_nodup {record : Record Token} {tokens : List Token}
    (distinct : (record.names ++ tokens.map Token.name).Nodup) :
    (mergeInto record tokens).1 =
      record ++ tokens.map fun token => (token.name, token) := by
  induction tokens generalizing record with
  | nil => exact (List.append_nil record).symm
  | cons token rest inductionHypothesis =>
      have absent : token.name ∉ record.names := by
        intro listed
        exact (List.nodup_append.1 distinct).2.2 _ listed _
          (List.mem_cons_self ..) rfl
      have later : (Record.names (record ++ [(token.name, token)]) ++
          rest.map Token.name).Nodup := by
        rw [Record.names, List.map_append, List.append_assoc]
        exact distinct
      rw [mergeInto, Record.lookup_eq_none absent]
      dsimp only
      rw [inductionHypothesis later, List.append_assoc]
      rfl

theorem filter_mergeInto {keep : Token → Bool} {tokens : List Token}
    (record : Record Token) (drops : ∀ token ∈ tokens, keep token = false) :
    (mergeInto record tokens).1.filter (fun entry => keep entry.2) =
      record.filter fun entry => keep entry.2 := by
  induction tokens generalizing record with
  | nil => rfl
  | cons token rest inductionHypothesis =>
      obtain ⟨dropped, others⟩ := List.forall_mem_cons.1 drops
      rw [mergeInto]
      cases record.lookup token.name with
      | some kept => exact inductionHypothesis record others
      | none =>
          have unchanged := inductionHypothesis
            (record ++ [(token.name, token)]) others
          simpa [dropped] using unchanged

/-- Tokens that come before all others, under names that differ, are kept one
and all. -/
theorem filter_mergeTokens {keep : Token → Bool} {first others : List Token}
    (distinct : (first.map Token.name).Nodup)
    (keeps : ∀ token ∈ first, keep token = true)
    (drops : ∀ token ∈ others, keep token = false) :
    (mergeTokens (first ++ others)).1.filter (fun entry => keep entry.2) =
      first.map fun token => (token.name, token) := by
  have merged : (mergeInto [] first).1 =
      first.map fun token => (token.name, token) :=
    mergeInto_of_nodup distinct
  rw [mergeTokens, mergeInto_append, filter_mergeInto _ drops, merged,
    List.filter_eq_self]
  intro entry member
  obtain ⟨token, inside, rfl⟩ := List.mem_map.1 member
  exact keeps token inside

/-! ## Notices -/

/-- A notice tells of a token that is dropped for an earlier one of its
name. -/
def Notice.TellsOf (notice : Notice) (tokens : List Token) : Prop :=
  ∃ kept dropped, [kept, dropped].Sublist tokens ∧
    kept.name = dropped.name ∧
    notice = .collision dropped.name dropped.family kept.family

theorem Notice.TellsOf.mono {notice : Notice} {tokens more : List Token}
    (tells : notice.TellsOf tokens) (inside : tokens.Sublist more) :
    notice.TellsOf more := by
  obtain ⟨kept, dropped, among, same, text⟩ := tells
  exact ⟨kept, dropped, among.trans inside, same, text⟩

theorem tellsOf_of_mem_mergeTokens {tokens : List Token} {notice : Notice}
    (member : notice ∈ (mergeTokens tokens).2) : notice.TellsOf tokens := by
  induction tokens using List.reverseRecOn with
  | nil => cases member
  | append_singleton tokens token inductionHypothesis =>
      have inside := List.sublist_append_left tokens [token]
      cases found : tokens.find? fun other => other.name = token.name with
      | some kept =>
          rw [mergeTokens_concat_of_taken found] at member
          rcases List.mem_append.1 member with earlier | last
          · exact (inductionHypothesis earlier).mono inside
          · have keptFirst : [kept].Sublist tokens :=
              List.singleton_sublist.2 (List.mem_of_find?_eq_some found)
            exact ⟨kept, token, keptFirst.append (List.Sublist.refl _),
              by simpa using List.find?_some found,
              List.mem_singleton.1 last⟩
      | none =>
          rw [mergeTokens_concat_of_new found] at member
          exact (inductionHypothesis member).mono inside

/-! ## Tokens that are not lost -/

/-- Two tokens share a name only if both are colours. -/
def Token.Compatible (first second : Token) : Prop :=
  first.name = second.name →
    first.family = .color ∧ second.family = .color

instance : Std.Symm Token.Compatible where
  symm _ _ compatible same := (compatible same.symm).symm

section Compatible

variable {tokens : List Token}

/-- Among compatible tokens none is lost but for a colour. -/
theorem lookup_mergeTokens_of_compatible
    (compatible : tokens.Pairwise Token.Compatible) {token : Token}
    (member : token ∈ tokens) (plain : token.family ≠ .color) :
    (mergeTokens tokens).1.lookup token.name = some token := by
  rw [lookup_mergeTokens]
  cases found : tokens.find? fun other => other.name = token.name with
  | none =>
      have differs := List.find?_eq_none.1 found token member
      simp at differs
  | some first =>
      have same : first.name = token.name := by
        simpa using List.find?_some found
      have inTokens := List.mem_of_find?_eq_some found
      by_cases equal : first = token
      · rw [equal]
      · have colors : first.Compatible token :=
          compatible.forall inTokens member equal
        exact absurd (colors same).2 plain

theorem colors_of_collision
    (compatible : tokens.Pairwise Token.Compatible) {name : String}
    {dropped kept : Family}
    (member : .collision name dropped kept ∈ (mergeTokens tokens).2) :
    dropped = .color ∧ kept = .color := by
  obtain ⟨first, second, among, same, text⟩ :=
    tellsOf_of_mem_mergeTokens member
  have colors : first.Compatible second :=
    List.pairwise_iff_forall_sublist.1 compatible among
  cases text
  exact (colors same).symm

end Compatible

end DesignTokens
