import DesignTokens.Document.File
import DesignTokens.Proofs.Success
import DesignTokens.Proofs.Value.Keys

/-!
# What documents hold

What comes of a document is made of scalars, lists and mappings, and each of
its mappings has each key once. Which values may be keys depends on the
notation. What a reader makes of its parts is such a value if they are.
-/

namespace DesignTokens.Document

open Success

/-- A value that holds no others. -/
def IsScalar : Value → Prop
  | .list _ => False
  | .tuple _ => False
  | .map _ => False
  | _ => True

/-- A value that is made of scalars, lists and mappings. Each mapping has each
of its keys once, and all of them are allowed. -/
inductive Keyed (allowed : Value → Prop) : Value → Prop
  | scalar {value : Value} : IsScalar value → Keyed allowed value
  | list {items : List Value} :
      (∀ item ∈ items, Keyed allowed item) → Keyed allowed (.list items)
  | map {entries : Entries} :
      Entries.keysDistinct entries = true →
      (∀ entry ∈ entries, allowed entry.1) →
      (∀ entry ∈ entries, Keyed allowed entry.2) →
      Keyed allowed (.map entries)

/-- An entry that a mapping of such a value may have. -/
def KeyedEntry (allowed : Value → Prop) (entry : Value × Value) : Prop :=
  allowed entry.1 ∧ Keyed allowed entry.2

/-- A key that is a text. -/
def IsText (key : Value) : Prop :=
  ∃ name, key = .str name

/-- All keys of a mapping are texts. -/
def NamesAll (entries : Entries) : Prop :=
  ∀ entry ∈ entries, ∃ name, entry.1 = .str name

theorem isKey_of_isScalar {value : Value} (scalar : IsScalar value) :
    value.isKey = true := by
  cases value with
  | list items => exact scalar.elim
  | tuple items => exact scalar.elim
  | map entries => exact scalar.elim
  | _ => rfl

namespace Keyed

variable {allowed : Value → Prop} {value : Value} {entries : Entries}

theorem items {items : List Value} (keyed : Keyed allowed (.list items)) :
    ∀ item ∈ items, Keyed allowed item := by
  cases keyed with
  | scalar impossible => exact impossible.elim
  | list inside => exact inside

theorem map_iff :
    Keyed allowed (.map entries) ↔
      Entries.keysDistinct entries = true ∧
        ∀ entry ∈ entries, KeyedEntry allowed entry := by
  constructor
  · intro keyed
    cases keyed with
    | scalar impossible => exact impossible.elim
    | map distinct keys inside =>
        exact ⟨distinct, fun entry member =>
          ⟨keys entry member, inside entry member⟩⟩
  · rintro ⟨distinct, inside⟩
    exact .map distinct (fun entry member => (inside entry member).1)
      fun entry member => (inside entry member).2

theorem keysDistinct (keyed : Keyed allowed value) :
    value.keysDistinct = true := by
  induction keyed with
  | @scalar value scalar =>
      cases value with
      | list items => exact scalar.elim
      | tuple items => exact scalar.elim
      | map entries => exact scalar.elim
      | _ => rfl
  | list _ inductionHypothesis =>
      exact Value.itemKeysDistinct_iff.2 inductionHypothesis
  | map distinct _ _ inductionHypothesis =>
      exact Value.keysDistinct_map_iff.2 ⟨distinct, inductionHypothesis⟩

theorem namesAll (keyed : Keyed IsText (.map entries)) : NamesAll entries :=
  fun entry member => ((map_iff.1 keyed).2 entry member).1

/-! ### Mappings entry by entry -/

theorem empty : Keyed allowed (.map []) :=
  map_iff.2 ⟨rfl, nofun⟩

theorem get? {name : String} (keyed : Keyed allowed (.map entries))
    (found : entries.get? name = some value) : Keyed allowed value :=
  ((map_iff.1 keyed).2 _ (Entries.mem_of_get? found)).2

theorem put {key : Value} (keyed : Keyed allowed (.map entries))
    (entry : KeyedEntry allowed (key, value)) :
    Keyed allowed (.map (entries.put key value)) := by
  obtain ⟨distinct, inside⟩ := map_iff.1 keyed
  exact .map (Entries.keysDistinct_put distinct)
    (Entries.forall_key_put allowed entry.1 fun held member =>
      (inside held member).1)
    (Entries.forall_value_put (Keyed allowed) entry.2 fun held member =>
      (inside held member).2)

theorem ofList {pairs : List (Value × Value)}
    (each : ∀ pair ∈ pairs, KeyedEntry allowed pair) :
    Keyed allowed (.map (Entries.ofList pairs)) :=
  List.foldlRecOn (motive := fun entries => Keyed allowed (.map entries))
    pairs _ empty fun _ keyed pair member => keyed.put (each pair member)

end Keyed

/-! ## Readers -/

/-- All that a reader makes of texts has a property. -/
def Gives {alpha : Type} (reader : Reader alpha) (holds : alpha → Prop) :
    Prop :=
  ∀ ⦃text found rest⦄, reader text = .ok (found, rest) → holds found

theorem isScalar_of_wholeOfDigits {negative : Bool} {digits : List Char}
    {value : Value} (read : wholeOfDigits negative digits = .ok value) :
    IsScalar value := by
  rw [wholeOfDigits] at read
  split at read <;> cases read
  exact trivial

theorem isScalar_of_firstWord? {words : List (String × Value)}
    (scalars : ∀ word ∈ words, IsScalar word.2) {text rest : List Char}
    {value : Value} (word : firstWord? words text = some (value, rest)) :
    IsScalar value := by
  obtain ⟨⟨spelling, meaning⟩, listed, found⟩ :=
    List.exists_of_findSome?_eq_some word
  obtain ⟨remaining, -, same⟩ := Option.map_eq_some_iff.1 found
  cases same
  exact scalars _ listed

namespace Enclosure

variable {alpha : Type} {item : Reader alpha} {holds : alpha → Prop}
  {enclosure : Enclosure}

/-- What every item that can be read has, every item of a collection has. -/
theorem gives_someItems (each : Gives item holds) (budget : Nat) :
    Gives (enclosure.someItems item budget)
      fun found => ∀ part ∈ found, holds part := by
  induction budget with
  | zero =>
      intro text found rest read
      cases read
  | succ budget inductionHypothesis =>
      intro text found rest read
      rw [someItems] at read
      obtain ⟨⟨first, afterFirst⟩, firstRead, following⟩ := bind_eq_ok.1 read
      have alone : ∀ part ∈ [first], holds part :=
        List.forall_mem_singleton.2 (each firstRead)
      dsimp only at following
      split at following
      · cases following
        exact alone
      · split at following
        · split at following
          · split at following
            · cases following
              exact alone
            · cases following
          · obtain ⟨⟨others, remaining⟩, othersRead, done⟩ :=
              bind_eq_ok.1 following
            cases done
            exact List.forall_mem_cons.2
              ⟨each firstRead, inductionHypothesis othersRead⟩
        · cases following

theorem gives_items (each : Gives item holds) :
    Gives (enclosure.items item) fun found => ∀ part ∈ found, holds part := by
  intro text found rest read
  rw [items] at read
  split at read
  · cases read
    exact nofun
  · exact gives_someItems each _ read

end Enclosure

end DesignTokens.Document
