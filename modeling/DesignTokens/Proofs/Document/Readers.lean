import DesignTokens.Proofs.Document.Keyed

/-!
# What the readers of documents make

Whatever the format, what is read of a document is made of scalars, lists and
mappings with each key once. JSON and TOML have no keys but texts. In YAML a
key may be any value that can name an entry.

For JSON and for values within a line the proofs go by the depth of the
brackets, for the lines of TOML by an invariant of the table they build up, and
for the blocks of YAML by the depth of the three functions that read them.
-/

namespace DesignTokens.Document

open Success

/-! ## JSON -/

namespace Json

theorem isScalar_of_word :
    ∀ word ∈ words, IsScalar word.2 := by
  simp [words, IsScalar]

theorem gives_unsigned (negative : Bool) :
    Gives (unsigned negative) IsScalar := by
  intro text found rest read
  rw [unsigned] at read
  dsimp only at read
  split at read
  · cases read
  · split at read
    · obtain ⟨whole, wholeRead, same⟩ := map_eq_ok.1 read
      cases same
      exact isScalar_of_wholeOfDigits wholeRead
    · cases read
      exact trivial

theorem gives_number : Gives number IsScalar := by
  intro text found rest read
  unfold number at read
  split at read
  · exact gives_unsigned true read
  · exact gives_unsigned false read

theorem gives_entry {value : Reader Value}
    (each : Gives value (Keyed IsText)) :
    Gives (entry value) (KeyedEntry IsText) := by
  intro text found rest read
  unfold entry at read
  split at read
  · obtain ⟨⟨key, afterKey⟩, keyRead, following⟩ := bind_eq_ok.1 read
    dsimp only at following
    split at following
    · obtain ⟨⟨held, remaining⟩, heldRead, done⟩ := bind_eq_ok.1 following
      cases done
      exact ⟨⟨key, rfl⟩, each heldRead⟩
    · cases following
  · cases read

theorem gives_value (depth : Nat) : Gives (value depth) (Keyed IsText) := by
  induction depth with
  | zero =>
      intro text found rest read
      cases read
  | succ depth inductionHypothesis =>
      intro text found rest read
      unfold value at read
      split at read
      · obtain ⟨⟨held, remaining⟩, -, same⟩ := map_eq_ok.1 read
        cases same
        exact .scalar trivial
      · obtain ⟨⟨held, remaining⟩, itemsRead, same⟩ := map_eq_ok.1 read
        cases same
        exact .list (Enclosure.gives_items inductionHypothesis itemsRead)
      · obtain ⟨⟨held, remaining⟩, entriesRead, same⟩ := map_eq_ok.1 read
        cases same
        exact .ofList (Enclosure.gives_items
          (gives_entry inductionHypothesis) entriesRead)
      · split at read
        next word =>
          cases read
          exact .scalar (isScalar_of_firstWord? isScalar_of_word word)
        next => exact .scalar (gives_number read)

theorem keyed_of_read {text : List Char} {held : Value}
    (done : read text = .ok held) : Keyed IsText held := by
  obtain ⟨⟨found, rest⟩, valueRead, following⟩ := bind_eq_ok.1 done
  dsimp only at following
  split at following
  · cases following
    exact gives_value _ valueRead
  · cases following

end Json

/-! ## TOML -/

namespace Toml

theorem needed_map_eq_ok {alpha beta : Type} {part : Option alpha}
    {f : alpha → beta} {result : beta}
    (done : (needed part).map f = .ok result) :
    ∃ held, part = some held ∧ f held = result := by
  cases part with
  | none => cases done
  | some held =>
      cases done
      exact ⟨held, rfl, rfl⟩

/-! ### Tables -/

/-- A table has no keys but texts, and each of them once. -/
def IsTable (table : Entries) : Prop :=
  Keyed IsText (.map table)

/-- A change makes tables of tables. -/
def Keeps (change : Entries → Option Entries) : Prop :=
  ∀ ⦃before after⦄, change before = some after →
    IsTable before → IsTable after

theorem IsTable.put {table : Entries} (isTable : IsTable table)
    (name : String) {value : Value} (keyed : Keyed IsText value) :
    IsTable (table.put (.str name) value) :=
  Keyed.put isTable ⟨⟨name, rfl⟩, keyed⟩

theorem keeps_some : Keeps some := by
  rintro before _ ⟨⟩ isTable
  exact isTable

theorem keeps_addEntry (name : String) {value : Value}
    (keyed : Keyed IsText value) : Keeps (addEntry name value) := by
  intro before after changed isTable
  rw [addEntry] at changed
  split at changed <;> cases changed
  exact isTable.put name keyed

theorem keeps_addTable (name : String) : Keeps (addTable name) := by
  intro before after changed isTable
  have single : ∀ item ∈ [Value.map []], Keyed IsText item :=
    List.forall_mem_singleton.2 .empty
  rw [addTable] at changed
  split at changed
  · cases changed
    exact isTable.put name (.list single)
  next items found =>
    cases changed
    exact isTable.put name (.list
      (List.forall_mem_append.2 ⟨(isTable.get? found).items, single⟩))
  · cases changed

/-- To change a table under a path makes tables of tables if the change
does. -/
theorem keeps_changeAt {intoLists : Bool}
    {change : Entries → Option Entries} (keeps : Keeps change)
    (path : Path) : Keeps (changeAt intoLists change path) := by
  induction path with
  | nil => exact keeps
  | cons name path inductionHypothesis =>
      intro before after changed isTable
      rw [changeAt] at changed
      split at changed
      · obtain ⟨inner, descended, rfl⟩ := Option.map_eq_some_iff.1 changed
        exact isTable.put name (inductionHypothesis descended .empty)
      next table found =>
        obtain ⟨inner, descended, rfl⟩ := Option.map_eq_some_iff.1 changed
        exact isTable.put name
          (inductionHypothesis descended (isTable.get? found))
      next items found =>
        split at changed
        next table last =>
          obtain ⟨inner, descended, rfl⟩ := Option.map_eq_some_iff.1 changed
          have inside := (isTable.get? found).items
          have lastTable : IsTable table :=
            inside _ (List.mem_of_getLast? last)
          -- The last table of the list is changed, those before it stay.
          refine isTable.put name (.list (List.forall_mem_append.2 ⟨?_, ?_⟩))
          · exact fun item member =>
              inside item (List.mem_of_mem_dropLast member)
          · exact List.forall_mem_singleton.2
              (inductionHypothesis descended lastTable)
        · cases changed
      · cases changed

/-! ### Values -/

theorem isScalar_of_word :
    ∀ word ∈ words, IsScalar word.2 := by
  simp [words, IsScalar]

theorem isScalar_of_decimal {word : List Char} {held : Value}
    (read : decimal word = .ok held) : IsScalar held := by
  obtain ⟨body, -, following⟩ := bind_eq_ok.1 read
  split at following
  · split at following
    · cases following
    · split at following
      · exact isScalar_of_wholeOfDigits following
      · cases following
        exact trivial
  · cases following

theorem isScalar_of_inBase {base : Nat} {digits : List Char} {held : Value}
    (read : inBase base digits = .ok held) : IsScalar held := by
  rw [inBase] at read
  obtain ⟨n, -, rfl⟩ := map_eq_ok.1 read
  exact trivial

theorem gives_number : Gives number IsScalar := by
  intro text found rest read
  obtain ⟨held, numberRead, same⟩ := map_eq_ok.1 read
  cases same
  unfold numberOf at numberRead
  split at numberRead
  · exact isScalar_of_inBase numberRead
  · exact isScalar_of_inBase numberRead
  · exact isScalar_of_inBase numberRead
  · exact isScalar_of_decimal numberRead

theorem gives_pair {value : Reader Value}
    (each : Gives value (Keyed IsText)) :
    Gives (pair value) fun found => Keyed IsText found.2 := by
  intro text found rest read
  obtain ⟨⟨path, afterKey⟩, -, following⟩ := bind_eq_ok.1 read
  dsimp only at following
  split at following
  · obtain ⟨⟨held, remaining⟩, heldRead, done⟩ := bind_eq_ok.1 following
    cases done
    exact each heldRead
  · cases following

theorem Draft.isTable_addInline {draft next : Draft} {path : Path}
    {value : Value} (keyed : Keyed IsText value)
    (added : draft.addInline path value = some next)
    (isTable : IsTable draft.table) : IsTable next.table := by
  rw [addInline] at added
  split at added
  · cases added
  · obtain ⟨table, changed, done⟩ := Option.bind_eq_some_iff.1 added
    cases done
    exact keeps_changeAt (keeps_addEntry _ keyed) _ changed isTable

theorem isTable_of_foldlM {pairs : List (Path × Value)} {draft last : Draft}
    (keyed : ∀ pair ∈ pairs, Keyed IsText pair.2)
    (added : pairs.foldlM (fun (draft : Draft) (path, value) =>
      draft.addInline path value) draft = some last)
    (isTable : IsTable draft.table) : IsTable last.table := by
  induction pairs generalizing draft with
  | nil =>
      cases added
      exact isTable
  | cons first rest inductionHypothesis =>
      obtain ⟨firstKeyed, restKeyed⟩ := List.forall_mem_cons.1 keyed
      rw [List.foldlM_cons] at added
      obtain ⟨next, firstAdded, following⟩ :=
        Option.bind_eq_some_iff.1 added
      exact inductionHypothesis restKeyed following
        (Draft.isTable_addInline firstKeyed firstAdded isTable)

theorem keyed_of_inlineTable {pairs : List (Path × Value)} {held : Value}
    (keyed : ∀ pair ∈ pairs, Keyed IsText pair.2)
    (made : inlineTable pairs = some held) : Keyed IsText held := by
  obtain ⟨last, added, rfl⟩ := Option.map_eq_some_iff.1 made
  exact isTable_of_foldlM keyed added Keyed.empty

theorem gives_value (depth : Nat) : Gives (value depth) (Keyed IsText) := by
  induction depth with
  | zero =>
      intro text found rest read
      cases read
  | succ depth inductionHypothesis =>
      intro text found rest read
      unfold value at read
      split at read
      · obtain ⟨⟨held, remaining⟩, itemsRead, same⟩ := map_eq_ok.1 read
        cases same
        exact .list (Enclosure.gives_items inductionHypothesis itemsRead)
      · obtain ⟨⟨pairs, remaining⟩, pairsRead, following⟩ :=
          bind_eq_ok.1 read
        obtain ⟨held, made, same⟩ := needed_map_eq_ok following
        cases same
        exact keyed_of_inlineTable (Enclosure.gives_items
          (gives_pair inductionHypothesis) pairsRead) made
      · split at read
        · obtain ⟨⟨held, remaining⟩, -, same⟩ := map_eq_ok.1 read
          cases same
          exact .scalar trivial
        · split at read
          next word =>
            cases read
            exact .scalar (isScalar_of_firstWord? isScalar_of_word word)
          next => exact .scalar (gives_number read)

/-! ### Lines -/

namespace State

theorem isTable_declareTable {state next : State} {path : Path}
    (declared : state.declareTable path = some next)
    (isTable : IsTable state.table) : IsTable next.table := by
  rw [declareTable] at declared
  split at declared
  · cases declared
  · obtain ⟨table, changed, rfl⟩ := Option.map_eq_some_iff.1 declared
    exact keeps_changeAt keeps_some path changed isTable

theorem isTable_declareItem {state next : State} {path : Path}
    (declared : state.declareItem path = some next)
    (isTable : IsTable state.table) : IsTable next.table := by
  rw [declareItem] at declared
  split at declared
  · cases declared
  · obtain ⟨table, changed, rfl⟩ := Option.map_eq_some_iff.1 declared
    exact keeps_changeAt (keeps_addTable _) _ changed isTable

theorem isTable_addPair {state next : State} {path : Path} {value : Value}
    (keyed : Keyed IsText value)
    (added : state.addPair path value = some next)
    (isTable : IsTable state.table) : IsTable next.table := by
  rw [addPair] at added
  dsimp only at added
  split at added
  · cases added
  · obtain ⟨table, changed, rfl⟩ := Option.map_eq_some_iff.1 added
    exact keeps_changeAt (keeps_addEntry _ keyed) _ changed isTable

end State

theorem isTable_line {state : State} (isTable : IsTable state.table) :
    Gives (line state) fun next => IsTable next.table := by
  intro text next rest read
  unfold line at read
  split at read
  · cases read
    exact isTable
  · cases read
    exact isTable
  · cases read
    exact isTable
  · obtain ⟨⟨path, remaining⟩, -, following⟩ := bind_eq_ok.1 read
    obtain ⟨held, declared, same⟩ := needed_map_eq_ok following
    cases same
    exact State.isTable_declareItem declared isTable
  · obtain ⟨⟨path, remaining⟩, -, following⟩ := bind_eq_ok.1 read
    obtain ⟨held, declared, same⟩ := needed_map_eq_ok following
    cases same
    exact State.isTable_declareTable declared isTable
  · obtain ⟨⟨⟨path, value⟩, remaining⟩, pairRead, following⟩ :=
      bind_eq_ok.1 read
    obtain ⟨held, added, same⟩ := needed_map_eq_ok following
    cases same
    have keyed : Keyed IsText value := gives_pair (gives_value _) pairRead
    exact State.isTable_addPair keyed added isTable

theorem isTable_lines {budget : Nat} {state last : State}
    {text : List Char} (read : lines budget state text = .ok last)
    (isTable : IsTable state.table) : IsTable last.table := by
  induction budget generalizing state text with
  | zero => cases read
  | succ budget inductionHypothesis =>
      rw [lines] at read
      obtain ⟨⟨next, rest⟩, lineRead, following⟩ := bind_eq_ok.1 read
      have nextTable : IsTable next.table := isTable_line isTable lineRead
      obtain ⟨remaining, -, done⟩ := bind_eq_ok.1 following
      split at done
      · cases done
        exact nextTable
      · exact inductionHypothesis done nextTable

theorem keyed_of_read {text : List Char} {held : Value}
    (done : read text = .ok held) : Keyed IsText held := by
  obtain ⟨last, linesRead, rfl⟩ := map_eq_ok.1 done
  exact isTable_lines linesRead Keyed.empty

end Toml

/-! ## YAML -/

namespace Yaml

/-- A key that can name an entry. -/
def IsKey (key : Value) : Prop :=
  key.isKey = true

/-! ### Values within a line -/

theorem isScalar_resolve (word : List Char) : IsScalar (resolve word) := by
  rw [resolve]
  repeat' split
  all_goals exact trivial

theorem gives_quotedText : Gives quotedText IsScalar := by
  intro text found rest read
  unfold quotedText at read
  split at read
  · obtain ⟨⟨written, remaining⟩, -, following⟩ := bind_eq_ok.1 read
    obtain ⟨held, -, done⟩ := bind_eq_ok.1 following
    cases done
    exact trivial
  · obtain ⟨⟨held, remaining⟩, -, same⟩ := map_eq_ok.1 read
    cases same
    exact trivial
  · cases read

theorem gives_word (bracketed : Bool) (least : Nat) :
    Gives (word bracketed least) IsScalar := by
  intro text found rest read
  rw [word] at read
  split at read
  · cases read
    exact isScalar_resolve _
  · cases read

section Brackets

variable {value : Reader Value} (each : Gives value (Keyed IsKey))

include each

theorem gives_valueAfterColon :
    Gives (valueAfterColon value) (Keyed IsKey) := by
  intro text found rest read
  rw [valueAfterColon] at read
  split at read
  · cases read
    exact .scalar trivial
  · exact each read

theorem gives_entry : Gives (entry value) (KeyedEntry IsKey) := by
  intro text found rest read
  obtain ⟨⟨key, afterKey⟩, -, following⟩ := bind_eq_ok.1 read
  dsimp only at following
  split at following
  · cases following
  next isKey =>
    have allowed : IsKey key := by simpa [IsKey] using isKey
    split at following
    · obtain ⟨⟨held, remaining⟩, heldRead, done⟩ := bind_eq_ok.1 following
      cases done
      exact ⟨allowed, gives_valueAfterColon each heldRead⟩
    · cases following
      exact ⟨allowed, .scalar trivial⟩

theorem gives_item : Gives (item value) (Keyed IsKey) := by
  intro text found rest read
  obtain ⟨⟨first, afterFirst⟩, firstRead, following⟩ := bind_eq_ok.1 read
  dsimp only at following
  split at following
  · split at following
    · cases following
    next isKey =>
      obtain ⟨⟨held, remaining⟩, heldRead, done⟩ := bind_eq_ok.1 following
      cases done
      have allowed : IsKey first := by simpa [IsKey] using isKey
      have single : ∀ pair ∈ [(first, held)], KeyedEntry IsKey pair :=
        List.forall_mem_singleton.2
          ⟨allowed, gives_valueAfterColon each heldRead⟩
      exact Keyed.ofList single
  · cases following
    exact each firstRead

end Brackets

theorem gives_inlineValue (bracketed : Bool) (least depth : Nat) :
    Gives (inlineValue bracketed least depth) (Keyed IsKey) := by
  induction depth generalizing bracketed least with
  | zero =>
      intro text found rest read
      cases read
  | succ depth inductionHypothesis =>
      have inner := inductionHypothesis true 0
      intro text found rest read
      unfold inlineValue at read
      dsimp only at read
      split at read
      · obtain ⟨⟨held, remaining⟩, itemsRead, same⟩ := map_eq_ok.1 read
        cases same
        exact .list (Enclosure.gives_items (gives_item inner) itemsRead)
      · obtain ⟨⟨held, remaining⟩, entriesRead, same⟩ := map_eq_ok.1 read
        cases same
        exact .ofList (Enclosure.gives_items (gives_entry inner) entriesRead)
      · exact .scalar (gives_quotedText read)
      · exact .scalar (gives_quotedText read)
      · exact .scalar (gives_word _ _ read)

/-! ### Blocks -/

theorem gives_key : Gives key IsKey := by
  intro text found rest read
  obtain ⟨⟨name, afterName⟩, nameRead, following⟩ := bind_eq_ok.1 read
  have scalar : IsScalar name := by
    unfold keyText at nameRead
    split at nameRead
    · exact gives_quotedText nameRead
    · exact gives_quotedText nameRead
    · split at nameRead
      · cases nameRead
        exact isScalar_resolve _
      · cases nameRead
  dsimp only at following
  split at following
  · split at following
    · cases following
      exact isKey_of_isScalar scalar
    · cases following
  · cases following

/-- What the readers of blocks make where `depth` bounds how deep they go. -/
structure KeyedWithin (depth : Nat) : Prop where
  node : ∀ ⦃least place held next⦄,
    node least depth place = .ok (held, next) → Keyed IsKey held
  items : ∀ ⦃column place items next⦄,
    listItems column depth place = .ok (items, next) →
      ∀ item ∈ items, Keyed IsKey item
  entries : ∀ ⦃column place entries next⦄,
    mapEntries column depth place = .ok (entries, next) →
      ∀ entry ∈ entries, KeyedEntry IsKey entry

section Deeper

variable {depth column : Nat} {place next : Place}
  (within : KeyedWithin depth)

include within

theorem keyed_of_node {held : Value}
    (read : node column (depth + 1) place = .ok (held, next)) :
    Keyed IsKey held := by
  rw [node] at read
  split at read
  · cases read
    exact .scalar trivial
  · split at read
    · obtain ⟨⟨items, last⟩, itemsRead, same⟩ := map_eq_ok.1 read
      cases same
      exact .list (within.items itemsRead)
    · split at read
      · obtain ⟨⟨entries, last⟩, entriesRead, same⟩ := map_eq_ok.1 read
        cases same
        exact .ofList (within.entries entriesRead)
      · obtain ⟨⟨value, rest⟩, valueRead, following⟩ := bind_eq_ok.1 read
        obtain ⟨after, -, same⟩ := map_eq_ok.1 following
        cases same
        exact gives_inlineValue _ _ _ valueRead

theorem keyed_of_listItems {items : List Value}
    (read : listItems column (depth + 1) place = .ok (items, next)) :
    ∀ item ∈ items, Keyed IsKey item := by
  rw [listItems] at read
  split at read
  · cases read
    exact nofun
  · split at read
    · cases read
    · split at read
      · cases read
        exact nofun
      · obtain ⟨⟨first, afterFirst⟩, firstRead, following⟩ :=
          bind_eq_ok.1 read
        obtain ⟨⟨others, last⟩, othersRead, done⟩ :=
          bind_eq_ok.1 following
        cases done
        exact List.forall_mem_cons.2
          ⟨within.node firstRead, within.items othersRead⟩

theorem keyed_of_mapEntries {entries : List (Value × Value)}
    (read : mapEntries column (depth + 1) place = .ok (entries, next)) :
    ∀ entry ∈ entries, KeyedEntry IsKey entry := by
  rw [mapEntries] at read
  split at read
  · cases read
    exact nofun
  · split at read
    · cases read
    · obtain ⟨⟨name, rest⟩, nameRead, following⟩ := bind_eq_ok.1 read
      obtain ⟨⟨held, afterHeld⟩, heldRead, further⟩ := bind_eq_ok.1 following
      obtain ⟨⟨others, last⟩, othersRead, done⟩ := bind_eq_ok.1 further
      cases done
      exact List.forall_mem_cons.2
        ⟨⟨gives_key nameRead, within.node heldRead⟩,
          within.entries othersRead⟩

end Deeper

/-- What the readers of blocks make is keyed however deep they go. -/
theorem keyedWithin (depth : Nat) : KeyedWithin depth := by
  induction depth with
  | zero => exact ⟨nofun, nofun, nofun⟩
  | succ depth inductionHypothesis =>
      exact ⟨fun _ _ _ _ read => keyed_of_node inductionHypothesis read,
        fun _ _ _ _ read => keyed_of_listItems inductionHypothesis read,
        fun _ _ _ _ read => keyed_of_mapEntries inductionHypothesis read⟩

theorem keyed_of_read {text : List Char} {held : Value}
    (done : read text = .ok held) : Keyed IsKey held := by
  rw [read] at done
  split at done
  · cases done
  · extract_lets body start at done
    split at done
    · cases done
      exact .scalar trivial
    · obtain ⟨⟨found, rest⟩, nodeRead, following⟩ := bind_eq_ok.1 done
      dsimp only at following
      split at following
      · rw [withinDigits] at following
        split at following <;> cases following
        exact (keyedWithin _).node nodeRead
      · cases following

end Yaml

/-! ## All formats -/

/-- The keys that the mappings of a format may have. -/
def Format.Allows : Format → Value → Prop
  | .yaml => Yaml.IsKey
  | .json => IsText
  | .toml => IsText

/-- What comes of a document has each key once in all of its mappings, and no
keys that its format does not allow. -/
theorem keyed_of_read {format : Format} {text : List Char} {value : Value}
    (done : format.read text = .ok value) : Keyed format.Allows value := by
  cases format with
  | yaml => exact Yaml.keyed_of_read done
  | json => exact Json.keyed_of_read done
  | toml => exact Toml.keyed_of_read done

/-- Only in YAML may a key be no text. -/
theorem namesAll_of_read {format : Format} {text : List Char}
    {entries : Entries} (done : format.read text = .ok (.map entries))
    (other : format ≠ .yaml) : NamesAll entries := by
  have keyed := keyed_of_read done
  cases format with
  | yaml => exact (other rfl).elim
  | json => exact keyed.namesAll
  | toml => exact keyed.namesAll

end DesignTokens.Document
