import DesignTokens.Proofs.Document.Readers
import DesignTokens.Proofs.Document.Shorthand

/-!
# What loading a file comes to

Every way through the loading of a file, with its condition, whatever reads the
formats. A file gives a mapping or a fault that has a message, unless its
content is no text, a number in it is too long to be read, or one of its
outermost keys is no text. In the mapping and in all mappings inside it each
key stands once.
-/

namespace DesignTokens.Document

/-! ## Contents -/

/-- Octets are the text in UTF-8. -/
def Encodes (octets : List UInt8) (text : String) : Prop :=
  text.toUTF8.data.toList = octets

theorem decode?_eq_some_iff {octets : List UInt8} {text : String} :
    Text.decode? octets = some text ↔ Encodes octets text := by
  rw [Text.decode?, String.fromUTF8?]
  constructor
  · intro decoded
    split at decoded
    · cases decoded
      rfl
    · cases decoded
  · rintro rfl
    exact dif_pos text.isValidUTF8

theorem eq_of_encodes {octets : List UInt8} {text other : String}
    (encodes : Encodes octets text) (otherEncodes : Encodes octets other) :
    text = other := by
  have decoded := decode?_eq_some_iff.2 encodes
  rw [decode?_eq_some_iff.2 otherEncodes] at decoded
  exact (Option.some.inj decoded).symm

/-- What a file of a known format comes to once its content is read. -/
structure Reads (readers : Readers) (file : FileName) (octets : List UInt8)
    (format : Format) (outcome : Except Flaw Value) : Prop where
  known : Format.ofSuffix? file.suffix = some format
  read : ∃ text, Encodes octets text ∧
    readers format (unifyBreaks text.toList) = outcome

/-! ## Ways through a file -/

/-- The ways through the loading of a file, of which the content is given if
there is such a file. -/
inductive Loading (readers : Readers) (file : FileName) :
    Option (List UInt8) → Except LoadFault Entries → Prop
  | unknownSuffix {content : Option (List UInt8)} :
      Format.ofSuffix? file.suffix = none →
      Loading readers file content (.error (.unknownSuffix file.suffix))
  | notFound {format : Format} :
      Format.ofSuffix? file.suffix = some format →
      Loading readers file none (.error (.notFound file.toText))
  | notText {format : Format} {octets : List UInt8} :
      Format.ofSuffix? file.suffix = some format →
      (∀ text, ¬ Encodes octets text) →
      Loading readers file (some octets) (.error .notText)
  | flawed {format : Format} {octets : List UInt8} {flaw : Flaw} :
      Reads readers file octets format (.error flaw) →
      Loading readers file (some octets)
        (.error (.ofFlaw file.toText flaw))
  | notMapping {format : Format} {octets : List UInt8} {value : Value} :
      Reads readers file octets format (.ok value) →
      (∀ entries, value ≠ .map entries) →
      Loading readers file (some octets)
        (.error (.notMapping file.toText))
  | keyNotText {format : Format} {octets : List UInt8} {entries : Entries} :
      Reads readers file octets format (.ok (.map entries)) →
      ¬ NamesAll entries →
      Loading readers file (some octets) (.error .keyNotText)
  | loaded {format : Format} {octets : List UInt8} {entries : Entries} :
      Reads readers file octets format (.ok (.map entries)) →
      NamesAll entries →
      Loading readers file (some octets) (.ok (writeOutColors entries))

theorem namesAll_iff {entries : Entries} :
    (entries.all fun entry => entry.1.text?.isSome) = true ↔
      NamesAll entries := by
  rw [List.all_eq_true]
  apply forall₂_congr
  intro entry _
  cases entry.1 <;> simp [Value.text?]

theorem mappingOf_of_not_map {name : String} {value : Value}
    (other : ∀ entries, value ≠ .map entries) :
    mappingOf name value = .error (.notMapping name) := by
  cases value with
  | map entries => exact (other entries rfl).elim
  | _ => rfl

theorem mappingOf_of_namesAll {name : String} {entries : Entries}
    (named : NamesAll entries) :
    mappingOf name (.map entries) = .ok entries := by
  rw [mappingOf, Value.entries?]
  exact if_pos (namesAll_iff.2 named)

theorem mappingOf_of_not_namesAll {name : String} {entries : Entries}
    (unnamed : ¬ NamesAll entries) :
    mappingOf name (.map entries) = .error .keyNotText := by
  rw [mappingOf, Value.entries?]
  exact if_neg (mt namesAll_iff.1 unnamed)

section Ways

variable {readers : Readers} {given : String}
  {content : Option (List UInt8)}

/-- What follows once the content of a file is read. -/
theorem loadBy_of_reads {octets : List UInt8} {format : Format}
    {outcome : Except Flaw Value}
    (reads : Reads readers (FileName.ofText given) octets format outcome) :
    loadBy readers given (some octets) =
      outcome.mapError (.ofFlaw (FileName.ofText given).toText) >>=
        fun value =>
          mappingOf (FileName.ofText given).toText value >>= fun entries =>
            .ok (writeOutColors entries) := by
  obtain ⟨known, text, encodes, rfl⟩ := reads
  unfold loadBy
  generalize FileName.ofText given = file at known ⊢
  dsimp only
  rw [known]
  dsimp only
  rw [decode?, decode?_eq_some_iff.2 encodes]
  rfl

/-- A file that may be loaded in some way is loaded in that way. -/
theorem loadBy_of_loading {outcome : Except LoadFault Entries}
    (way : Loading readers (FileName.ofText given) content outcome) :
    loadBy readers given content = outcome := by
  cases way with
  | unknownSuffix unknown =>
      unfold loadBy
      dsimp only
      rw [unknown]
  | notFound known =>
      unfold loadBy
      dsimp only
      rw [known]
  | notText known noText =>
      have undecoded := Option.eq_none_iff_forall_ne_some.2
        fun text decoded => noText text (decode?_eq_some_iff.1 decoded)
      unfold loadBy
      dsimp only
      rw [known]
      dsimp only
      rw [decode?, undecoded]
      rfl
  | flawed reads =>
      rw [loadBy_of_reads reads]
      rfl
  | notMapping reads other =>
      rw [loadBy_of_reads reads, Except.mapError, Success.ok_bind,
        mappingOf_of_not_map other]
      rfl
  | keyNotText reads unnamed =>
      rw [loadBy_of_reads reads, Except.mapError, Success.ok_bind,
        mappingOf_of_not_namesAll unnamed]
      rfl
  | loaded reads named =>
      rw [loadBy_of_reads reads, Except.mapError, Success.ok_bind,
        mappingOf_of_namesAll named]
      rfl

variable (readers given content) in
/-- There is a way to load every file. -/
theorem exists_loading :
    ∃ outcome,
      Loading readers (FileName.ofText given) content outcome := by
  cases known : Format.ofSuffix? (FileName.ofText given).suffix with
  | none => exact ⟨_, .unknownSuffix known⟩
  | some format =>
      cases content with
      | none => exact ⟨_, .notFound known⟩
      | some octets =>
          by_cases encoded : ∃ text, Encodes octets text
          · obtain ⟨text, encodes⟩ := encoded
            cases read : readers format (unifyBreaks text.toList) with
            | error flaw =>
                exact ⟨_, .flawed ⟨known, text, encodes, read⟩⟩
            | ok value =>
                have reads : Reads readers (FileName.ofText given) octets
                    format (.ok value) := ⟨known, text, encodes, read⟩
                by_cases mapping : ∃ entries, value = .map entries
                · obtain ⟨entries, rfl⟩ := mapping
                  by_cases named : NamesAll entries
                  · exact ⟨_, .loaded reads named⟩
                  · exact ⟨_, .keyNotText reads named⟩
                · exact ⟨_, .notMapping reads (not_exists.1 mapping)⟩
          · exact ⟨_, .notText known (not_exists.1 encoded)⟩

theorem loadBy_eq_iff {outcome : Except LoadFault Entries} :
    loadBy readers given content = outcome ↔
      Loading readers (FileName.ofText given) content outcome := by
  refine ⟨?_, loadBy_of_loading⟩
  rintro rfl
  obtain ⟨found, way⟩ := exists_loading readers given content
  rw [loadBy_of_loading way]
  exact way

end Ways

/-! ## What loading comes to -/

/-- A mapping is given, or a fault that has a message. -/
def Settled (outcome : Except LoadFault Entries) : Prop :=
  (∃ document, outcome = .ok document) ∨
    ∃ fault message, outcome = .error fault ∧ fault.message? = some message

theorem settled_ok (document : Entries) : Settled (.ok document) :=
  .inl ⟨document, rfl⟩

theorem settled_error_iff {fault : LoadFault} :
    Settled (.error fault) ↔ fault.message? ≠ none := by
  rw [Option.ne_none_iff_exists']
  constructor
  · rintro (⟨document, ⟨⟩⟩ | ⟨_, message, ⟨⟩, said⟩)
    exact ⟨message, said⟩
  · rintro ⟨message, said⟩
    exact .inr ⟨fault, message, rfl, said⟩

/-- Octets are a text in which no number is too long to be read and no
outermost key is anything but a text. -/
def Legible (readers : Readers) (format : Format) (octets : List UInt8) :
    Prop :=
  ∃ text, Encodes octets text ∧
    readers format (unifyBreaks text.toList) ≠ .error .tooManyDigits ∧
    ∀ entries, readers format (unifyBreaks text.toList) =
      .ok (.map entries) → NamesAll entries

section Outcomes

variable {readers : Readers} {file : FileName} {given : String}
  {content : Option (List UInt8)}

/-- Whether the content of a file is legible shows in what was read of it. -/
theorem legible_iff_of_reads {octets : List UInt8} {format : Format}
    {outcome : Except Flaw Value}
    (reads : Reads readers file octets format outcome) :
    (∀ other content, Format.ofSuffix? file.suffix = some other →
      some octets = some content → Legible readers other content) ↔
        outcome ≠ .error .tooManyDigits ∧
          ∀ entries, outcome = .ok (.map entries) → NamesAll entries := by
  obtain ⟨known, text, encodes, rfl⟩ := reads
  constructor
  · intro legible
    obtain ⟨found, foundEncodes, short, named⟩ :=
      legible format octets known rfl
    obtain rfl := eq_of_encodes encodes foundEncodes
    exact ⟨short, named⟩
  · rintro ⟨short, named⟩ other content otherKnown ⟨⟩
    obtain rfl := Option.some.inj (known.symm.trans otherKnown)
    exact ⟨text, encodes, short, named⟩

theorem settled_loadBy_iff :
    Settled (loadBy readers given content) ↔ ∀ format octets,
      Format.ofSuffix? (FileName.ofText given).suffix = some format →
        content = some octets → Legible readers format octets := by
  have way := loadBy_eq_iff.1 (Eq.refl (loadBy readers given content))
  generalize loadBy readers given content = outcome at way ⊢
  cases way with
  | unknownSuffix unknown =>
      refine iff_of_true (settled_error_iff.2 nofun) ?_
      intro format octets known
      rw [unknown] at known
      cases known
  | notFound known =>
      refine iff_of_true (settled_error_iff.2 nofun) ?_
      rintro format octets - ⟨⟩
  | @notText format octets known noText =>
      refine iff_of_false (fun settled => settled_error_iff.1 settled rfl) ?_
      intro legible
      obtain ⟨text, encodes, -⟩ := legible format octets known rfl
      exact noText text encodes
  | @flawed format octets flaw reads =>
      rw [settled_error_iff, legible_iff_of_reads reads]
      cases flaw with
      | malformed => exact iff_of_true nofun ⟨nofun, nofun⟩
      | tooManyDigits =>
          exact iff_of_false (fun said => said rfl) fun legible =>
            legible.1 rfl
  | notMapping reads other =>
      rw [settled_error_iff, legible_iff_of_reads reads]
      refine iff_of_true nofun ⟨nofun, ?_⟩
      rintro entries ⟨⟩
      exact (other entries rfl).elim
  | @keyNotText format octets entries reads unnamed =>
      rw [settled_error_iff, legible_iff_of_reads reads]
      exact iff_of_false (fun said => said rfl) fun legible =>
        unnamed (legible.2 entries rfl)
  | loaded reads named =>
      rw [legible_iff_of_reads reads]
      refine iff_of_true (settled_ok _) ⟨nofun, ?_⟩
      rintro _ ⟨⟩
      exact named

end Outcomes

/-- Whatever reads the formats, every file is loaded in one of the ways above
and in no other, and a mapping or a fault with a message comes of it exactly
if the content of a known format, where there is one, is legible. With the
readers of this library no key of a document is anything but a text unless the
document is in YAML. -/
theorem load_settled (given : String) (content : Option (List UInt8)) :
    (∀ readers outcome, loadBy readers given content = outcome ↔
      Loading readers (FileName.ofText given) content outcome) ∧
    (∀ readers, Settled (loadBy readers given content) ↔
      ∀ format octets,
        Format.ofSuffix? (FileName.ofText given).suffix = some format →
          content = some octets → Legible readers format octets) ∧
    ∀ format text entries, format ≠ .yaml →
      Format.read format text = .ok (.map entries) → NamesAll entries :=
  ⟨fun _ _ => loadBy_eq_iff, fun _ => settled_loadBy_iff,
    fun _ _ _ other done => namesAll_of_read done other⟩

/-- The fault that loading ends with, if it does. -/
def faultOf : Except LoadFault Entries → Option LoadFault
  | .ok _ => none
  | .error fault => some fault

theorem faultOf_eq_some_iff {outcome : Except LoadFault Entries}
    {fault : LoadFault} :
    faultOf outcome = some fault ↔ outcome = .error fault := by
  cases outcome <;> simp [faultOf]

/-- An octet that begins no character, and a mapping in YAML of which the only
key is a number: nothing but a fault without a message comes of either. -/
theorem load_unsettled :
    load "theme.json" (some [255]) = .error .notText ∧
      load "theme.yaml" (some [49, 58, 32, 120, 10]) =
        .error .keyNotText ∧
      ¬ ∀ given content, Settled (load given content) := by
  have octet : load "theme.json" (some [255]) = .error .notText := rfl
  have number :
      load "theme.yaml" (some [49, 58, 32, 120, 10]) =
        .error .keyNotText :=
    faultOf_eq_some_iff.1 (by decide +kernel)
  refine ⟨octet, number, fun settled => ?_⟩
  have unsettled := settled "theme.json" (some [255])
  rw [octet, settled_error_iff] at unsettled
  exact unsettled rfl

/-! ## Keys of what is loaded -/

/-- A loaded design system has each key once if what is read of documents
has. -/
theorem keysDistinct_of_loadBy {readers : Readers} {given : String}
    {content : Option (List UInt8)} {system : Entries}
    (each : ∀ format text value, readers format text = .ok value →
      value.keysDistinct = true)
    (loaded : loadBy readers given content = .ok system) :
    (Value.map system).keysDistinct = true := by
  cases loadBy_eq_iff.1 loaded with
  | loaded reads named =>
      obtain ⟨-, text, -, read⟩ := reads
      exact keysDistinct_writeOutColors (each _ _ _ read)

/-- A design system that is loaded from a file has each key once in all of its
mappings. -/
theorem keysDistinct_of_load {given : String}
    {content : Option (List UInt8)} {system : Entries}
    (loaded : load given content = .ok system) :
    (Value.map system).keysDistinct = true :=
  keysDistinct_of_loadBy
    (fun _ _ _ done => (keyed_of_read done).keysDistinct) loaded

end DesignTokens.Document
