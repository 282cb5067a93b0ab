import DesignTokens.Document.Shorthand
import DesignTokens.Generation
import DesignTokens.Proofs.Value.Keys

/-!
# Writing out short colours

Short colours are written out at the places of colours and nowhere else. All
other values, keys and orders stay, and a document with some of its colours
written out beforehand comes to the same.
-/

namespace DesignTokens.Document

open Grammar (Lists)

/-! ## Places of colours -/

/-- Whether a value stands under this key. -/
def isUnder (name : String) : Label → Bool
  | .key key => key.isText name
  | _ => false

def isEntry : Label → Bool
  | .key _ => true
  | _ => false

def isListItem : Label → Bool
  | .item => true
  | _ => false

/-- The way to the colours of a document: to the tokens of its colour modes,
which are items of a list. -/
def colorTrail : Trail :=
  [isUnder "colors", isUnder "modes", isListItem, isUnder "tokens", isEntry]

/-- A list or tuple of three items is written out as a mapping of the
channels, any other value stays. -/
inductive WrittenOut : Value → Value → Prop
  | short {value lightness chroma hue : Value} :
      Lists value [lightness, chroma, hue] →
      WrittenOut value (.map [(.str "l", lightness), (.str "c", chroma),
        (.str "h", hue)])
  | other {value : Value} :
      (∀ lightness chroma hue, ¬ Lists value [lightness, chroma, hue]) →
      WrittenOut value value

/-- A document from another one of which some of the short colours are written
out. -/
def PartlyWritten (document other : Entries) : Prop :=
  Trail.Differ (fun given spelled => spelled = given ∨
    WrittenOut given spelled) colorTrail (.map document) (.map other)

/-! ## One colour -/

theorem writtenOut_of_lists {value lightness chroma hue : Value}
    (lists : Lists value [lightness, chroma, hue]) :
    writtenOut value = .map [(.str "l", lightness), (.str "c", chroma),
      (.str "h", hue)] := by
  rcases lists with rfl | rfl <;> rfl

theorem writtenOut_of_not_lists {value : Value}
    (long : ∀ lightness chroma hue,
      ¬ Lists value [lightness, chroma, hue]) :
    writtenOut value = value := by
  rw [writtenOut.eq_def]
  split
  · exact absurd (.inl rfl) (long _ _ _)
  · exact absurd (.inr rfl) (long _ _ _)
  · rfl

theorem eq_writtenOut_iff {value changed : Value} :
    changed = writtenOut value ↔ WrittenOut value changed := by
  constructor
  · rintro rfl
    by_cases short : ∃ lightness chroma hue,
        Lists value [lightness, chroma, hue]
    · obtain ⟨lightness, chroma, hue, lists⟩ := short
      rw [writtenOut_of_lists lists]
      exact .short lists
    · have long : ∀ lightness chroma hue,
          ¬ Lists value [lightness, chroma, hue] :=
        fun lightness chroma hue lists =>
          short ⟨lightness, chroma, hue, lists⟩
      rw [writtenOut_of_not_lists long]
      exact .other long
  · rintro (lists | long)
    · exact (writtenOut_of_lists lists).symm
    · exact (writtenOut_of_not_lists long).symm

theorem writtenOut_writtenOut (value : Value) :
    writtenOut (writtenOut value) = writtenOut value := by
  have out := eq_writtenOut_iff.1 (Eq.refl (writtenOut value))
  generalize writtenOut value = changed at out ⊢
  cases out with
  | short lists => rfl
  | other long => exact writtenOut_of_not_lists long

/-- The channels of a colour have names of their own. -/
theorem keysDistinct_writtenOut {value : Value}
    (distinct : value.keysDistinct = true) :
    (writtenOut value).keysDistinct = true := by
  have out := eq_writtenOut_iff.1 (Eq.refl (writtenOut value))
  generalize writtenOut value = changed at out ⊢
  cases out with
  | @short lightness chroma hue lists =>
      have items := Grammar.keysDistinct_of_lists distinct lists
      have names : Entries.keysDistinct [(.str "l", lightness),
          (.str "c", chroma), (.str "h", hue)] = true := by
        simp [Entries.keysDistinct, Value.sameKey]
      refine Value.keysDistinct_map_iff.2 ⟨names, ?_⟩
      simpa using items
  | other long => exact distinct

/-! ## Documents -/

theorem changeMapUnder_changeAlong (name : String)
    (change : Value → Value) (trail : Trail) (value : Value) :
    changeMapUnder name (trail.changeAlong change) value =
      Trail.changeAlong change (isUnder name :: trail) value := by
  cases value with
  | map entries =>
      rw [changeMapUnder, changeUnder, Trail.changeAlong, Value.mapInner]
      congr 2
      funext entry
      by_cases held : entry.1.isText name = true <;> simp [isUnder, held]
  | _ => simp [changeMapUnder, Trail.changeAlong, Value.mapInner, isUnder]

theorem writeOutTokens_eq (value : Value) :
    writeOutTokens value = Trail.changeAlong writtenOut [isEntry] value := by
  cases value <;>
    simp [writeOutTokens, Trail.changeAlong, Value.mapInner, isEntry]

theorem writeOutModes_eq (value : Value) :
    writeOutModes value = Trail.changeAlong writtenOut
      [isListItem, isUnder "tokens", isEntry] value := by
  have mode : changeMapUnder "tokens" writeOutTokens =
      Trail.changeAlong writtenOut [isUnder "tokens", isEntry] := by
    funext held
    rw [funext writeOutTokens_eq, changeMapUnder_changeAlong]
  rw [writeOutModes.eq_def, mode, Trail.changeAlong]
  cases value <;> simp [Value.mapInner, isListItem]

/-- Short colours are written out along the way to the colours. -/
theorem writeOutColors_eq (document : Entries) :
    .map (writeOutColors document) =
      Trail.changeAlong writtenOut colorTrail (.map document) := by
  change changeMapUnder "colors" (changeMapUnder "modes" writeOutModes)
    (.map document) = _
  rw [funext writeOutModes_eq, funext (changeMapUnder_changeAlong "modes" _ _),
    changeMapUnder_changeAlong]
  rfl

theorem writeOutColors_writeOutColors (document : Entries) :
    writeOutColors (writeOutColors document) = writeOutColors document := by
  have once : writtenOut ∘ writtenOut = writtenOut :=
    funext writtenOut_writtenOut
  apply Value.map.inj
  rw [writeOutColors_eq, writeOutColors_eq, Trail.changeAlong_changeAlong,
    once]

theorem keysDistinct_writeOutColors {document : Entries}
    (distinct : (Value.map document).keysDistinct = true) :
    (Value.map (writeOutColors document)).keysDistinct = true := by
  rw [writeOutColors_eq]
  exact Trail.keysDistinct_changeAlong
    (fun _ heldDistinct => keysDistinct_writtenOut heldDistinct) distinct

theorem writeOutColors_of_partlyWritten {document other : Entries}
    (partly : PartlyWritten document other) :
    writeOutColors other = writeOutColors document := by
  apply Value.map.inj
  rw [writeOutColors_eq, writeOutColors_eq]
  refine (Trail.changeAlong_eq_of_differ ?_ partly).symm
  rintro given spelled (rfl | out)
  · rfl
  · rw [eq_writtenOut_iff.2 out, writtenOut_writtenOut]

/-- To write out a document is to replace its short colours, at the places of
colours and with nothing else changed. To do so twice, or where some colours
are written out already, comes to the same, so that all spellings of a document
are accepted and expanded alike. -/
theorem writeOutColors_exact (document : Entries) :
    (∀ changed : Value,
      Trail.Replaces WrittenOut colorTrail (.map document) changed ↔
        changed = .map (writeOutColors document)) ∧
    writeOutColors (writeOutColors document) = writeOutColors document ∧
    ∀ other, PartlyWritten document other →
      writeOutColors other = writeOutColors document ∧
      Acceptance.accept (.map (writeOutColors other)) =
        Acceptance.accept (.map (writeOutColors document)) ∧
      ∀ settings, generate (.map (writeOutColors other)) settings =
        generate (.map (writeOutColors document)) settings := by
  have related : WrittenOut = fun given held => held = writtenOut given := by
    funext given held
    exact propext eq_writtenOut_iff.symm
  refine ⟨fun changed => ?_, writeOutColors_writeOutColors document, ?_⟩
  · rw [related, writeOutColors_eq, Trail.replaces_iff]
  · intro other partly
    have same := writeOutColors_of_partlyWritten partly
    rw [same]
    exact ⟨rfl, rfl, fun _ => rfl⟩

/-- A document with this colour beside another short one, and with lists of
three items that are no colours. -/
def inkedTheme (ink : Value) : Entries :=
  [(.str "colors", .map [(.str "modes", .list
      [.map [(.str "tokens", .map [(.str "ink", ink),
          (.str "paper", .tuple [.int 1, .int 0, .int 90]),
          (.str "pair", .list [.int 1, .int 2])])],
        .list [.int 1, .int 2, .int 3]])]),
    (.str "gap", .list [.int 1, .int 2, .int 3])]

/-- A colour written out. -/
def writtenInk : Value :=
  .map [(.str "l", .int 0), (.str "c", .int 0), (.str "h", .int 0)]

theorem inkedTheme_exact :
    PartlyWritten (inkedTheme (.list [.int 0, .int 0, .int 0]))
        (inkedTheme writtenInk) ∧
      writeOutColors (inkedTheme writtenInk) =
        writeOutColors (inkedTheme (.list [.int 0, .int 0, .int 0])) := by
  have short : WrittenOut (.list [.int 0, .int 0, .int 0]) writtenInk :=
    .short (.inl rfl)
  have partly : PartlyWritten (inkedTheme (.list [.int 0, .int 0, .int 0]))
      (inkedTheme writtenInk) := by
    simp [PartlyWritten, colorTrail, Trail.Differ, Value.Alike, inkedTheme,
      Value.outline, Value.mapInner, Value.inner, isUnder, isListItem,
      isEntry, Value.isText, short]
  exact ⟨partly, ((writeOutColors_exact _).2.2 _ partly).1⟩

end DesignTokens.Document
