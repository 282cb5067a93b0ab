import DesignTokens.Proofs.Acceptance.Written
import DesignTokens.Proofs.Value.Keys

/-!
# Names of colours and of levels

In an accepted configuration whose mappings have each key once, the colours of
a mode have different names, and so have the levels of opacities. No opacities
that are given are empty.
-/

namespace DesignTokens

open Grammar Schema Schema.Checked

section Records

variable {alpha : Type} {read : Reader alpha} {entries : Entries}
  {record : Record alpha}

theorem keys_of_readEntries (named : ∀ entry ∈ entries, IsName entry.1)
    (accepted : readEntries read entries = .accepted record) :
    record.names.map Value.str = entries.map Prod.fst := by
  have pairs := readEntries_eq_accepted.1 accepted
  clear accepted
  induction pairs with
  | nil => rfl
  | cons first _ inductionHypothesis =>
      obtain ⟨key, rest⟩ := List.forall_mem_cons.1 named
      obtain ⟨name, same, _⟩ := key
      obtain ⟨read, _⟩ := first
      rw [same] at read
      cases read
      rw [List.map_cons, same, ← inductionHypothesis rest]
      rfl

theorem nodup_names_of_readEntries
    (distinct : Entries.keysDistinct entries = true)
    (named : ∀ entry ∈ entries, IsName entry.1)
    (accepted : readEntries read entries = .accepted record) :
    record.names.Nodup := by
  apply Entries.nodup_of_keys distinct
  rw [keys_of_readEntries named accepted]

end Records

/-! ## Opacities -/

/-- Opacities that are not empty, each with a level of its own. -/
structure AlphaSchedule.Sound (schedule : AlphaSchedule) : Prop where
  nonempty : schedule ≠ []
  distinct : Record.names schedule |>.Nodup

theorem sound_of_readSchedule {entries : Entries} {schedule : AlphaSchedule}
    (hasSchedule : HasSchedule entries)
    (distinct : (Value.map entries).keysDistinct = true)
    (read : readSchedule entries = .accepted (some schedule)) :
    schedule.Sound := by
  rcases fieldOr_eq_accepted.1 read with
    ⟨_, absent⟩ | ⟨value, found, accepted⟩
  · cases absent
  · have valueDistinct := keysDistinct_of_spelled distinct found
    rcases hasSchedule value found with rfl | isSchedule
    · cases accepted
    · obtain ⟨levels, rfl, nonempty, each⟩ := isSchedule
      rw [nullable_eq_accepted (by simp)] at accepted
      obtain ⟨held, levelsRead, same⟩ := accepted
      cases same
      rw [Value.keysDistinct_map_iff] at valueDistinct
      constructor
      · rintro rfl
        exact nonempty
          (List.forall₂_nil_right_iff.1 (readEntries_eq_accepted.1 levelsRead))
      · exact nodup_names_of_readEntries valueDistinct.1
          (fun entry member => (each entry member).1) levelsRead

/-! ## Colours -/

/-- A mode whose colours and levels have names of their own. -/
structure Palette.Sound (palette : Palette) : Prop where
  colors : palette.colors.names.Nodup
  schedule : ∀ schedule, palette.alphaSchedule = some schedule →
    schedule.Sound

/-- Colours all of whose modes are sound, as are their common opacities. -/
structure ColorFamily.Sound (family : ColorFamily) : Prop where
  modes : ∀ mode ∈ family.modes, mode.content.Sound
  schedule : ∀ schedule, family.alphaSchedule = some schedule →
    schedule.Sound

theorem soundPalette_of_read {spacing : List String} {item : Value}
    {mode : Acceptance.PlainMode} {palette : Palette}
    (isMode : IsMode item mode) (content : Content spacing .color mode)
    (distinct : (Value.map mode.entries).keysDistinct = true)
    (read : Palette.read mode.entries = .accepted palette) :
    palette.Sound := by
  obtain ⟨colorsRead, scheduleRead⟩ := palette_parts read
  constructor
  · rcases fieldOr_eq_accepted.1 colorsRead with
      ⟨absent, _⟩ | ⟨value, found, accepted⟩
    · rw [spelled_self, isMode.tokens] at absent
      cases absent
    · have tokensDistinct := keysDistinct_of_spelled distinct found
      rw [spelled_self, isMode.tokens] at found
      cases found
      rw [Value.keysDistinct_map_iff] at tokensDistinct
      exact nodup_names_of_readEntries tokensDistinct.1
        (fun entry member => (content.1 entry member).1) accepted
  · intro schedule given
    rw [given] at scheduleRead
    exact sound_of_readSchedule content.2 distinct scheduleRead

/-- The colours of an accepted configuration are sound. -/
theorem soundColors_of_read {config : Entries}
    {modes : Family → List Acceptance.PlainMode} {system : DesignSystem}
    {colors : ColorFamily} (wellFormed : WellFormed config modes)
    (distinct : (Value.map config).keysDistinct = true)
    (read : DesignSystem.read (.map config) = .accepted system)
    (given : system.colors = some colors) : colors.Sound := by
  have parts := DesignSystem.read_eq_accepted.1 read
  rcases given_eq_accepted parts.colors with
    ⟨_, absent⟩ | ⟨value, held, found, familyRead, same⟩
  · rw [given] at absent
    cases absent
  · rw [given] at same
    cases same
    obtain ⟨fields, rfl, isFamily⟩ := wellFormed.present .color value found
    have fieldsDistinct := keysDistinct_of_given distinct found
    obtain ⟨_, schedule, first, scheduleRead, rfl⟩ :=
      seq_eq_accepted.1 familyRead
    obtain ⟨typed, modesRead, rfl⟩ := map_eq_accepted.1 first
    constructor
    · intro mode member
      obtain ⟨plain, inside, isTyped⟩ := Success.exists_left_of_mem
        (typed_of_readModes isFamily modesRead) member
      obtain ⟨_, isMode⟩ := isFamily.exists_isMode inside
      exact soundPalette_of_read isMode (isFamily.content plain inside)
        (isFamily.keysDistinct fieldsDistinct plain inside) isTyped.content
    · intro levels opacities
      cases opacities
      exact sound_of_readSchedule (isFamily.schedule rfl) fieldsDistinct
        scheduleRead

end DesignTokens
