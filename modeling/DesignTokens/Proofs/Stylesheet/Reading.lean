import DesignTokens.Proofs.Record
import DesignTokens.Stylesheet.Render
import Mathlib.Tactic

/-!
# Reading a style sheet back

The blocks of a style sheet are its lines between the blank ones. Names and
values that fit on a line are read back as they were written, if no name has
the colon and blank that set it off from its value.
-/

namespace DesignTokens

/-! ## Joined lists -/

section Joined

variable {alpha : Type}

theorem intercalate_append (separator : List alpha)
    {first second : List (List alpha)} (someFirst : first ≠ [])
    (someSecond : second ≠ []) :
    separator.intercalate (first ++ second) =
      separator.intercalate first ++ separator ++
        separator.intercalate second := by
  induction first with
  | nil => exact absurd rfl someFirst
  | cons part rest inductionHypothesis =>
      cases rest with
      | nil =>
          rw [List.singleton_append, List.intercalate_singleton,
            List.intercalate_cons_of_ne_nil someSecond]
      | cons next others =>
          have joined := inductionHypothesis (List.cons_ne_nil next others)
          rw [List.cons_append, List.intercalate_cons_of_ne_nil (by simp),
            joined, List.intercalate_cons_cons]
          simp only [List.append_assoc]

theorem mem_of_mem_intercalate {separator : List alpha}
    {parts : List (List alpha)} {item : alpha}
    (member : item ∈ separator.intercalate parts) :
    item ∈ separator ∨ ∃ part ∈ parts, item ∈ part := by
  induction parts with
  | nil => cases member
  | cons part rest inductionHypothesis =>
      by_cases last : rest = []
      · subst last
        rw [List.intercalate_singleton] at member
        exact .inr ⟨part, List.mem_cons_self .., member⟩
      · rw [List.intercalate_cons_of_ne_nil last] at member
        rcases List.mem_append.1 member with front | later
        · rcases List.mem_append.1 front with inPart | between
          · exact .inr ⟨part, List.mem_cons_self .., inPart⟩
          · exact .inl between
        · rcases inductionHypothesis later with
            between | ⟨other, inRest, inOther⟩
          · exact .inl between
          · exact .inr ⟨other, List.mem_cons_of_mem _ inRest, inOther⟩

theorem intercalate_ne_nil {separator : List alpha}
    {parts : List (List alpha)} (somePart : parts ≠ [])
    (nonempty : ∀ part ∈ parts, part ≠ []) :
    separator.intercalate parts ≠ [] := by
  obtain ⟨part, rest, rfl⟩ := List.exists_cons_of_ne_nil somePart
  have first : part ≠ [] := nonempty part (List.mem_cons_self ..)
  cases rest <;> simp [List.intercalate_cons_cons, first]

/-- To join groups of parts with two separators is to join all parts, with an
empty part between the groups. -/
theorem intercalate_groups (separator : alpha)
    {groups : List (List (List alpha))}
    (nonempty : ∀ group ∈ groups, group ≠ []) :
    [separator, separator].intercalate
        (groups.map [separator].intercalate) =
      [separator].intercalate ([[]].intercalate groups) := by
  induction groups with
  | nil => rfl
  | cons group rest inductionHypothesis =>
      cases rest with
      | nil => simp
      | cons next others =>
          have parts := List.forall_mem_cons.1 nonempty
          have later : [[]].intercalate (next :: others) ≠ [] :=
            intercalate_ne_nil (List.cons_ne_nil next others) parts.2
          -- The empty part between two groups brings the second separator.
          have split : [[]].intercalate (group :: next :: others) =
              group ++ [] :: [[]].intercalate (next :: others) := by
            rw [List.intercalate_cons_cons, List.append_assoc]
            rfl
          rw [List.map_cons, List.intercalate_cons_of_ne_nil (by simp),
            inductionHypothesis parts.2, split,
            intercalate_append [separator] parts.1 (List.cons_ne_nil _ _),
            List.intercalate_cons_of_ne_nil later]
          simp

end Joined

/-! ## Blocks as they are read -/

/-- A block of a style sheet: its selector, and the values that it declares,
by name. -/
structure SheetBlock where
  selector : String
  declarations : Record String
  deriving DecidableEq, Repr

/-- A text cut at its first colon before a blank. -/
def cutAtColon : List Char → Option (List Char × List Char)
  | ':' :: ' ' :: rest => some ([], rest)
  | character :: rest =>
      (cutAtColon rest).map fun cut => (character :: cut.1, cut.2)
  | [] => none

/-- The name and the value that a line declares. -/
def readDeclaration (line : List Char) : Option (String × String) := do
  let (lead, tail) ← cutAtColon line
  let name ← "  --".toList.isPrefixOf? lead
  let value ← ";".toList.isSuffixOf? tail
  return (String.ofList name, String.ofList value)

/-- The block that lines make up: a selector with an opening brace,
declarations and a closing brace. -/
def SheetBlock.read : List (List Char) → Option SheetBlock
  | [] => none
  | head :: body => do
      let selector ← " \x7b".toList.isSuffixOf? head
      let declarations ← body.dropLast.mapM readDeclaration
      guard (body.getLast? = some "\x7d".toList)
      return ⟨String.ofList selector, declarations⟩

/-- The blocks between the blank lines of a text. -/
def readStylesheet (text : String) : Option (List SheetBlock) :=
  ((text.toList.splitOn '\n').splitOn []).mapM SheetBlock.read

/-! ## Blocks as they are written -/

namespace SheetBlock

/-- A declaration fits on a line of its own, and its name ends at the first
colon before a blank. -/
def PlainEntry (entry : String × String) : Prop :=
  '\n' ∉ entry.1.toList ∧ '\n' ∉ entry.2.toList ∧
    ¬ ": ".toList <:+: entry.1.toList

instance (entry : String × String) : Decidable (PlainEntry entry) :=
  inferInstanceAs (Decidable (_ ∧ _ ∧ _))

structure Plain (block : SheetBlock) : Prop where
  selector : '\n' ∉ block.selector.toList
  declarations : ∀ entry ∈ block.declarations, PlainEntry entry

def declarationLine (entry : String × String) : String :=
  "  --" ++ entry.1 ++ ": " ++ entry.2 ++ ";"

def lines (block : SheetBlock) : List String :=
  [block.selector ++ " \x7b"] ++ block.declarations.map declarationLine ++
    ["\x7d"]

def text (block : SheetBlock) : String :=
  String.intercalate "\n" block.lines

def ofTokens (selector : String) (tokens : Record Token) : SheetBlock :=
  ⟨selector, tokens.mapValues Token.value⟩

theorem text_ofTokens (selector : String) (tokens : Record Token) :
    (ofTokens selector tokens).text = DesignTokens.block selector tokens := by
  rw [text, lines, ofTokens, Record.mapValues, List.map_map]
  rfl

end SheetBlock

/-! ## Lines -/

theorem cutAtColon_append {name rest : List Char}
    (plain : ¬ ": ".toList <:+: name) :
    cutAtColon (name ++ ": ".toList ++ rest) = some (name, rest) := by
  induction name with
  | nil => rfl
  | cons character others inductionHypothesis =>
      have later : ¬ ": ".toList <:+: others :=
        fun inside => plain (List.infix_cons inside)
      -- After a colon at the end of the name comes a colon, not a blank.
      have uncut : ∀ following, character = ':' →
          others ++ ": ".toList ++ rest = ' ' :: following → False := by
        intro following colon blank
        cases others with
        | nil => cases blank
        | cons second more =>
            have same : second = ' ' := (List.cons.inj blank).1
            subst colon same
            exact plain ⟨[], more, rfl⟩
      rw [List.cons_append, List.cons_append, cutAtColon,
        inductionHypothesis later]
      · rfl
      · exact uncut

/-- The two dashes before a name do not end it. -/
theorem not_infix_dashed {name : List Char}
    (plain : ¬ ": ".toList <:+: name) :
    ¬ ": ".toList <:+: "  --".toList ++ name := by
  simpa [List.infix_cons_iff] using plain

theorem readDeclaration_line {entry : String × String}
    (plain : SheetBlock.PlainEntry entry) :
    readDeclaration (SheetBlock.declarationLine entry).toList =
      some entry := by
  have line : (SheetBlock.declarationLine entry).toList =
      "  --".toList ++ entry.1.toList ++ ": ".toList ++
        (entry.2.toList ++ ";".toList) := by
    simp [SheetBlock.declarationLine]
  have name : "  --".toList.isPrefixOf? ("  --".toList ++ entry.1.toList) =
      some entry.1.toList :=
    List.isPrefixOf?_eq_some_iff_append_eq.2 rfl
  have value : ";".toList.isSuffixOf? (entry.2.toList ++ ";".toList) =
      some entry.2.toList :=
    List.isSuffixOf?_eq_some_iff_append_eq.2 rfl
  rw [readDeclaration, line,
    cutAtColon_append (not_infix_dashed plain.2.2)]
  simp only [Option.bind_eq_bind, Option.bind_some, name, value,
    String.ofList_toList]
  rfl

theorem readDeclarations_lines {declarations : Record String}
    (plain : ∀ entry ∈ declarations, SheetBlock.PlainEntry entry) :
    (declarations.map fun entry =>
        (SheetBlock.declarationLine entry).toList).mapM readDeclaration =
      some declarations := by
  induction declarations with
  | nil => rfl
  | cons entry rest inductionHypothesis =>
      have parts := List.forall_mem_cons.1 plain
      rw [List.map_cons, List.mapM_cons, readDeclaration_line parts.1,
        inductionHypothesis parts.2]
      rfl

namespace SheetBlock

variable {block : SheetBlock}

theorem read_lines (plain : block.Plain) :
    SheetBlock.read (block.lines.map String.toList) = some block := by
  have lines : block.lines.map String.toList =
      (block.selector.toList ++ " \x7b".toList) ::
        ((block.declarations.map fun entry =>
            (declarationLine entry).toList) ++ ["\x7d".toList]) := by
    simp [SheetBlock.lines]
  have selector : " \x7b".toList.isSuffixOf?
      (block.selector.toList ++ " \x7b".toList) =
        some block.selector.toList :=
    List.isSuffixOf?_eq_some_iff_append_eq.2 rfl
  rw [lines, SheetBlock.read, selector, List.dropLast_concat,
    readDeclarations_lines plain.declarations, List.getLast?_concat]
  simp only [Option.bind_eq_bind, Option.bind_some, String.ofList_toList]
  rfl

/-- Every line of a plain block is a line of its own and is not blank. -/
theorem line_of_mem_lines (plain : block.Plain) {line : List Char}
    (member : line ∈ block.lines.map String.toList) :
    '\n' ∉ line ∧ line ≠ [] := by
  obtain ⟨text, inLines, rfl⟩ := List.mem_map.1 member
  rcases List.mem_append.1 inLines with front | closing
  · rcases List.mem_append.1 front with opening | declared
    · have selector := plain.selector
      rw [List.mem_singleton.1 opening]
      simp [selector]
    · obtain ⟨entry, inBlock, rfl⟩ := List.mem_map.1 declared
      have single := plain.declarations entry inBlock
      simp [declarationLine, single.1, single.2.1]
  · rw [List.mem_singleton.1 closing]
    decide

def lineGroups (blocks : List SheetBlock) : List (List (List Char)) :=
  blocks.map fun block => block.lines.map String.toList

theorem read_lineGroups {blocks : List SheetBlock}
    (plain : ∀ block ∈ blocks, block.Plain) :
    (lineGroups blocks).mapM SheetBlock.read = some blocks := by
  induction blocks with
  | nil => rfl
  | cons block rest inductionHypothesis =>
      have parts := List.forall_mem_cons.1 plain
      have later := inductionHypothesis parts.2
      rw [lineGroups] at later
      rw [lineGroups, List.map_cons, List.mapM_cons, read_lines parts.1,
        later]
      rfl

theorem ne_nil_of_mem_lineGroups {blocks : List SheetBlock}
    {group : List (List Char)} (listed : group ∈ lineGroups blocks) :
    group ≠ [] := by
  obtain ⟨block, _, rfl⟩ := List.mem_map.1 listed
  simp [lines]

theorem line_of_mem_lineGroups {blocks : List SheetBlock}
    (plain : ∀ block ∈ blocks, block.Plain) {group : List (List Char)}
    (listed : group ∈ lineGroups blocks) {line : List Char}
    (member : line ∈ group) : '\n' ∉ line ∧ line ≠ [] := by
  obtain ⟨block, inBlocks, rfl⟩ := List.mem_map.1 listed
  exact line_of_mem_lines (plain block inBlocks) member

theorem toList_joined (blocks : List SheetBlock) :
    (String.intercalate "\n\n" (blocks.map text)).toList =
      ['\n'].intercalate ([[]].intercalate (lineGroups blocks)) := by
  have texts : (blocks.map text).map String.toList =
      (lineGroups blocks).map ['\n'].intercalate := by
    simp [lineGroups, text, String.toList_intercalate]
  rw [String.toList_intercalate, texts]
  exact intercalate_groups '\n' fun _ => ne_nil_of_mem_lineGroups

end SheetBlock

open SheetBlock in
/-- A style sheet of plain blocks is read back as it was written. -/
theorem readStylesheet_text {blocks : List SheetBlock}
    (nonempty : blocks ≠ []) (plain : ∀ block ∈ blocks, block.Plain) :
    readStylesheet (String.intercalate "\n\n" (blocks.map text)) =
      some blocks := by
  have someGroup : lineGroups blocks ≠ [] := by
    simpa [lineGroups] using nonempty
  have someLine : [[]].intercalate (lineGroups blocks) ≠ [] :=
    intercalate_ne_nil someGroup fun _ => ne_nil_of_mem_lineGroups
  -- The only blank lines are those between the blocks.
  have unblank : ∀ group ∈ lineGroups blocks, [] ∉ group := by
    intro group listed blank
    exact (line_of_mem_lineGroups plain listed blank).2 rfl
  have single : ∀ line ∈ [[]].intercalate (lineGroups blocks),
      '\n' ∉ line := by
    intro line member
    rcases mem_of_mem_intercalate member with blank | ⟨group, listed, inside⟩
    · rw [List.mem_singleton.1 blank]
      exact List.not_mem_nil
    · exact (line_of_mem_lineGroups plain listed inside).1
  rw [readStylesheet, toList_joined,
    List.splitOn_intercalate '\n' single someLine,
    List.splitOn_intercalate [] unblank someGroup, read_lineGroups plain]

end DesignTokens
