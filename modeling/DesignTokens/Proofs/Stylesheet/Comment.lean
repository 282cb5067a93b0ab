import DesignTokens.Proofs.Stylesheet.Reading
import DesignTokens.Stylesheet.Comment

/-!
# What a header comment encloses

The texts of a header are copied into its comment as they are. The comment
ends where it should, and all of its lines bear their mark, as long as no text
holds the mark that ends a comment or goes on in a line without a mark.
-/

namespace DesignTokens

/-! ## Marks in a text -/

section Marks

variable {alpha : Type} {mark front back before after : List alpha}
  {between : alpha}

/-- A mark on one side of an item that it does not hold. -/
theorem mark_beside (someMark : mark ≠ []) (absent : between ∉ mark)
    (found : before ++ mark ++ after = front ++ between :: back) :
    (∃ rest, front = before ++ mark ++ rest ∧
        after = rest ++ between :: back) ∨
      ∃ rest, before = front ++ between :: rest ∧
        back = rest ++ mark ++ after := by
  rw [List.append_assoc] at found
  rcases List.append_eq_append_iff.1 found with
    ⟨rest, inFront, afterRest⟩ | ⟨rest, inBefore, backRest⟩
  · rcases List.append_eq_append_iff.1 afterRest with
      ⟨later, isRest, isAfter⟩ | ⟨later, isMark, isBack⟩
    · exact .inl ⟨later, by rw [inFront, isRest, List.append_assoc],
        isAfter⟩
    · cases later with
      | nil =>
          rw [List.append_nil] at isMark
          exact .inl ⟨[], by rw [inFront, isMark, List.append_nil],
            isBack.symm⟩
      | cons item others =>
          cases isBack
          exact absurd (isMark ▸ by simp) absent
  · cases rest with
    | nil =>
        cases mark with
        | nil => exact absurd rfl someMark
        | cons item others =>
            cases backRest
            exact absurd List.mem_cons_self absent
    | cons item others =>
        cases backRest
        exact .inr ⟨others, inBefore, (List.append_assoc ..).symm⟩

theorem infix_append_cons_iff (someMark : mark ≠ [])
    (absent : between ∉ mark) :
    mark <:+: front ++ between :: back ↔
      mark <:+: front ∨ mark <:+: back := by
  constructor
  · rintro ⟨before, after, found⟩
    rcases mark_beside someMark absent found with
      ⟨rest, inFront, -⟩ | ⟨rest, -, inBack⟩
    · exact .inl ⟨before, rest, inFront.symm⟩
    · exact .inr ⟨rest, after, inBack.symm⟩
  · rintro (inFront | inBack)
    · exact inFront.trans (List.prefix_append ..).isInfix
    · exact inBack.trans
        ((List.suffix_cons ..).trans (List.suffix_append ..)).isInfix

/-- A text ends in a mark that it holds nowhere else. -/
structure EndsOnlyIn (mark text : List alpha) : Prop where
  last : mark <:+ text
  once : ∀ before after, before ++ mark ++ after = text → after = []

theorem endsOnlyIn_append_cons_iff (someMark : mark ≠ [])
    (absent : between ∉ mark) :
    EndsOnlyIn mark (front ++ between :: mark) ↔ ¬ mark <:+: front := by
  constructor
  · rintro ⟨-, once⟩ ⟨before, rest, inFront⟩
    have later := once before (rest ++ between :: mark)
      (by rw [← inFront, List.append_assoc _ rest])
    simp at later
  · intro clear
    refine ⟨(List.suffix_cons ..).trans (List.suffix_append ..), ?_⟩
    intro before after found
    rcases mark_beside someMark absent found with
      ⟨rest, inFront, -⟩ | ⟨rest, -, inMark⟩
    · exact absurd ⟨before, rest, inFront.symm⟩ clear
    · have lengths := congrArg List.length inMark
      simp only [List.length_append] at lengths
      exact List.eq_nil_of_length_eq_zero (by omega)

end Marks

/-! ## Physical lines -/

/-- The characters that can be printed in ASCII. -/
def IsPrinted (character : Char) : Prop :=
  ' '.toNat ≤ character.toNat ∧ character.toNat ≤ '~'.toNat

instance : DecidablePred IsPrinted :=
  fun _ => inferInstanceAs (Decidable (_ ∧ _))

def AllPrinted (text : List Char) : Prop :=
  ∀ character ∈ text, IsPrinted character

instance (text : List Char) : Decidable (AllPrinted text) :=
  List.decidableBAll _ text

/-- The characters at which a line of a file ends. A line feed is one of them,
and no character that can be printed in ASCII is. -/
structure LineEnds where
  ends : Char → Bool
  feed : ends '\n' = true
  printed : ∀ character, IsPrinted character → ends character = false

namespace LineEnds

/-- Lines that end at line feeds only. -/
def feedOnly : LineEnds where
  ends character := character == '\n'
  feed := rfl
  printed := by
    intro character printed
    refine beq_false_of_ne ?_
    rintro rfl
    exact absurd printed (by decide)

variable {lineEnds : LineEnds}

/-- The lines of a text as a file holds them. -/
def lines (lineEnds : LineEnds) (text : List Char) : List (List Char) :=
  text.splitOnP lineEnds.ends

theorem lines_intercalate {parts : List (List Char)} (some : parts ≠ []) :
    lineEnds.lines (['\n'].intercalate parts) =
      parts.flatMap lineEnds.lines := by
  induction parts with
  | nil => exact absurd rfl some
  | cons part rest inductionHypothesis =>
      by_cases last : rest = []
      · subst last
        simp
      · rw [List.intercalate_cons_of_ne_nil last, List.append_assoc,
          List.flatMap_cons, ← inductionHypothesis last]
        exact List.splitOnP_append_cons _ _ lineEnds.feed

theorem exists_lines_eq_cons (text : List Char) :
    ∃ first rest, lineEnds.lines text = first :: rest :=
  List.exists_cons_of_ne_nil (List.splitOnP_ne_nil _ text)

theorem exists_lines_eq_append (text : List Char) :
    ∃ initial last, lineEnds.lines text = initial ++ [last] :=
  ⟨_, _, (List.dropLast_append_getLast
    (List.splitOnP_ne_nil _ text)).symm⟩

/-- Where two texts are joined, the last line of one and the first line of the
other become one line. -/
theorem lines_append {front back last first : List Char}
    {initial rest : List (List Char)}
    (frontLines : lineEnds.lines front = initial ++ [last])
    (backLines : lineEnds.lines back = first :: rest) :
    lineEnds.lines (front ++ back) =
      initial ++ (last ++ first) :: rest := by
  induction front generalizing initial last with
  | nil =>
      obtain ⟨rfl, rfl⟩ : [] = initial ∧ [] = last := by
        simpa [lines, List.nil_eq_append_iff, List.singleton_eq_append_iff]
          using frontLines
      exact backLines
  | cons character front inductionHypothesis =>
      rw [lines, List.splitOnP_cons_eq_if_modifyHead] at frontLines
      rw [List.cons_append, lines, List.splitOnP_cons_eq_if_modifyHead]
      obtain ⟨others, final, frontSplit⟩ :=
        exists_lines_eq_append front
      have joined := inductionHypothesis frontSplit
      rw [lines] at frontSplit joined
      by_cases ending : lineEnds.ends character = true
      · rw [if_pos ending, frontSplit] at frontLines
        rw [if_pos ending, joined]
        have split : initial ++ [last] = ([] :: others) ++ [final] :=
          frontLines.symm
        obtain ⟨rfl, ⟨⟩⟩ := List.append_inj' split rfl
        rfl
      · rw [if_neg ending, frontSplit] at frontLines
        rw [if_neg ending, joined]
        cases others with
        | nil =>
            have split : initial ++ [last] = [] ++ [character :: final] :=
              frontLines.symm
            obtain ⟨rfl, ⟨⟩⟩ := List.append_inj' split rfl
            rfl
        | cons other others =>
            have split : initial ++ [last] =
                ((character :: other) :: others) ++ [final] :=
              frontLines.symm
            obtain ⟨rfl, ⟨⟩⟩ := List.append_inj' split rfl
            rfl

/-- Every line of a text but its first begins with a mark. -/
def KeepsMark (lineEnds : LineEnds) (mark text : List Char) : Prop :=
  ∀ line ∈ (lineEnds.lines text).tail, mark <+: line

/-- A text without line ends. -/
def Single (lineEnds : LineEnds) (text : List Char) : Prop :=
  ∀ character ∈ text, lineEnds.ends character = false

/-- Texts of characters that can be printed in ASCII take one line. -/
theorem single_of_printed {text : List Char}
    (printed : AllPrinted text) : lineEnds.Single text :=
  fun character member =>
    lineEnds.printed character (printed character member)

theorem lines_of_single {text : List Char} (single : lineEnds.Single text) :
    lineEnds.lines text = [text] :=
  List.splitOnP_eq_singleton single

theorem keepsMark_of_single {mark text : List Char}
    (single : lineEnds.Single text) : lineEnds.KeepsMark mark text := by
  rw [KeepsMark, lines_of_single single]
  exact nofun

theorem lines_single_append {front back first : List Char}
    {rest : List (List Char)} (single : lineEnds.Single front)
    (backLines : lineEnds.lines back = first :: rest) :
    lineEnds.lines (front ++ back) = (front ++ first) :: rest := by
  have frontLines : lineEnds.lines front = [] ++ [front] :=
    lines_of_single single
  exact lines_append frontLines backLines

theorem keepsMark_single_append_iff {mark front back : List Char}
    (single : lineEnds.Single front) :
    lineEnds.KeepsMark mark (front ++ back) ↔
      lineEnds.KeepsMark mark back := by
  obtain ⟨first, rest, backLines⟩ := exists_lines_eq_cons back
  rw [KeepsMark, KeepsMark, lines_single_append single backLines, backLines,
    List.tail_cons, List.tail_cons]

/-- Two texts with a part between them that completes no mark. -/
theorem keepsMark_append_iff {mark front between back : List Char}
    (single : lineEnds.Single between)
    (completes : ∀ line rest,
      mark <+: line ++ (between ++ rest) ↔ mark <+: line) :
    lineEnds.KeepsMark mark (front ++ (between ++ back)) ↔
      lineEnds.KeepsMark mark front ∧ lineEnds.KeepsMark mark back := by
  obtain ⟨initial, last, frontLines⟩ := exists_lines_eq_append front
  obtain ⟨first, rest, backLines⟩ := exists_lines_eq_cons back
  have joined := lines_append frontLines
    (lines_single_append single backLines)
  rw [KeepsMark, KeepsMark, KeepsMark, joined, frontLines, backLines]
  cases initial with
  | nil => simp
  | cons other others => simp [completes, or_imp, forall_and, and_assoc]

/-- A text behind a mark: all of its lines begin with the mark. -/
theorem marked_iff {mark text : List Char} (single : lineEnds.Single mark) :
    (∀ line ∈ lineEnds.lines (mark ++ text), mark <+: line) ↔
      lineEnds.KeepsMark mark text := by
  obtain ⟨first, rest, textLines⟩ := exists_lines_eq_cons text
  rw [KeepsMark, textLines, lines_single_append single textLines,
    List.forall_mem_cons, List.tail_cons]
  exact and_iff_right (List.prefix_append ..)

end LineEnds

/-! ## Texts of a header -/

namespace FileHeader

/-- The texts that a header was given. -/
def texts (header : FileHeader) : List String :=
  header.toolName :: header.toolVersion :: header.customLines

/-- A text of characters that can be printed in ASCII and are no asterisks. -/
def IsPlain (text : String) : Prop :=
  ∀ character ∈ text.toList, IsPrinted character ∧ character ≠ '*'

instance (text : String) : Decidable (IsPlain text) :=
  List.decidableBAll _ text.toList

theorem isPlain_append_iff {front back : String} :
    IsPlain (front ++ back) ↔ IsPlain front ∧ IsPlain back := by
  rw [IsPlain, String.toList_append, List.forall_mem_append]
  rfl

theorem isPlain_padded (width n : Nat) :
    IsPlain (Moment.padded width n) := by
  intro character member
  rw [Moment.padded, String.toList_ofList, List.leftpad,
    List.mem_append] at member
  rcases member with pad | inDigits
  · rw [(List.mem_replicate.1 pad).2]
    decide
  · have digit : character.isDigit = true :=
      Nat.isDigit_of_mem_toDigits (by decide) (by decide) inDigits
    have different : character ≠ '*' := by
      rintro rfl
      cases digit
    obtain ⟨least, most⟩ := Char.isDigit_iff_toNat.1 digit
    have first : ' '.toNat ≤ '0'.toNat := by decide
    have last : '9'.toNat ≤ '~'.toNat := by decide
    exact ⟨⟨first.trans least, most.trans last⟩, different⟩

theorem isPlain_offsetText (offset : Int) :
    IsPlain (Moment.offsetText offset) := by
  have sign : IsPlain (if offset < 0 then "-" else "+") := by
    split <;> decide
  have colon : IsPlain ":" := by decide
  simp only [Moment.offsetText, isPlain_append_iff, isPlain_padded, sign,
    colon, and_self]

theorem isPlain_stamp (moment : Moment) : IsPlain moment.stamp := by
  have offset :
      IsPlain ((moment.offset.map Moment.offsetText).getD "") := by
    cases moment.offset with
    | none => exact (by decide : IsPlain "")
    | some offset => exact isPlain_offsetText offset
  have dash : IsPlain "-" := by decide
  have colon : IsPlain ":" := by decide
  have divider : IsPlain "T" := by decide
  simp only [Moment.stamp, isPlain_append_iff, isPlain_padded, offset, dash,
    colon, divider, and_self]

theorem isPlain_of_mem_stampLines {header : FileHeader}
    {now : Option Moment} {line : String}
    (member : line ∈ header.stampLines now) : IsPlain line := by
  unfold stampLines at member
  split at member
  · rw [List.mem_singleton.1 member]
    exact isPlain_append_iff.2 ⟨by decide, isPlain_stamp _⟩
  · cases member

/-- What plain texts have and what the first line has exactly if the name and
the version of the tool have it, all lines have exactly if all texts of the
header do. -/
theorem forall_lines_iff {header : FileHeader} {holds : String → Prop}
    (plain : ∀ text, IsPlain text → holds text)
    (tool : holds ("Generated by " ++ header.toolName ++ " v" ++
        header.toolVersion) ↔
      holds header.toolName ∧ holds header.toolVersion)
    (now : Option Moment) :
    (∀ line ∈ header.lines now, holds line) ↔
      ∀ text ∈ header.texts, holds text := by
  have notice :
      holds "Do not edit directly - regenerate from the design system source." :=
    plain _ (by decide)
  have stamps : ∀ line ∈ header.stampLines now, holds line :=
    fun line member => plain line (isPlain_of_mem_stampLines member)
  simp only [lines, texts, List.forall_mem_append, List.forall_mem_cons,
    tool]
  tauto

end FileHeader

/-! ## Comments -/

namespace CommentStyle

open FileHeader

/-- The mark that ends a block. -/
def closing : List Char := ['*', '/']

/-- What a line of a comment has behind its mark. -/
def body (line : String) : List Char :=
  if line = "" then [] else ' ' :: line.toList

theorem toList_marked (mark line : String) :
    (marked mark line).toList = mark.toList ++ body line := by
  rw [marked, body]
  split <;> simp

theorem closing_infix_marked_iff {line : String} :
    closing <:+: (marked " *" line).toList ↔ closing <:+: line.toList := by
  rw [toList_marked, body]
  by_cases empty : line = ""
  · subst empty
    decide
  · rw [if_neg empty, infix_append_cons_iff (by decide) (by decide)]
    exact or_iff_right (by decide)

theorem closing_infix_intercalate_iff {parts : List (List Char)} :
    closing <:+: ['\n'].intercalate parts ↔
      ∃ part ∈ parts, closing <:+: part := by
  induction parts with
  | nil => exact iff_of_false (by decide) nofun
  | cons part rest inductionHypothesis =>
      rw [List.exists_mem_cons_iff, ← inductionHypothesis]
      by_cases last : rest = []
      · subst last
        simp [closing]
      · rw [List.intercalate_cons_of_ne_nil last, List.append_assoc]
        exact infix_append_cons_iff (by decide) (by decide)

theorem endsOnlyIn_block_iff {lines : List String} :
    EndsOnlyIn closing (comment .block lines).toList ↔
      ∀ line ∈ lines, ¬ closing <:+: line.toList := by
  have parted : (comment .block lines).toList =
      (['\n'].intercalate
        ((["/*"] ++ lines.map (marked " *")).map String.toList) ++
          ['\n']) ++ ' ' :: closing := by
    rw [comment, commentLines, String.toList_intercalate, List.map_append]
    exact intercalate_append _ (by simp) (by simp)
  rw [parted, endsOnlyIn_append_cons_iff (by decide) (by decide),
    infix_append_cons_iff (by decide) (by decide),
    closing_infix_intercalate_iff]
  have opening : ¬ closing <:+: "/*".toList := by decide
  have nothing : ¬ closing <:+: [] := by decide
  simp only [List.singleton_append, List.map_cons, List.map_map,
    List.exists_mem_cons_iff, opening, nothing, false_or, or_false,
    List.mem_map, Function.comp_apply, exists_exists_and_eq_and,
    closing_infix_marked_iff, not_exists, not_and]

variable {lineEnds : LineEnds}

theorem keepsMark_body_iff {mark : List Char} {line : String} :
    lineEnds.KeepsMark mark (body line) ↔
      lineEnds.KeepsMark mark line.toList := by
  rw [body]
  by_cases empty : line = ""
  · subst empty
    rfl
  · rw [if_neg empty]
    change lineEnds.KeepsMark mark ([' '] ++ line.toList) ↔ _
    exact LineEnds.keepsMark_single_append_iff
      (LineEnds.single_of_printed (by decide))

/-- All lines that a marked line takes bear the mark. -/
theorem marked_lines_iff {mark line : String}
    (single : lineEnds.Single mark.toList) :
    (∀ part ∈ lineEnds.lines (marked mark line).toList,
      mark.toList <+: part) ↔
        lineEnds.KeepsMark mark.toList line.toList := by
  rw [toList_marked, LineEnds.marked_iff single, keepsMark_body_iff]

theorem forall_line_lines_iff {lines : List String} (some : lines ≠ []) :
    (∀ part ∈ lineEnds.lines (comment .line lines).toList,
      "//".toList <+: part) ↔
        ∀ line ∈ lines,
          lineEnds.KeepsMark "//".toList line.toList := by
  have single : lineEnds.Single "//".toList :=
    LineEnds.single_of_printed (by decide)
  rw [comment, commentLines, String.toList_intercalate,
    show "\n".toList = ['\n'] from rfl,
    LineEnds.lines_intercalate (by simpa using some)]
  simp only [List.map_map, List.flatMap_map, List.forall_mem_flatMap,
    Function.comp_apply, marked_lines_iff single]

theorem block_lines {lines : List String} :
    lineEnds.lines (comment .block lines).toList =
      "/*".toList :: lines.flatMap (fun line =>
        lineEnds.lines (marked " *" line).toList) ++ [" */".toList] := by
  have opening : lineEnds.Single "/*".toList :=
    LineEnds.single_of_printed (by decide)
  have ending : lineEnds.Single " */".toList :=
    LineEnds.single_of_printed (by decide)
  rw [comment, commentLines, String.toList_intercalate,
    show "\n".toList = ['\n'] from rfl,
    LineEnds.lines_intercalate (by simp)]
  simp only [List.map_append, List.map_cons, List.map_nil,
    List.flatMap_append, List.flatMap_cons, List.flatMap_nil,
    List.append_nil, LineEnds.lines_of_single opening,
    LineEnds.lines_of_single ending, List.singleton_append, List.map_map,
    List.flatMap_map, Function.comp_apply]

theorem forall_inner_block_lines_iff {lines : List String} :
    (∀ part ∈
        (lineEnds.lines (comment .block lines).toList).tail.dropLast,
      " *".toList <+: part) ↔
        ∀ line ∈ lines,
          lineEnds.KeepsMark " *".toList line.toList := by
  have single : lineEnds.Single " *".toList :=
    LineEnds.single_of_printed (by decide)
  rw [block_lines, List.cons_append, List.tail_cons, List.dropLast_concat]
  simp only [List.forall_mem_flatMap, marked_lines_iff single]

/-! ## Comments of headers -/

theorem keepsMark_tool_iff {mark : List Char} {name version : String}
    (completes : ∀ line rest,
      mark <+: line ++ ([' ', 'v'] ++ rest) ↔ mark <+: line) :
    lineEnds.KeepsMark mark
        ("Generated by " ++ name ++ " v" ++ version).toList ↔
      lineEnds.KeepsMark mark name.toList ∧
        lineEnds.KeepsMark mark version.toList := by
  have parts : ("Generated by " ++ name ++ " v" ++ version).toList =
      "Generated by ".toList ++
        (name.toList ++ ([' ', 'v'] ++ version.toList)) := by
    simp only [String.toList_append, List.append_assoc]
    rfl
  rw [parts, LineEnds.keepsMark_single_append_iff
      (LineEnds.single_of_printed (by decide)),
    LineEnds.keepsMark_append_iff
      (LineEnds.single_of_printed (by decide)) completes]

/-- The mark of a line is not completed by what stands between the name and
the version of a tool. -/
theorem prefix_append_iff {first second : Char} {line rest : List Char}
    (notBlank : second ≠ ' ') (notLetter : second ≠ 'v') :
    [first, second] <+: line ++ ([' ', 'v'] ++ rest) ↔
      [first, second] <+: line := by
  match line with
  | [] => simp [List.cons_prefix_cons, notLetter]
  | [only] => simp [List.cons_prefix_cons, notBlank]
  | one :: other :: others => simp [List.cons_prefix_cons]

theorem closing_infix_tool_iff {name version : String} :
    closing <:+: ("Generated by " ++ name ++ " v" ++ version).toList ↔
      closing <:+: name.toList ∨ closing <:+: version.toList := by
  have parts : ("Generated by " ++ name ++ " v" ++ version).toList =
      "Generated by".toList ++
        ' ' :: (name.toList ++ ' ' :: ([] ++ 'v' :: version.toList)) := by
    simp only [String.toList_append, List.append_assoc]
    rfl
  have fixed : ¬ closing <:+: "Generated by".toList := by decide
  have nothing : ¬ closing <:+: [] := by decide
  rw [parts, infix_append_cons_iff (by decide) (by decide),
    infix_append_cons_iff (by decide) (by decide),
    infix_append_cons_iff (by decide) (by decide),
    or_iff_right fixed, or_iff_right nothing]

/-- What the comments of a header enclose. For every header, moment and kind
of line ends: the mark that ends a block stands at the end of it and nowhere
else exactly if no text of the header holds it, and all lines of a comment
bear its mark exactly if every text bears it in all of its lines but the
first. -/
theorem header_comment (header : FileHeader) (now : Option Moment)
    (lineEnds : LineEnds) :
    (EndsOnlyIn closing (comment .block (header.lines now)).toList ↔
      ∀ text ∈ header.texts, ¬ closing <:+: text.toList) ∧
    ((∀ line ∈ (lineEnds.lines
        (comment .block (header.lines now)).toList).tail.dropLast,
      " *".toList <+: line) ↔
        ∀ text ∈ header.texts,
          lineEnds.KeepsMark " *".toList text.toList) ∧
    ((∀ line ∈ lineEnds.lines
        (comment .line (header.lines now)).toList,
      "//".toList <+: line) ↔
        ∀ text ∈ header.texts,
          lineEnds.KeepsMark "//".toList text.toList) := by
  have keeps (mark : List Char) : ∀ text, IsPlain text →
      lineEnds.KeepsMark mark text.toList :=
    fun text plain => LineEnds.keepsMark_of_single
      (LineEnds.single_of_printed fun character member =>
        (plain character member).1)
  have clear : ∀ text, IsPlain text → ¬ closing <:+: text.toList := by
    intro text plain inside
    exact (plain '*' (inside.subset (by decide))).2 rfl
  refine ⟨?_, ?_, ?_⟩
  · rw [endsOnlyIn_block_iff]
    exact forall_lines_iff clear
      ((not_congr closing_infix_tool_iff).trans not_or) now
  · rw [forall_inner_block_lines_iff]
    exact forall_lines_iff (keeps _)
      (keepsMark_tool_iff fun _ _ =>
        prefix_append_iff (by decide) (by decide)) now
  · rw [forall_line_lines_iff (by simp [FileHeader.lines])]
    exact forall_lines_iff (keeps _)
      (keepsMark_tool_iff fun _ _ =>
        prefix_append_iff (by decide) (by decide)) now

/-- A header with a text that ends a block and a text of two lines. -/
def leakyHeader : FileHeader where
  toolName := "tokens"
  toolVersion := "1.0"
  customLines := ["*/ body \x7b color: red \x7d", "first\nsecond"]

/-- Neither comment of this header holds what it should. -/
theorem leakyHeader_comment :
    ¬ EndsOnlyIn closing (comment .block (leakyHeader.lines none)).toList ∧
    ¬ (∀ line ∈ (LineEnds.feedOnly.lines
        (comment .block (leakyHeader.lines none)).toList).tail.dropLast,
      " *".toList <+: line) ∧
    ¬ ∀ line ∈ LineEnds.feedOnly.lines
        (comment .line (leakyHeader.lines none)).toList,
      "//".toList <+: line := by
  refine ⟨?_, by decide +kernel, by decide +kernel⟩
  rw [endsOnlyIn_block_iff]
  decide +kernel

end CommentStyle

end DesignTokens
