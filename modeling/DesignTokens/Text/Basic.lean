/-!
# Parts of texts

The text that octets encode, the parts of a text between the occurrences of a
character, and a text without the blanks around it.
-/

namespace DesignTokens.Text

/-- The text that octets encode in UTF-8, if they encode one. -/
def decode? (octets : List UInt8) : Option String :=
  String.fromUTF8? ⟨octets.toArray⟩

/-- The parts between the occurrences of `mark`, of which there is always
one. -/
def parts (mark : Char) : List Char → List (List Char)
  | [] => [[]]
  | character :: rest =>
      if character = mark then [] :: parts mark rest
      else
        match parts mark rest with
        | [] => [[character]]
        | first :: others => (character :: first) :: others

/-! ## Blanks -/

/-- White space: tab to carriage return, the space and the wide, narrow and
line-breaking spaces beyond the first 128 characters. -/
def isBlank (character : Char) : Bool :=
  let code := character.toNat
  (9 ≤ code && code ≤ 13) || code == 32 || code == 0x85 || code == 0xa0 ||
    code == 0x1680 || (0x2000 ≤ code && code ≤ 0x200a) || code == 0x2028 ||
    code == 0x2029 || code == 0x202f || code == 0x205f || code == 0x3000

/-- A text without the blanks at its two ends. -/
def strip (text : List Char) : List Char :=
  ((text.dropWhile isBlank).reverse.dropWhile isBlank).reverse

end DesignTokens.Text
