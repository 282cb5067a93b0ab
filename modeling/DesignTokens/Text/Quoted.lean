import DesignTokens.Text.Printable

/-!
# Quoted texts

A text between quotes, as messages show it: single quotes unless the text has
one and no double quote, and escapes for the quote in use, the backslash and
every character that is not printable.
-/

namespace DesignTokens.Text

/-- The low `count` hexadecimal digits of a number, in lower case. -/
def hexDigits (count n : Nat) : List Char :=
  List.leftpad count '0' (Nat.toDigits 16 n)

/-- The quote around a text. -/
def quoteFor (text : List Char) : Char :=
  if text.contains '\'' && !text.contains '"' then '"' else '\''

/-- The escape of a character between `quote` marks, where `shown` says which
characters stand for themselves. -/
def escape (shown : Char → Bool) (quote character : Char) : List Char :=
  if character = quote || character = '\\' then ['\\', character]
  else if character = '\n' then ['\\', 'n']
  else if character = '\r' then ['\\', 'r']
  else if character = '\t' then ['\\', 't']
  else if shown character then [character]
  else
    let code := character.toNat
    if code < 0x100 then '\\' :: 'x' :: hexDigits 2 code
    else if code < 0x10000 then '\\' :: 'u' :: hexDigits 4 code
    else '\\' :: 'U' :: hexDigits 8 code

/-- Characters between quotes. -/
def quotedWith (shown : Char → Bool) (text : List Char) : List Char :=
  let quote := quoteFor text
  quote :: (text.flatMap (escape shown quote) ++ [quote])

/-- A text between quotes. -/
def quoted (text : String) : String :=
  String.ofList (quotedWith isPrintable text.toList)

/-- Octets between quotes after the letter `b`: those of printable ASCII
stand for themselves. -/
def quotedOctets (octets : List UInt8) : String :=
  String.ofList <| 'b' ::
    quotedWith (fun character => 32 ≤ character.toNat &&
      character.toNat < 127)
      (octets.map fun octet => Char.ofNat octet.toNat)

end DesignTokens.Text
