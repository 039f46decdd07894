/-!
# Text as UTF-8 bytes

Offsets in a style sheet are byte offsets, and a few tokens end inside a character, so the library
works on the bytes of a text. A `Text` is the list of its bytes; this file gives the classes of
bytes that the lexer distinguishes, the comparison without ASCII case, the character boundaries,
and the removal of surrounding white space.
-/

namespace StyleSheet

/-- A text, as the bytes of its UTF-8 encoding. -/
abbrev Text := List UInt8

/-- The byte of an ASCII character. -/
def byte (c : Char) : UInt8 := c.toUInt8

namespace Byte

/-- Space, tab, carriage return, line feed and form feed. -/
def isBlank (b : UInt8) : Bool :=
  b == byte ' ' || b == byte '\t' || b == byte '\r' || b == byte '\n' || b == 0x0C

/-- Line feed, carriage return and form feed: what ends a line. -/
def isLineBreak (b : UInt8) : Bool := b == byte '\n' || b == byte '\r' || b == 0x0C

/-- An ASCII digit. -/
def isDigit (b : UInt8) : Bool := byte '0' ≤ b && b ≤ byte '9'

/-- An upper-case ASCII letter. -/
def isUpper (b : UInt8) : Bool := byte 'A' ≤ b && b ≤ byte 'Z'

/-- An ASCII letter. -/
def isLetter (b : UInt8) : Bool := isUpper b || (byte 'a' ≤ b && b ≤ byte 'z')

/-- An ASCII hexadecimal digit. -/
def isHexDigit (b : UInt8) : Bool :=
  isDigit b || (byte 'a' ≤ b && b ≤ byte 'f') || (byte 'A' ≤ b && b ≤ byte 'F')

/-- A byte that continues a character of several bytes. -/
def isContinuation (b : UInt8) : Bool := 0x80 ≤ b && b < 0xC0

/-- A byte that opens a character of several bytes. -/
def isLead (b : UInt8) : Bool := 0xC0 ≤ b

/-- A single or double quotation mark. -/
def isQuote (b : UInt8) : Bool := b == byte '"' || b == byte '\''

/-- Replaces an upper-case ASCII letter by its lower-case form. -/
def lower (b : UInt8) : UInt8 := if isUpper b then b + 0x20 else b

end Byte

namespace Text

/-- The bytes of a string. -/
def ofString (s : String) : Text := s.toUTF8.data.toList

/-- The string with these bytes, empty if they are no UTF-8. -/
def toString (t : Text) : String := (String.fromUTF8? ⟨t.toArray⟩).getD ""

/-- The text with its ASCII letters in lower case. -/
def lower (t : Text) : Text := t.map Byte.lower

/-- Whether the text is `word`, which is in lower case, up to ASCII case. -/
def isWord (t : Text) (word : String) : Bool := t.lower == ofString word

/-- Whether the text begins with the bytes of `s`. -/
def startsWith (t : Text) (s : String) : Bool := (ofString s).isPrefixOf t

/-- Whether a character begins at the start of what remains of a text. -/
def atBoundary : Text → Bool
  | [] => true
  | b :: _ => !Byte.isContinuation b

/-- The text without the bytes `b` that stand at its start. -/
def dropByte (b : UInt8) (t : Text) : Text := t.dropWhile (· == b)

/-- What follows the first `b` of the text, if there is one. -/
def after? (b : UInt8) : Text → Option Text
  | [] => none
  | c :: rest => if c == b then some rest else after? b rest

/-- What follows the last `b` of the text, if there is one. -/
def afterLast? (b : UInt8) : Text → Option Text
  | [] => none
  | c :: rest => (afterLast? b rest).or (if c == b then some rest else none)

/-! ## White space

White space around a name or a value is that of Unicode: 25 characters, of which 19 take two or
three bytes. -/

/-- Removes one white-space character from the start of a text. -/
def dropSpace? : Text → Option Text
  | 0xC2 :: 0x85 :: rest | 0xC2 :: 0xA0 :: rest => some rest
  | 0xE1 :: 0x9A :: 0x80 :: rest => some rest
  | 0xE2 :: 0x80 :: b :: rest =>
    if (0x80 ≤ b && b ≤ 0x8A) || b == 0xA8 || b == 0xA9 || b == 0xAF then some rest else none
  | 0xE2 :: 0x81 :: 0x9F :: rest => some rest
  | 0xE3 :: 0x80 :: 0x80 :: rest => some rest
  | b :: rest => if b == 0x20 || (0x09 ≤ b && b ≤ 0x0D) then some rest else none
  | [] => none

/-- Removes one white-space character from the start of a text whose bytes are in reverse. -/
def dropSpaceReversed? : Text → Option Text
  | 0x85 :: 0xC2 :: rest | 0xA0 :: 0xC2 :: rest => some rest
  | 0x80 :: 0x9A :: 0xE1 :: rest => some rest
  | 0x80 :: 0x80 :: 0xE3 :: rest => some rest
  | b :: 0x80 :: 0xE2 :: rest =>
    if (0x80 ≤ b && b ≤ 0x8A) || b == 0xA8 || b == 0xA9 || b == 0xAF then some rest else none
  | 0x9F :: 0x81 :: 0xE2 :: rest => some rest
  | b :: rest => if b == 0x20 || (0x09 ≤ b && b ≤ 0x0D) then some rest else none
  | [] => none

/-- Applies `drop?`, which shortens a text, as often as it succeeds; `n` bounds the number of
times. -/
def dropRepeatedly (drop? : Text → Option Text) : Nat → Text → Text
  | 0, t => t
  | n + 1, t =>
    match drop? t with
    | some rest => dropRepeatedly drop? n rest
    | none => t

/-- The text without the white space at its start and its end. -/
def trim (t : Text) : Text :=
  let fromStart := dropRepeatedly dropSpace? t.length t
  (dropRepeatedly dropSpaceReversed? fromStart.length fromStart.reverse).reverse

/-- The text without the bytes of a class at its start and its end. -/
def trimBytes (drop : UInt8 → Bool) (t : Text) : Text :=
  ((t.dropWhile drop).reverse.dropWhile drop).reverse

end Text

end StyleSheet
