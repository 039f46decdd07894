import StyleSheet.Dialect
import StyleSheet.Kind
import StyleSheet.Numeral
import StyleSheet.Vocabulary

/-!
# Lexemes

A lexeme is the kind and the length of the token at the start of a text. It depends on nothing but
the dialect and the text from there on, so reading may start again at the end of any token.

Names take characters of several bytes whole, except after a backslash: an escape is the backslash
and the one byte behind it. A token may therefore end inside a character; the bytes that are left of
it form an unknown token of their own.

Main statement: at the start of a text that is not empty there is a lexeme that is not empty
(`Lexeme.length_read_pos`).
-/

namespace StyleSheet

/-- The kind and the length of the token at the start of a text. -/
structure Lexeme where
  /-- The kind of the token. -/
  kind : TokenKind
  /-- The number of bytes that the token takes. -/
  length : Nat
deriving DecidableEq, Repr

namespace Lexeme

/-- A lexeme of the given length, if that is not zero. -/
def ofLength? (kind : TokenKind) (length : Nat) : Option Lexeme :=
  if length = 0 then none else some ⟨kind, length⟩

/-- The number of bytes of a class at the start of a text. -/
def runLength (p : UInt8 → Bool) (t : Text) : Nat := (t.takeWhile p).length

/-! ## White space and comments -/

/-- A run of white space. -/
def blank? (t : Text) : Option Lexeme := ofLength? .whitespace (runLength Byte.isBlank t)

/-- The length of a comment behind its opening: through the first closing, or all of the text. -/
def commentLength : Text → Nat
  | [] => 0
  | b :: rest =>
    if b == byte '*' && rest.head? == some (byte '/') then 2 else 1 + commentLength rest

/-- A comment between `/*` and `*/`, or from `//` to the end of the line in the dialects that have
such comments. -/
def comment? (d : Dialect) (t : Text) : Option Lexeme :=
  if t.startsWith "/*" then some ⟨.comment, 2 + commentLength (t.drop 2)⟩
  else if d.hasLineComments && t.startsWith "//" then
    some ⟨.comment, 2 + runLength (fun b => !Byte.isLineBreak b) (t.drop 2)⟩
  else none

/-! ## Strings -/

/-- The length of the body of a string with quotation mark `q`: it ends before the mark, before a
line break or with the text, and a backslash takes the byte behind it along. -/
def stringLength (q : UInt8) : Text → Nat
  | [] => 0
  | [b] => if b == q || Byte.isLineBreak b then 0 else 1
  | b :: c :: rest =>
    if b == q || Byte.isLineBreak b then 0
    else if b == byte '\\' then 2 + stringLength q rest
    else 1 + stringLength q (c :: rest)

/-- A string, closed by its quotation mark or not. -/
def string? : Text → Option Lexeme
  | [] => none
  | q :: rest =>
    if Byte.isQuote q then
      let n := stringLength q rest
      if (rest.drop n).head? == some q then some ⟨.string, n + 2⟩ else some ⟨.badString, n + 1⟩
    else none

/-! ## Names -/

/-- Whether a byte is an ASCII character of names. -/
def isNameByte (b : UInt8) : Bool :=
  Byte.isLetter b || Byte.isDigit b || b == byte '_' || b == byte '-'

/-- Whether a text starts with a backslash that escapes the byte behind it. -/
def startsEscape : Text → Bool
  | b :: c :: _ => b == byte '\\' && !Byte.isLineBreak c
  | _ => false

/-- The length of the run of name characters and escapes at the start of a text. A byte that
continues a character belongs to the run only where `inside` says that the character does. -/
def nameLength (inside : Bool) : Text → Nat
  | [] => 0
  | [b] =>
    if (Byte.isContinuation b && inside) || Byte.isLead b || isNameByte b then 1 else 0
  | b :: c :: rest =>
    if (Byte.isContinuation b && inside) || Byte.isLead b then 1 + nameLength true (c :: rest)
    else if isNameByte b then 1 + nameLength false (c :: rest)
    else if b == byte '\\' && !Byte.isLineBreak c then 2 + nameLength false rest
    else 0

/-- Whether a text starts with a character that may begin a name. -/
def startsName : Text → Bool
  | [] => false
  | b :: rest =>
    Byte.isLetter b || b == byte '_' || Byte.isLead b || startsEscape (b :: rest)

/-- Whether a text starts with an identifier: a name, perhaps after a dash, or two dashes. -/
def startsIdent : Text → Bool
  | [] => false
  | b :: rest =>
    startsName (b :: rest) || (b == byte '-' && (startsName rest || rest.head? == some (byte '-')))

/-- The length of the identifier at the start of a text, zero if there is none. -/
def identLength (t : Text) : Nat := if startsIdent t then nameLength false t else 0

/-- An identifier. -/
def ident? (t : Text) : Option Lexeme := ofLength? .ident (identLength t)

/-- What two dashes can begin besides an identifier: the close of a markup comment, and a minus sign
of two bytes before a backslash that escapes nothing. -/
def dashes? (t : Text) : Option Lexeme :=
  if t.startsWith "-->" then some ⟨.markupClose, 3⟩
  else if t.startsWith "--\\" && !startsEscape (t.drop 2) then some ⟨.minus, 2⟩
  else none

/-- The kind of an identifier behind a sign. -/
def sigilKind? (b : UInt8) : Option TokenKind :=
  if b == byte '@' then some .atKeyword
  else if b == byte '$' then some .dollarName
  else if b == byte '%' then some .placeholder
  else none

/-- A sign and the identifier behind it, or a number sign and the name behind it. -/
def sigil? : Text → Option Lexeme
  | [] => none
  | b :: rest =>
    if b == byte '#' then
      (ofLength? .hash (nameLength false rest)).map fun l => ⟨l.kind, l.length + 1⟩
    else
      (sigilKind? b).bind fun kind =>
        (ofLength? kind (identLength rest)).map fun l => ⟨l.kind, l.length + 1⟩

/-! ## Numbers and ranges of code points -/

/-- A number. -/
def number? (t : Text) : Option Lexeme := ofLength? .number (Numeral.numberLength t)

/-- The length of the second end of a range, with its dash. -/
def rangeEndLength : Text → Nat
  | [] => 0
  | b :: rest =>
    if b == byte '-' then
      match runLength Byte.isHexDigit (rest.take 6) with
      | 0 => 0
      | n + 1 => n + 2
    else 0

/-- A range of code points. A range whose dash has no digits behind it is an identifier, and the
dash is not part of it. -/
def range? : Text → Option Lexeme
  | u :: plus :: rest =>
    if Byte.lower u == byte 'u' && plus == byte '+' then
      let n := runLength (fun b => Byte.isHexDigit b || b == byte '?') (rest.take 6)
      if n = 0 then none
      else
        let behind := rest.drop n
        let second := rangeEndLength behind
        if second = 0 && behind.head? == some (byte '-') then some ⟨.ident, n + 2⟩
        else some ⟨.unicodeRange, n + second + 2⟩
    else none
  | _ => none

/-! ## Punctuation and the rest -/

/-- The punctuation marks; one that begins with another one stands before it. -/
def marks : List (Text × TokenKind) := [
  (Text.ofString "<!--", .markupOpen), (Text.ofString "...", .ellipsis),
  (Text.ofString "#\x7b", .hashBrace), (Text.ofString "@\x7b", .atBrace),
  (Text.ofString ">=", .greaterEqual), (Text.ofString "<=", .lessEqual),
  (Text.ofString "==", .doubleEqual), (Text.ofString "!=", .notEqual),
  (Text.ofString "^=", .caretEqual), (Text.ofString "$=", .dollarEqual),
  (Text.ofString "*=", .starEqual), (Text.ofString "~=", .tildeEqual),
  (Text.ofString "|=", .pipeEqual),
  (Text.ofString "@", .atSign), (Text.ofString "(", .leftParen), (Text.ofString ")", .rightParen),
  (Text.ofString "\x7b", .leftBrace), (Text.ofString "\x7d", .rightBrace),
  (Text.ofString "[", .leftBracket), (Text.ofString "]", .rightBracket),
  (Text.ofString ";", .semicolon), (Text.ofString ":", .colon), (Text.ofString ",", .comma),
  (Text.ofString ".", .dot), (Text.ofString "*", .star), (Text.ofString "/", .slash),
  (Text.ofString "+", .plus), (Text.ofString "-", .minus), (Text.ofString ">", .greater),
  (Text.ofString "<", .less), (Text.ofString "=", .equal), (Text.ofString "~", .tilde),
  (Text.ofString "!", .bang), (Text.ofString "&", .ampersand), (Text.ofString "|", .pipe),
  (Text.ofString "^", .caret), (Text.ofString "%", .percent)]

/-- A punctuation mark. -/
def mark? (t : Text) : Option Lexeme :=
  (marks.find? fun m => m.1.isPrefixOf t).map fun m => ⟨m.2, m.1.length⟩

/-- Whatever else there is, up to the next character boundary. -/
def unknown (t : Text) : Lexeme := ⟨.unknown, 1 + runLength Byte.isContinuation (t.drop 1)⟩

/-- The lexeme at the start of a text, as it stands without a look at its neighbours. -/
def simple (d : Dialect) (t : Text) : Lexeme :=
  ((blank? t).or <| (comment? d t).or <| (string? t).or <| (dashes? t).or <| (range? t).or <|
    (ident? t).or <| (number? t).or <| (sigil? t).or <| mark? t).getD (unknown t)

/-! ## Lexemes that reach over their neighbours -/

/-- The length of the rest of the body of a raw url, with the closing parenthesis. The body has no
quotation marks and no parentheses except behind a backslash, and once white space has `ended` it,
only the closing parenthesis may follow. -/
def urlBodyLength? (ended : Bool) : Text → Option Nat
  | [] => none
  | [b] => if b == byte ')' then some 1 else none
  | b :: c :: rest =>
    if b == byte ')' then some 1
    else if b == byte '\\' then
      if ended || c == byte '\n' || c == byte '\r' then none
      else (urlBodyLength? ended rest).map (· + 2)
    else if Byte.isBlank b then (urlBodyLength? true (c :: rest)).map (· + 1)
    else if Byte.isQuote b || b == byte '(' || ended then none
    else (urlBodyLength? ended (c :: rest)).map (· + 1)

/-- The length of what follows the opening parenthesis of a raw url: white space, a body that is not
empty and not quoted, and the closing parenthesis. -/
def urlLength? (t : Text) : Option Nat :=
  let n := runLength Byte.isBlank t
  match t.drop n with
  | [] => none
  | b :: rest =>
    if Byte.isQuote b || b == byte ')' then none
    else (urlBodyLength? false (b :: rest)).map (· + n)

/-- The raw url that an identifier of length `n` at the start of a text begins, if it does. -/
def url? (t : Text) (n : Nat) : Option Lexeme :=
  if Text.isWord (t.take n) "url" then
    match t.drop n with
    | [] => none
    | b :: rest =>
      if b == byte '(' then (urlLength? rest).map fun m => ⟨.url, n + 1 + m⟩ else none
  else none

/-- The percentage or dimension that a number of length `n` at the start of a text begins, if it
does: a percent sign or a known unit stands directly behind the number. -/
def measure? (d : Dialect) (t : Text) (n : Nat) : Option Lexeme :=
  let behind := t.drop n
  let next := simple d behind
  match next.kind with
  | .percent => some ⟨.percentage, n + next.length⟩
  | .ident =>
    if isUnit (behind.take next.length) then some ⟨.dimension, n + next.length⟩ else none
  | _ => none

/-- The lexeme at the start of a text. -/
def read (d : Dialect) (t : Text) : Lexeme :=
  let first := simple d t
  match first.kind with
  | .ident => (url? t first.length).getD first
  | .number => (measure? d t first.length).getD first
  | _ => first

/-! ## Lexemes are not empty -/

theorem length_of_ofLength? {kind : TokenKind} {n : Nat} {l : Lexeme}
    (h : ofLength? kind n = some l) : 0 < l.length := by
  grind [ofLength?]

theorem length_of_comment? {d : Dialect} {t : Text} {l : Lexeme} (h : comment? d t = some l) :
    0 < l.length := by
  grind [comment?]

theorem length_of_string? {t : Text} {l : Lexeme} (h : string? t = some l) : 0 < l.length := by
  cases t with
  | nil => simp [string?] at h
  | cons q rest => grind [string?]

theorem length_of_dashes? {t : Text} {l : Lexeme} (h : dashes? t = some l) : 0 < l.length := by
  grind [dashes?]

theorem length_of_range? {t : Text} {l : Lexeme} (h : range? t = some l) : 0 < l.length := by
  match t with
  | [] | [_] => simp [range?] at h
  | u :: plus :: rest => grind [range?]

theorem length_of_sigil? {t : Text} {l : Lexeme} (h : sigil? t = some l) : 0 < l.length := by
  cases t with
  | nil => simp [sigil?] at h
  | cons b rest => grind [sigil?, Option.map_eq_some_iff, Option.bind_eq_some_iff]

theorem length_mark_pos : ∀ m ∈ marks, 0 < m.1.length := by decide

theorem length_of_mark? {t : Text} {l : Lexeme} (h : mark? t = some l) : 0 < l.length := by
  obtain ⟨m, hm, rfl⟩ := Option.map_eq_some_iff.1 h
  exact length_mark_pos m (List.mem_of_find?_eq_some hm)

theorem length_of_url? {t : Text} {n : Nat} {l : Lexeme} (h : url? t n = some l) :
    0 < l.length := by
  grind [url?, Option.map_eq_some_iff]

theorem length_of_measure? {d : Dialect} {t : Text} {n : Nat} {l : Lexeme} (hn : 0 < n)
    (h : measure? d t n = some l) : 0 < l.length := by
  grind [measure?]

theorem length_simple_pos (d : Dialect) (t : Text) : 0 < (simple d t).length := by
  unfold simple
  cases h : (blank? t).or <| (comment? d t).or <| (string? t).or <| (dashes? t).or <|
    (range? t).or <|
    (ident? t).or <| (number? t).or <| (sigil? t).or <| mark? t with
  | none => simp only [Option.getD_none, unknown]; omega
  | some l =>
    rw [Option.getD_some]
    simp only [Option.or_eq_some_iff] at h
    rcases h with h | ⟨-, h | ⟨-, h | ⟨-, h | ⟨-, h | ⟨-, h | ⟨-, h | ⟨-, h | ⟨-, h⟩⟩⟩⟩⟩⟩⟩⟩
    · exact length_of_ofLength? h
    · exact length_of_comment? h
    · exact length_of_string? h
    · exact length_of_dashes? h
    · exact length_of_range? h
    · exact length_of_ofLength? h
    · exact length_of_ofLength? h
    · exact length_of_sigil? h
    · exact length_of_mark? h

/-- A lexeme takes at least one byte. -/
theorem length_read_pos (d : Dialect) (t : Text) : 0 < (read d t).length := by
  have pos := length_simple_pos d t
  unfold read
  dsimp only
  split
  · cases h : url? t (simple d t).length with
    | none => exact pos
    | some l => exact length_of_url? h
  · cases h : measure? d t (simple d t).length with
    | none => exact pos
    | some l => exact length_of_measure? pos h
  · exact pos

end Lexeme

end StyleSheet
