import StyleSheet.Parser

/-!
# What the grammar sees

The grammar decides by the kinds and texts of the tokens ahead, by the gaps between them and by the
kind of the token taken last. It sees neither offsets nor the white space and comments themselves.
-/

namespace StyleSheet

/-- What lies around the cursor. -/
structure View where
  /-- The kind of the token `n` places ahead. -/
  kind : Nat → TokenKind
  /-- The text of the token `n` places ahead. -/
  text : Nat → Text
  /-- Whether the token `n` places ahead stands apart from the one before it. -/
  gap : Nat → Bool
  /-- The kind of the token taken last. -/
  last : Option TokenKind

/-- What is seen at the place reached in a stream. -/
def Token.Stream.view (s : Token.Stream) : View where
  kind := s.kindAt
  text := s.textAt
  gap := s.gapAt
  last := (s.before? 0).map Token.kind

namespace View

/-- Whether the token `n` places ahead is of the given kind. -/
def is (v : View) (n : Nat) (kind : TokenKind) : Bool := v.kind n == kind

/-- Whether the next token is of one of the given kinds. -/
def isAny (v : View) (kinds : List TokenKind) : Bool := kinds.contains (v.kind 0)

/-- Whether the token `n` places ahead is the identifier `word`, which is in lower case, up to ASCII
case. -/
def isWord (v : View) (n : Nat) (word : String) : Bool := v.is n .ident && (v.text n).isWord word

/-- Whether the next token is the at-keyword `word`, which is in lower case, up to ASCII case. -/
def isKeyword (v : View) (word : String) : Bool := v.is 0 .atKeyword && (v.text 0).isWord word

/-- Whether there is a token `n` places ahead and it directly follows the one before it. -/
def adjacent (v : View) (n : Nat) : Bool := !v.is n .endOfInput && !v.gap n

/-- Whether the next token is an opening parenthesis that directly follows the last token. -/
def opensCall (v : View) : Bool := v.is 0 .leftParen && v.adjacent 0

/-- Whether the token behind the next one is an opening parenthesis that directly follows it. -/
def callFollows (v : View) : Bool := v.is 1 .leftParen && v.adjacent 1

/-- Whether the next tokens are the mark `!important`. -/
def isImportant (v : View) : Bool := v.is 0 .bang && v.isWord 1 "important"

/-- Whether the last token was a closing brace or a semicolon. -/
def afterBlockOrSemicolon (v : View) : Bool :=
  v.last == some .rightBrace || v.last == some .semicolon

end View

end StyleSheet
