import StyleSheet.Kind
import StyleSheet.Text

/-!
# Tokens

A token is a kind and a span of the source. Its text is that of the span; a token that starts or
ends inside a character has no text of its own, and then its text is empty although its span is not.
-/

namespace StyleSheet

/-- A token of a source. -/
structure Token where
  /-- The kind. -/
  kind : TokenKind
  /-- The offset of the first byte. -/
  start : Nat
  /-- The offset behind the last byte. -/
  stop : Nat
  /-- The text of the span, empty if the span starts or ends inside a character. -/
  text : Text
deriving DecidableEq, Repr

namespace Token

/-- Whether the token is white space or a comment. -/
def isTrivia (t : Token) : Bool := t.kind.isTrivia

/-- Whether both ends of the span are character boundaries, so that the text is all of the span. -/
def isWhole (t : Token) : Bool := t.text.length == t.stop - t.start

/-- The token as it stands `n` bytes further on. -/
def shift (n : Nat) (t : Token) : Token := { t with start := t.start + n, stop := t.stop + n }

/-- The tokens that are neither white space nor comments. -/
def significant (tokens : List Token) : List Token := tokens.filter (!·.isTrivia)

end Token

end StyleSheet
