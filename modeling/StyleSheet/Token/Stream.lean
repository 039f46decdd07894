import StyleSheet.Token.Lexer

/-!
# The stream of significant tokens

The grammar reads the tokens that are neither white space nor comments, from left to right. A stream
holds them with the place reached, and answers questions about what lies around that place.
-/

namespace StyleSheet

/-- Replaces the `n` elements of an array from index `i` on. -/
def splice {α : Type} (a : Array α) (i n : Nat) (parts : List α) : Array α :=
  a.take i ++ parts.toArray ++ a.drop (i + n)

namespace Token

/-- The significant tokens of a source and a place among them. -/
structure Stream where
  /-- The significant tokens. -/
  tokens : Array Token
  /-- How many of them have been taken. -/
  cursor : Nat
  /-- The number of bytes of the source. -/
  length : Nat
deriving DecidableEq, Repr

namespace Stream

/-- The stream before the first of the given tokens, of a source with `length` bytes. -/
def ofTokens (tokens : List Token) (length : Nat) : Stream :=
  ⟨(significant tokens).toArray, 0, length⟩

/-- The token `n` places ahead, if there is one. -/
def peek? (s : Stream) (n : Nat) : Option Token := s.tokens[s.cursor + n]?

/-- The token before the one `n` places ahead, if there is one. -/
def before? (s : Stream) (n : Nat) : Option Token :=
  match s.cursor + n with
  | 0 => none
  | i + 1 => s.tokens[i]?

/-- The kind of the token `n` places ahead. -/
def kindAt (s : Stream) (n : Nat) : TokenKind :=
  match s.peek? n with
  | some t => t.kind
  | none => .endOfInput

/-- The text of the token `n` places ahead. -/
def textAt (s : Stream) (n : Nat) : Text :=
  match s.peek? n with
  | some t => t.text
  | none => []

/-- Whether white space or a comment stands before the token `n` places ahead. The first token of a
source counts as if it did, and at the end the end of the source takes the place of a token. -/
def gapAt (s : Stream) (n : Nat) : Bool :=
  match s.before? n with
  | none => true
  | some b =>
    match s.peek? n with
    | some t => b.stop < t.start
    | none => b.stop < s.length

/-- Whether all tokens have been taken. -/
def isExhausted (s : Stream) : Bool := s.tokens.size ≤ s.cursor

/-- The stream behind the next token. -/
def advance (s : Stream) : Stream := { s with cursor := s.cursor + 1 }

end Stream

end Token

end StyleSheet
