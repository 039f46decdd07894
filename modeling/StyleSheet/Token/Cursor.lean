import StyleSheet.Token.Lexer

/-!
# Walking over tokens

A cursor stands before a token of a source or at its end. It gives the tokens out one at a time,
with or without white space and comments, and can be set to any offset. At the end it gives out an
empty token again and again.
-/

namespace StyleSheet.Token

/-- A position among the tokens of a source. -/
structure Cursor where
  /-- All tokens of the source. -/
  tokens : List Token
  /-- The number of bytes of the source. -/
  length : Nat
  /-- How many tokens lie before the cursor. -/
  index : Nat
deriving Repr

namespace Cursor

/-- The cursor at the start of a source. -/
def ofSource (d : Dialect) (source : Text) : Cursor := ⟨read d source, source.length, 0⟩

/-- The token that is given out at the end of the source. -/
def endToken (c : Cursor) : Token := ⟨.endOfInput, c.length, c.length, []⟩

/-- Where the next token starts. -/
def position (c : Cursor) : Nat :=
  match c.tokens[c.index]? with
  | some t => t.start
  | none => c.length

/-- Moves to the first token that starts at or after `offset`. -/
def seek (c : Cursor) (offset : Nat) : Cursor :=
  { c with index := (c.tokens.takeWhile fun t => t.start < offset).length }

/-- Gives out the next token, white space and comments included. -/
def next (c : Cursor) : Token × Cursor :=
  match c.tokens[c.index]? with
  | some t => (t, { c with index := c.index + 1 })
  | none => (c.endToken, c)

/-- Gives out the next token that is neither white space nor a comment. -/
def nextSignificant (c : Cursor) : Token × Cursor :=
  let skipped := ((c.tokens.drop c.index).takeWhile isTrivia).length
  next { c with index := c.index + skipped }

end Cursor

end StyleSheet.Token
