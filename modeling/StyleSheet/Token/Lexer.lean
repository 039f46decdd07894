import StyleSheet.Token
import StyleSheet.Token.Lexeme

/-!
# Cutting a source into tokens

A source is read lexeme by lexeme until nothing is left. No source is refused: what fits no lexeme
becomes an unknown token.
-/

namespace StyleSheet

namespace Token

/-- The token for a lexeme at the start of the text `t`, which stands at `offset`. -/
def cut (offset : Nat) (t : Text) (l : Lexeme) : Token where
  kind := l.kind
  start := offset
  stop := offset + l.length
  text := if t.atBoundary && Text.atBoundary (t.drop l.length) then t.take l.length else []

/-- The tokens of a text that stands at `offset`. -/
def readFrom (d : Dialect) (offset : Nat) : Text → List Token
  | [] => []
  | b :: rest =>
    let l := Lexeme.read d (b :: rest)
    cut offset (b :: rest) l :: readFrom d (offset + l.length) ((b :: rest).drop l.length)
termination_by t => t.length
decreasing_by
  have pos := Lexeme.length_read_pos d (b :: rest)
  simp only [List.length_drop, List.length_cons]
  omega

/-- All tokens of a source, white space and comments included. -/
def read (d : Dialect) (source : Text) : List Token := readFrom d 0 source

/-- The tokens of a source without white space and comments. -/
def readSignificant (d : Dialect) (source : Text) : List Token := significant (read d source)

end Token

end StyleSheet
