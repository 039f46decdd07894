import StyleSheet.Grammar.Rule

/-!
# Names

An identifier is a run of adjacent pieces, each an identifier token or an interpolated value, with
dashes between them. CSS has no interpolation; there an identifier is one token.
-/

namespace StyleSheet.Grammar

open Rule

/-- The token that opens an interpolated value in a dialect. -/
def interpolationOpener? : Dialect → Option TokenKind
  | .css => none
  | .scss => some .hashBrace
  | .less => some .atBrace

/-- Whether an interpolated value opens `n` places ahead. -/
def opensInterpolation (d : Dialect) (n : Nat) (v : View) : Bool :=
  interpolationOpener? d == some (v.kind n)

/-- Whether a piece of an identifier starts `n` places ahead. -/
def startsPiece (d : Dialect) (n : Nat) (v : View) : Bool :=
  v.is n .ident || opensInterpolation d n v

/-- Whether an identifier starts at the cursor. -/
def startsIdent (d : Dialect) (v : View) : Bool := startsPiece d 0 v

/-- One piece of an identifier. -/
def identPiece (d : Dialect) : Rule := choose (opensInterpolation d 0) (call .interpolation) take

/-- A further piece of an identifier, or a dash before one. -/
def furtherPiece (d : Dialect) : Rule :=
  when (·.adjacent 0) <|
    choose (startsPiece d 0) (identPiece d >> accept) <|
      when (fun v => v.is 0 .minus && v.adjacent 1 && startsPiece d 1 v) take

/-- The tokens of an identifier, without a node around them. -/
def identPieces (d : Dialect) : Rule :=
  when (startsIdent d) (identPiece d >> many (furtherPiece d))

/-- An identifier. -/
def ident (d : Dialect) : Rule := when (startsIdent d) (group .identifier (identPieces d))

/-- An interpolated value: an expression in SCSS, a name in LESS. -/
def interpolation : Dialect → Rule
  | .css => fail
  | .scss =>
    when (·.is 0 .hashBrace) <| group .interpolation <|
      take >> (call (.expression false) ||| report .expressionExpected) >>
        expect .rightBrace .rightCurlyExpected
  | .less =>
    when (·.is 0 .atBrace) <| group .interpolation <|
      take >> expect .ident .identifierExpected >> expect .rightBrace .rightCurlyExpected

/-- A string. -/
def stringLiteral : Rule := when (·.isAny [.string, .badString]) (leaf .stringLiteral)

/-- Whether a string or a `url(...)` starts at the cursor. -/
def startsStringOrUri (v : View) : Bool :=
  v.is 0 .url || (v.isWord 0 "url" && v.callFollows) || v.isAny [.string, .badString]

/-- A string or a `url(...)`. -/
def stringOrUri : Rule := when startsStringOrUri (call .term >> accept)

/-- One token, or a whole group in brackets. A group ends at its closer, at a closing brace or at
the end; it matches only if it ends at its closer. Closers of other brackets inside of it are
skipped. -/
def balanced : Rule :=
  look fun v =>
    let toCloser (closer : TokenKind) : Rule :=
      take >>
        many (choose (·.isAny [closer, .rightBrace, .endOfInput]) fail <|
          choose (·.isAny [.rightParen, .rightBracket]) take (call .balanced >> accept)) >>
        token closer
    match v.kind 0 with
    | .leftBrace | .hashBrace | .atBrace => toCloser .rightBrace
    | .leftParen => toCloser .rightParen
    | .leftBracket => toCloser .rightBracket
    | _ => take

end StyleSheet.Grammar
