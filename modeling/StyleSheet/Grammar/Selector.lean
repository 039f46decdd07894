import StyleSheet.Grammar.Name

/-!
# Selectors

A selector is a row of simple selectors and combinators; a simple selector is a run of adjacent
parts. Two simple selectors with only a blank between them need no combinator.
-/

namespace StyleSheet.Grammar

open Rule

/-- The pseudo-classes whose arguments are selectors. -/
def selectorPseudos : List Text := List.map Text.ofString [
  "not", "is", "where", "has", "matches", "any", "-webkit-any", "-moz-any", "host", "host-context",
  "slotted", "current", "past", "future", "global", "local", "deep", "cue"]

/-- The pseudo-classes whose arguments are counts. -/
def nthPseudos : List Text := List.map Text.ofString [
  "nth-child", "nth-last-child", "nth-of-type", "nth-last-of-type", "nth-col", "nth-last-col"]

/-- Whether the next token can begin a selector. -/
def startsSelector (d : Dialect) (v : View) : Bool :=
  startsIdent d v ||
    v.isAny [.star, .dot, .hash, .leftBracket, .colon, .ampersand, .greater, .plus, .tilde, .pipe,
      .placeholder, .unicodeRange]

/-- Selectors divided by commas. -/
def selectors : Rule :=
  node .selectors (call .selector &&& moreAfterCommas (call .selector) .selectorExpected)

/-- One selector. Ranges of code points are cut, because `u+a` is two selectors here. -/
def selector : Rule :=
  let part := cutRange >> (call .combinator ||| call .simpleSelector)
  node .selector (part &&& many part)

/-- A combinator: a child, sibling or shadow-piercing one. -/
def combinator : Rule :=
  node .combinator <| look fun v =>
    match v.kind 0 with
    | .greater =>
      take >>
        when (fun v => v.is 0 .greater && v.adjacent 0 && v.is 1 .greater && v.adjacent 1)
          (take >> take) >>
        accept
    | .plus | .tilde => take
    | .slash => if v.isWord 1 "deep" && v.is 2 .slash then take >> take >> take else fail
    | _ => fail

/-! ## Simple selectors -/

/-- An element name or `*`, perhaps behind a namespace. -/
def elementName (d : Dialect) : Rule :=
  let bareNamespace (v : View) : Bool :=
    v.is 0 .pipe && v.adjacent 1 && (v.is 1 .ident || v.is 1 .star)
  let qualified := take >> (token .star ||| identPieces d ||| report .identifierOrWildcardExpected)
  choose bareNamespace (group .elementName qualified) <|
    when (fun v => startsIdent d v || v.is 0 .star) <| group .elementName <|
      (token .star ||| identPieces d) >> when (fun v => v.is 0 .pipe && v.adjacent 0) qualified

/-- An ampersand for the enclosing selector, with a suffix in the dialects that have one. -/
def parentReference (d : Dialect) : Rule :=
  when (·.is 0 .ampersand) <| group .parentReference <|
    take >> when (fun v => d ≠ .css && v.adjacent 0) (identPieces d)

/-- A class: a dot and a name directly behind it. -/
def classSelector (d : Dialect) : Rule :=
  group .classSelector <|
    take >> ((test (·.adjacent 0) &&& identPieces d) ||| report .identifierExpected)

/-- A test of an attribute, in brackets. -/
def attributeSelector (d : Dialect) : Rule :=
  group .attributeSelector <|
    take >>
      choose (fun v => (startsIdent d v || v.is 0 .star) && v.is 1 .pipe) (take >> take)
        (token .pipe) >>
      (identPieces d ||| report .identifierExpected) >>
      when (·.isAny [.equal, .tildeEqual, .pipeEqual, .caretEqual, .dollarEqual, .starEqual]) (
        leaf .operator >> (call .term ||| report .termExpected) >> token .ident) >>
      close .rightBracket .rightSquareBracketExpected [.leftBrace, .semicolon]

/-- A part of a count such as `2n+1`. -/
def nthPart (d : Dialect) : Rule :=
  look fun v =>
    match v.kind 0 with
    | .number | .dimension | .plus | .minus | .dollarName => take
    | .ident => if v.isWord 0 "of" then fail else take
    | .hashBrace => if d = .scss then call .interpolation >> accept else fail
    | _ => fail

/-- A count, perhaps of the elements that match selectors. -/
def nth (d : Dialect) : Rule :=
  group .nth <|
    ((nthPart d &&& many (nthPart d)) ||| report .termExpected) >>
      (word "of" &&& (call .selectors ||| report .selectorExpected))

/-- The argument of the pseudo-class with the given name. -/
def pseudoArgument (d : Dialect) (name : Text) : Rule :=
  if selectorPseudos.contains name then call .selectors ||| report .selectorExpected
  else if nthPseudos.contains name then nth d
  else skipUntil (·.isAny [.rightParen, .rightBrace, .semicolon, .endOfInput])

/-- A pseudo-class or pseudo-element. -/
def pseudoSelector (d : Dialect) : Rule :=
  group .pseudoSelector <|
    take >> when (fun v => v.is 0 .colon && v.adjacent 0) take >>
      look fun v =>
        if v.adjacent 0 && startsIdent d v then
          identPieces d >> when View.opensCall (
            take >> pseudoArgument d (v.text 0).lower >>
              expect .rightParen .rightParenthesisExpected)
        else report .identifierExpected

/-- A part of a simple selector. -/
def selectorPart (d : Dialect) : Rule :=
  look fun v =>
    match v.kind 0 with
    | .hash => leaf .idSelector
    | .dot => classSelector d
    | .leftBracket => attributeSelector d
    | .colon => pseudoSelector d
    | .placeholder => if d = .scss then leaf .placeholderSelector else fail
    | .ampersand => parentReference d
    | _ => when (startsIdent d) (call .ident >> accept)

/-- A run of adjacent selector parts. In LESS the word `when` begins a guard instead. -/
def simpleSelector (d : Dialect) : Rule :=
  choose (fun v => d = .less && v.isWord 0 "when") fail <|
    node .simpleSelector <|
      (elementName d ||| parentReference d ||| selectorPart d) &&&
        many (when (·.adjacent 0) (selectorPart d))

end StyleSheet.Grammar
