import StyleSheet.Grammar.Name

/-!
# Values

An expression is a row of operands, divided by blanks or commas. Operands are joined by operators in
layers of precedence; SCSS adds comparisons, equalities, `and`, `or` and the remainder to the
arithmetic that all dialects share.
-/

namespace StyleSheet.Grammar

open Rule

/-- Values divided by blanks and commas, up to the first comma if `single`. A comma without a value
behind it is a fault in CSS only. -/
def expression (d : Dialect) (single : Bool) : Rule :=
  node .expression <| call (.binary 1) &&& many (
    choose (·.is 0 .comma)
      (if single then fail
        else take >> (call (.binary 1) ||| if d = .css then report .termExpected else fail))
      (call (.binary 1)))

/-! ## Operators -/

/-- Whether a sign joins two operands: `a - b` and `a-b` do, and `a -b` is two values. -/
def isBinarySign (v : View) : Bool := v.gap 0 == v.gap 1

/-- How tightly the operator at the cursor binds, if there is one. -/
def precedence? (d : Dialect) (v : View) : Option Nat :=
  match v.kind 0 with
  | .slash | .star => some 6
  | .percent => if d = .scss then some 6 else none
  | .plus | .minus => if isBinarySign v then some 5 else none
  | .less | .lessEqual | .greater | .greaterEqual => if d = .scss then some 4 else none
  | .doubleEqual | .notEqual => if d = .scss then some 3 else none
  | .ident =>
    if d = .scss && v.isWord 0 "and" then some 2
    else if d = .scss && v.isWord 0 "or" then some 1
    else none
  | _ => none

/-- One token as an operator. -/
def operator : Rule := leaf .operator

/-- Terms joined by operators that bind at least as tightly as `level`. Operators of one precedence
associate to the left. -/
def binary (d : Dialect) (level : Nat) : Rule :=
  wrap .binaryExpression (call .term) (fun _ v => (precedence? d v).any (level ≤ ·)) <|
    look fun v =>
      operator >> (call (.binary ((precedence? d v).getD 0 + 1)) ||| report .termExpected)

/-- A comparison of ranges, as in media features and guards. -/
def comparison : Rule :=
  when (·.isAny [.less, .lessEqual, .greater, .greaterEqual, .equal]) operator

/-! ## Terms -/

/-- Whether a sign, or `not` in SCSS, stands before a term. -/
def startsUnary (d : Dialect) (v : View) : Bool :=
  (v.isAny [.plus, .minus] && v.adjacent 1) || (d = .scss && v.isWord 0 "not" && v.gap 1)

/-- A term with an optional sign. -/
def term (d : Dialect) : Rule :=
  node .term <| choose (startsUnary d)
    (operator >> (call .unsignedTerm ||| report .termExpected) >> accept)
    (call .unsignedTerm)

/-- Whether the text of a hash is a colour of three, four, six or eight hexadecimal digits. -/
def isHexColor (t : Text) : Bool :=
  let digits := t.dropByte (byte '#')
  [3, 4, 6, 8].contains digits.length && digits.all Byte.isHexDigit

/-- A colour in hexadecimal digits. -/
def hexColor : Rule :=
  (test (fun v => isHexColor (v.text 0)) ||| report .hexColorExpected) >> leaf .hexColor

/-- A `url(` with a quoted or computed argument. -/
def uriLiteral : Rule :=
  group .uriLiteral <|
    take >> take >>
      (test (·.is 0 .rightParen) ||| call .term ||| report .uriOrStringExpected) >>
      close .rightParen .rightParenthesisExpected [.semicolon]

/-- A filter function with a dotted name behind `progid:`; the whole name is one identifier. -/
def progid : Rule :=
  group .function <|
    group .identifier (
      take >> take >>
        many (when (fun v => v.is 0 .ident && v.adjacent 0) <|
          take >> when (fun v => v.is 0 .dot && v.adjacent 0) take)) >>
      choose View.opensCall (call .arguments) (report .leftParenthesisExpected)

/-- An identifier, or a call if arguments directly follow it. -/
def identOrCall : Rule :=
  wrap .function (call .ident) (fun layers v => layers == 0 && v.opensCall) (call .arguments)

/-- What starts with an identifier: a url, a filter, a member of a module in SCSS, or an identifier
or call. -/
def named (d : Dialect) : Rule :=
  choose (fun v => v.isWord 0 "url" && v.callFollows) uriLiteral <|
    choose (fun v => v.isWord 0 "progid" && v.is 1 .colon && v.adjacent 1) progid <|
      if d = .scss then call .moduleMember ||| identOrCall else identOrCall

/-- Names or values in brackets. -/
def bracketed : Rule :=
  group .gridLine <|
    take >> (test (·.is 0 .rightBracket) ||| call (.expression false)) >>
      close .rightBracket .rightSquareBracketExpected [.semicolon]

/-- An entry of a list, or a key and a value of a map. -/
def listEntry : Rule :=
  node .listEntry <| call (.expression true) &&& (
    (token .colon &&& (call (.expression true) ||| report .expressionExpected)) >> accept)

/-- A value in parentheses; in SCSS a list or a map. -/
def parenthesized (d : Dialect) : Rule :=
  group .parenthesized <|
    take >>
      (if d = .scss then many (listEntry &&& token .comma)
        else test (·.is 0 .rightParen) ||| call (.expression false) |||
          report .expressionExpected) >>
      close .rightParen .rightParenthesisExpected [.semicolon]

/-- A term without a sign. -/
def unsignedTerm (d : Dialect) : Rule :=
  look fun v =>
    match v.kind 0 with
    | .number | .percentage | .dimension => leaf .numericValue
    | .string | .badString => leaf .stringLiteral
    | .url => leaf .uriLiteral
    | .unicodeRange => leaf .unicodeRange
    | .hash => hexColor
    | .leftBracket => bracketed
    | .leftParen => parenthesized d
    | .dollarName => if d = .scss then leaf .variableName else fail
    | .ampersand => if d = .scss then leaf .parentReference else fail
    | .atKeyword | .atSign => if d = .less then call .variableName else fail
    | .tilde => if d = .less then call .escapedValue else fail
    | _ => when (startsIdent d) (named d)

/-! ## Arguments -/

/-- Whether an argument is preceded by the name of a variable. -/
def startsNamedArgument (d : Dialect) (v : View) : Bool :=
  match d with
  | .css => false
  | .scss => v.is 0 .dollarName && v.is 1 .colon
  | .less => v.is 0 .atKeyword && v.is 1 .colon

/-- One argument: a value, perhaps behind a name, perhaps with an ellipsis. -/
def argument (d : Dialect) : Rule :=
  let value := call (.expression true) ||| report .expressionExpected
  let rest := token .ellipsis >> accept
  node .argument <|
    choose (startsNamedArgument d) (leaf .variableName >> take >> value >> rest) <|
      choose (fun v => v.is 0 .ident && v.is 1 .equal) (call .ident >> operator >> value >> rest) <|
        (call (.expression true) ||| test (·.is 0 .ellipsis)) &&& rest

/-- Arguments in parentheses, divided by commas, in LESS also by semicolons. -/
def arguments (d : Dialect) : Rule :=
  let separator := if d = .less then token .comma ||| token .semicolon else token .comma
  let skipRest :=
    when (fun v => !v.isAny [.rightParen, .endOfInput]) <|
      report .expressionExpected >> resume [] [.rightParen, .semicolon]
  group .argumentList <|
    take >>
      many (choose (·.is 0 .rightParen) fail <|
        seq (call .argument) fun matched => if matched then separator else skipRest >> fail) >>
      close .rightParen .rightParenthesisExpected [.semicolon]

end StyleSheet.Grammar
