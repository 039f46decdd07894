import StyleSheet.Grammar.Block
import StyleSheet.Grammar.Value

/-!
# Queries

The conditions of `@media`, `@container`, `@supports` and `@import`: features in parentheses, words
and functions, joined by `and`, `or` and `not`.
-/

namespace StyleSheet.Grammar

open Rule

/-- A closing parenthesis; without it, reading goes on before a block or a semicolon. -/
def closeParen : Rule := close .rightParen .rightParenthesisExpected [.leftBrace, .semicolon]

/-- Further operands behind `and` or `or`, each perhaps negated; a missing one is a fault. -/
def joinedOperands (operand : Rule) (missing : Fault) : Rule :=
  many (when (fun v => v.isWord 0 "and" || v.isWord 0 "or") <|
    take >> word "not" >> (operand ||| report missing))

/-! ## Media queries -/

/-- A feature in parentheses: a name and a value, a comparison, or a condition of its own. -/
def mediaFeature : Rule :=
  let operand (missing : Fault) : Rule := call (.binary 1) ||| report missing
  group .mediaFeature <|
    take >>
      choose (fun v => v.is 0 .leftParen || (v.isWord 0 "not" && v.is 1 .leftParen))
        (call .mediaCondition)
        (operand .identifierExpected >>
          seq (token .colon) fun hasColon =>
            if hasColon then call (.expression false) ||| report .termExpected
            else many (comparison &&& operand .termExpected)) >>
      closeParen

/-- A query that has the form of a function, such as `style(--x: y)`. -/
def queryFunction : Rule :=
  group .function <|
    call .ident >> take >>
      choose (fun v => v.is 0 .leftParen || v.isWord 0 "not") (call .mediaCondition)
        (call .declaration ||| report .identifierExpected) >>
      closeParen

/-- One operand of a media condition. -/
def mediaOperand (d : Dialect) : Rule :=
  look fun v =>
    match v.kind 0 with
    | .leftParen => mediaFeature
    | .dollarName => if d = .scss then call .term >> accept else fail
    | .atKeyword => if d = .less then call .term >> accept else fail
    | _ => when (startsIdent d) <| choose View.callFollows queryFunction (call .ident >> accept)

/-- Operands joined by `and` and `or`, each perhaps negated. -/
def mediaCondition (d : Dialect) : Rule :=
  word "not" >> (mediaOperand d &&& joinedOperands (mediaOperand d) .mediaQueryExpected)

/-- One media query, perhaps behind `not` or `only`. -/
def mediaQuery : Rule :=
  node .mediaQuery <|
    choose (fun v => (v.isWord 0 "not" || v.isWord 0 "only") && !v.is 1 .leftParen)
      (take >> (call .mediaCondition ||| report .mediaQueryExpected) >> accept)
      (call .mediaCondition)

/-- Media queries divided by commas. -/
def mediaQueryList : Rule :=
  node .mediaQueryList (call .mediaQuery &&& moreAfterCommas (call .mediaQuery) .mediaQueryExpected)

/-! ## Conditions of support -/

/-- The function `selector(...)` as a condition. -/
def selectorFunction : Rule :=
  group .function <|
    call .ident >> take >> (call .selectors ||| report .selectorExpected) >> closeParen

/-- A declaration or a condition in parentheses. -/
def supportsGroup : Rule :=
  group .supportsCondition <|
    take >>
      choose (fun v => v.is 0 .leftParen || v.isWord 0 "not" ||
          (v.isWord 0 "selector" && v.is 1 .leftParen))
        (call .supportsCondition)
        (call .declaration ||| report .identifierExpected) >>
      closeParen

/-- One operand of a condition of support. -/
def supportsOperand (d : Dialect) : Rule :=
  choose (fun v => startsIdent d v && v.callFollows)
    (choose (·.isWord 0 "selector") selectorFunction (call .term >> accept))
    (when (·.is 0 .leftParen) supportsGroup)

/-- A condition of support: operands joined by `and` and `or`, each perhaps negated. -/
def supportsCondition (d : Dialect) : Rule :=
  node .supportsCondition <|
    word "not" >>
      (supportsOperand d &&& joinedOperands (supportsOperand d) .leftParenthesisExpected)

end StyleSheet.Grammar
