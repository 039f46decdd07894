import StyleSheet.Grammar.AtRule

/-!
# Statements

A style sheet is a row of statements. A statement is an at-rule, a variable declaration or mixin of
its dialect, or a rule set; inside of a block it may also be a declaration.
-/

namespace StyleSheet.Grammar

open Rule

/-- What a dialect reads before rule sets and declarations. -/
def dialectStatement (d : Dialect) (nested : Bool) : Rule :=
  match d with
  | .css => fail
  | .scss => call .variableDeclaration
  | .less => call (.mixinStatement nested)

/-- One statement of a style sheet. -/
def statement (d : Dialect) : Rule :=
  choose (·.is 0 .atKeyword) (call (.atRule false)) <|
    dialectStatement d false ||| call (.ruleset false)

/-- One item of a block. -/
def blockItem (d : Dialect) : Rule :=
  choose (·.is 0 .atKeyword) (call (.atRule true)) <|
    dialectStatement d true ||| call .nestedRuleset ||| call .declaration

/-- What ends a statement: a block, a semicolon or the end. -/
def endOfStatement : Rule :=
  test View.afterBlockOrSemicolon ||| test (·.isAny [.endOfInput, .rightBrace]) |||
    token .semicolon ||| (report .semiColonExpected >> skipStatement)

/-- A whole style sheet. What begins no statement is a fault and is skipped. -/
def stylesheet : Rule :=
  group .stylesheet <| many <|
    choose (·.is 0 .endOfInput) fail <|
      choose (·.isAny [.markupOpen, .markupClose, .semicolon]) take <|
        seq (call .statement) fun matched =>
          (if matched then endOfStatement
            else report .ruleOrSelectorExpected >> call .balanced) >> accept

end StyleSheet.Grammar
