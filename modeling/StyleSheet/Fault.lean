/-!
# Faults and diagnostics

A fault says what the grammar expected; a diagnostic is a fault at a range of the source.
-/

namespace StyleSheet

/-- What was expected where something else stands. -/
inductive Fault where
  | conditionExpected
  | ruleOrSelectorExpected
  | colonExpected
  | semiColonExpected
  | termExpected
  | expressionExpected
  | identifierExpected
  | percentageExpected
  | uriOrStringExpected
  | variableNameExpected
  | variableValueExpected
  | propertyValueExpected
  | leftCurlyExpected
  | rightCurlyExpected
  | rightSquareBracketExpected
  | leftParenthesisExpected
  | rightParenthesisExpected
  | pageDirectiveOrDeclarationExpected
  | selectorExpected
  | stringLiteralExpected
  | mediaQueryExpected
  | identifierOrWildcardExpected
  | wildcardExpected
  | identifierOrVariableExpected
  | hexColorExpected
  | fromExpected
  | throughOrToExpected
  | inExpected
deriving DecidableEq, Repr, Inhabited

namespace Fault

/-- The name of a fault. -/
def name : Fault → String
  | .conditionExpected => "ConditionExpected"
  | .ruleOrSelectorExpected => "RuleOrSelectorExpected"
  | .colonExpected => "ColonExpected"
  | .semiColonExpected => "SemiColonExpected"
  | .termExpected => "TermExpected"
  | .expressionExpected => "ExpressionExpected"
  | .identifierExpected => "IdentifierExpected"
  | .percentageExpected => "PercentageExpected"
  | .uriOrStringExpected => "UriOrStringExpected"
  | .variableNameExpected => "VariableNameExpected"
  | .variableValueExpected => "VariableValueExpected"
  | .propertyValueExpected => "PropertyValueExpected"
  | .leftCurlyExpected => "LeftCurlyExpected"
  | .rightCurlyExpected => "RightCurlyExpected"
  | .rightSquareBracketExpected => "RightSquareBracketExpected"
  | .leftParenthesisExpected => "LeftParenthesisExpected"
  | .rightParenthesisExpected => "RightParenthesisExpected"
  | .pageDirectiveOrDeclarationExpected => "PageDirectiveOrDeclarationExpected"
  | .selectorExpected => "SelectorExpected"
  | .stringLiteralExpected => "StringLiteralExpected"
  | .mediaQueryExpected => "MediaQueryExpected"
  | .identifierOrWildcardExpected => "IdentifierOrWildcardExpected"
  | .wildcardExpected => "WildcardExpected"
  | .identifierOrVariableExpected => "IdentifierOrVariableExpected"
  | .hexColorExpected => "HexColorExpected"
  | .fromExpected => "FromExpected"
  | .throughOrToExpected => "ThroughOrToExpected"
  | .inExpected => "InExpected"

/-- The message for a reader. -/
def message : Fault → String
  | .conditionExpected => "condition expected"
  | .ruleOrSelectorExpected => "at-rule or selector expected"
  | .colonExpected => "colon expected"
  | .semiColonExpected => "semi-colon expected"
  | .termExpected => "term expected"
  | .expressionExpected => "expression expected"
  | .identifierExpected => "identifier expected"
  | .percentageExpected => "percentage expected"
  | .uriOrStringExpected => "uri or string expected"
  | .variableNameExpected => "variable name expected"
  | .variableValueExpected => "variable value expected"
  | .propertyValueExpected => "property value expected"
  | .leftCurlyExpected => "\x7b expected"
  | .rightCurlyExpected => "\x7d expected"
  | .rightSquareBracketExpected => "] expected"
  | .leftParenthesisExpected => "( expected"
  | .rightParenthesisExpected => ") expected"
  | .pageDirectiveOrDeclarationExpected => "page directive or declaration expected"
  | .selectorExpected => "selector expected"
  | .stringLiteralExpected => "string literal expected"
  | .mediaQueryExpected => "media query expected"
  | .identifierOrWildcardExpected => "identifier or wildcard expected"
  | .wildcardExpected => "wildcard expected"
  | .identifierOrVariableExpected => "identifier or variable expected"
  | .hexColorExpected => "hex color expected"
  | .fromExpected => "'from' expected"
  | .throughOrToExpected => "'through' or 'to' expected"
  | .inExpected => "'in' expected"

end Fault

/-- A fault at a range of the source: the span of the token that stands there, or an empty range at
the end. -/
structure Diagnostic where
  /-- What was expected. -/
  fault : Fault
  /-- The offset of the first byte of the range. -/
  start : Nat
  /-- The offset behind the last byte of the range. -/
  stop : Nat
deriving DecidableEq, Repr

namespace Diagnostic

/-- The message for a reader, with the range. -/
def message (d : Diagnostic) : String :=
  d.fault.message ++ " at " ++ Nat.repr d.start ++ ".." ++ Nat.repr d.stop

end Diagnostic

end StyleSheet
