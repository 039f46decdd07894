import StyleSheet.Grammar.Value

/-!
# Guards

A guard of LESS restricts a mixin or a rule set to the cases in which its conditions hold.
-/

namespace StyleSheet.Grammar

open Rule

/-- One condition in parentheses, perhaps negated: a value or comparisons of values. -/
def guardCondition : Rule :=
  let operand := call (.binary 1) ||| report .expressionExpected
  let condition :=
    take >> operand >> many (comparison &&& operand) >>
      close .rightParen .rightParenthesisExpected [.leftBrace]
  choose (fun v => v.isWord 0 "not" && v.is 1 .leftParen)
    (group .guardCondition (take >> condition)) <|
    when (·.is 0 .leftParen) (group .guardCondition condition)

/-- The word `when` and conditions joined by commas, `and` and `or`. -/
def guard : Rule :=
  group .guard <|
    take >> many ((guardCondition ||| report .conditionExpected) &&&
      (token .comma ||| word "and" ||| word "or"))

end StyleSheet.Grammar
