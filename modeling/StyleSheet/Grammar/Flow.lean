import StyleSheet.Grammar.Mixin

/-!
# Control flow

The at-rules of SCSS that choose, repeat, return and report.
-/

namespace StyleSheet.Grammar

open Rule

/-- A keyword and an expression. -/
def expressionRule (kind : NodeKind) : Rule :=
  group kind (take >> (call (.expression false) ||| report .expressionExpected))

/-- What follows `@if`: a condition, a block and perhaps an alternative. -/
def ifRest (nested : Bool) : Rule :=
  let inner := call (.ifRest nested)
  let alternative := group .elseStatement <|
    choose (·.isKeyword "@elseif") (take >> group .ifStatement inner) <|
      take >> choose (·.isWord 0 "if") (group .ifStatement (take >> inner)) (body nested)
  (call (.expression false) ||| report .conditionExpected) >> body nested >>
    when (fun v => v.isKeyword "@else" || v.isKeyword "@elseif") alternative

/-- A choice. -/
def ifStatement (nested : Bool) : Rule := group .ifStatement (take >> call (.ifRest nested))

/-- A variable of SCSS that must be there. -/
def requiredVariable : Rule :=
  choose (·.is 0 .dollarName) (leaf .variableName) (report .variableNameExpected)

/-- A repetition that counts. -/
def forStatement (nested : Bool) : Rule :=
  let limit := call (.binary 1) ||| report .expressionExpected
  group .forStatement <|
    take >> requiredVariable >> (word "from" ||| report .fromExpected) >> limit >>
      (word "through" ||| word "to" ||| report .throughOrToExpected) >> limit >> body nested

/-- A repetition over the elements of a list. -/
def eachStatement (nested : Bool) : Rule :=
  group .eachStatement <|
    take >> group .variableList (many (requiredVariable &&& token .comma)) >>
      (word "in" ||| report .inExpected) >>
      (call (.expression false) ||| report .expressionExpected) >> body nested

/-- A repetition as long as a condition holds. -/
def whileStatement (nested : Bool) : Rule :=
  group .whileStatement <|
    take >> (call (.expression false) ||| report .conditionExpected) >> body nested

end StyleSheet.Grammar
