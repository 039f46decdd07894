import StyleSheet.Grammar.Value

/-!
# Variables and parameters

SCSS writes variables with a dollar sign, LESS with an at sign. Both give them values, at the level
of statements and as defaults of the parameters of mixins and functions.
-/

namespace StyleSheet.Grammar

open Rule

/-! ## Variables -/

/-- A variable of LESS, perhaps named by another one as in `@@name`. -/
def variableName : Rule :=
  choose (fun v => v.is 0 .atSign && v.is 1 .atKeyword && v.adjacent 1)
    (node .variableName (take >> take)) <|
    when (·.is 0 .atKeyword) (leaf .variableName)

/-- A tilde and a string directly behind it. -/
def escapedValue : Rule :=
  when (fun v => v.is 0 .tilde && v.adjacent 1 && (v.is 1 .string || v.is 1 .badString))
    (node .escapedValue (take >> take))

/-- The flags of a variable declaration, each a bang and one of the given words. -/
def variableFlags (allowed : List String) : Rule :=
  many
    (when (fun v => v.is 0 .bang && allowed.any (v.isWord 1)) (node .variableFlag (take >> take)))

/-! ## Parameters -/

/-- One parameter of SCSS: a variable with an optional default, perhaps with an ellipsis. -/
def scssParameter : Rule :=
  when (·.is 0 .dollarName) <| group .parameter <|
    leaf .variableName >>
      (token .colon &&& (call (.expression true) ||| report .variableValueExpected)) >>
      token .ellipsis

/-- One parameter of LESS: a variable with an optional default or an ellipsis, an ellipsis alone, or
a value to compare the argument with. -/
def lessParameter : Rule :=
  node .parameter <|
    seq (call .variableName) fun isVariable =>
      if isVariable then
        seq (token .colon) (fun hasDefault =>
          if hasDefault then call (.expression true) ||| report .variableValueExpected
          else token .ellipsis) >> accept
      else token .ellipsis ||| call (.expression true)

/-- Parameters in parentheses, divided by commas, in LESS also by semicolons. -/
def parameterList (d : Dialect) : Rule :=
  let parameter := if d = .less then lessParameter else scssParameter
  let separator := if d = .less then token .comma ||| token .semicolon else token .comma
  let stop : List TokenKind := if d = .less then [.leftBrace] else [.leftBrace, .semicolon]
  group .parameterList <|
    take >>
      many (choose (·.isAny [.rightParen, .endOfInput]) fail <|
        seq parameter fun matched =>
          if matched then separator
          else report .variableNameExpected >> resume [] (.rightParen :: stop) >> fail) >>
      close .rightParen .rightParenthesisExpected stop

end StyleSheet.Grammar
