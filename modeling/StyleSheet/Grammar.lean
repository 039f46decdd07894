import StyleSheet.Grammar.Statement

/-!
# The grammar

`Grammar.rule` gives the rule of each nonterminal in a dialect, and `Grammar.run` carries it out.
The rules refer to each other in circles, so `run` has a bound on how deep they nest;
`Grammar.bound` is large enough for every source, because a circle of rules cannot close without
taking a token.
-/

namespace StyleSheet.Grammar

/-- The rule of a nonterminal in a dialect. -/
def rule (d : Dialect) : Nonterminal → Rule
  | .balanced => balanced
  | .stylesheet => stylesheet
  | .statement => statement d
  | .blockItem => blockItem d
  | .keyframe => keyframe
  | .block item missing => block item missing
  | .ruleset nested => ruleset d nested
  | .nestedRuleset => nestedRuleset d
  | .declaration => declaration
  | .property => property d
  | .ident => ident d
  | .interpolation => interpolation d
  | .selectors => selectors
  | .selector => selector
  | .combinator => combinator
  | .simpleSelector => simpleSelector d
  | .expression single => expression d single
  | .binary level => binary d level
  | .term => term d
  | .unsignedTerm => unsignedTerm d
  | .arguments => arguments d
  | .argument => argument d
  | .atRule nested => atRule d nested
  | .mediaQueryList => mediaQueryList
  | .mediaQuery => mediaQuery
  | .mediaCondition => mediaCondition d
  | .supportsCondition => supportsCondition d
  | .variableDeclaration => variableDeclaration d
  | .variableName => variableName
  | .moduleMember => moduleMember
  | .dialectAtRule nested => dialectAtRule d nested
  | .ifRest nested => ifRest nested
  | .mixinStatement nested => lessMixinStatement nested
  | .mixinDeclaration nested => lessMixinDeclaration nested
  | .mixinReference => lessMixinReference
  | .escapedValue => escapedValue
  | .parameterList => parameterList d
  | .guard => guard

/-- Carries out the rule of a nonterminal, with rules nested at most `bound` deep. -/
def run (d : Dialect) : Nat → Nonterminal → Parser → Option Rule.Outcome
  | 0, _, _ => none
  | bound + 1, name, p => (rule d name).exec (run d bound) bound p

/-- Carries out any rule, with rules nested at most `bound` deep. -/
def exec (d : Dialect) (bound : Nat) (r : Rule) (p : Parser) : Option Rule.Outcome :=
  r.exec (run d bound) bound p

/-- A bound for a source of `length` bytes. Between two nonterminals on the way from the outermost
to the innermost one that begin at the same token there are fewer than 64 others. -/
def bound (length : Nat) : Nat := 64 * (length + 1)

end StyleSheet.Grammar
