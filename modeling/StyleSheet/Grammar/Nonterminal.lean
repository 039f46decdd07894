import StyleSheet.Fault

/-!
# Nonterminals

The rules of the grammar refer to each other by these names. All dialects share them; what a name
stands for in a dialect is given by the table in `StyleSheet.Grammar`.
-/

namespace StyleSheet

/-- What a block consists of. -/
inductive BlockItem where
  /-- Declarations, nested rule sets and at-rules. -/
  | statement
  /-- Keyframes. -/
  | keyframe
deriving DecidableEq, Repr

/-- A name that rules of the grammar use for each other. -/
inductive Nonterminal where
  /-- One token, or a whole group in brackets. -/
  | balanced
  /-- A whole style sheet. -/
  | stylesheet
  /-- One statement of a style sheet. -/
  | statement
  /-- One item of a block. -/
  | blockItem
  /-- One keyframe. -/
  | keyframe
  /-- A block in braces; `missing` is the fault of an item that cannot be read. -/
  | block (item : BlockItem) (missing : Fault)
  /-- Selectors and a block. -/
  | ruleset (nested : Bool)
  /-- A rule set inside of a block, told apart from a declaration by trying. -/
  | nestedRuleset
  /-- A property and its value. -/
  | declaration
  /-- The name of a property. -/
  | property
  /-- An identifier, perhaps interpolated. -/
  | ident
  /-- An interpolated value. -/
  | interpolation
  /-- Selectors divided by commas. -/
  | selectors
  /-- One selector. -/
  | selector
  /-- A combinator of selectors. -/
  | combinator
  /-- A run of adjacent selector parts. -/
  | simpleSelector
  /-- Values divided by blanks and commas; with `single`, up to the first comma. -/
  | expression (single : Bool)
  /-- Terms joined by operators that bind at least as tightly as `level`. -/
  | binary (level : Nat)
  /-- A term with an optional sign. -/
  | term
  /-- A term without a sign. -/
  | unsignedTerm
  /-- Arguments in parentheses. -/
  | arguments
  /-- One argument. -/
  | argument
  /-- An at-rule. -/
  | atRule (nested : Bool)
  /-- Media queries divided by commas. -/
  | mediaQueryList
  /-- One media query. -/
  | mediaQuery
  /-- Features and types joined by `and` and `or`. -/
  | mediaCondition
  /-- A condition of `@supports`. -/
  | supportsCondition
  /-- A variable and its value. -/
  | variableDeclaration
  /-- A variable. -/
  | variableName
  /-- A member of a module. -/
  | moduleMember
  /-- An at-rule that only the dialect has. -/
  | dialectAtRule (nested : Bool)
  /-- What follows an `@if`. -/
  | ifRest (nested : Bool)
  /-- The definition or the use of a mixin, written as a selector. -/
  | mixinStatement (nested : Bool)
  /-- The definition of a mixin, written as a selector. -/
  | mixinDeclaration (nested : Bool)
  /-- The use of a mixin, written as a selector. -/
  | mixinReference
  /-- A tilde and a string. -/
  | escapedValue
  /-- Parameters in parentheses. -/
  | parameterList
  /-- A guard of a mixin or rule set. -/
  | guard
deriving DecidableEq, Repr

end StyleSheet
