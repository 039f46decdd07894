import StyleSheet.Grammar.Block
import StyleSheet.Grammar.Parameter

/-!
# Declarations of variables and members of modules

A variable declaration gives a value to a variable; in LESS the value may be a whole block. SCSS
reaches the variables and functions of a module through its name and a dot.
-/

namespace StyleSheet.Grammar

open Rule

/-- A variable and its value, with flags in SCSS. -/
def scssVariableDeclaration : Rule :=
  when (fun v => v.is 0 .dollarName && v.is 1 .colon) <| group .variableDeclaration <|
    leaf .variableName >> take >>
      (call (.expression false) ||| report .variableValueExpected) >> priority >>
      variableFlags ["default", "global"]

/-- A variable of LESS and its value, which may be a block. -/
def lessVariableDeclaration : Rule :=
  group .variableDeclaration <|
    call .variableName >> take >>
      choose (·.is 0 .leftBrace) (group .detachedRuleset statements)
        (seq (call (.expression false)) fun hasValue =>
          if hasValue then priority else report .variableValueExpected)

/-- The variable declaration of a dialect that is not written as an at-rule. -/
def variableDeclaration (d : Dialect) : Rule := if d = .scss then scssVariableDeclaration else fail

/-- Whether the tokens ahead are the name of a module, a dot and a call. -/
def startsModuleCall (v : View) : Bool := v.is 2 .ident && v.is 3 .leftParen && v.adjacent 3

/-- A variable or a call of a function behind the name of its module and a dot. -/
def moduleMember : Rule :=
  when (fun v => v.is 0 .ident && v.is 1 .dot && v.adjacent 1 && v.adjacent 2 &&
      (v.is 2 .dollarName || startsModuleCall v)) <|
    look fun v =>
      group .moduleMember <|
        call .ident >> take >>
          if startsModuleCall v then
            wrap .function (call .ident) (fun layers _ => layers == 0) (call .arguments)
          else leaf .variableName

end StyleSheet.Grammar
