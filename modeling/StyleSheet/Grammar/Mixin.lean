import StyleSheet.Grammar.Guard
import StyleSheet.Grammar.Variable

/-!
# Mixins and functions

SCSS defines and uses mixins with at-rules. In LESS a mixin is written like a class or id selector;
its definition and its use are told apart from a rule set by trying.
-/

namespace StyleSheet.Grammar

open Rule

/-! ## SCSS -/

/-- A name that must be there. -/
def requiredIdent : Rule := call .ident ||| report .identifierExpected

/-- The definition of a mixin. -/
def scssMixinDeclaration (nested : Bool) : Rule :=
  group .mixinDeclaration <|
    take >> requiredIdent >> when (·.is 0 .leftParen) (call .parameterList) >> body nested

/-- The name of a mixin, perhaps behind that of its module. -/
def scssMixinName : Rule :=
  wrap .moduleMember (call .ident)
      (fun layers v =>
        layers == 0 && v.is 0 .dot && v.adjacent 0 && v.adjacent 1 && v.is 1 .ident)
      (take >> call .ident) |||
    report .identifierExpected

/-- A block that is passed to a mixin, perhaps with parameters. -/
def contentDeclaration (nested : Bool) : Rule :=
  group .contentDeclaration <|
    (word "using" &&&
      choose (·.is 0 .leftParen) (call .parameterList) (report .leftParenthesisExpected)) >>
      body nested

/-- The use of a mixin. -/
def scssMixinReference (nested : Bool) : Rule :=
  group .mixinReference <|
    take >> scssMixinName >> when (·.is 0 .leftParen) (call .arguments) >>
      when (fun v => v.isWord 0 "using" || v.is 0 .leftBrace) (contentDeclaration nested)

/-- The place in a mixin where the block that was passed to it goes. -/
def contentReference : Rule :=
  group .contentReference (take >> when (·.is 0 .leftParen) (call .arguments))

/-- The definition of a function. -/
def functionDeclaration (nested : Bool) : Rule :=
  group .functionDeclaration <|
    take >> requiredIdent >>
      choose (·.is 0 .leftParen) (call .parameterList) (report .leftParenthesisExpected) >>
      body nested

/-! ## LESS -/

/-- Whether a name of a mixin starts at the cursor: a hash, or a dot and an identifier. -/
def startsMixinName (v : View) : Bool :=
  v.is 0 .hash || (v.is 0 .dot && v.is 1 .ident && v.adjacent 1)

/-- The name of a mixin with its sign. -/
def lessMixinName : Rule :=
  group .identifier (choose (·.is 0 .dot) (take >> identPieces .less) take)

/-- The definition of a mixin: a name, parameters, perhaps a guard, without a fault, and a block. -/
def lessMixinDeclaration (nested : Bool) : Rule :=
  node .mixinDeclaration <|
    attempt (
      lessMixinName >>
        (test View.opensCall &&&
          (call .parameterList >> when (·.isWord 0 "when") (call .guard) >>
            test (·.is 0 .leftBrace)))) &&&
    (body nested >> accept)

/-- A further name in the path to a mixin, perhaps behind `>`. -/
def furtherMixinName : Rule := token .greater >> when startsMixinName lessMixinName

/-- The use of a mixin: a path of names, perhaps with arguments, up to the end of the statement. A
path that ends with `>` is none. The token taken last tells this, as the rule is called only where a
name starts: behind the name, it is a token of the path, and no name ends with `>`. -/
def lessMixinReference : Rule :=
  node .mixinReference <| attempt <|
    lessMixinName >> many furtherMixinName >>
      choose (fun v => v.last == some .greater) fail (
        when (·.is 0 .leftParen) (call .arguments) >> priority >>
          test (·.isAny [.semicolon, .rightBrace, .endOfInput]))

/-- A statement of LESS that starts like a selector: `&:extend(...)`, or a mixin. -/
def lessMixinStatement (nested : Bool) : Rule :=
  choose (fun v => v.is 0 .ampersand && v.is 1 .colon && v.isWord 2 "extend")
    (group .extendsReference (call .selector)) <|
    when startsMixinName (call (.mixinDeclaration nested) ||| call .mixinReference)

end StyleSheet.Grammar
