import StyleSheet.Grammar.Flow
import StyleSheet.Grammar.Query

/-!
# Other sheets and modules

The at-rules that name other resources: `@import`, `@namespace`, `@charset`, `@plugin`, `@use` and
`@forward`.
-/

namespace StyleSheet.Grammar

open Rule

/-! ## Imports -/

/-- A dotted name of a layer, as one identifier. -/
def layerName (d : Dialect) : Rule :=
  node .identifier <|
    identPieces d &&&
      many (when (fun v => v.is 0 .dot && v.adjacent 0 && v.adjacent 1 && v.is 1 .ident)
        (take >> identPieces d))

/-- The layer of an import. -/
def importLayer (d : Dialect) : Rule :=
  group .function <|
    call .ident >> when View.opensCall (
      take >> (layerName d ||| report .identifierExpected) >> closeParen)

/-- The condition of support of an import. -/
def importSupports : Rule :=
  group .function <|
    call .ident >> take >>
      (choose (fun v => v.is 0 .leftParen || v.isWord 0 "not") (call .supportsCondition)
          (call .declaration) |||
        report .conditionExpected) >>
      closeParen

/-- The options of an import in LESS. -/
def importOptions : Rule :=
  when (·.is 0 .leftParen) <| group .importOptions <|
    take >> many (expect .ident .identifierExpected &&& token .comma) >>
      close .rightParen .rightParenthesisExpected [.semicolon]

/-- What an import names; SCSS allows several. -/
def importTargets (d : Dialect) : Rule :=
  seq stringOrUri fun matched =>
    if matched then
      if d = .scss then moreAfterCommas stringOrUri .uriOrStringExpected else accept
    else report .uriOrStringExpected

/-- An `@import` with its conditions. -/
def importRule (d : Dialect) : Rule :=
  group .importRule <|
    take >> (if d = .less then importOptions else accept) >> importTargets d >>
      when (·.isWord 0 "layer") (importLayer d) >>
      when (fun v => v.isWord 0 "supports" && v.callFollows) importSupports >>
      (test (·.isAny [.semicolon, .rightBrace, .endOfInput]) ||| call .mediaQueryList |||
        report .mediaQueryExpected)

/-- A `@namespace`, perhaps with a name. -/
def namespaceRule (d : Dialect) : Rule :=
  group .namespaceRule <|
    take >> when (fun v => startsIdent d v && !v.isWord 0 "url") (call .ident) >>
      (stringOrUri ||| report .uriOrStringExpected)

/-- A `@charset`. -/
def charset : Rule := group .charset (take >> (stringLiteral ||| report .stringLiteralExpected))

/-- A `@plugin` of LESS. -/
def plugin : Rule := group .plugin (take >> (stringOrUri ||| report .uriOrStringExpected))

/-! ## Modules of SCSS -/

/-- The configuration of a module: variables and their values in parentheses. -/
def moduleConfiguration : Rule :=
  let entry := group .listEntry <|
    leaf .variableName >>
      (expect .colon .colonExpected &&&
        (call (.expression true) ||| report .variableValueExpected)) >>
      variableFlags ["default"]
  group .moduleConfiguration <|
    take >> (expect .leftParen .leftParenthesisExpected &&& (
      many (choose (·.isAny [.rightParen, .endOfInput]) fail <|
        choose (·.is 0 .dollarName) (entry >> token .comma) (report .variableNameExpected)) >>
      close .rightParen .rightParenthesisExpected [.semicolon]))

/-- A `@use` of a module. -/
def useRule : Rule :=
  group .useRule <|
    take >> (stringLiteral ||| report .stringLiteralExpected) >>
      (word "as" &&& (token .star ||| call .ident ||| report .identifierOrWildcardExpected)) >>
      when (·.isWord 0 "with") moduleConfiguration

/-- The members that a `@forward` shows or hides. -/
def forwardVisibility : Rule :=
  group .forwardVisibility <|
    take >> many (
      (choose (·.is 0 .dollarName) (leaf .variableName) (call .ident) |||
        report .identifierOrVariableExpected) &&& token .comma)

/-- A `@forward` of a module. -/
def forwardRule : Rule :=
  group .forwardRule <|
    take >> (stringOrUri ||| report .stringLiteralExpected) >>
      (word "as" &&& (requiredIdent >>
        ((test (·.adjacent 0) &&& token .star) ||| report .wildcardExpected))) >>
      when (fun v => v.isWord 0 "show" || v.isWord 0 "hide") forwardVisibility >>
      when (·.isWord 0 "with") moduleConfiguration

end StyleSheet.Grammar
