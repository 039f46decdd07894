import StyleSheet.Grammar.Resource
import StyleSheet.Vocabulary

/-!
# At-rules

The dialect has the first look at an at-keyword; what it leaves is read as an at-rule of CSS. An
at-rule that nobody knows is never a fault: its text up to the block is kept as it is, and the block
is read as statements if that works without a fault.
-/

namespace StyleSheet.Grammar

open Rule

/-- The margin boxes of a page. -/
def marginBoxes : List String := [
  "top-left-corner", "top-left", "top-center", "top-right", "top-right-corner",
  "bottom-left-corner", "bottom-left", "bottom-center", "bottom-right", "bottom-right-corner",
  "left-top", "left-middle", "left-bottom", "right-top", "right-middle", "right-bottom"]

/-! ## At-rules of CSS -/

/-- A `@media`. -/
def media (nested : Bool) : Rule :=
  group .media (take >> (call .mediaQueryList ||| report .mediaQueryExpected) >> body nested)

/-- A `@supports`. -/
def supports (nested : Bool) : Rule :=
  group .supports (take >> (call .supportsCondition ||| report .conditionExpected) >> body nested)

/-- A selector of pages: a name and pseudo-classes, of which one must be there. -/
def pageSelector (d : Dialect) : Rule :=
  when (fun v => startsIdent d v || v.is 0 .colon) <| group .pageSelector <|
    call .ident >> many (token .colon &&& requiredIdent)

/-- A `@page`. -/
def page (d : Dialect) (nested : Bool) : Rule :=
  group .page <|
    take >> (pageSelector d &&& moreAfterCommas (pageSelector d) .identifierExpected) >>
      blockOf .statement .pageDirectiveOrDeclarationExpected nested

/-- An at-rule that is a keyword and a block. -/
def plainBlock (kind : NodeKind) (nested : Bool) : Rule := group kind (take >> body nested)

/-- A `@keyframes`. -/
def keyframes (nested : Bool) : Rule :=
  group .keyframes <|
    take >> (call .ident ||| stringLiteral ||| report .identifierExpected) >>
      blockOf .keyframe .percentageExpected nested

/-- The place of a keyframe: a percentage, or a word that may have a percentage behind it. -/
def keyframeOffset : Rule :=
  token .percentage |||
    (call .ident &&&
      ((token .percentage ||| when (·.adjacent 0) (token .percent)) >> accept))

/-- One keyframe, or an at-rule among the keyframes. -/
def keyframe : Rule :=
  choose (·.is 0 .atKeyword) (call (.atRule true)) <|
    node .keyframeSelector <|
      keyframeOffset &&&
        (moreAfterCommas keyframeOffset .percentageExpected >> body true >> accept)

/-- A `@layer`, with names, a block or both. -/
def layer (d : Dialect) (nested : Bool) : Rule :=
  group .layer <|
    take >> (layerName d &&& moreAfterCommas (layerName d) .identifierExpected) >>
      when (·.is 0 .leftBrace) (body nested)

/-- A `@container`, perhaps with a name. -/
def container (d : Dialect) (nested : Bool) : Rule :=
  group .container <|
    take >> when (fun v => startsIdent d v && !v.isWord 0 "not" && !v.callFollows) (call .ident) >>
      (call .mediaCondition ||| report .conditionExpected) >> body nested

/-- A `@property`. -/
def propertyRule (nested : Bool) : Rule :=
  group .propertyRule (take >> requiredIdent >> body nested)

/-- An at-rule that nobody knows. -/
def unknownAtRule : Rule :=
  group .unknownAtRule <|
    take >>
      group .atRulePrelude
        (skipUntil (·.isAny [.semicolon, .leftBrace, .rightBrace, .endOfInput])) >>
      when (·.is 0 .leftBrace) (
        attempt (statements >> accept) ||| call .balanced ||| report .rightCurlyExpected)

/-- The name of an at-rule without its at sign and without a vendor mark, in lower case. -/
def plainAtRuleName (keyword : Text) : Text :=
  let name := (keyword.dropByte (byte '@')).lower
  (withoutVendor? name).getD name

/-- The at-rules of CSS by their names. -/
def cssAtRules (d : Dialect) (nested : Bool) : List (String × Rule) := [
  ("import", importRule d), ("namespace", namespaceRule d), ("charset", charset),
  ("media", media nested), ("supports", supports nested), ("page", page d nested),
  ("font-face", plainBlock .fontFace nested), ("keyframes", keyframes nested),
  ("layer", layer d nested), ("container", container d nested), ("property", propertyRule nested)]

/-- The margin boxes of a page by their names. -/
def marginBoxRules (nested : Bool) : List (String × Rule) :=
  marginBoxes.map fun name => (name, plainBlock .marginBox nested)

/-- The rule that a table gives for a name. -/
def ruleFor? (table : List (String × Rule)) (name : Text) : Option Rule :=
  (table.find? fun entry => Text.ofString entry.1 == name).map Prod.snd

/-! ## At-rules of the dialects -/

/-- An `@extend`. -/
def extend : Rule :=
  group .extendsReference <|
    take >> (call .selectors ||| report .selectorExpected) >>
      when (fun v => v.is 0 .bang && v.isWord 1 "optional") (take >> take)

/-- An `@at-root`, with a query or selectors. -/
def atRoot (d : Dialect) (nested : Bool) : Rule :=
  group .atRoot <|
    take >> choose (·.is 0 .leftParen) mediaFeature (when (startsSelector d) (call .selectors)) >>
      body nested

/-- The at-rules of SCSS by their keywords. -/
def scssAtRules (nested : Bool) : List (String × Rule) := [
  ("@mixin", scssMixinDeclaration nested), ("@include", scssMixinReference nested),
  ("@content", contentReference), ("@function", functionDeclaration nested),
  ("@return", expressionRule .returnStatement), ("@if", ifStatement nested),
  ("@for", forStatement nested), ("@each", eachStatement nested),
  ("@while", whileStatement nested), ("@extend", extend),
  ("@debug", expressionRule .debugStatement), ("@warn", expressionRule .debugStatement),
  ("@error", expressionRule .debugStatement), ("@at-root", atRoot .scss nested),
  ("@use", useRule), ("@forward", forwardRule)]

/-- What only LESS reads from an at-keyword: a variable declaration, a plugin, or the call of a
block held by a variable. -/
def lessAtRule : Rule :=
  choose (fun v => v.is 1 .colon && v.adjacent 1) lessVariableDeclaration <|
    choose (·.isKeyword "@plugin") plugin <|
      when (fun v => v.callFollows && !Vocabulary.standard.knowsAtRule (v.text 0)) <|
        group .mixinReference (call .variableName >> call .arguments)

/-- An at-rule that only the dialect has. -/
def dialectAtRule (d : Dialect) (nested : Bool) : Rule :=
  match d with
  | .css => fail
  | .scss => look fun v => (ruleFor? (scssAtRules nested) (v.text 0).lower).getD fail
  | .less => lessAtRule

/-- An at-rule. -/
def atRule (d : Dialect) (nested : Bool) : Rule :=
  when (·.is 0 .atKeyword) <|
    call (.dialectAtRule nested) |||
      look fun v =>
        (ruleFor? (cssAtRules d nested ++ marginBoxRules nested) (plainAtRuleName (v.text 0))).getD
          unknownAtRule

end StyleSheet.Grammar
