/-!
# Kinds of tokens and nodes

The leaves of a tree are tokens and its inner elements are nodes. `TokenKind` and `NodeKind` are
their kinds; `Kind` joins them in one numbering, in which the tokens come first.
-/

namespace StyleSheet

/-- The kind of a token. -/
inductive TokenKind where
  /-- A run of spaces, tabs and line breaks. -/
  | whitespace
  /-- A comment. -/
  | comment
  /-- An identifier. -/
  | ident
  /-- An identifier after an at sign. -/
  | atKeyword
  /-- A string with both of its quotation marks. -/
  | string
  /-- A string without its closing quotation mark. -/
  | badString
  /-- A number. -/
  | number
  /-- A number and a percent sign. -/
  | percentage
  /-- A number and a known unit. -/
  | dimension
  /-- A name after a number sign. -/
  | hash
  /-- A whole `url(...)` whose body is not quoted. -/
  | url
  /-- A range of code points, such as `U+0-7F`. -/
  | unicodeRange
  /-- An identifier after a dollar sign. -/
  | dollarName
  /-- An identifier after a percent sign. -/
  | placeholder
  /-- A number sign and an opening brace. -/
  | hashBrace
  /-- An at sign and an opening brace. -/
  | atBrace
  /-- An at sign alone. -/
  | atSign
  /-- The punctuation `(`. -/
  | leftParen
  /-- The punctuation `)`. -/
  | rightParen
  /-- The punctuation `{`. -/
  | leftBrace
  /-- The punctuation `}`. -/
  | rightBrace
  /-- The punctuation `[`. -/
  | leftBracket
  /-- The punctuation `]`. -/
  | rightBracket
  /-- The punctuation `;`. -/
  | semicolon
  /-- The punctuation `:`. -/
  | colon
  /-- The punctuation `,`. -/
  | comma
  /-- The punctuation `.`. -/
  | dot
  /-- The punctuation `...`. -/
  | ellipsis
  /-- The punctuation `*`. -/
  | star
  /-- The punctuation `/`. -/
  | slash
  /-- The punctuation `+`. -/
  | plus
  /-- The punctuation `-`. -/
  | minus
  /-- The punctuation `>`. -/
  | greater
  /-- The punctuation `<`. -/
  | less
  /-- The punctuation `>=`. -/
  | greaterEqual
  /-- The punctuation `<=`. -/
  | lessEqual
  /-- The punctuation `=`. -/
  | equal
  /-- The punctuation `==`. -/
  | doubleEqual
  /-- The punctuation `!=`. -/
  | notEqual
  /-- The punctuation `~`. -/
  | tilde
  /-- The punctuation `!`. -/
  | bang
  /-- The punctuation `&`. -/
  | ampersand
  /-- The punctuation `|`. -/
  | pipe
  /-- The punctuation `^`. -/
  | caret
  /-- The punctuation `%`. -/
  | percent
  /-- The punctuation `^=`. -/
  | caretEqual
  /-- The punctuation `$=`. -/
  | dollarEqual
  /-- The punctuation `*=`. -/
  | starEqual
  /-- The punctuation `~=`. -/
  | tildeEqual
  /-- The punctuation `|=`. -/
  | pipeEqual
  /-- The four characters that open a comment of HTML. -/
  | markupOpen
  /-- The three characters that close a comment of HTML. -/
  | markupClose
  /-- A character that begins no other token. -/
  | unknown
  /-- What is seen past the last token. -/
  | endOfInput
deriving DecidableEq, Repr, Inhabited

/-- The kind of an inner node. -/
inductive NodeKind where
  /-- A whole style sheet. -/
  | stylesheet
  /-- The root of a construct that was read alone. -/
  | fragment
  /-- Selectors and their block. -/
  | ruleset
  /-- Selectors divided by commas. -/
  | selectors
  /-- Simple selectors and combinators. -/
  | selector
  /-- A run of adjacent selector parts. -/
  | simpleSelector
  /-- The name of an element, or `*`. -/
  | elementName
  /-- A dot and a name. -/
  | classSelector
  /-- A number sign and a name. -/
  | idSelector
  /-- A test of an attribute, in brackets. -/
  | attributeSelector
  /-- A pseudo-class or pseudo-element. -/
  | pseudoSelector
  /-- A count such as `2n+1`. -/
  | nth
  /-- A combinator of selectors. -/
  | combinator
  /-- An ampersand, for the enclosing selector. -/
  | parentReference
  /-- A placeholder used as a selector. -/
  | placeholderSelector
  /-- A block in braces. -/
  | declarations
  /-- A property and its value. -/
  | declaration
  /-- A property whose name starts with `--`, and its value. -/
  | customProperty
  /-- The value of a custom property that is no expression. -/
  | customValue
  /-- The name of a property. -/
  | property
  /-- The mark `!important`. -/
  | priority
  /-- The block after a declared value. -/
  | nestedProperties
  /-- Values divided by blanks or commas. -/
  | expression
  /-- Two operands and their operator. -/
  | binaryExpression
  /-- An operand. -/
  | term
  /-- An operator. -/
  | operator
  /-- A call of a function. -/
  | function
  /-- Arguments in parentheses. -/
  | argumentList
  /-- One argument of a call. -/
  | argument
  /-- An identifier. -/
  | identifier
  /-- A colour in hexadecimal digits. -/
  | hexColor
  /-- A number, percentage or dimension. -/
  | numericValue
  /-- A string. -/
  | stringLiteral
  /-- A `url(...)`. -/
  | uriLiteral
  /-- A range of code points. -/
  | unicodeRange
  /-- Names in brackets. -/
  | gridLine
  /-- A value in parentheses. -/
  | parenthesized
  /-- An entry of a list or map. -/
  | listEntry
  /-- An `@import`. -/
  | importRule
  /-- A `@namespace`. -/
  | namespaceRule
  /-- A `@charset`. -/
  | charset
  /-- A `@media`. -/
  | media
  /-- Media queries divided by commas. -/
  | mediaQueryList
  /-- A media query. -/
  | mediaQuery
  /-- A feature of a query, in parentheses. -/
  | mediaFeature
  /-- A `@supports`. -/
  | supports
  /-- A condition of `@supports`. -/
  | supportsCondition
  /-- A `@page`. -/
  | page
  /-- A selector of pages. -/
  | pageSelector
  /-- A margin box of a page. -/
  | marginBox
  /-- A `@font-face`. -/
  | fontFace
  /-- A `@keyframes`. -/
  | keyframes
  /-- A keyframe. -/
  | keyframeSelector
  /-- A `@layer`. -/
  | layer
  /-- A `@container`. -/
  | container
  /-- A `@property`. -/
  | propertyRule
  /-- An at-rule that the grammar does not know. -/
  | unknownAtRule
  /-- What stands before the block of an unknown at-rule. -/
  | atRulePrelude
  /-- A variable. -/
  | variableName
  /-- A variable and its value. -/
  | variableDeclaration
  /-- A flag of a variable declaration. -/
  | variableFlag
  /-- An interpolated value. -/
  | interpolation
  /-- A member of a module. -/
  | moduleMember
  /-- Parameters in parentheses. -/
  | parameterList
  /-- One parameter. -/
  | parameter
  /-- The definition of a mixin. -/
  | mixinDeclaration
  /-- The use of a mixin. -/
  | mixinReference
  /-- A `@content`. -/
  | contentReference
  /-- The block that is passed to a mixin. -/
  | contentDeclaration
  /-- The definition of a function. -/
  | functionDeclaration
  /-- A `@return`. -/
  | returnStatement
  /-- An `@if`. -/
  | ifStatement
  /-- An `@else`. -/
  | elseStatement
  /-- A `@for`. -/
  | forStatement
  /-- An `@each`. -/
  | eachStatement
  /-- The variables of an `@each`. -/
  | variableList
  /-- A `@while`. -/
  | whileStatement
  /-- An `@extend` or `:extend`. -/
  | extendsReference
  /-- A `@debug`, `@warn` or `@error`. -/
  | debugStatement
  /-- An `@at-root`. -/
  | atRoot
  /-- A `@use`. -/
  | useRule
  /-- A `@forward`. -/
  | forwardRule
  /-- The members that a `@forward` shows or hides. -/
  | forwardVisibility
  /-- The configuration of a module. -/
  | moduleConfiguration
  /-- A guard of a mixin or rule set. -/
  | guard
  /-- One condition of a guard. -/
  | guardCondition
  /-- A tilde and a string. -/
  | escapedValue
  /-- A block as a value. -/
  | detachedRuleset
  /-- A `@plugin`. -/
  | plugin
  /-- The options of an `@import`. -/
  | importOptions
  /-- The mark of a diagnostic. -/
  | error
deriving DecidableEq, Repr, Inhabited

namespace TokenKind

/-- Whether the token is white space or a comment. -/
def isTrivia : TokenKind → Bool
  | .whitespace | .comment => true
  | _ => false

/-- The token kinds in the order of their numbers. -/
def all : List TokenKind := [
  .whitespace, .comment, .ident, .atKeyword, .string, .badString, .number, .percentage, .dimension,
  .hash, .url, .unicodeRange, .dollarName, .placeholder, .hashBrace, .atBrace, .atSign, .leftParen,
  .rightParen, .leftBrace, .rightBrace, .leftBracket, .rightBracket, .semicolon, .colon, .comma,
  .dot, .ellipsis, .star, .slash, .plus, .minus, .greater, .less, .greaterEqual, .lessEqual,
  .equal, .doubleEqual, .notEqual, .tilde, .bang, .ampersand, .pipe, .caret, .percent, .caretEqual,
  .dollarEqual, .starEqual, .tildeEqual, .pipeEqual, .markupOpen, .markupClose, .unknown,
  .endOfInput]

/-- The name of a token kind. -/
def name : TokenKind → String
  | .whitespace => "T_WHITESPACE"
  | .comment => "T_COMMENT"
  | .ident => "T_IDENT"
  | .atKeyword => "T_AT_KEYWORD"
  | .string => "T_STRING"
  | .badString => "T_BAD_STRING"
  | .number => "T_NUMBER"
  | .percentage => "T_PERCENTAGE"
  | .dimension => "T_DIMENSION"
  | .hash => "T_HASH"
  | .url => "T_URL"
  | .unicodeRange => "T_UNICODE_RANGE"
  | .dollarName => "T_DOLLAR_VAR"
  | .placeholder => "T_PLACEHOLDER"
  | .hashBrace => "T_HASH_LBRACE"
  | .atBrace => "T_AT_LBRACE"
  | .atSign => "T_AT"
  | .leftParen => "T_LPAREN"
  | .rightParen => "T_RPAREN"
  | .leftBrace => "T_LBRACE"
  | .rightBrace => "T_RBRACE"
  | .leftBracket => "T_LBRACKET"
  | .rightBracket => "T_RBRACKET"
  | .semicolon => "T_SEMI"
  | .colon => "T_COLON"
  | .comma => "T_COMMA"
  | .dot => "T_DOT"
  | .ellipsis => "T_ELLIPSIS"
  | .star => "T_STAR"
  | .slash => "T_SLASH"
  | .plus => "T_PLUS"
  | .minus => "T_MINUS"
  | .greater => "T_GT"
  | .less => "T_LT"
  | .greaterEqual => "T_GTE"
  | .lessEqual => "T_LTE"
  | .equal => "T_EQ"
  | .doubleEqual => "T_EQEQ"
  | .notEqual => "T_NEQ"
  | .tilde => "T_TILDE"
  | .bang => "T_BANG"
  | .ampersand => "T_AMP"
  | .pipe => "T_PIPE"
  | .caret => "T_CARET"
  | .percent => "T_PERCENT"
  | .caretEqual => "T_PREFIX_MATCH"
  | .dollarEqual => "T_SUFFIX_MATCH"
  | .starEqual => "T_SUBSTRING_MATCH"
  | .tildeEqual => "T_INCLUDES"
  | .pipeEqual => "T_DASH_MATCH"
  | .markupOpen => "T_CDO"
  | .markupClose => "T_CDC"
  | .unknown => "T_UNKNOWN"
  | .endOfInput => "T_EOF"

end TokenKind

namespace NodeKind

/-- The node kinds in the order of their numbers. -/
def all : List NodeKind := [
  .stylesheet, .fragment, .ruleset, .selectors, .selector, .simpleSelector, .elementName,
  .classSelector, .idSelector, .attributeSelector, .pseudoSelector, .nth, .combinator,
  .parentReference, .placeholderSelector, .declarations, .declaration, .customProperty,
  .customValue, .property, .priority, .nestedProperties, .expression, .binaryExpression, .term,
  .operator, .function, .argumentList, .argument, .identifier, .hexColor, .numericValue,
  .stringLiteral, .uriLiteral, .unicodeRange, .gridLine, .parenthesized, .listEntry, .importRule,
  .namespaceRule, .charset, .media, .mediaQueryList, .mediaQuery, .mediaFeature, .supports,
  .supportsCondition, .page, .pageSelector, .marginBox, .fontFace, .keyframes, .keyframeSelector,
  .layer, .container, .propertyRule, .unknownAtRule, .atRulePrelude, .variableName,
  .variableDeclaration, .variableFlag, .interpolation, .moduleMember, .parameterList, .parameter,
  .mixinDeclaration, .mixinReference, .contentReference, .contentDeclaration, .functionDeclaration,
  .returnStatement, .ifStatement, .elseStatement, .forStatement, .eachStatement, .variableList,
  .whileStatement, .extendsReference, .debugStatement, .atRoot, .useRule, .forwardRule,
  .forwardVisibility, .moduleConfiguration, .guard, .guardCondition, .escapedValue,
  .detachedRuleset, .plugin, .importOptions, .error]

/-- The name of a node kind. -/
def name : NodeKind → String
  | .stylesheet => "N_STYLESHEET"
  | .fragment => "N_FRAGMENT"
  | .ruleset => "N_RULESET"
  | .selectors => "N_SELECTORS"
  | .selector => "N_SELECTOR"
  | .simpleSelector => "N_SIMPLE_SELECTOR"
  | .elementName => "N_ELEMENT_NAME"
  | .classSelector => "N_CLASS_SELECTOR"
  | .idSelector => "N_ID_SELECTOR"
  | .attributeSelector => "N_ATTRIBUTE_SELECTOR"
  | .pseudoSelector => "N_PSEUDO_SELECTOR"
  | .nth => "N_NTH"
  | .combinator => "N_SELECTOR_COMBINATOR"
  | .parentReference => "N_SELECTOR_REFERENCE"
  | .placeholderSelector => "N_SELECTOR_PLACEHOLDER"
  | .declarations => "N_DECLARATIONS"
  | .declaration => "N_DECLARATION"
  | .customProperty => "N_CUSTOM_PROPERTY_DECLARATION"
  | .customValue => "N_CUSTOM_PROPERTY_VALUE"
  | .property => "N_PROPERTY"
  | .priority => "N_PRIO"
  | .nestedProperties => "N_NESTED_PROPERTIES"
  | .expression => "N_EXPRESSION"
  | .binaryExpression => "N_BINARY_EXPRESSION"
  | .term => "N_TERM"
  | .operator => "N_OPERATOR"
  | .function => "N_FUNCTION"
  | .argumentList => "N_ARGUMENT_LIST"
  | .argument => "N_FUNCTION_ARGUMENT"
  | .identifier => "N_IDENTIFIER"
  | .hexColor => "N_HEX_COLOR"
  | .numericValue => "N_NUMERIC_VALUE"
  | .stringLiteral => "N_STRING_LITERAL"
  | .uriLiteral => "N_URI_LITERAL"
  | .unicodeRange => "N_UNICODE_RANGE"
  | .gridLine => "N_GRID_LINE"
  | .parenthesized => "N_PARENTHESIZED"
  | .listEntry => "N_LIST_ENTRY"
  | .importRule => "N_IMPORT"
  | .namespaceRule => "N_NAMESPACE"
  | .charset => "N_CHARSET"
  | .media => "N_MEDIA"
  | .mediaQueryList => "N_MEDIA_QUERY_LIST"
  | .mediaQuery => "N_MEDIA_QUERY"
  | .mediaFeature => "N_MEDIA_FEATURE"
  | .supports => "N_SUPPORTS"
  | .supportsCondition => "N_SUPPORTS_CONDITION"
  | .page => "N_PAGE"
  | .pageSelector => "N_PAGE_SELECTOR"
  | .marginBox => "N_PAGE_MARGIN_BOX"
  | .fontFace => "N_FONT_FACE"
  | .keyframes => "N_KEYFRAME"
  | .keyframeSelector => "N_KEYFRAME_SELECTOR"
  | .layer => "N_LAYER"
  | .container => "N_CONTAINER"
  | .propertyRule => "N_PROPERTY_AT_RULE"
  | .unknownAtRule => "N_UNKNOWN_AT_RULE"
  | .atRulePrelude => "N_AT_RULE_PRELUDE"
  | .variableName => "N_VARIABLE"
  | .variableDeclaration => "N_VARIABLE_DECLARATION"
  | .variableFlag => "N_VARIABLE_FLAG"
  | .interpolation => "N_INTERPOLATION"
  | .moduleMember => "N_MODULE_MEMBER"
  | .parameterList => "N_PARAMETER_LIST"
  | .parameter => "N_FUNCTION_PARAMETER"
  | .mixinDeclaration => "N_MIXIN_DECLARATION"
  | .mixinReference => "N_MIXIN_REFERENCE"
  | .contentReference => "N_MIXIN_CONTENT_REFERENCE"
  | .contentDeclaration => "N_MIXIN_CONTENT_DECLARATION"
  | .functionDeclaration => "N_FUNCTION_DECLARATION"
  | .returnStatement => "N_RETURN_STATEMENT"
  | .ifStatement => "N_IF_STATEMENT"
  | .elseStatement => "N_ELSE_STATEMENT"
  | .forStatement => "N_FOR_STATEMENT"
  | .eachStatement => "N_EACH_STATEMENT"
  | .variableList => "N_VARIABLE_LIST"
  | .whileStatement => "N_WHILE_STATEMENT"
  | .extendsReference => "N_EXTENDS_REFERENCE"
  | .debugStatement => "N_DEBUG_STATEMENT"
  | .atRoot => "N_AT_ROOT"
  | .useRule => "N_USE"
  | .forwardRule => "N_FORWARD"
  | .forwardVisibility => "N_FORWARD_VISIBILITY"
  | .moduleConfiguration => "N_MODULE_CONFIGURATION"
  | .guard => "N_LESS_GUARD"
  | .guardCondition => "N_GUARD_CONDITION"
  | .escapedValue => "N_ESCAPED_VALUE"
  | .detachedRuleset => "N_DETACHED_RULESET"
  | .plugin => "N_PLUGIN"
  | .importOptions => "N_IMPORT_OPTIONS"
  | .error => "N_ERROR"

end NodeKind

/-- The kind of an element of a tree. -/
inductive Kind where
  /-- A leaf. -/
  | token (kind : TokenKind)
  /-- An inner node. -/
  | node (kind : NodeKind)
deriving DecidableEq, Repr

namespace Kind

/-- All kinds in the order of their numbers. -/
def all : List Kind := TokenKind.all.map .token ++ NodeKind.all.map .node

/-- The number of a kind. -/
def number (k : Kind) : Nat := all.idxOf k

/-- The kind with a given number; a number beyond the last one stands for an error node. -/
def ofNumber (n : Nat) : Kind := all.getD n (.node .error)

/-- The name of a kind. -/
def name : Kind → String
  | token k => k.name
  | node k => k.name

/-- Whether the kind is that of a leaf. -/
def isToken : Kind → Bool
  | token _ => true
  | node _ => false

/-- Whether the kind is that of white space or a comment. -/
def isTrivia : Kind → Bool
  | token k => k.isTrivia
  | node _ => false

end Kind

end StyleSheet
