import StyleSheet.Grammar.Selector

/-!
# Blocks, rule sets and declarations

A block holds items, each ended by a semicolon or by a block of its own. Whatever goes wrong in an
item, reading goes on behind the next semicolon or before the brace that closes the block.
-/

namespace StyleSheet.Grammar

open Rule

/-! ## Blocks -/

/-- Skips to behind the next semicolon. -/
def skipStatement : Rule := resume [.semicolon] []

/-- The nonterminal of the items of a block. -/
def itemName : BlockItem → Nonterminal
  | .statement => .blockItem
  | .keyframe => .keyframe

/-- What ends an item of a block: a semicolon, the end of the block, or a block of its own. -/
def endOfItem : Rule :=
  test (·.isAny [.rightBrace, .endOfInput]) ||| token .semicolon |||
    test View.afterBlockOrSemicolon |||
    (report .semiColonExpected >> skipStatement)

/-- Items in braces. An item that cannot be read at all is the fault `missing`. -/
def block (item : BlockItem) (missing : Fault) : Rule :=
  let step :=
    choose (·.isAny [.rightBrace, .endOfInput]) fail <|
      choose (·.is 0 .semicolon) take <|
        seq (call (itemName item)) fun matched =>
          (if matched then endOfItem else report missing >> skipStatement) >> accept
  when (·.is 0 .leftBrace) <| group .declarations <|
    take >> many step >> expect .rightBrace .rightCurlyExpected

/-- A block; without one, the rest of the statement is skipped. Outside of all blocks a closing
brace ends the statement as well. -/
def blockOf (item : BlockItem) (missing : Fault) (nested : Bool) : Rule :=
  call (.block item missing) |||
    (report .leftCurlyExpected >>
      resume (if nested then [.semicolon] else [.semicolon, .rightBrace]) [])

/-- A block of declarations, nested rule sets and at-rules. -/
def body (nested : Bool) : Rule := blockOf .statement .ruleOrSelectorExpected nested

/-- A block of statements, without a remedy for its absence. -/
def statements : Rule := call (.block .statement .ruleOrSelectorExpected)

/-! ## Rule sets -/

/-- The guard of a rule set in LESS. -/
def rulesetGuard (d : Dialect) : Rule :=
  when (fun v => d = .less && v.isWord 0 "when") (call .guard)

/-- Selectors and a block. -/
def ruleset (d : Dialect) (nested : Bool) : Rule :=
  node .ruleset <| call .selectors &&& (rulesetGuard d >> body nested >> accept)

/-- Whether a name and a colon read as a property: a blank or a block follows the colon. -/
def startsDeclaration (v : View) : Bool :=
  v.is 0 .ident && v.is 1 .colon && (v.gap 2 || v.is 2 .leftBrace)

/-- A rule set inside of a block: selectors without a fault, and then a block. -/
def nestedRuleset (d : Dialect) : Rule :=
  when (fun v => startsSelector d v && !startsDeclaration v) <| node .ruleset <|
    attempt (seq (call .selectors) fun matched =>
      rulesetGuard d >> test (fun v => matched && v.is 0 .leftBrace)) &&&
    (body true >> accept)

/-! ## Declarations -/

/-- The mark `!important`. -/
def priority : Rule := when View.isImportant (node .priority (take >> take))

/-- What LESS allows between a property and its colon to merge values: `+` or `+_`. -/
def mergeSign : Rule :=
  when (fun v => v.is 0 .plus && v.adjacent 0) <|
    choose (·.is 1 .colon) take <|
      when (fun v => v.isWord 1 "_" && v.is 2 .colon) (take >> take)

/-- The name of a property, perhaps with a star before it. -/
def property (d : Dialect) : Rule :=
  let name := identPieces d >> if d = .less then mergeSign else accept
  choose (fun v => v.is 0 .star && v.is 1 .ident && v.adjacent 1)
    (group .property (take >> name)) <|
    when (startsIdent d) (group .property name)

/-- The value of a custom property: an expression if it reads as one up to its end, and otherwise a
row of tokens and groups. -/
def customValue : Rule :=
  attempt (call (.expression false) &&&
      test (·.isAny [.semicolon, .rightBrace, .rightParen, .bang, .endOfInput])) |||
    group .customValue (skipUntil fun v =>
      v.isAny [.semicolon, .rightBrace, .rightParen, .rightBracket, .endOfInput] || v.isImportant)

/-- A property whose name starts with two dashes, and its value. -/
def customProperty : Rule :=
  group .customProperty <|
    leaf .property >> (expect .colon .colonExpected &&& (customValue >> priority))

/-- A property and its value, perhaps with a block of nested properties. -/
def plainDeclaration : Rule :=
  let value :=
    seq (call (.expression false)) fun hasValue =>
      priority >>
        choose (·.is 0 .leftBrace) (group .nestedProperties statements)
          (if hasValue then accept else report .propertyValueExpected)
  node .declaration <|
    call .property &&& ((expect .colon .colonExpected &&& value) >> accept)

/-- A declaration. -/
def declaration : Rule :=
  choose (fun v => v.is 0 .ident && (v.text 0).startsWith "--") customProperty plainDeclaration

end StyleSheet.Grammar
