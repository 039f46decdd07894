import StyleSheet.Tree.Site
import StyleSheet.Vocabulary

/-!
# What rules and declarations say

Records of what the nodes of a sheet, of rule sets, blocks and declarations hold.
-/

namespace StyleSheet

/-- An at-rule that has no grammar of its own. -/
structure GenericAtRule where
  /-- The keyword with its `@`. -/
  name : Text
  /-- What stands between the keyword and the block. -/
  head : Text
deriving DecidableEq, Repr

/-- Reads a node as an at-rule without a grammar of its own. -/
def GenericAtRule.ofSite (s : Site) : GenericAtRule where
  name := (s.tokenText? .atKeyword).getD []
  head := (s.childText? .atRulePrelude).getD []

/-- A whole sheet. -/
structure Sheet where
  /-- The statements at the top level. -/
  statements : List Site
  /-- The rule sets at the top level. -/
  rulesets : List Site
  /-- The at-rules without a grammar of their own, at all levels. -/
  genericAtRules : List Site
deriving Repr

namespace Sheet

/-- Reads a node as a sheet. -/
def ofSite (s : Site) : Sheet where
  statements := s.items
  rulesets := s.childrenOf .ruleset
  genericAtRules := s.descendants.filter fun n => n.kind == .unknownAtRule

/-- The at-rules whose names a vocabulary does not hold. -/
def unknownAtRules (sheet : Sheet) (v : Vocabulary) : List Site :=
  sheet.genericAtRules.filter fun s => !v.knowsAtRule (GenericAtRule.ofSite s).name

end Sheet

/-- A rule set. -/
structure Ruleset where
  /-- The selectors. -/
  selectors : List Site
  /-- The block, if there is one. -/
  block? : Option Site
deriving Repr

/-- Reads a node as a rule set. -/
def Ruleset.ofSite (s : Site) : Ruleset where
  selectors := ((s.child? .selectors).map fun l => l.childrenOf .selector).getD []
  block? := s.child? .declarations

/-- A block in braces. -/
structure Block where
  /-- The declarations of properties. -/
  declarations : List Site
  /-- All items. -/
  items : List Site
deriving Repr

/-- Reads a node as a block. -/
def Block.ofSite (s : Site) : Block where
  declarations := s.childrenOf .declaration
  items := s.items

/-- A declaration of a property. -/
structure Declaration where
  /-- The name of the property as it is written. -/
  property? : Option Text
  /-- The value, unless it is missing. -/
  value? : Option Site
  /-- Whether the declaration is marked as important. -/
  isImportant : Bool
deriving Repr

namespace Declaration

/-- Reads a node as a declaration of a property. -/
def ofSite (s : Site) : Declaration where
  property? := s.childText? .property
  value? := s.child? .expression
  isImportant := (s.child? .priority).isSome

/-- Whether a vocabulary holds the name of the property. A `*` or `_` before the name, by which old
browsers are addressed, does not count. -/
def isKnown (d : Declaration) (v : Vocabulary) : Bool :=
  d.property?.any fun name =>
    v.knowsProperty (name.dropWhile fun b => b == byte '*' || b == byte '_')

end Declaration

/-- A declaration of a custom property. -/
structure CustomProperty where
  /-- The name with its two dashes. -/
  name? : Option Text
  /-- The value, as an expression or as it is written. -/
  value? : Option Site
deriving Repr

/-- Reads a node as a declaration of a custom property. -/
def CustomProperty.ofSite (s : Site) : CustomProperty where
  name? := s.childText? .property
  value? := (s.child? .expression).or (s.child? .customValue)

/-- A declaration of a variable. -/
structure VariableDeclaration where
  /-- The name with its sign. -/
  name? : Option Text
  /-- The value, an expression or a block. -/
  value? : Option Site
  /-- The words of the flags behind the value. -/
  flags : List Text
deriving Repr

namespace VariableDeclaration

/-- The word of a flag: its text without the exclamation mark. -/
def flagWord (t : Text) : Text := Text.trim (t.trim.dropByte (byte '!'))

/-- Reads a node as a declaration of a variable. -/
def ofSite (s : Site) : VariableDeclaration where
  name? := s.childText? .variableName
  value? := (s.child? .expression).or (s.child? .detachedRuleset)
  flags := (s.childrenOf .variableFlag).map fun f => flagWord f.text

end VariableDeclaration

end StyleSheet
