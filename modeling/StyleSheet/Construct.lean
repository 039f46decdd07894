import StyleSheet.Construct.Callable
import StyleSheet.Construct.Quantity
import StyleSheet.Construct.Resource
import StyleSheet.Construct.Rule

/-!
# Constructs

A `Construct` is what a node says, for the kinds of nodes that users of a tree ask most about.
-/

namespace StyleSheet

/-- What a node says. -/
inductive Construct where
  /-- A whole sheet. -/
  | sheet (sheet : Sheet)
  /-- A rule set. -/
  | ruleset (ruleset : Ruleset)
  /-- A selector with its text. -/
  | selector (text : Text)
  /-- A block in braces. -/
  | block (block : Block)
  /-- A declaration of a property. -/
  | declaration (declaration : Declaration)
  /-- A declaration of a custom property. -/
  | customProperty (property : CustomProperty)
  /-- A declaration of a variable. -/
  | variableDeclaration (declaration : VariableDeclaration)
  /-- A variable with its name. -/
  | variableName (name : Text)
  /-- A definition of a mixin or a function. -/
  | callable (callable : Callable)
  /-- A use of a mixin with its name. -/
  | mixinReference (name? : Option Text)
  /-- A parameter. -/
  | parameter (parameter : Parameter)
  /-- A call of a function. -/
  | call (call : Call)
  /-- An animation with its name. -/
  | animation (name? : Option Text)
  /-- A loop that counts, with its variable. -/
  | countLoop (name? : Option Text)
  /-- A loop over the entries of a list, with its variables. -/
  | entryLoop (names : List Text)
  /-- An at-rule without a grammar of its own. -/
  | genericAtRule (rule : GenericAtRule)
  /-- A rule that imports other sheets, with their addresses. -/
  | importRule (addresses : List Text)
  /-- A rule that loads a module for use. -/
  | moduleUse (rule : ModuleUse)
  /-- A rule that hands the members of a module on. -/
  | moduleForward (rule : ModuleForward)
  /-- A numeric value. -/
  | quantity (quantity : Quantity)
deriving Repr

/-- What a node says, if its kind is one of those that are asked about. -/
def Construct.ofSite? (s : Site) : Option Construct :=
  match s.kind with
  | .stylesheet => some (.sheet (.ofSite s))
  | .ruleset => some (.ruleset (.ofSite s))
  | .selector => some (.selector s.trimmed)
  | .declarations => some (.block (.ofSite s))
  | .declaration => some (.declaration (.ofSite s))
  | .customProperty => some (.customProperty (.ofSite s))
  | .variableDeclaration => some (.variableDeclaration (.ofSite s))
  | .variableName => some (.variableName s.trimmed)
  | .mixinDeclaration | .functionDeclaration => some (.callable (.ofSite s))
  | .mixinReference => some (.mixinReference (mixinName? s))
  | .parameter => some (.parameter (.ofSite s))
  | .function => some (.call (.ofSite s))
  | .keyframes => some (.animation (animationName? s))
  | .forStatement => some (.countLoop ((countVariable? s).map Site.trimmed))
  | .eachStatement => some (.entryLoop ((entryVariables s).map Site.trimmed))
  | .unknownAtRule => some (.genericAtRule (.ofSite s))
  | .importRule => some (.importRule (importAddresses s))
  | .useRule => some (.moduleUse (.ofSite s))
  | .forwardRule => some (.moduleForward (.ofSite s))
  | .numericValue => some (.quantity (.ofSite s))
  | _ => none

end StyleSheet
