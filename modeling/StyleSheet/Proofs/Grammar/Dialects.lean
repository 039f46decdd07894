import Mathlib
import StyleSheet.Proofs.NodeParts

/-!
# What the rules of a dialect are made of

The dialects share their nonterminals, and each rule asks for its dialect where it matters. Here the
rules are gone through once, for each dialect: a rule builds no nodes of the kinds that belong to
other dialects and calls nonterminals of its own dialect only.
-/

namespace StyleSheet

/-- The kinds of nodes that a dialect does not have. -/
def NodeKind.foreign : Dialect → List NodeKind
  | .css => [
    .variableName, .variableDeclaration, .variableFlag, .interpolation, .moduleMember,
    .parameterList, .parameter, .mixinDeclaration, .mixinReference, .contentReference,
    .contentDeclaration, .functionDeclaration, .returnStatement, .ifStatement, .elseStatement,
    .forStatement, .eachStatement, .variableList, .whileStatement, .extendsReference,
    .debugStatement, .atRoot, .useRule, .forwardRule, .forwardVisibility, .moduleConfiguration,
    .guard, .guardCondition, .escapedValue, .detachedRuleset, .plugin, .importOptions,
    .placeholderSelector, .listEntry]
  | .scss => [.guard, .guardCondition, .escapedValue, .detachedRuleset, .plugin, .importOptions]
  | .less => [
    .placeholderSelector, .listEntry, .variableFlag, .moduleMember, .contentReference,
    .contentDeclaration, .functionDeclaration, .returnStatement, .ifStatement, .elseStatement,
    .forStatement, .eachStatement, .variableList, .whileStatement, .debugStatement,
    .atRoot, .useRule, .forwardRule, .forwardVisibility, .moduleConfiguration]

namespace Grammar

open Rule

/-- Whether a nonterminal is reached in a dialect. -/
def isReached (d : Dialect) : Nonterminal → Bool
  | .moduleMember | .ifRest _ => d = .scss
  | .variableName | .mixinStatement _ | .mixinDeclaration _ | .mixinReference | .escapedValue
  | .guard => d = .less
  | .parameterList => d ≠ .css
  | _ => true

/-- The kinds of nodes whose parts matter here. -/
def formedKinds : List NodeKind := [
  .ruleset, .selectors, .selector, .declaration, .customProperty, .variableDeclaration,
  .binaryExpression, .numericValue]

/-- Whether the rule of a nonterminal builds nodes of these kinds by itself. -/
def isFormer : Nonterminal → Bool
  | .ruleset _ | .nestedRuleset | .selectors | .selector | .declaration | .variableDeclaration
  | .dialectAtRule _ | .binary _ | .unsignedTerm => true
  | _ => false

/-- What a rule may build: no foreign nodes, and nodes whose parts matter only if it is a
`former`. -/
def MayBuild (d : Dialect) (former : Bool) (kind : NodeKind) : Prop :=
  kind ∉ NodeKind.foreign d ∧ (kind ∈ formedKinds → former = true)

/-- What a rule may call: the at-rules of the dialect only if it is `general`. -/
def MayCall (d : Dialect) (general : Bool) (callee : Nonterminal) : Prop :=
  isReached d callee = true ∧ ((∃ nested, callee = .dialectAtRule nested) → general = true)

/-- Whether a nonterminal stands for all at-rules. -/
def isAtRule : Nonterminal → Bool
  | .atRule _ => true
  | _ => false

attribute [local simp] MayBuild MayCall isReached isFormer isAtRule NodeKind.foreign formedKinds

section

variable {P : NodeKind → Prop} {d : Dialect} {general : Bool}

lemma mayCall_balanced : MayCall d general .balanced := by simp

@[simp] lemma uses_skipUntil_mayCall (c : View → Bool) : Uses P (MayCall d general) (skipUntil c) :=
  uses_skipUntil c mayCall_balanced

@[simp] lemma uses_resume_mayCall (consume stop : List TokenKind) :
    Uses P (MayCall d general) (resume consume stop) :=
  uses_resume consume stop mayCall_balanced

@[simp] lemma uses_close_mayCall (kind : TokenKind) (fault : Fault) (stop : List TokenKind) :
    Uses P (MayCall d general) (close kind fault stop) :=
  uses_close kind fault stop mayCall_balanced

@[simp] lemma uses_identPieces_mayCall (d' : Dialect) :
    Uses P (MayCall d general) (identPieces d') :=
  uses_identPieces d' (by simp)

@[simp] lemma uses_blockOf_mayCall (item : BlockItem) (missing : Fault) (nested : Bool) :
    Uses P (MayCall d general) (blockOf item missing nested) :=
  uses_blockOf item missing nested (by simp) mayCall_balanced

end

/-- The at-rules that all dialects have. -/
lemma uses_cssTable (d : Dialect) (nested : Bool) (name : Text) :
    Uses (MayBuild d false) (MayCall d false)
      ((ruleFor? (cssAtRules d nested ++ marginBoxRules nested) name).getD unknownAtRule) := by
  refine of_ruleFor? (P := Uses _ _) (List.forall_mem_append.2 ⟨?_, ?_⟩) ?_ name
  · cases d <;>
      simp [cssAtRules, importRule, importTargets, importLayer, importOptions, importSupports,
        closeParen, stringOrUri, layerName, namespaceRule, charset, stringLiteral, media, body,
        supports, page, pageSelector, requiredIdent, plainBlock, keyframes, layer, container,
        propertyRule]
  · intro entry hentry
    obtain ⟨box, -, rfl⟩ := List.mem_map.1 hentry
    cases d <;> simp [plainBlock, body]
  · cases d <;> simp [unknownAtRule, statements]

/-- The at-rules of SCSS. -/
lemma uses_scssTable (nested : Bool) (name : Text) :
    Uses (MayBuild .scss false) (MayCall .scss false)
      ((ruleFor? (scssAtRules nested) name).getD fail) := by
  refine of_ruleFor? (P := Uses _ _) ?_ uses_fail name
  simp [scssAtRules, scssMixinDeclaration, requiredIdent, body, scssMixinReference, scssMixinName,
    contentDeclaration, contentReference, functionDeclaration, expressionRule, ifStatement,
    forStatement, requiredVariable, eachStatement, whileStatement, extend, atRoot, mediaFeature,
    comparison, closeParen, useRule, stringLiteral, moduleConfiguration, variableFlags, forwardRule,
    stringOrUri, forwardVisibility]

lemma uses_dialectAtRule (d : Dialect) (nested : Bool) :
    (rule d (.dialectAtRule nested)).Uses (MayBuild d true) (MayCall d false) := by
  cases d with
  | css => trivial
  | scss => exact fun v =>
      (uses_scssTable nested _).mono (fun _ h => ⟨h.1, fun _ => rfl⟩) fun _ h => h
  | less =>
      simp [rule, dialectAtRule, lessAtRule, lessVariableDeclaration, statements, priority, plugin,
        stringOrUri]

lemma uses_simpleSelector (d : Dialect) :
    (rule d .simpleSelector).Uses (MayBuild d false) (MayCall d false) := by
  have hnth : Uses (MayBuild d false) (MayCall d false) (nthPart d) := by
    intro v
    dsimp only
    split <;> simp
  have hpart : Uses (MayBuild d false) (MayCall d false) (selectorPart d) := by
    intro v
    dsimp only
    split
    case h_3 | h_4 => cases d <;>
      simp [attributeSelector, pseudoSelector, pseudoArgument, nth, hnth]
    all_goals cases d <;> simp [classSelector, parentReference]
  cases d <;> simp [rule, simpleSelector, elementName, parentReference, hpart]

lemma uses_unsignedTerm (d : Dialect) :
    (rule d .unsignedTerm).Uses (MayBuild d true) (MayCall d false) := by
  intro v
  dsimp only
  cases d <;> split <;>
    simp [hexColor, bracketed, parenthesized, listEntry, named, uriLiteral, progid, identOrCall]

lemma uses_mediaCondition (d : Dialect) :
    (rule d .mediaCondition).Uses (MayBuild d false) (MayCall d false) := by
  have hoperand : Uses (MayBuild d false) (MayCall d false) (mediaOperand d) := by
    intro v
    dsimp only
    cases d <;> split <;> simp [mediaFeature, comparison, closeParen, queryFunction]
  simp [rule, mediaCondition, joinedOperands, hoperand]

/-- The rules of the nonterminals that a dialect reaches. -/
theorem uses_reached {d : Dialect} {name : Nonterminal} (hname : isReached d name = true) :
    (rule d name).Uses (MayBuild d (isFormer name)) (MayCall d (isAtRule name)) := by
  cases name with
  | atRule nested =>
      have htable : ∀ v : View, Uses (MayBuild d false) (MayCall d true)
          ((ruleFor? (cssAtRules d nested ++ marginBoxRules nested)
            (plainAtRuleName (v.text 0))).getD unknownAtRule) :=
        fun v => (uses_cssTable d nested _).mono (fun _ h => h) fun _ h => ⟨h.1, fun _ => rfl⟩
      exact (uses_when _ _).2 fun _ _ => (uses_or _ _).2 ⟨⟨rfl, fun _ => rfl⟩, htable⟩
  | dialectAtRule nested => exact uses_dialectAtRule d nested
  | simpleSelector => exact uses_simpleSelector d
  | unsignedTerm => exact uses_unsignedTerm d
  | mediaCondition => exact uses_mediaCondition d
  | balanced =>
      intro v
      dsimp only
      split <;> simp
  | combinator =>
      refine ⟨by cases d <;> simp, fun v => ?_⟩
      dsimp only
      split <;> simp
  | stylesheet => cases d <;> simp [rule, stylesheet, endOfStatement, skipStatement]
  | statement => cases d <;> simp [rule, statement, dialectStatement]
  | blockItem => cases d <;> simp [rule, blockItem, dialectStatement]
  | keyframe => cases d <;> simp [rule, keyframe, keyframeOffset, body]
  | block item missing =>
      cases item <;> cases d <;> simp [rule, block, endOfItem, skipStatement, itemName]
  | ruleset nested => cases d <;> simp [rule, ruleset, rulesetGuard, body]
  | nestedRuleset => cases d <;> simp [rule, nestedRuleset, rulesetGuard, body]
  | declaration =>
      cases d <;> simp [rule, declaration, customProperty, plainDeclaration, customValue, priority,
        statements]
  | property => cases d <;> simp [rule, property, mergeSign]
  | ident => cases d <;> simp [rule, ident]
  | interpolation => cases d <;> simp [rule, interpolation]
  | selectors => cases d <;> simp [rule, selectors]
  | selector => cases d <;> simp [rule, selector]
  | expression single => cases d <;> simp [rule, expression]
  | binary level => cases d <;> simp [rule, binary]
  | term => cases d <;> simp [rule, term]
  | arguments => cases d <;> simp [rule, arguments]
  | argument => cases d <;> simp [rule, argument, startsNamedArgument]
  | mediaQueryList => cases d <;> simp [rule, mediaQueryList]
  | mediaQuery => cases d <;> simp [rule, mediaQuery]
  | supportsCondition =>
      cases d <;>
        simp [rule, supportsCondition, supportsOperand, selectorFunction, supportsGroup, closeParen,
        joinedOperands]
  | variableDeclaration =>
      cases d <;> simp [rule, variableDeclaration, scssVariableDeclaration, priority, variableFlags]
  | variableName | moduleMember | ifRest nested | mixinStatement nested | mixinDeclaration nested
  | mixinReference | escapedValue | parameterList | guard =>
      cases d <;> simp at hname <;>
        simp [rule, variableName, moduleMember, ifRest, body, lessMixinStatement,
          lessMixinDeclaration, lessMixinName, lessMixinReference, furtherMixinName, priority,
          escapedValue, parameterList, lessParameter, scssParameter, guard, guardCondition,
          comparison]

end Grammar

end StyleSheet
