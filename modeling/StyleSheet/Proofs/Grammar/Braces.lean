import Mathlib
import StyleSheet.Proofs.Kinds
import StyleSheet.Proofs.Sparing

/-!
# The grammar spares braces

The rules of the grammar spare the braces that are not their own: inside of a block of CSS or LESS
whatever happens, and in all dialects in a run without a fault (`spares_rule`). The rules of blocks,
of interpolated values and of skipped groups take braces and are not among them.

There are simp lemmas for the rules that have no name of their own, given what has been seen before
them.
-/

namespace StyleSheet.Grammar

open Rule Braces

attribute [local simp] Nonterminal.Due Nonterminal.isInner Nonterminal.isLoose Nonterminal.Seen
  StartsShortName

section

variable {d e : Dialect} {clean free nested : Bool} {v : View}

/-! ## Names and selectors -/

lemma kind_ne_of_startsIdent {kind : TokenKind} (h : startsIdent d v = true)
    (hident : kind ≠ .ident) (hopens : kind.opensBrace = false) : v.kind 0 ≠ kind := by
  rintro rfl
  cases d <;> simp [startsIdent, startsPiece, opensInterpolation, interpolationOpener?, hident] at h
  · rw [← h] at hopens
    cases hopens
  · rw [← h] at hopens
    cases hopens

@[simp] lemma spares_identPiece (h : startsPiece e 0 v = true) :
    Spares d clean (identPiece e) free v := by
  by_cases hopens : opensInterpolation e 0 v = true
  · simp [identPiece, hopens]
  · have hident : v.kind 0 = .ident := by simpa [startsPiece, hopens] using h
    simp [identPiece, hopens, hident]

@[simp] lemma spares_furtherPiece : Spares d clean (furtherPiece e) free v := by
  simp +contextual [furtherPiece]

@[simp] lemma spares_identPieces : Spares d clean (identPieces e) free v := by
  simp +contextual [identPieces, startsIdent]

lemma spares_ident : Spares d clean (ident d) free v := by simp [ident]

@[simp] lemma spares_stringLiteral : Spares d clean stringLiteral free v := by
  simp +contextual [stringLiteral, or_imp]

@[simp] lemma spares_stringOrUri : Spares d clean stringOrUri free v := by simp [stringOrUri]

@[simp] lemma spares_skipUntil {c : View → Bool} (h : ∀ v, c v = false → v.kind 0 ≠ .rightBrace) :
    Spares d clean (skipUntil c) free v := by
  simp +contextual [skipUntil, h]

@[simp] lemma spares_resume {consume stop : List TokenKind}
    (hconsume : ∀ kind ∈ consume, kind.isBrace = false) :
    Spares d clean (resume consume stop) free v := by
  refine ⟨spares_skipUntil (by simp +contextual), fun _ v' _ => ?_⟩
  simp only [spares_when, isAny_eq_true, spares_take]
  intro hmem
  have hbrace := hconsume _ hmem
  cases clean <;> simp_all

@[simp] lemma spares_close {kind : TokenKind} (hkind : kind.isBrace = false) (fault : Fault)
    (stop : List TokenKind) : Spares d clean (close kind fault stop) free v := by
  have hresume : ∀ v, Spares d clean (resume [kind] stop) free v := fun v =>
    spares_resume (by simpa using hkind)
  simp [close, hkind, hresume]

lemma spares_combinator : Spares d clean combinator free v := by
  simp only [combinator, spares_node, spares_look]
  refine ⟨by simp, ?_⟩
  split <;> simp_all +contextual [View.isWord]

@[simp] lemma spares_elementName : Spares d clean (elementName d) free v := by
  simp +contextual [elementName]

@[simp] lemma spares_parentReference : Spares d clean (parentReference d) free v := by
  simp +contextual [parentReference]

@[simp] lemma spares_classSelector (h : v.kind 0 = .dot) :
    Spares d clean (classSelector d) free v := by
  simp +contextual [classSelector, h]

/-- The namespace of an attribute may start with an interpolated value, of which only the first
token is taken: so a brace is opened and stays open. CSS has no interpolated values. -/
@[simp] lemma spares_attributeSelector (h : v.kind 0 = .leftBracket) :
    Spares d clean (attributeSelector d) free v := by
  have hbrace : startsIdent d v.next = true → v.kind 1 ≠ .rightBrace :=
    fun h => kind_ne_of_startsIdent h (by decide) rfl
  have hend : startsIdent d v.next = true → v.kind 1 ≠ .endOfInput :=
    fun h => kind_ne_of_startsIdent h (by decide) rfl
  by_cases hd : d = .css
  · subst hd
    have hident : startsIdent .css v.next = true → v.kind 1 = .ident := fun h => by
      simpa [startsIdent, startsPiece, opensInterpolation, interpolationOpener?] using h
    simp +contextual [attributeSelector, h, or_imp, hident]
  · cases clean <;> simp +contextual [attributeSelector, h, or_imp, hbrace, hend, hd]

@[simp] lemma spares_nthPart : Spares d clean (nthPart d) free v := by
  simp only [nthPart, spares_look]
  split <;> simp_all

@[simp] lemma spares_nth : Spares d clean (nth d) free v := by simp +contextual [nth]

@[simp] lemma spares_pseudoSelector (h : v.kind 0 = .colon) :
    Spares d clean (pseudoSelector d) free v := by
  simp +contextual [pseudoSelector, h, View.opensCall, pseudoArgument, expect]

@[simp] lemma spares_selectorPart : Spares d clean (selectorPart d) free v := by
  simp only [selectorPart, spares_look]
  split <;> simp_all

lemma spares_simpleSelector : Spares d clean (simpleSelector d) free v := by
  simp +contextual [simpleSelector]

lemma spares_selector : Spares d clean selector free v := by simp [selector]

lemma spares_selectors : Spares d clean selectors free v := by simp [selectors, moreAfterCommas]

/-! ## Values -/

lemma spares_expression (single : Bool) : Spares d clean (expression d single) free v := by
  simp +contextual [expression]

@[simp] lemma spares_operator (h : (v.kind 0).isBrace = false) :
    Spares d clean operator free v := by
  cases clean <;> simp_all [operator, leaf]

lemma isBrace_of_precedence? (h : (precedence? d v).isSome = true) :
    (v.kind 0).isBrace = false := by
  unfold precedence? at h
  split at h <;> simp_all

lemma spares_binary (level : Nat) : Spares d clean (binary d level) free v := by
  have hoperator : ∀ v, (precedence? d v).any (level ≤ ·) = true →
      Spares d clean (operator >>
        (call (.binary ((precedence? d v).getD 0 + 1)) ||| report .termExpected)) false v := by
    intro v h
    have hbrace := isBrace_of_precedence? (Option.isSome_of_any h)
    simp [spares_operator hbrace]
  exact ⟨by simp, fun v' _ => hoperator v', fun _ => hoperator⟩

@[simp] lemma spares_comparison : Spares d clean comparison free v := by
  simp +contextual [comparison, or_imp]

lemma spares_term : Spares d clean (term d) free v := by
  simp +contextual [term, startsUnary, View.isWord, or_imp]

@[simp] lemma spares_hexColor (h : v.kind 0 = .hash) : Spares d clean hexColor free v := by
  simp +contextual [hexColor, h]

@[simp] lemma spares_uriLiteral (h : v.kind 0 = .ident) (h' : v.kind 1 = .leftParen) :
    Spares d clean uriLiteral free v := by
  simp +contextual [uriLiteral, h, h']

@[simp] lemma spares_progid (h : v.kind 0 = .ident) (h' : v.kind 1 = .colon) :
    Spares d clean progid free v := by
  simp +contextual [progid, h, h', View.opensCall]

@[simp] lemma spares_identOrCall : Spares d clean identOrCall free v := by
  simp +contextual [identOrCall, View.opensCall]

@[simp] lemma spares_named : Spares d clean (named d) free v := by
  simp +contextual [named, View.isWord, View.callFollows]

@[simp] lemma spares_bracketed (h : v.kind 0 = .leftBracket) : Spares d clean bracketed free v := by
  simp [bracketed, h]

@[simp] lemma spares_listEntry : Spares d clean listEntry free v := by simp [listEntry]

@[simp] lemma spares_parenthesized (h : v.kind 0 = .leftParen) :
    Spares d clean (parenthesized d) free v := by
  simp [parenthesized, h]

lemma spares_unsignedTerm : Spares d clean (unsignedTerm d) free v := by
  simp only [unsignedTerm, spares_look]
  split <;> simp_all

lemma spares_argument : Spares d clean (argument d) free v := by
  cases d <;> simp +contextual [argument, startsNamedArgument]

lemma spares_arguments (h : v.kind 0 = .leftParen) : Spares d clean (arguments d) free v := by
  simp [arguments, h]

/-! ## Variables, parameters and guards -/

lemma spares_variableName : Spares d clean variableName free v := by
  simp +contextual [variableName]

lemma spares_escapedValue : Spares d clean escapedValue free v := by
  simp +contextual [escapedValue, or_imp]

@[simp] lemma spares_variableFlags (allowed : List String) :
    Spares d clean (variableFlags allowed) free v := by
  simp +contextual [variableFlags, View.isWord]

@[simp] lemma spares_scssParameter : Spares d clean scssParameter free v := by
  simp +contextual [scssParameter]

@[simp] lemma spares_lessParameter : Spares d clean lessParameter free v := by simp [lessParameter]

lemma spares_parameterList (h : v.kind 0 = .leftParen) :
    Spares d clean (parameterList d) free v := by
  simp [parameterList, h]

@[simp] lemma spares_guardCondition : Spares d clean guardCondition free v := by
  simp +contextual [guardCondition, View.isWord]

lemma spares_guard (h : v.kind 0 = .ident) : Spares d clean guard free v := by simp [guard, h]

@[simp] lemma spares_priority : Spares d clean priority free v := by
  simp +contextual [priority, View.isImportant, View.isWord]

lemma spares_variableDeclaration : Spares d clean (variableDeclaration d) free v := by
  simp +contextual [variableDeclaration, scssVariableDeclaration]

@[simp] lemma spares_lessVariableDeclaration (h : v.kind 0 = .atKeyword) (h' : v.kind 1 = .colon) :
    Spares d clean lessVariableDeclaration free v := by
  simp +contextual [lessVariableDeclaration, h, h', statements]

lemma spares_moduleMember : Spares d clean moduleMember free v := by
  simp +contextual [moduleMember, startsModuleCall, or_imp]

/-! ## Blocks and declarations -/

/-- Outside of all blocks, a missing block makes the rest of the statement be skipped with its
closing brace. That needs a fault. -/
@[simp] lemma spares_blockOf (hn : clean = false → nested = true) (item : BlockItem)
    (missing : Fault) : Spares d clean (blockOf item missing nested) free v := by
  cases clean <;> simp_all [blockOf]

@[simp] lemma spares_body (hn : clean = false → nested = true) :
    Spares d clean (body nested) free v :=
  spares_blockOf hn _ _

@[simp] lemma spares_rulesetGuard : Spares d clean (rulesetGuard d) free v := by
  simp +contextual [rulesetGuard, View.isWord]

lemma spares_ruleset (hn : clean = false → nested = true) :
    Spares d clean (ruleset d nested) free v := by
  simp +contextual [ruleset, hn]

lemma spares_nestedRuleset : Spares d clean (nestedRuleset d) free v := by simp [nestedRuleset]

@[simp] lemma spares_mergeSign : Spares d clean mergeSign free v := by
  simp +contextual [mergeSign, View.isWord]

lemma spares_property : Spares d clean (property d) free v := by simp +contextual [property]

@[simp] lemma spares_customValue : Spares d clean customValue free v := by
  simp +contextual [customValue]

lemma spares_declaration : Spares d clean declaration free v := by
  simp +contextual [declaration, customProperty, plainDeclaration, statements, expect]

/-! ## Queries -/

@[simp] lemma spares_closeParen : Spares d clean closeParen free v := by simp [closeParen]

@[simp] lemma spares_joinedOperands {operand : Rule} (h : ∀ v, Spares d clean operand free v)
    (missing : Fault) : Spares d clean (joinedOperands operand missing) free v := by
  simp +contextual [joinedOperands, View.isWord, h, or_imp]

@[simp] lemma spares_mediaFeature (h : v.kind 0 = .leftParen) :
    Spares d clean mediaFeature free v := by
  simp [mediaFeature, h]

/-- Behind the name of a query function, one token is taken for the parenthesis that was seen behind
the first token of the name. In SCSS an interpolated name may have more tokens. -/
@[simp] lemma spares_queryFunction (hd : clean = false → d ≠ .scss) (h : startsIdent d v = true)
    (h' : v.callFollows = true) : Spares d clean queryFunction free v := by
  by_cases hscss : d = .scss
  · cases clean with
    | false => exact absurd hscss (hd rfl)
    | true => simp [queryFunction, hscss]
  · have hparen : v.kind 1 = .leftParen := by simp_all [View.callFollows]
    have hshort := startsShortName_of_callFollows hscss h h'
    simp_all +contextual [queryFunction]

@[simp] lemma spares_mediaOperand (hd : clean = false → d ≠ .scss) :
    Spares d clean (mediaOperand d) free v := by
  simp only [mediaOperand, spares_look]
  split <;> simp_all +contextual

lemma spares_mediaCondition (hd : clean = false → d ≠ .scss) :
    Spares d clean (mediaCondition d) free v := by
  have hoperand : ∀ v, Spares d clean (mediaOperand d) free v := fun v => spares_mediaOperand hd
  simp [mediaCondition, hoperand]

lemma spares_mediaQuery : Spares d clean mediaQuery free v := by
  simp +contextual [mediaQuery, View.isWord, or_imp]

lemma spares_mediaQueryList : Spares d clean mediaQueryList free v := by
  simp [mediaQueryList, moreAfterCommas]

@[simp] lemma spares_selectorFunction (h : v.kind 0 = .ident) (h' : v.kind 1 = .leftParen) :
    Spares d clean selectorFunction free v := by
  cases clean <;> simp +contextual [selectorFunction, h, h']

@[simp] lemma spares_supportsGroup (h : v.kind 0 = .leftParen) :
    Spares d clean supportsGroup free v := by
  simp [supportsGroup, h]

@[simp] lemma spares_supportsOperand : Spares d clean (supportsOperand d) free v := by
  simp +contextual [supportsOperand, View.isWord, View.callFollows]

lemma spares_supportsCondition : Spares d clean (supportsCondition d) free v := by
  simp [supportsCondition]

/-! ## Mixins -/

@[simp] lemma spares_requiredIdent : Spares d clean requiredIdent free v := by simp [requiredIdent]

@[simp] lemma spares_scssMixinName : Spares d clean scssMixinName free v := by
  simp +contextual [scssMixinName]

@[simp] lemma spares_contentDeclaration (hn : clean = false → nested = true) :
    Spares d clean (contentDeclaration nested) free v := by
  simp +contextual [contentDeclaration, hn]

@[simp] lemma spares_lessMixinName (h : startsMixinName v = true) :
    Spares d clean lessMixinName free v := by
  have hhash : v.kind 0 ≠ .dot → v.kind 0 = .hash := by
    intro hdot
    simpa [startsMixinName, hdot] using h
  simp +contextual [lessMixinName, hhash]

lemma spares_mixinDeclaration (hn : clean = false → nested = true) (h : startsMixinName v = true) :
    Spares d clean (lessMixinDeclaration nested) free v := by
  simp +contextual [lessMixinDeclaration, h, hn, View.opensCall, View.isWord]

lemma spares_mixinReference (h : startsMixinName v = true) :
    Spares d clean lessMixinReference free v := by
  simp +contextual [lessMixinReference, h, furtherMixinName]

lemma spares_mixinStatement (hn : clean = false → nested = true) :
    Spares d clean (lessMixinStatement nested) free v := by
  simp +contextual [lessMixinStatement, hn]

/-! ## At-rules -/

@[simp] lemma spares_requiredVariable : Spares d clean requiredVariable free v := by
  simp +contextual [requiredVariable]

lemma spares_ifRest (hn : clean = false → nested = true) :
    Spares d clean (ifRest nested) free v := by
  simp +contextual [ifRest, hn, View.isKeyword, View.isWord, or_imp]

@[simp] lemma spares_layerName : Spares d clean (layerName d) free v := by
  simp +contextual [layerName]

@[simp] lemma spares_importLayer : Spares d clean (importLayer d) free v := by
  simp +contextual [importLayer, View.opensCall]

@[simp] lemma spares_importSupports (h : v.kind 0 = .ident) (h' : v.kind 1 = .leftParen) :
    Spares d clean importSupports free v := by
  cases clean <;> simp +contextual [importSupports, h, h']

@[simp] lemma spares_importOptions : Spares d clean importOptions free v := by
  simp +contextual [importOptions, expect]

@[simp] lemma spares_importTargets : Spares d clean (importTargets d) free v := by
  simp +contextual [importTargets, moreAfterCommas]

@[simp] lemma spares_importRule (h : v.kind 0 = .atKeyword) :
    Spares d clean (importRule d) free v := by
  simp +contextual [importRule, h, View.isWord, View.callFollows]

@[simp] lemma spares_pageSelector : Spares d clean (pageSelector d) free v := by
  simp +contextual [pageSelector]

@[simp] lemma spares_keyframeOffset : Spares d clean keyframeOffset free v := by
  simp [keyframeOffset]

lemma spares_keyframe : Spares d clean keyframe free v := by simp [keyframe, moreAfterCommas]

lemma spares_cssAtRules (hn : clean = false → nested = true) (h : v.kind 0 = .atKeyword) :
    ∀ entry ∈ cssAtRules d nested, Spares d clean entry.2 free v := by
  simp +contextual [cssAtRules, h, hn, namespaceRule, charset, media, supports, page,
    moreAfterCommas, plainBlock, keyframes, layer, container, propertyRule]

lemma spares_marginBoxRules (hn : clean = false → nested = true) (h : v.kind 0 = .atKeyword) :
    ∀ entry ∈ marginBoxRules nested, Spares d clean entry.2 free v := by
  simp +contextual [marginBoxRules, plainBlock, h, hn]

@[simp] lemma spares_unknownAtRule (h : v.kind 0 = .atKeyword) :
    Spares d clean unknownAtRule free v := by
  simp +contextual [unknownAtRule, h, statements]

@[simp] lemma spares_moduleConfiguration (h : v.kind 0 = .ident) :
    Spares d clean moduleConfiguration free v := by
  simp +contextual [moduleConfiguration, h, expect]

@[simp] lemma spares_forwardVisibility (h : v.kind 0 = .ident) :
    Spares d clean forwardVisibility free v := by
  simp +contextual [forwardVisibility, h]

@[simp] lemma spares_forwardRule (h : v.kind 0 = .atKeyword) :
    Spares d clean forwardRule free v := by
  simp +contextual [forwardRule, h, View.isWord, or_imp]

@[simp] lemma spares_atRoot (hn : clean = false → nested = true) (h : v.kind 0 = .atKeyword) :
    Spares d clean (atRoot e nested) free v := by
  simp +contextual [atRoot, h, hn]

lemma spares_scssAtRules (hn : clean = false → nested = true) (h : v.kind 0 = .atKeyword) :
    ∀ entry ∈ scssAtRules nested, Spares d clean entry.2 free v := by
  simp +contextual [scssAtRules, h, hn, scssMixinDeclaration, scssMixinReference, contentReference,
    functionDeclaration, expressionRule, ifStatement, forStatement, eachStatement,
    whileStatement, extend, useRule, View.isWord]

@[simp] lemma spares_lessAtRule (h : v.kind 0 = .atKeyword) : Spares d clean lessAtRule free v := by
  simp +contextual [lessAtRule, h, plugin, View.callFollows]

lemma spares_dialectAtRule (hn : clean = false → nested = true) (h : v.kind 0 = .atKeyword) :
    Spares d clean (dialectAtRule d nested) free v := by
  cases d with
  | css => simp [dialectAtRule]
  | scss =>
      exact of_ruleFor? (P := fun r => Spares .scss clean r free v) (spares_scssAtRules hn h)
        (by simp) _
  | less => simp [dialectAtRule, h]

lemma spares_atRule (hn : clean = false → nested = true) :
    Spares d clean (atRule d nested) free v := by
  have htable : ∀ v : View, v.kind 0 = .atKeyword → Spares d clean
      ((ruleFor? (cssAtRules d nested ++ marginBoxRules nested) (plainAtRuleName (v.text 0))).getD
        unknownAtRule) free v := by
    intro v h
    refine of_ruleFor? (P := fun r => Spares d clean r free v) ?_ (by simp [h]) _
    intro entry hentry
    exact (List.mem_append.1 hentry).elim (spares_cssAtRules hn h entry)
      (spares_marginBoxRules hn h entry)
  simp +contextual [atRule, hn, htable]

/-! ## Statements -/

@[simp] lemma spares_dialectStatement (hn : clean = false → nested = true) :
    Spares d clean (dialectStatement d nested) free v := by
  cases d <;> simp +contextual [dialectStatement, hn]

lemma spares_statement : Spares d true (statement d) free v := by simp [statement]

lemma spares_blockItem : Spares d clean (blockItem d) free v := by simp [blockItem]

@[simp] lemma spares_skipStatement : Spares d clean skipStatement free v := by simp [skipStatement]

@[simp] lemma spares_endOfItem : Spares d clean endOfItem free v := by simp [endOfItem]

@[simp] lemma spares_endOfStatement : Spares d clean endOfStatement free v := by
  simp [endOfStatement]

lemma spares_stylesheet : Spares d true stylesheet free v := by
  simp +contextual [stylesheet, or_imp]

/-! ## All rules -/

/-- Whether the rule of a nonterminal takes braces of its own. -/
def bracesIn : Nonterminal → Bool
  | .balanced | .interpolation | .block .. => true
  | _ => false

/-- The rule of a nonterminal spares the braces of others, inside of a block or in a clean run. -/
theorem spares_rule {name : Nonterminal} (hname : bracesIn name = false) (hdue : name.Due v)
    (hinner : clean = false → name.isInner = true ∧ d ≠ .scss) :
    Spares d clean (rule d name) false v := by
  have hd : clean = false → d ≠ .scss := fun h => (hinner h).2
  cases name with
  | balanced => cases hname
  | stylesheet =>
      cases clean with
      | false => cases (hinner rfl).1
      | true => exact spares_stylesheet
  | statement =>
      cases clean with
      | false => cases (hinner rfl).1
      | true => exact spares_statement
  | blockItem => exact spares_blockItem
  | keyframe => exact spares_keyframe
  | block item missing => cases hname
  | ruleset nested => exact spares_ruleset fun h => (hinner h).1
  | nestedRuleset => exact spares_nestedRuleset
  | declaration => exact spares_declaration
  | property => exact spares_property
  | ident => exact spares_ident
  | interpolation => cases hname
  | selectors => exact spares_selectors
  | selector => exact spares_selector
  | combinator => exact spares_combinator
  | simpleSelector => exact spares_simpleSelector
  | expression single => exact spares_expression single
  | binary level => exact spares_binary level
  | term => exact spares_term
  | unsignedTerm => exact spares_unsignedTerm
  | arguments => exact spares_arguments hdue
  | argument => exact spares_argument
  | atRule nested => exact spares_atRule fun h => (hinner h).1
  | mediaQueryList => exact spares_mediaQueryList
  | mediaQuery => exact spares_mediaQuery
  | mediaCondition => exact spares_mediaCondition hd
  | supportsCondition => exact spares_supportsCondition
  | variableDeclaration => exact spares_variableDeclaration
  | variableName => exact spares_variableName
  | moduleMember => exact spares_moduleMember
  | dialectAtRule nested => exact spares_dialectAtRule (fun h => (hinner h).1) hdue
  | ifRest nested => exact spares_ifRest fun h => (hinner h).1
  | mixinStatement nested => exact spares_mixinStatement fun h => (hinner h).1
  | mixinDeclaration nested => exact spares_mixinDeclaration (fun h => (hinner h).1) hdue
  | mixinReference => exact spares_mixinReference hdue
  | escapedValue => exact spares_escapedValue
  | parameterList => exact spares_parameterList hdue
  | guard => exact spares_guard hdue

end

end StyleSheet.Grammar
