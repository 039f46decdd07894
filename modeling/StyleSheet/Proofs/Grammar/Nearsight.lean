import Mathlib
import StyleSheet.Proofs.Grammar.Closing
import StyleSheet.Proofs.Tandem

/-!
# The grammar of CSS is nearsighted

The rules of CSS look at most three tokens ahead, and none of them looks behind a closing brace:
whenever a decision depends on a further token, the tokens before it are known not to be closing
braces. So nearly all of the grammar is nearsighted, which is shown rule by rule
(`nearsighted_statement`, `nearsighted_cssAtRules`). The exceptions are blocks, and the rules that
try something: nested rule sets, values of custom properties and unknown at-rules.
-/

namespace StyleSheet

/-- Whether the rule of a nonterminal of CSS reads the same wherever it stands before a closing
brace. -/
def Nonterminal.IsSteady : Nonterminal → Prop
  | .balanced | .statement | .keyframe | .block .. | .ruleset _ | .declaration | .property | .ident
  | .interpolation | .selectors | .selector | .combinator | .simpleSelector | .expression _
  | .binary _
  | .term | .unsignedTerm | .arguments | .argument | .atRule _ | .mediaQueryList | .mediaQuery
  | .mediaCondition | .supportsCondition | .dialectAtRule _ => True
  | _ => False

namespace View

variable {v : View}

/-! ## Conditions -/

@[simp] lemma near_is (kind : TokenKind) : Near (·.is 0 kind) v :=
  fun w h => by simp [View.is, h.reach.2.1.1]

@[simp] lemma near_isAny (kinds : List TokenKind) : Near (·.isAny kinds) v :=
  fun w h => by simp [View.isAny, h.reach.2.1.1]

@[simp] lemma near_isWord (word : String) : Near (·.isWord 0 word) v :=
  fun w h => by simp [View.isWord, View.is, h.reach.2.1.1, h.reach.2.1.2.1]

@[simp] lemma near_adjacent : Near (·.adjacent 0) v :=
  fun w h => by simp [View.adjacent, View.is, h.reach.2.1.1, h.reach.2.1.2.2]

@[simp] lemma near_opensCall : Near View.opensCall v :=
  fun w h => by simp [View.opensCall, View.adjacent, View.is, h.reach.2.1.1, h.reach.2.1.2.2]

@[simp] lemma near_isImportant : Near View.isImportant v := by
  intro w h
  have h := h.reach
  grind [View.isImportant, View.isWord, View.is, View.SameAt]

@[simp] lemma near_afterBlockOrSemicolon : Near View.afterBlockOrSemicolon v :=
  fun w h => by simp [View.afterBlockOrSemicolon, h.reach.1]

lemma near_callFollows (hident : v.kind 0 = .ident) : Near View.callFollows v := by
  intro w h
  have h := h.reach
  grind [View.callFollows, View.adjacent, View.is, View.SameAt]

end View

namespace Grammar

open Rule

/-- The rule reads the same before closing braces, if what it calls does. -/
abbrev Nearsighted (r : Rule) (v : View) : Prop := Rule.Nearsighted Nonterminal.IsSteady r v

attribute [local simp] Nonterminal.IsSteady

section

variable {v : View} {nested : Bool}

/-! ## Names -/

@[simp] lemma near_startsIdent : View.Near (startsIdent .css) v :=
  fun w h => by simp [startsIdent, startsPiece, opensInterpolation, View.is, h.reach.2.1.1]

@[simp] lemma near_startsPiece : View.Near (startsPiece .css 0) v := near_startsIdent

@[simp] lemma near_opensInterpolation : View.Near (opensInterpolation .css 0) v :=
  fun w h => by simp [opensInterpolation, h.reach.2.1.1]

lemma kind_of_startsIdent (h : startsIdent .css v = true) : v.kind 0 = .ident := by
  simpa [startsIdent, startsPiece, opensInterpolation, interpolationOpener?] using h

@[simp] lemma nearsighted_token (kind : TokenKind) : Nearsighted (token kind) v := by simp [token]

@[simp] lemma nearsighted_word (w : String) : Nearsighted (word w) v := by simp [word]

@[simp] lemma nearsighted_expect (kind : TokenKind) (fault : Fault) :
    Nearsighted (expect kind fault) v := by
  simp [expect]

@[simp] lemma nearsighted_group (kind : NodeKind) (body : Rule) :
    Nearsighted (group kind body) v ↔ Nearsighted body v := by
  simp [group]

@[simp] lemma nearsighted_leaf (kind : NodeKind) : Nearsighted (leaf kind) v := by simp [leaf]

@[simp] lemma nearsighted_moreAfterCommas (item : Rule) (missing : Fault) :
    Nearsighted (moreAfterCommas item missing) v ↔ ∀ v, Nearsighted item v := by
  simp [moreAfterCommas]

@[simp] lemma nearsighted_skipUntil {c : View → Bool} (hc : ∀ v, View.Near c v) :
    Nearsighted (skipUntil c) v := by
  simp [skipUntil, hc]

@[simp] lemma nearsighted_resume (consume stop : List TokenKind) :
    Nearsighted (resume consume stop) v := by
  have hnear : ∀ v, View.Near
      (fun v => v.isAny consume || v.isAny stop || v.isAny [.rightBrace, .endOfInput]) v :=
    fun v w h => by simp [View.isAny, h.reach.2.1.1]
  simp [resume, hnear]

@[simp] lemma nearsighted_close (kind : TokenKind) (fault : Fault) (stop : List TokenKind) :
    Nearsighted (close kind fault stop) v := by
  simp [close]

@[simp] lemma nearsighted_identPieces : Nearsighted (identPieces .css) v := by
  have hdash : ∀ v,
      View.Near (fun v => v.is 0 .minus && v.adjacent 1 && startsPiece .css 1 v) v := by
    intro v w h
    have h := h.reach
    grind [View.adjacent, View.is, View.SameAt, startsPiece, opensInterpolation]
  simp [identPieces, identPiece, furtherPiece, hdash]

lemma nearsighted_ident : Nearsighted (ident .css) v := by simp [ident]

@[simp] lemma nearsighted_stringLiteral : Nearsighted stringLiteral v := by simp [stringLiteral]

@[simp] lemma nearsighted_stringOrUri : Nearsighted stringOrUri v := by
  have hnear : View.Near startsStringOrUri v := by
    intro w h
    have h := h.reach
    grind [startsStringOrUri, View.isWord, View.callFollows, View.adjacent, View.is, View.isAny,
      View.SameAt]
  simp [stringOrUri, hnear]

lemma nearsighted_balanced : Nearsighted balanced v := by
  rw [balanced]
  refine ⟨fun w h => ?_, ?_⟩
  · dsimp only
    rw [h.reach.2.1.1]
  · dsimp only
    split <;> simp

/-! ## Selectors -/

lemma nearsighted_combinator : Nearsighted combinator v := by
  rw [combinator]
  refine ⟨fun w h => ?_, ?_⟩
  · have h := h.reach
    dsimp only
    rw [h.2.1.1]
    split <;> grind [View.isWord, View.is, View.SameAt]
  · have hpierce : ∀ v, View.Near
        (fun v => v.is 0 .greater && v.adjacent 0 && v.is 1 .greater && v.adjacent 1) v := by
      intro v w h
      have h := h.reach
      grind [View.adjacent, View.is, View.SameAt]
    dsimp only
    split <;> simp [hpierce]

@[simp] lemma nearsighted_elementName : Nearsighted (elementName .css) v := by
  have hbare :
      View.Near (fun v => v.is 0 .pipe && v.adjacent 1 && (v.is 1 .ident || v.is 1 .star)) v := by
    intro w h
    have h := h.reach
    grind [View.adjacent, View.is, View.SameAt]
  have hname : View.Near (fun v => startsIdent .css v || v.is 0 .star) v := by
    intro w h
    simp [near_startsIdent w h, View.is, h.reach.2.1.1]
  have hpipe : ∀ v, View.Near (fun v => v.is 0 .pipe && v.adjacent 0) v := by
    intro v w h
    simp [View.adjacent, View.is, h.reach.2.1.1, h.reach.2.1.2.2]
  simp [elementName, hbare, hname, hpipe]

@[simp] lemma nearsighted_parentReference : Nearsighted (parentReference .css) v := by
  have hnear : ∀ v, View.Near (fun _ => false) v := fun _ _ _ => rfl
  simp [parentReference, hnear]

@[simp] lemma nearsighted_classSelector : Nearsighted (classSelector .css) v := by
  simp [classSelector]

@[simp] lemma nearsighted_attributeSelector : Nearsighted (attributeSelector .css) v := by
  have hspace : ∀ v,
      View.Near (fun v => (startsIdent .css v || v.is 0 .star) && v.is 1 .pipe) v := by
    intro v w h
    have hident := near_startsIdent w h
    have h := h.reach
    grind [View.is, View.SameAt, kind_of_startsIdent]
  simp [attributeSelector, hspace]

@[simp] lemma nearsighted_nthPart : Nearsighted (nthPart .css) v := by
  rw [nthPart]
  refine ⟨fun w h => ?_, ?_⟩
  · have hword : w.isWord 0 "of" = v.isWord 0 "of" := View.near_isWord "of" w h
    dsimp only
    rw [h.reach.2.1.1, hword]
  · dsimp only
    split <;> simp

@[simp] lemma nearsighted_nth : Nearsighted (nth .css) v := by simp [nth]

@[simp] lemma nearsighted_pseudoArgument (name : Text) :
    Nearsighted (pseudoArgument .css name) v := by
  simp [pseudoArgument]

@[simp] lemma nearsighted_pseudoSelector : Nearsighted (pseudoSelector .css) v := by
  have hcolon : ∀ v, View.Near (fun v => v.is 0 .colon && v.adjacent 0) v := by
    intro v w h
    simp [View.adjacent, View.is, h.reach.2.1.1, h.reach.2.1.2.2]
  simp only [pseudoSelector, nearsighted_group, nearsighted_then]
  refine ⟨trivial, fun v => ⟨by simp [hcolon], fun v => ⟨fun w h => ?_, ?_⟩⟩⟩
  · have hadjacent : w.adjacent 0 = v.adjacent 0 := View.near_adjacent w h
    dsimp only
    rw [hadjacent, near_startsIdent w h, h.reach.2.1.2.1]
  · simp

@[simp] lemma nearsighted_selectorPart : Nearsighted (selectorPart .css) v := by
  rw [selectorPart]
  refine ⟨fun w h => ?_, ?_⟩
  · dsimp only
    rw [h.reach.2.1.1]
  · dsimp only
    split <;> simp

lemma nearsighted_simpleSelector : Nearsighted (simpleSelector .css) v := by
  have hnear : ∀ v, View.Near (fun _ => false) v := fun _ _ _ => rfl
  simp [simpleSelector, hnear]

lemma nearsighted_selector : Nearsighted selector v := by simp [selector]

lemma nearsighted_selectors : Nearsighted selectors v := by simp [selectors]

/-! ## Values -/

lemma nearsighted_expression (single : Bool) : Nearsighted (expression .css single) v := by
  simp [expression]

lemma near_precedence? : View.Near (precedence? .css) v := by
  intro w h
  have h := h.reach
  simp only [View.SameAt] at h
  simp only [precedence?, isBinarySign]
  grind

lemma nearsighted_binary (level : Nat) : Nearsighted (binary .css level) v := by
  refine ⟨trivial, fun _ v w h => ?_, fun v => ⟨fun w h => ?_, ?_⟩⟩
  · dsimp only
    rw [near_precedence? w h]
  · dsimp only
    rw [near_precedence? w h]
  · simp [operator]

@[simp] lemma nearsighted_comparison : Nearsighted comparison v := by simp [comparison, operator]

lemma nearsighted_term : Nearsighted (term .css) v := by
  have hunary : View.Near (startsUnary .css) v := by
    intro w h
    have h := h.reach
    grind [startsUnary, View.isAny, View.adjacent, View.is, View.SameAt]
  simp [term, hunary, operator]

@[simp] lemma nearsighted_hexColor : Nearsighted hexColor v := by
  have hnear : View.Near (fun v => isHexColor (v.text 0)) v := by
    intro w h
    simp [h.reach.2.1.2.1]
  simp [hexColor, hnear]

@[simp] lemma nearsighted_named : Nearsighted (named .css) v := by
  have huri : View.Near (fun v => v.isWord 0 "url" && v.callFollows) v := by
    intro w h
    have h := h.reach
    grind [View.isWord, View.callFollows, View.adjacent, View.is, View.SameAt]
  have hprogid : View.Near (fun v => v.isWord 0 "progid" && v.is 1 .colon && v.adjacent 1) v := by
    intro w h
    have h := h.reach
    grind [View.isWord, View.adjacent, View.is, View.SameAt]
  have hpiece : ∀ kind v, View.Near (fun v => v.is 0 kind && v.adjacent 0) v := by
    intro kind v w h
    simp [View.adjacent, View.is, h.reach.2.1.1, h.reach.2.1.2.2]
  have hcall : ∀ (layers : Nat) v, View.Near (fun v => layers == 0 && v.opensCall) v := by
    intro layers v w h
    simp [View.near_opensCall w h]
  simp [named, huri, hprogid, uriLiteral, progid, hpiece, identOrCall, hcall]

@[simp] lemma nearsighted_bracketed : Nearsighted bracketed v := by simp [bracketed]

@[simp] lemma nearsighted_parenthesized : Nearsighted (parenthesized .css) v := by
  simp [parenthesized]

lemma nearsighted_unsignedTerm : Nearsighted (unsignedTerm .css) v := by
  rw [unsignedTerm]
  refine ⟨fun w h => ?_, ?_⟩
  · dsimp only
    rw [h.reach.2.1.1]
  · dsimp only
    split <;> simp

lemma nearsighted_argument : Nearsighted (argument .css) v := by
  have hnamed : View.Near (startsNamedArgument .css) v := fun _ _ => rfl
  have hequal : View.Near (fun v => v.is 0 .ident && v.is 1 .equal) v := by
    intro w h
    have h := h.reach
    grind [View.is, View.SameAt]
  simp [argument, hnamed, hequal, operator]

lemma nearsighted_arguments : Nearsighted (arguments .css) v := by
  have hrest : ∀ v, View.Near (fun v => !v.isAny [.rightParen, .endOfInput]) v := by
    intro v w h
    simp [View.near_isAny _ w h]
  simp [arguments, hrest]

/-! ## Queries -/

@[simp] lemma nearsighted_closeParen : Nearsighted closeParen v := by simp [closeParen]

@[simp] lemma nearsighted_joinedOperands {operand : Rule} (h : ∀ v, Nearsighted operand v)
    (missing : Fault) : Nearsighted (joinedOperands operand missing) v := by
  have hnear : ∀ v, View.Near (fun v => v.isWord 0 "and" || v.isWord 0 "or") v := by
    intro v w h
    simp [View.isWord, View.is, h.reach.2.1.1, h.reach.2.1.2.1]
  simp [joinedOperands, hnear, h]

@[simp] lemma nearsighted_mediaFeature : Nearsighted mediaFeature v := by
  have hnear : ∀ v,
      View.Near (fun v => v.is 0 .leftParen || (v.isWord 0 "not" && v.is 1 .leftParen)) v := by
    intro v w h
    have h := h.reach
    grind [View.isWord, View.is, View.SameAt]
  simp [mediaFeature, hnear]

lemma near_leftParen_or_not : View.Near (fun v => v.is 0 .leftParen || v.isWord 0 "not") v := by
  intro w h
  simp [View.isWord, View.is, h.reach.2.1.1, h.reach.2.1.2.1]

@[simp] lemma nearsighted_queryFunction : Nearsighted queryFunction v := by
  simp [queryFunction, near_leftParen_or_not]

@[simp] lemma nearsighted_mediaOperand : Nearsighted (mediaOperand .css) v := by
  rw [mediaOperand]
  refine ⟨fun w h => ?_, ?_⟩
  · dsimp only
    rw [h.reach.2.1.1]
  · have hcall : startsIdent .css v = true → View.Near View.callFollows v :=
      fun h => View.near_callFollows (kind_of_startsIdent h)
    dsimp only
    split <;> simp +contextual [hcall]

lemma nearsighted_mediaCondition : Nearsighted (mediaCondition .css) v := by simp [mediaCondition]

lemma nearsighted_mediaQuery : Nearsighted mediaQuery v := by
  have hnear :
      View.Near (fun v => (v.isWord 0 "not" || v.isWord 0 "only") && !v.is 1 .leftParen) v := by
    intro w h
    have h := h.reach
    grind [View.isWord, View.is, View.SameAt]
  simp [mediaQuery, hnear]

lemma nearsighted_mediaQueryList : Nearsighted mediaQueryList v := by simp [mediaQueryList]

@[simp] lemma nearsighted_supportsOperand : Nearsighted (supportsOperand .css) v := by
  have hcall : View.Near (fun v => startsIdent .css v && v.callFollows) v := by
    intro w h
    have hident := near_startsIdent w h
    have hcall := fun hkind => View.near_callFollows (v := v) hkind w h
    grind [kind_of_startsIdent]
  have hgroup : ∀ v, View.Near (fun v => v.is 0 .leftParen || v.isWord 0 "not" ||
      (v.isWord 0 "selector" && v.is 1 .leftParen)) v := by
    intro v w h
    have h := h.reach
    grind [View.isWord, View.is, View.SameAt]
  simp [supportsOperand, hcall, selectorFunction, supportsGroup, hgroup]

lemma nearsighted_supportsCondition : Nearsighted (supportsCondition .css) v := by
  simp [supportsCondition]

/-! ## Blocks, declarations and statements -/

@[simp] lemma nearsighted_blockOf (item : BlockItem) (missing : Fault) :
    Nearsighted (blockOf item missing nested) v := by
  simp [blockOf]

@[simp] lemma nearsighted_body : Nearsighted (body nested) v := nearsighted_blockOf _ _

@[simp] lemma nearsighted_rulesetGuard : Nearsighted (rulesetGuard .css) v := by
  have hnear : View.Near (fun _ => false) v := fun _ _ => rfl
  simp [rulesetGuard, hnear]

lemma nearsighted_ruleset : Nearsighted (ruleset .css nested) v := by simp [ruleset]

@[simp] lemma nearsighted_priority : Nearsighted priority v := by simp [priority]

lemma nearsighted_property : Nearsighted (property .css) v := by
  have hstar : View.Near (fun v => v.is 0 .star && v.is 1 .ident && v.adjacent 1) v := by
    intro w h
    have h := h.reach
    grind [View.adjacent, View.is, View.SameAt]
  simp [property, hstar]

@[simp] lemma nearsighted_plainDeclaration : Nearsighted plainDeclaration v := by
  simp [plainDeclaration, statements]

@[simp] lemma nearsighted_skipStatement : Nearsighted skipStatement v := by simp [skipStatement]

@[simp] lemma nearsighted_endOfItem : Nearsighted endOfItem v := by simp [endOfItem]

@[simp] lemma nearsighted_endOfStatement : Nearsighted endOfStatement v := by simp [endOfStatement]

lemma nearsighted_statement : Nearsighted (statement .css) v := by
  simp [statement, dialectStatement]

/-! ## At-rules -/

@[simp] lemma nearsighted_requiredIdent : Nearsighted requiredIdent v := by simp [requiredIdent]

@[simp] lemma nearsighted_layerName : Nearsighted (layerName .css) v := by
  have hdot : ∀ v,
      View.Near (fun v => v.is 0 .dot && v.adjacent 0 && v.adjacent 1 && v.is 1 .ident) v := by
    intro v w h
    have h := h.reach
    grind [View.adjacent, View.is, View.SameAt]
  simp [layerName, hdot]

@[simp] lemma nearsighted_importRule : Nearsighted (importRule .css) v := by
  have hsupports : ∀ v, View.Near (fun v => v.isWord 0 "supports" && v.callFollows) v := by
    intro v w h
    have h := h.reach
    grind [View.isWord, View.callFollows, View.adjacent, View.is, View.SameAt]
  simp [importRule, importTargets, importLayer, importSupports, hsupports, near_leftParen_or_not]

@[simp] lemma nearsighted_namespaceRule : Nearsighted (namespaceRule .css) v := by
  have hname : ∀ v, View.Near (fun v => startsIdent .css v && !v.isWord 0 "url") v := by
    intro v w h
    simp [near_startsIdent w h, View.isWord, View.is, h.reach.2.1.1, h.reach.2.1.2.1]
  simp [namespaceRule, hname]

@[simp] lemma nearsighted_pageSelector : Nearsighted (pageSelector .css) v := by
  have hnear : View.Near (fun v => startsIdent .css v || v.is 0 .colon) v := by
    intro w h
    simp [near_startsIdent w h, View.is, h.reach.2.1.1]
  simp [pageSelector, hnear]

@[simp] lemma nearsighted_keyframeOffset : Nearsighted keyframeOffset v := by simp [keyframeOffset]

lemma nearsighted_keyframe : Nearsighted keyframe v := by simp [keyframe]

@[simp] lemma nearsighted_container : Nearsighted (container .css nested) v := by
  have hname : ∀ v,
      View.Near (fun v => startsIdent .css v && !v.isWord 0 "not" && !v.callFollows) v := by
    intro v w h
    have hident := near_startsIdent w h
    have hcall := fun hkind => View.near_callFollows (v := v) hkind w h
    have h := h.reach
    grind [View.isWord, View.is, View.SameAt, kind_of_startsIdent]
  simp [container, hname]

lemma nearsighted_cssAtRules : ∀ entry ∈ cssAtRules .css nested, Nearsighted entry.2 v := by
  simp [cssAtRules, charset, media, supports, page, plainBlock, keyframes, layer, propertyRule]

lemma nearsighted_marginBoxRules : ∀ entry ∈ marginBoxRules nested, Nearsighted entry.2 v := by
  simp [marginBoxRules, plainBlock]

end

end Grammar

end StyleSheet
