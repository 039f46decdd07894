import Mathlib
import StyleSheet.Proofs.NodeParts

/-!
# What nonterminals add to the node around them

Most nonterminals yield nothing if they do not match, and some yield exactly one node if they do.
Skipping yields tokens alone.
-/

namespace StyleSheet

namespace Grammar

open Rule

variable {d : Dialect} {depth : Nat} {name : Nonterminal} {s s' : Spot} {m : Bool} {y : Yield}

/-! ## Nothing without a match -/

section

variable (d)

@[simp] lemma mute_identPieces : Mute (identPieces d) false := by
  simp [identPieces]

lemma mute_simpleSelector : Mute (rule d .simpleSelector) false := by
  have hpart : Mute (selectorPart d) false := by
    intro v
    dsimp only
    split <;> simp [classSelector, attributeSelector, pseudoSelector, parentReference]
  simp [rule, simpleSelector, elementName, parentReference, hpart]

lemma mute_unsignedTerm : Mute (rule d .unsignedTerm) false := by
  intro v
  dsimp only
  split <;> simp [hexColor, bracketed, parenthesized, named, uriLiteral, progid, identOrCall]

lemma mute_atRule (nested : Bool) : Mute (rule d (.atRule nested)) false := by
  have htable : ∀ entry ∈ cssAtRules d nested ++ marginBoxRules nested, Mute entry.2 false := by
    simp [cssAtRules, importRule, namespaceRule, charset, media, supports, page, plainBlock,
      keyframes, layer, container, propertyRule, marginBoxRules]
  have hunknown : Mute unknownAtRule false := by simp [unknownAtRule]
  have hrule := of_ruleFor? (P := (Mute · false)) htable hunknown
  simp [rule, atRule, hrule]

lemma mute_dialectAtRule (nested : Bool) : Mute (rule d (.dialectAtRule nested)) false := by
  cases d with
  | css => trivial
  | scss =>
      have htable : ∀ entry ∈ scssAtRules nested, Mute entry.2 false := by
        simp [scssAtRules, scssMixinDeclaration, scssMixinReference, contentReference,
          functionDeclaration, expressionRule, ifStatement, forStatement, eachStatement,
          whileStatement,
          extend, atRoot, useRule, forwardRule]
      exact fun v => of_ruleFor? (P := (Mute · false)) htable mute_fail _
  | less => simp [rule, dialectAtRule, lessAtRule, lessVariableDeclaration, plugin]

/-- The rules of most nonterminals yield nothing if they do not match. -/
theorem mute_rule (hname : isMuteName name = true) : Mute (rule d name) false := by
  cases name with
  | balanced | ifRest nested | mediaCondition | mediaQuery | mediaQueryList | supportsCondition =>
      cases hname
  | simpleSelector => exact mute_simpleSelector d
  | unsignedTerm => exact mute_unsignedTerm d
  | atRule nested => exact mute_atRule d nested
  | dialectAtRule nested => exact mute_dialectAtRule d nested
  | combinator =>
      refine ⟨rfl, fun v => ?_⟩
      dsimp only
      split <;> simp
  | stylesheet => simp [rule, stylesheet]
  | statement => cases d <;> simp [rule, statement, dialectStatement]
  | blockItem => cases d <;> simp [rule, blockItem, dialectStatement]
  | keyframe => simp [rule, keyframe, keyframeOffset]
  | block item missing => simp [rule, block]
  | ruleset nested => simp [rule, ruleset]
  | nestedRuleset => simp [rule, nestedRuleset]
  | declaration => simp [rule, declaration, customProperty, plainDeclaration]
  | property => simp [rule, property]
  | ident => simp [rule, ident]
  | interpolation => cases d <;> simp [rule, interpolation]
  | selectors => simp [rule, selectors]
  | selector => simp [rule, selector]
  | expression single => simp [rule, expression]
  | binary level => simp [rule, binary]
  | term => simp [rule, term]
  | arguments => simp [rule, arguments]
  | argument => simp [rule, argument]
  | variableDeclaration => simp [rule, variableDeclaration, scssVariableDeclaration]
  | variableName => simp [rule, variableName]
  | moduleMember => simp [rule, moduleMember]
  | mixinStatement nested => simp [rule, lessMixinStatement]
  | mixinDeclaration nested => simp [rule, lessMixinDeclaration]
  | mixinReference => simp [rule, lessMixinReference]
  | escapedValue => simp [rule, escapedValue]
  | parameterList => simp [rule, parameterList]
  | guard => simp [rule, guard]

end

lemma eq_nil_of_yields (h : Yields d depth name s false y s') (hname : isMuteName name = true) :
    y = .nil := by
  induction depth generalizing name s y s' with
  | zero => cases h
  | succ depth ih =>
      exact Reads.eq_nil_of_mute (fun name s y s' hname h => ih h hname) (mute_rule d hname) h

/-! ## One node -/

/-- The kind of the node that a nonterminal builds, if this is told by its name. -/
def nodeKind? : Nonterminal → Option NodeKind
  | .block .. => some .declarations
  | .property => some .property
  | .ident => some .identifier
  | .selectors => some .selectors
  | .selector => some .selector
  | .combinator => some .combinator
  | .simpleSelector => some .simpleSelector
  | .expression _ => some .expression
  | .term => some .term
  | .variableName => some .variableName
  | .guard => some .guard
  | _ => none

lemma makes_rule {kind : NodeKind} (hname : nodeKind? name = some kind) :
    Makes kind (rule d name) := by
  cases name <;> simp [nodeKind?] at hname <;> subst hname <;>
    simp [rule, block, property, ident, selectors, selector, combinator, simpleSelector,
      expression, term, variableName, guard]

/-- A nonterminal that builds one node or yields nothing. -/
lemma yields_node {kind : NodeKind} (hname : nodeKind? name = some kind)
    (h : Yields d depth name s m y s') :
    (m = true ∧ ∃ z, y = .node kind z .nil) ∨ (m = false ∧ y = .nil) := by
  cases m with
  | true =>
      obtain ⟨depth', h⟩ := reads_of_yields h
      exact .inl ⟨rfl, h.eq_node_of_makes (makes_rule hname)⟩
  | false =>
      have hmute : isMuteName name = true := by
        cases name <;> first | rfl | cases hname
      exact .inr ⟨rfl, eq_nil_of_yields h hmute⟩

/-! ## Tokens alone -/

section

variable {C : Calls}

/-- A group in brackets is a row of tokens. -/
lemma kids_of_balanced (hC : ∀ s m y s', C .balanced s m y s' → y.kids = [])
    (h : Reads d C (.rule balanced) s m y s') : y.kids = [] := by
  have hskip : ∀ {closer : TokenKind} {s s' : Spot} {m : Bool} {y : Yield}, Reads d C (.rule (
      take >> many (choose (·.isAny [closer, .rightBrace, .endOfInput]) fail <|
        choose (·.isAny [.rightParen, .rightBracket]) take (call .balanced >> accept)) >>
        token closer)) s m y s' → y.kids = [] := by
    intro closer s s' m y h
    obtain ⟨_, y₁, s₁, y₂, htake, hrest, rfl⟩ := reads_then.1 h
    obtain ⟨_, y₃, s₂, y₄, hmany, hclose, rfl⟩ := reads_then.1 hrest
    obtain ⟨-, rfl, -⟩ := reads_take.1 htake
    have hround : ∀ s m y s', Reads d C (.rule (
        choose (·.isAny [closer, .rightBrace, .endOfInput]) fail <|
          choose (·.isAny [.rightParen, .rightBracket]) take (call .balanced >> accept))) s m y s' →
            y.kids = [] := by
      intro s m y s' h
      rw [reads_choose, reads_choose, fail, reads_done, reads_take, reads_then] at h
      split at h
      · rw [h.2.1, Yield.kids_nil]
      · split at h
        · rw [h.2.1, Spot.kids_taken]
        · obtain ⟨_, z, _, _, hcall, haccept, rfl⟩ := h
          rw [(reads_done.1 haccept).2.1, Yield.append_nil, hC _ _ _ _ (reads_call.1 hcall)]
    rw [reads_token] at hclose
    split at hclose <;> simp [kids_of_many hround hmany, hclose.2.1]
  rw [balanced, reads_look] at h
  dsimp only at h
  split at h
  case h_6 => rw [(reads_take.1 h).2.1, Spot.kids_taken]
  all_goals exact hskip h

end

lemma kids_of_yields_balanced (h : Yields d depth .balanced s m y s') : y.kids = [] := by
  induction depth generalizing s m y s' with
  | zero => cases h
  | succ depth ih => exact kids_of_balanced (fun _ _ _ _ => ih) h

/-- Skipping yields tokens alone. -/
lemma kids_of_skipUntil {c : View → Bool}
    (h : Reads d (Yields d depth) (.rule (skipUntil c)) s m y s') : y.kids = [] := by
  have hround : ∀ s m y s',
      Reads d (Yields d depth) (.rule (choose c fail (call .balanced >> accept)))
      s m y s' → y.kids = [] := by
    intro s m y s' h
    rw [reads_choose, fail, reads_done, reads_then] at h
    split at h
    · rw [h.2.1, Yield.kids_nil]
    · obtain ⟨_, z, _, _, hcall, haccept, rfl⟩ := h
      rw [(reads_done.1 haccept).2.1, Yield.append_nil,
        kids_of_yields_balanced (reads_call.1 hcall)]
  exact kids_of_many hround h

lemma kids_of_resume {consume stop : List TokenKind}
    (h : Reads d (Yields d depth) (.rule (resume consume stop)) s m y s') : y.kids = [] := by
  obtain ⟨_, y₁, s₁, y₂, hskip, hrest, rfl⟩ := reads_then.1 h
  rw [reads_when, reads_take] at hrest
  rw [Yield.kids_append, kids_of_skipUntil hskip]
  split at hrest <;> simp [hrest.2.1]

end Grammar

end StyleSheet
