import Mathlib
import StyleSheet.Proofs.Grammar.Braces

/-!
# The grammar closes its braces

The rules of blocks, of interpolated values and of skipped groups take braces, and take them in
pairs (`balance_block`, `balance_interpolation`, `balance_balanced`). With what the other rules
spare it follows how every nonterminal treats braces (`balances_yields`):

* Inside of a block of CSS or LESS it never closes a group that it has not opened, whatever goes
  wrong. In CSS it closes the groups that it opens, unless the input ends before.
* In all dialects, if it reads without a fault, it closes the groups that it opens. Only a skipped
  group and what ends with one may be cut off by the end of the input; that is all right for
  declarations, because their block is then a fault, and in the prelude of an unknown at-rule it
  goes unnoticed.
-/

namespace StyleSheet.Grammar

open Rule Braces

section

variable {d e : Dialect} {nested m : Bool} {v : View}

attribute [local simp] Nonterminal.isLoose

/-! ## Rules that leave nothing open -/

@[simp] lemma mayOpen_identPieces : ¬ MayOpen d (identPieces e) v m := by
  simp [identPieces, identPiece, furtherPiece]

@[simp] lemma mayOpen_close (kind : TokenKind) (fault : Fault) (stop : List TokenKind) :
    ¬ MayOpen d (close kind fault stop) v m := by
  simp [close]

@[simp] lemma mayOpen_stringOrUri : ¬ MayOpen d stringOrUri v m := by simp [stringOrUri]

@[simp] lemma mayOpen_stringLiteral : ¬ MayOpen d stringLiteral v m := by simp [stringLiteral]

@[simp] lemma mayOpen_moreAfterCommas {item : Rule} (h : ∀ v m, ¬ MayOpen d item v m)
    (missing : Fault) : ¬ MayOpen d (moreAfterCommas item missing) v m := by
  simp [moreAfterCommas, h]

@[simp] lemma mayOpen_nthPart : ¬ MayOpen d (nthPart d) v m := by
  simp only [nthPart, mayOpen_look]
  split <;> simp

/-- An argument that is skipped may be cut off by the end of the input. Then the parenthesis is
missing. -/
@[simp] lemma mayOpen_pseudoSelector : ¬ MayOpen d (pseudoSelector d) v m := by
  simp +contextual [pseudoSelector, pseudoArgument, nth, expect, skipUntil]

@[simp] lemma mayOpen_parentReference : ¬ MayOpen d (parentReference d) v m := by
  simp [parentReference]

@[simp] lemma mayOpen_selectorPart : ¬ MayOpen d (selectorPart d) v m := by
  simp only [selectorPart, mayOpen_look]
  split <;> simp [classSelector, attributeSelector]

lemma mayOpen_combinator : ¬ MayOpen d combinator v m := by
  simp only [combinator, mayOpen_node, mayOpen_look]
  split <;> simp

@[simp] lemma mayOpen_operator : ¬ MayOpen d operator v m := mayOpen_leaf _

@[simp] lemma mayOpen_comparison : ¬ MayOpen d comparison v m := by simp [comparison]

@[simp] lemma mayOpen_named : ¬ MayOpen d (named d) v m := by
  simp [named, uriLiteral, progid, identOrCall]

lemma mayOpen_unsignedTerm : ¬ MayOpen d (unsignedTerm d) v m := by
  simp only [unsignedTerm, mayOpen_look]
  split <;> simp [hexColor, bracketed, parenthesized, listEntry]

@[simp] lemma mayOpen_blockOf (item : BlockItem) (missing : Fault) :
    ¬ MayOpen d (blockOf item missing nested) v m := by
  simp [blockOf]

@[simp] lemma mayOpen_body : ¬ MayOpen d (body nested) v m := mayOpen_blockOf _ _

@[simp] lemma mayOpen_rulesetGuard : ¬ MayOpen d (rulesetGuard d) v m := by simp [rulesetGuard]

@[simp] lemma mayOpen_priority : ¬ MayOpen d priority v m := by simp [priority]

@[simp] lemma mayOpen_variableFlags (allowed : List String) :
    ¬ MayOpen d (variableFlags allowed) v m := by
  simp [variableFlags]

@[simp] lemma mayOpen_closeParen : ¬ MayOpen d closeParen v m := mayOpen_close _ _ _

@[simp] lemma mayOpen_mediaFeature : ¬ MayOpen d mediaFeature v m := by simp [mediaFeature]

/-- A declaration in parentheses may be cut off by the end of the input. Then the parenthesis is
missing. -/
@[simp] lemma mayOpen_queryFunction : ¬ MayOpen d queryFunction v m := by
  simp +contextual [queryFunction, closeParen, close]

@[simp] lemma mayOpen_mediaOperand : ¬ MayOpen d (mediaOperand d) v m := by
  simp only [mediaOperand, mayOpen_look]
  split <;> simp

@[simp] lemma mayOpen_joinedOperands {operand : Rule} (h : ∀ v m, ¬ MayOpen d operand v m)
    (missing : Fault) : ¬ MayOpen d (joinedOperands operand missing) v m := by
  simp [joinedOperands, h]

@[simp] lemma mayOpen_supportsOperand : ¬ MayOpen d (supportsOperand d) v m := by
  simp +contextual [supportsOperand, selectorFunction, supportsGroup, closeParen, close]

@[simp] lemma mayOpen_requiredIdent : ¬ MayOpen d requiredIdent v m := by simp [requiredIdent]

@[simp] lemma mayOpen_requiredVariable : ¬ MayOpen d requiredVariable v m := by
  simp [requiredVariable]

@[simp] lemma mayOpen_lessMixinName : ¬ MayOpen d lessMixinName v m := by simp [lessMixinName]

@[simp] lemma mayOpen_layerName : ¬ MayOpen d (layerName d) v m := by simp [layerName]

@[simp] lemma mayOpen_importSupports : ¬ MayOpen d importSupports v m := by
  simp +contextual [importSupports, closeParen, close]

@[simp] lemma mayOpen_importRule : ¬ MayOpen d (importRule d) v m := by
  simp [importRule, importOptions, importTargets, importLayer]

@[simp] lemma mayOpen_moduleConfiguration : ¬ MayOpen d moduleConfiguration v m := by
  simp [moduleConfiguration]

/-- A prelude may be cut off, but its node is exempt. A block that is cut off is a fault. -/
lemma mayOpen_unknownAtRule : ¬ MayOpen d unknownAtRule v m := by
  simp +contextual [unknownAtRule, statements, skipUntil]

lemma mayOpen_cssAtRules : ∀ entry ∈ cssAtRules d nested, ∀ v m, ¬ MayOpen d entry.2 v m := by
  simp [cssAtRules, namespaceRule, charset, media, supports, page, pageSelector, plainBlock,
    keyframes, layer, container, propertyRule]

lemma mayOpen_marginBoxRules : ∀ entry ∈ marginBoxRules nested, ∀ v m, ¬ MayOpen d entry.2 v m := by
  simp [marginBoxRules, plainBlock]

lemma mayOpen_scssAtRules : ∀ entry ∈ scssAtRules nested, ∀ v m, ¬ MayOpen d entry.2 v m := by
  simp [scssAtRules, scssMixinDeclaration, scssMixinReference, scssMixinName, contentDeclaration,
    contentReference, functionDeclaration, expressionRule, ifStatement, forStatement, eachStatement,
    whileStatement, extend, atRoot, useRule, forwardRule, forwardVisibility]

lemma mayOpen_dialectAtRule : ¬ MayOpen d (dialectAtRule d nested) v m := by
  cases d with
  | css => simp [dialectAtRule]
  | scss =>
      exact of_ruleFor? (P := fun r => ∀ v m, ¬ MayOpen .scss r v m) mayOpen_scssAtRules
        (by simp) _ v m
  | less => simp [dialectAtRule, lessAtRule, lessVariableDeclaration, statements, plugin]

lemma mayOpen_atRule : ¬ MayOpen d (atRule d nested) v m := by
  have htable : ∀ (name : Text) v m, ¬ MayOpen d
      ((ruleFor? (cssAtRules d nested ++ marginBoxRules nested) name).getD unknownAtRule) v m := by
    intro name
    refine of_ruleFor? (P := fun r => ∀ v m, ¬ MayOpen d r v m) (fun entry hentry => ?_)
      (fun v m => mayOpen_unknownAtRule) name
    exact (List.mem_append.1 hentry).elim (mayOpen_cssAtRules entry) (mayOpen_marginBoxRules entry)
  simp [atRule, htable]

@[simp] lemma mayOpen_dialectStatement : ¬ MayOpen d (dialectStatement d nested) v m := by
  cases d <;> simp [dialectStatement]

/-- The rule of a nonterminal leaves groups open only if the nonterminal may. -/
theorem isLoose_of_mayOpen {name : Nonterminal} (hname : bracesIn name = false)
    (h : MayOpen d (rule d name) v m) : name.isLoose m = true := by
  revert h
  cases name with
  | balanced | block item missing | interpolation => cases hname
  | blockItem | declaration => exact fun _ => rfl
  | stylesheet => simp [rule, stylesheet, endOfStatement]
  | statement => simp [rule, statement]
  | keyframe => simp [rule, keyframe, keyframeOffset]
  | ruleset nested => simp [rule, ruleset]
  | nestedRuleset => simp [rule, nestedRuleset]
  | property => simp [rule, property, mergeSign]
  | ident => simp [rule, ident]
  | selectors => simp [rule, selectors]
  | selector => simp [rule, selector]
  | combinator => simp [rule, mayOpen_combinator]
  | simpleSelector => simp [rule, simpleSelector, elementName]
  | expression single => simp [rule, expression]
  | binary level => simp [rule, binary]
  | term => simp [rule, term]
  | unsignedTerm => simp [rule, mayOpen_unsignedTerm]
  | arguments => simp [rule, arguments]
  | argument => simp [rule, argument]
  | atRule nested => simp [rule, mayOpen_atRule]
  | mediaQueryList => simp [rule, mediaQueryList]
  | mediaQuery => simp [rule, mediaQuery]
  | mediaCondition => simp [rule, mediaCondition]
  | supportsCondition => simp [rule, supportsCondition]
  | variableDeclaration => simp [rule, variableDeclaration, scssVariableDeclaration]
  | variableName => simp [rule, variableName]
  | moduleMember => simp [rule, moduleMember]
  | dialectAtRule nested => simp [rule, mayOpen_dialectAtRule]
  | ifRest nested => simp [rule, ifRest]
  | mixinStatement nested => simp [rule, lessMixinStatement]
  | mixinDeclaration nested => simp [rule, lessMixinDeclaration]
  | mixinReference => simp [rule, lessMixinReference, furtherMixinName]
  | escapedValue => simp [rule, escapedValue]
  | parameterList => simp [rule, parameterList, lessParameter, scssParameter]
  | guard => simp [rule, guard, guardCondition]

end

/-! ## Rules that take braces in pairs -/

/-- One round of reading a block: an item, and what ends it or makes up for it. -/
def itemRound (item : BlockItem) (missing : Fault) : Rule :=
  seq (call (itemName item)) fun matched =>
    (if matched then endOfItem else report missing >> skipStatement) >> accept

/-- The items of a block. -/
def items (item : BlockItem) (missing : Fault) : Rule :=
  many (choose (·.isAny [.rightBrace, .endOfInput]) fail <|
    choose (·.is 0 .semicolon) take (itemRound item missing))

/-- A block is its items in braces. -/
lemma block_eq (item : BlockItem) (missing : Fault) :
    block item missing = when (·.is 0 .leftBrace) (group .declarations
      (take >> items item missing >> expect .rightBrace .rightCurlyExpected)) := rfl

section

variable {d : Dialect} {clean m : Bool} {C : Calls} {s s' s₁ : Spot} {y : Yield}
  {opened inside : Prop}

lemma spares_itemRound {v : View} (item : BlockItem) (missing : Fault) :
    Spares d clean (itemRound item missing) false v := by
  have hitem : ∀ v, Spares d clean (call (itemName item)) false v := by
    cases item <;> simp [itemName, Nonterminal.Due, Nonterminal.isInner]
  simp +contextual [itemRound, hitem]

lemma spares_items {v : View} (item : BlockItem) (missing : Fault) :
    Spares d clean (items item missing) false v := by
  simp +contextual [items, spares_itemRound]

/-- The items of a block end before a closing brace or at the end of the input. -/
lemma ends_of_items {item : BlockItem} {missing : Fault}
    (h : Reads d C (.rule (items item missing)) s m y s') :
    s'.view.kind 0 ∈ [.rightBrace, .endOfInput] := by
  simpa using reads_until (by simp [itemRound]) h

/-- What a node in braces consists of. -/
lemma reads_enclosed {kind : NodeKind} {body : Rule}
    (h : Reads d C
      (.rule (group kind (take >> body >> expect .rightBrace .rightCurlyExpected))) s m y s') :
    ∃ m₁ y₁ y₂ s₁, Reads d C (.rule body) s.next m₁ y₁ s₁ ∧
      y = .node kind (s.taken ++ (y₁ ++ y₂)) .nil ∧
      ((s₁.view.kind 0 = .rightBrace ∧ y₂ = s₁.taken ∧ s' = s₁.next) ∨
        (s₁.view.kind 0 ≠ .rightBrace ∧ y₂ = .fault .rightCurlyExpected .nil ∧ s' = s₁)) := by
  obtain ⟨-, _, z, hinside, rfl⟩ := reads_group.1 h
  obtain ⟨_, y₁, s₁, y₂, htake, hrest, rfl⟩ := reads_then.1 hinside
  obtain ⟨m₁, y₃, s₂, y₄, hbody, hclose, rfl⟩ := reads_then.1 hrest
  obtain ⟨-, rfl, rfl⟩ := reads_take.1 htake
  refine ⟨m₁, y₃, y₄, s₂, hbody, rfl, ?_⟩
  rw [reads_expect] at hclose
  split at hclose
  · rename_i hkind
    exact .inl ⟨hkind, hclose.2⟩
  · rename_i hkind
    exact .inr ⟨hkind, hclose.2⟩

lemma braces_taken {kind : TokenKind} (h : s.view.kind 0 = kind) (hbrace : kind.isBrace = true)
    (hs : s.ahead ≠ []) : s.taken.braces = [kind] := by
  obtain ⟨t, rest, hahead⟩ := List.exists_cons_of_ne_nil hs
  have hkind : t.kind = kind := by simpa [Spot.kind_view, hahead] using h
  rw [Spot.taken_of_cons hahead]
  simp [Yield.braces, Yield.tokens, Token.braces, hkind, hbrace]

lemma braces_taken_of_not_isBrace (h : (s.view.kind 0).isBrace = false) : s.taken.braces = [] := by
  cases hahead : s.ahead with
  | nil => rw [Spot.taken_of_nil hahead, Yield.braces_nil]
  | cons t rest =>
      have hkind : t.kind.isBrace = false := by rwa [Spot.kind_view, hahead] at h
      rw [Spot.taken_of_cons hahead]
      simp [Yield.braces, Yield.tokens, Token.braces, hkind]

/-- What stands in braces. If the closing brace is missing, it is open. -/
lemma balance_braced {y₀ y₁ y₂ : Yield} {kind : TokenKind} (hkind : kind.opensBrace = true)
    (hopening : y₀.braces = [kind]) (hrow : Balance d clean inside y₁ s₁)
    (hclosing : (y₂.braces = [.rightBrace] ∧ s₁.ahead ≠ []) ∨
      (y₂.braces = [] ∧ (clean = true → opened ∧ s'.ahead = []) ∧ (d = .css → s'.ahead = []))) :
    Balance d clean opened (y₀ ++ (y₁ ++ y₂)) s' := by
  obtain ⟨count, hclimb, hcount, hcss⟩ := hrow
  have hinner : climb 1 y₁.braces = some (count + 1) := by
    simpa [Nat.add_comm] using climb_add hclimb 1
  rw [Balance, Yield.braces_append, Yield.braces_append, hopening, List.singleton_append,
    climb_cons_of_opens hkind]
  simp only [Yield.even_append]
  rcases hclosing with ⟨hclosing, hahead⟩ | ⟨hclosing, hopen, hend⟩
  · rw [hclosing]
    refine ⟨count, climb_append_of_eq hinner climb_succ_rightBrace, fun hclean heven => .inl ?_,
      fun hd => .inl ((hcss hd).resolve_right hahead)⟩
    exact (hcount hclean heven.2.1).resolve_right fun h => hahead h.2
  · rw [hclosing, List.append_nil]
    exact ⟨count + 1, hinner, fun hclean _ => .inr (hopen hclean), fun hd => .inr (hend hd)⟩

variable (hC : Honest d C) (hcalls : Balances d clean C)

include hC hcalls

/-- A node in braces, whose closing brace is missed if it is not there. -/
lemma balance_enclosed {kind : NodeKind} {body : Rule} (hbody : ∀ v, Spares d clean body false v)
    (hends : d = .css → ∀ m y s₁, Reads d C (.rule body) s.next m y s₁ →
      s₁.view.kind 0 ∈ [.rightBrace, .endOfInput])
    (h : Reads d C
      (.rule (group kind (take >> body >> expect .rightBrace .rightCurlyExpected))) s m y s')
    (hs : s.Sound) (hopens : (s.view.kind 0).opensBrace = true) (hfair : y.Fair d clean false) :
    Balance d clean False y s' := by
  obtain ⟨m₁, y₁, y₂, s₁, hmiddle, rfl, hclose⟩ := reads_enclosed h
  have hinner := hfair.inner.indirect
  have hahead : s.ahead ≠ [] :=
    Spot.ahead_ne_nil fun hend => by simp [hend, TokenKind.opensBrace] at hopens
  have hrow := hmiddle.weighs hC hcalls hs.next false (hbody _) (by simp) hinner.right.left
  refine ((balance_braced hopens (braces_taken rfl (by simp [TokenKind.isBrace, hopens]) hahead)
    hrow ?_).node kind).imp And.right
  rcases hclose with ⟨hkind, rfl, -⟩ | ⟨hkind, rfl, rfl⟩
  · have hleft : s₁.ahead ≠ [] := Spot.ahead_ne_nil (by simp [hkind])
    exact .inl ⟨braces_taken hkind rfl hleft, hleft⟩
  · refine .inr ⟨rfl, fun hclean => ?_, fun hd => ?_⟩
    · have hfaults := (hinner.right.right hclean).1
      simp [Yield.faults] at hfaults
    · exact (hC.reads hmiddle hs.next).sound.kind_eq_end.1
        (by simpa [hkind] using hends hd _ _ _ hmiddle)

lemma balance_block {item : BlockItem} {missing : Fault}
    (h : Reads d C (.rule (block item missing)) s m y s') (hs : s.Sound)
    (hfair : y.Fair d clean false) : Balance d clean False y s' := by
  rw [block_eq, reads_when] at h
  split at h
  · rename_i hopens
    exact balance_enclosed hC hcalls (fun v => spares_items item missing)
      (fun _ _ _ _ h => ends_of_items h) h hs (by simp_all [TokenKind.opensBrace]) hfair
  · obtain ⟨-, rfl, -⟩ := h
    exact .of_nil rfl

lemma balance_interpolation (h : Reads d C (.rule (interpolation d)) s m y s') (hs : s.Sound)
    (hfair : y.Fair d clean false) : Balance d clean False y s' := by
  cases d with
  | css =>
      obtain ⟨-, rfl, -⟩ := reads_done.1 h
      exact .of_nil rfl
  | scss =>
      rw [interpolation, reads_when] at h
      split at h
      · rename_i hopens
        refine balance_enclosed hC hcalls (fun v => ?_) (by simp) h hs
          (by simp_all [TokenKind.opensBrace]) hfair
        simp [Nonterminal.Due, Nonterminal.isInner]
      · obtain ⟨-, rfl, -⟩ := h
        exact .of_nil rfl
  | less =>
      rw [interpolation, reads_when] at h
      split at h
      · rename_i hopens
        refine balance_enclosed hC hcalls (fun v => ?_) (by simp) h hs
          (by simp_all [TokenKind.opensBrace]) hfair
        simp [expect]
      · obtain ⟨-, rfl, -⟩ := h
        exact .of_nil rfl

/-- What is skipped of a group ends before its closer, a closing brace or the end of the input. -/
lemma balance_skipped {closer : TokenKind}
    (h : Reads d C (.rule (many (choose (·.isAny [closer, .rightBrace, .endOfInput]) fail <|
      choose (·.isAny [.rightParen, .rightBracket]) take (call .balanced >> accept)))) s m y s')
    (hs : s.Sound) (hfair : y.Fair d clean false) :
    Balance d clean True y s' ∧ s'.view.kind 0 ∈ [closer, .rightBrace, .endOfInput] := by
  constructor
  · refine (h.weighs hC hcalls hs false ?_ (by simp) hfair).imp fun _ => trivial
    simp +contextual [or_imp, Nonterminal.Due, Nonterminal.isInner]
  · simpa using reads_until (by simp) h

/-- A group up to its closer. -/
lemma balance_toCloser {closer : TokenKind}
    (hcloser : (closer = .rightBrace ∧ (s.view.kind 0).opensBrace = true) ∨
      (closer ∈ [.rightParen, .rightBracket] ∧ (s.view.kind 0).isBrace = false))
    (h : Reads d C (.rule (take >>
      many (choose (·.isAny [closer, .rightBrace, .endOfInput]) fail <|
        choose (·.isAny [.rightParen, .rightBracket]) take (call .balanced >> accept)) >>
      token closer)) s m y s')
    (hs : s.Sound) (hahead : s.ahead ≠ []) (hfair : y.Fair d clean false) :
    Balance d clean (m = false) y s' := by
  obtain ⟨_, y₁, s₁, y₂, htake, hrest, rfl⟩ := reads_then.1 h
  obtain ⟨_, y₃, s₂, y₄, hskip, hclose, rfl⟩ := reads_then.1 hrest
  obtain ⟨-, rfl, rfl⟩ := reads_take.1 htake
  obtain ⟨hrow, hends⟩ := balance_skipped hC hcalls hskip hs.next hfair.right.left
  rw [reads_token] at hclose
  rcases hcloser with ⟨rfl, hopens⟩ | ⟨hcloser, hkind⟩
  · refine balance_braced hopens
      (braces_taken rfl (by simp [TokenKind.isBrace, hopens]) hahead) hrow ?_
    split at hclose
    · rename_i hkind
      have hleft : s₂.ahead ≠ [] := Spot.ahead_ne_nil (by simp [hkind])
      obtain ⟨-, rfl, -⟩ := hclose
      exact .inl ⟨braces_taken hkind rfl hleft, hleft⟩
    · rename_i hkind
      obtain ⟨rfl, rfl, rfl⟩ := hclose
      have hnil := (hC.reads hskip hs.next).sound.kind_eq_end.1 (by simpa [hkind] using hends)
      exact .inr ⟨rfl, fun _ => ⟨rfl, hnil⟩, fun _ => hnil⟩
  · have htail : y₄.braces = [] := by
      split at hclose
      · rename_i hkind
        rw [hclose.2.1]
        refine braces_taken_of_not_isBrace ?_
        rw [hkind]
        rcases List.mem_pair.1 hcloser with rfl | rfl <;> rfl
      · rw [hclose.2.1, Yield.braces_nil]
    have hempty : s₂.ahead = [] → m = false ∧ s' = s₂ := by
      intro hnil
      have hend := (hC.reads hskip hs.next).sound.kind_eq_end.2 hnil
      have hne : s₂.view.kind 0 ≠ closer := by
        rintro rfl
        simp [hend] at hcloser
      rw [if_neg hne] at hclose
      exact ⟨hclose.1, hclose.2.2⟩
    have hbraces : (s.taken ++ (y₃ ++ y₄)).braces = y₃.braces := by
      simp [braces_taken_of_not_isBrace hkind, htail]
    obtain ⟨count, hclimb, hcount, hcss⟩ := hrow
    refine ⟨count,
      by rwa [hbraces], fun hclean heven => ?_, fun hd => (hcss hd).imp_right fun hnil => ?_⟩
    · simp only [Yield.even_append] at heven
      refine (hcount hclean heven.2.1).imp_right ?_
      rintro ⟨-, hnil⟩
      obtain ⟨rfl, rfl⟩ := hempty hnil
      exact ⟨rfl, hnil⟩
    · rw [(hempty hnil).2, hnil]

lemma balance_balanced (h : Reads d C (.rule balanced) s m y s') (hs : s.Sound)
    (hdue : s.view.kind 0 ≠ .rightBrace) (hfair : y.Fair d clean false) :
    Balance d clean (m = false) y s' := by
  have hahead : s.view.kind 0 ≠ .endOfInput → s.ahead ≠ [] := Spot.ahead_ne_nil
  rw [balanced, reads_look] at h
  split at h
  · rename_i hkind
    exact balance_toCloser hC hcalls (by simp [hkind, TokenKind.opensBrace]) h hs
      (hahead (by simp [hkind])) hfair
  · rename_i hkind
    exact balance_toCloser hC hcalls (by simp [hkind, TokenKind.opensBrace]) h hs
      (hahead (by simp [hkind])) hfair
  · rename_i hkind
    exact balance_toCloser hC hcalls (by simp [hkind, TokenKind.opensBrace]) h hs
      (hahead (by simp [hkind])) hfair
  · rename_i hkind
    exact balance_toCloser hC hcalls (by simp [hkind]) h hs (hahead (by simp [hkind])) hfair
  · rename_i hkind
    exact balance_toCloser hC hcalls (by simp [hkind]) h hs (hahead (by simp [hkind])) hfair
  · obtain ⟨-, rfl, rfl⟩ := reads_take.1 h
    exact .of_nil (braces_taken_of_not_isBrace (by simp_all))

end

/-! ## All nonterminals -/

/-- How nonterminals treat braces, if rules nest at most `depth` deep: inside of a block of CSS or
LESS, and in clean runs. -/
theorem balances_yields {d : Dialect} {clean : Bool} (hd : clean = false → d ≠ .scss)
    (depth : Nat) : Balances d clean (Yields d depth) := by
  induction depth with
  | zero =>
      intro name s m y s' h
      cases h
  | succ depth ih =>
      intro name s m y s' h hs hdue hinner hfair
      have hC := honest_yields d depth
      cases hname : bracesIn name with
      | false =>
          have hspares : Spares d clean (rule d name) false s.view :=
            spares_rule hname hdue fun hclean => ⟨hinner hclean, hd hclean⟩
          exact (Reads.weighs hC ih h hs false hspares (by simp) hfair).imp
            (isLoose_of_mayOpen hname)
      | true =>
          cases name with
          | balanced =>
              exact (balance_balanced hC ih h hs hdue hfair).imp (by simp [Nonterminal.isLoose])
          | interpolation => exact (balance_interpolation hC ih h hs hfair).imp False.elim
          | block item missing => exact (balance_block hC ih h hs hfair).imp False.elim
          | _ => cases hname

end StyleSheet.Grammar
