import Mathlib
import StyleSheet.Proofs.Kinds
import StyleSheet.Proofs.Sparing

/-!
# The recoveries of the grammar

Behind a fault, rules go on at a token of some kinds: `resume consume stop` skips to it and takes it
if it is one of `consume`. Here the rules are gone through once for what they consume in this way.
It is never a brace, except where the block of a statement is missing outside of all blocks: there a
closing brace that belongs to nothing ends the statement (`consume_of_isPartOf`).

`Rule.IsPartOf` says what a recovery of a rule is. For a given rule it is `Rule.Recovers` that is
computed, with one equation for each way to put rules together.
-/

namespace StyleSheet

namespace Rule

/-- The rule is a part of another one, whatever lies ahead there and whichever of its parts
match. -/
inductive IsPartOf (part : Rule) : Rule → Prop
  | self : IsPartOf part part
  | look {next : View → Rule} (v : View) : IsPartOf part (next v) → IsPartOf part (look next)
  | first {first : Rule} {next : Bool → Rule} : IsPartOf part first → IsPartOf part (seq first next)
  | next {first : Rule} {next : Bool → Rule} (matched : Bool) :
      IsPartOf part (next matched) → IsPartOf part (seq first next)
  | many {body : Rule} : IsPartOf part body → IsPartOf part (many body)
  | node {kind : NodeKind} {body : Rule} : IsPartOf part body → IsPartOf part (node kind body)
  | innermost {kind : NodeKind} {first body : Rule} {more : Nat → View → Bool} :
      IsPartOf part first → IsPartOf part (wrap kind first more body)
  | layer {kind : NodeKind} {first body : Rule} {more : Nat → View → Bool} :
      IsPartOf part body → IsPartOf part (wrap kind first more body)
  | attempt {body : Rule} : IsPartOf part body → IsPartOf part (attempt body)

/-- What the recoveries of a rule consume satisfies `P`. -/
def Recovers (P : Set TokenKind → Prop) : Rule → Prop
  | done _ | take | report _ | cutRange | call _ => True
  | look next => ∀ v, Recovers P (next v)
  | seq first next =>
      (∀ consume stop, seq first next = resume consume stop → P {kind | kind ∈ consume}) ∧
        Recovers P first ∧ ∀ matched, Recovers P (next matched)
  | many body | node _ body | attempt body => Recovers P body
  | wrap _ first _ body => Recovers P first ∧ Recovers P body

variable {P : Set TokenKind → Prop} {a b : Rule} {consume stop consume' stop' : List TokenKind}

lemma Recovers.of_isPartOf {r : Rule} (hr : Recovers P r) (h : (resume consume stop).IsPartOf r) :
    P {kind | kind ∈ consume} := by
  induction h with
  | self => exact hr.1 consume stop rfl
  | look v _ ih => exact ih (hr v)
  | first _ ih => exact ih hr.2.1
  | next matched _ ih => exact ih (hr.2.2 matched)
  | innermost _ ih => exact ih hr.1
  | layer _ ih => exact ih hr.2
  | many _ ih | node _ ih | attempt _ ih => exact ih hr

/-! ## What a recovery looks like -/

/-- Whether a rule looks ahead first. -/
def isLook : Rule → Bool
  | look _ => true
  | _ => false

/-- Whether a rule is a loop that looks ahead in each round. -/
def isScan : Rule → Bool
  | many body => body.isLook
  | _ => false

/-- A recovery is a scan and a look behind it. -/
lemma forms_of_eq_resume {next : Bool → Rule} (h : seq a next = resume consume stop) :
    a.isScan = true ∧ ∀ matched, (next matched).isLook = true := by
  cases h
  exact ⟨rfl, fun _ => rfl⟩

/-- The scan of a recovery skips without looking again. -/
lemma isLook_of_eq_resume {round : View → Rule} {next : Bool → Rule}
    (h : seq (many (look round)) next = resume consume stop) (v : View) :
    (round v).isLook = false := by
  have hround := congrFun (look.inj (many.inj (seq.inj h).1)) v
  rw [hround]
  split <;> rfl

/-- A recovery shows what it consumes. -/
lemma mem_iff_of_resume_eq (h : resume consume stop = resume consume' stop') (kind : TokenKind) :
    kind ∈ consume ↔ kind ∈ consume' := by
  have htake := congrFun (look.inj (congrFun (seq.inj h).2 true))
    ⟨fun _ => kind, fun _ => [], fun _ => true, none⟩
  by_cases hmem : kind ∈ consume <;> by_cases hmem' : kind ∈ consume' <;>
    simp_all [View.isAny, fail]

/-! ## Rules that cannot be the scan of a recovery, or stand behind it -/

-- With `rfl` alone, `simp` would take these for steps of computation, with which it does not
-- discharge the conditions of `recovers_seq` and `recovers_then`.
@[simp] lemma isScan_done (matched : Bool) : (done matched).isScan = false := (rfl)

@[simp] lemma isScan_look (next : View → Rule) : (look next).isScan = false := (rfl)

@[simp] lemma isScan_take : take.isScan = false := (rfl)

@[simp] lemma isScan_report (fault : Fault) : (report fault).isScan = false := (rfl)

@[simp] lemma isScan_cutRange : cutRange.isScan = false := (rfl)

@[simp] lemma isScan_seq (a : Rule) (next : Bool → Rule) : (seq a next).isScan = false := (rfl)

@[simp] lemma isScan_many (a : Rule) : (many a).isScan = a.isLook := (rfl)

@[simp] lemma isScan_node (kind : NodeKind) (a : Rule) : (node kind a).isScan = false := (rfl)

@[simp] lemma isScan_wrap (kind : NodeKind) (a : Rule) (more : Nat → View → Bool) (b : Rule) :
    (wrap kind a more b).isScan = false := (rfl)

@[simp] lemma isScan_attempt (a : Rule) : (attempt a).isScan = false := (rfl)

@[simp] lemma isScan_call (name : Nonterminal) : (call name).isScan = false := (rfl)

@[simp] lemma isScan_choose (c : View → Bool) (a b : Rule) : (choose c a b).isScan = false := (rfl)

@[simp] lemma isScan_when (c : View → Bool) (a : Rule) : (when c a).isScan = false := (rfl)

@[simp] lemma isScan_token (kind : TokenKind) : (token kind).isScan = false := (rfl)

@[simp] lemma isScan_group (kind : NodeKind) (a : Rule) : (group kind a).isScan = false := (rfl)

@[simp] lemma isScan_resume : (resume consume stop).isScan = false := (rfl)

@[simp] lemma isScan_then (a b : Rule) : (a >> b).isScan = false := (rfl)

@[simp] lemma isScan_or (a b : Rule) : (a ||| b).isScan = false := (rfl)

@[simp] lemma isScan_and (a b : Rule) : (a &&& b).isScan = false := (rfl)

@[simp] lemma isScan_ite (c : Prop) [Decidable c] :
    (if c then a else b).isScan = if c then a.isScan else b.isScan := by
  split <;> rfl

@[simp] lemma isLook_expect (kind : TokenKind) (fault : Fault) :
    (expect kind fault).isLook = false := (rfl)

@[simp] lemma isLook_close (kind : TokenKind) (fault : Fault) :
    (close kind fault stop).isLook = false := (rfl)

@[simp] lemma isLook_then (a b : Rule) : (a >> b).isLook = false := (rfl)

@[simp] lemma isLook_or (a b : Rule) : (a ||| b).isLook = false := (rfl)

@[simp] lemma isLook_and (a b : Rule) : (a &&& b).isLook = false := (rfl)

/-! ## Rules and their recoveries -/

@[simp] lemma recovers_done (matched : Bool) : Recovers P (done matched) := trivial

@[simp] lemma recovers_look (next : View → Rule) :
    Recovers P (look next) ↔ ∀ v, Recovers P (next v) := Iff.rfl

@[simp] lemma recovers_take : Recovers P take := trivial

@[simp] lemma recovers_report (fault : Fault) : Recovers P (report fault) := trivial

@[simp] lemma recovers_cutRange : Recovers P cutRange := trivial

@[simp] lemma recovers_many (body : Rule) : Recovers P (many body) ↔ Recovers P body := Iff.rfl

@[simp] lemma recovers_node (kind : NodeKind) (body : Rule) :
    Recovers P (node kind body) ↔ Recovers P body := Iff.rfl

@[simp] lemma recovers_wrap (kind : NodeKind) (first : Rule) (more : Nat → View → Bool)
    (body : Rule) : Recovers P (wrap kind first more body) ↔ Recovers P first ∧ Recovers P body :=
  Iff.rfl

@[simp] lemma recovers_attempt (body : Rule) : Recovers P (attempt body) ↔ Recovers P body :=
  Iff.rfl

@[simp] lemma recovers_call (name : Nonterminal) : Recovers P (call name) := trivial

@[simp] lemma recovers_seq {next : Bool → Rule} (h : a.isScan = false) :
    Recovers P (seq a next) ↔ Recovers P a ∧ ∀ matched, Recovers P (next matched) := by
  refine and_iff_right fun consume stop heq => ?_
  rw [(forms_of_eq_resume heq).1] at h
  cases h

lemma recovers_seq_of_next {next : Bool → Rule} {m : Bool} (h : (next m).isLook = false) :
    Recovers P (seq a next) ↔ Recovers P a ∧ ∀ matched, Recovers P (next matched) := by
  refine and_iff_right fun consume stop heq => ?_
  rw [(forms_of_eq_resume heq).2 m] at h
  cases h

@[simp] lemma recovers_ite (c : Prop) [Decidable c] (a b : Rule) :
    Recovers P (if c then a else b) ↔ (c → Recovers P a) ∧ (¬ c → Recovers P b) := by
  split <;> simp_all

@[simp] lemma recovers_accept : Recovers P accept := trivial

@[simp] lemma recovers_fail : Recovers P fail := trivial

@[simp] lemma recovers_test (c : View → Bool) : Recovers P (test c) := fun _ => trivial

@[simp] lemma recovers_choose (c : View → Bool) (a b : Rule) :
    Recovers P (choose c a b) ↔
      ∀ v, (c v = true → Recovers P a) ∧ (c v = false → Recovers P b) := by
  simp [choose]

@[simp] lemma recovers_when (c : View → Bool) (a : Rule) :
    Recovers P (when c a) ↔ ∀ v, c v = true → Recovers P a := by
  simp [when]

@[simp] lemma recovers_then (h : a.isScan = false) :
    Recovers P (a >> b) ↔ Recovers P a ∧ Recovers P b :=
  (recovers_seq h).trans (by simp)

@[simp] lemma recovers_then_of_next (h : b.isLook = false) :
    Recovers P (a >> b) ↔ Recovers P a ∧ Recovers P b :=
  (recovers_seq_of_next (m := true) h).trans (by simp)

@[simp] lemma recovers_or (a b : Rule) : Recovers P (a ||| b) ↔ Recovers P a ∧ Recovers P b :=
  (recovers_seq_of_next (m := true) rfl).trans (by simp)

@[simp] lemma recovers_and (a b : Rule) : Recovers P (a &&& b) ↔ Recovers P a ∧ Recovers P b :=
  (recovers_seq_of_next (m := false) rfl).trans (by simp)

@[simp] lemma recovers_token (kind : TokenKind) : Recovers P (token kind) := by simp [token]

@[simp] lemma recovers_word (w : String) : Recovers P (word w) := by simp [word]

@[simp] lemma recovers_expect (kind : TokenKind) (fault : Fault) :
    Recovers P (expect kind fault) := by
  simp [expect]

@[simp] lemma recovers_group (kind : NodeKind) : Recovers P (group kind a) ↔ Recovers P a := by
  have haccept : accept.isLook = false := rfl
  simp [group, haccept]

@[simp] lemma recovers_leaf (kind : NodeKind) : Recovers P (leaf kind) := trivial

@[simp] lemma recovers_moreAfterCommas (item : Rule) (missing : Fault) :
    Recovers P (moreAfterCommas item missing) ↔ Recovers P item := by
  simp [moreAfterCommas]

@[simp] lemma recovers_skipUntil (c : View → Bool) : Recovers P (skipUntil c) := by simp [skipUntil]

@[simp] lemma recovers_resume : Recovers P (resume consume stop) ↔ P {kind | kind ∈ consume} := by
  constructor
  · exact fun h => h.1 consume stop rfl
  · refine fun h => ⟨fun consume' stop' heq => ?_, recovers_skipUntil _, by simp⟩
    have hsame : {kind | kind ∈ consume} = {kind | kind ∈ consume'} :=
      Set.ext (mem_iff_of_resume_eq heq)
    rwa [← hsame]

@[simp] lemma recovers_close (kind : TokenKind) (fault : Fault) :
    Recovers P (close kind fault stop) ↔ P {kind} := by
  simp [close]

end Rule

/-! ## The rules of the grammar -/

namespace Grammar

open Rule

/-- What the recoveries of a rule may consume: no braces, but if the rule may stand outside of all
blocks, then also a semicolon or a closing brace. -/
def MayConsume (inner : Bool) (consume : Set TokenKind) : Prop :=
  (∀ kind ∈ consume, kind.isBrace = false) ∨
    (inner = false ∧ consume = {kind | kind ∈ [.semicolon, .rightBrace]})

variable {inner : Bool} {d : Dialect}

@[simp] lemma mayConsume_empty : MayConsume inner ∅ := .inl (by simp)

@[simp] lemma mayConsume_singleton {kind : TokenKind} (h : kind.isBrace = false) :
    MayConsume inner {kind} :=
  .inl (by simpa using h)

@[simp] lemma recovers_blockOf (item : BlockItem) (missing : Fault) (nested : Bool) :
    Recovers (MayConsume nested) (blockOf item missing nested) := by
  cases nested with
  | true => simp [blockOf]
  | false => simp [blockOf, MayConsume]

@[simp] lemma recovers_body (nested : Bool) : Recovers (MayConsume nested) (body nested) :=
  recovers_blockOf _ _ _

@[simp] lemma recovers_identPieces (d : Dialect) : Recovers (MayConsume inner) (identPieces d) := by
  simp [identPieces, identPiece, furtherPiece]

@[simp] lemma isScan_body (nested : Bool) : (body nested).isScan = false := (rfl)

@[simp] lemma isScan_identPieces (d : Dialect) : (identPieces d).isScan = false := (rfl)

lemma recovers_cssTable (d : Dialect) (nested : Bool) (name : Text) :
    Recovers (MayConsume nested)
      ((ruleFor? (cssAtRules d nested ++ marginBoxRules nested) name).getD unknownAtRule) := by
  refine of_ruleFor? (P := Recovers _) (List.forall_mem_append.2 ⟨?_, ?_⟩) ?_ name
  · simp [cssAtRules, importRule, importTargets, importLayer, importOptions, importSupports,
      closeParen, stringOrUri, layerName, namespaceRule, charset, stringLiteral, media, supports,
      page, pageSelector, requiredIdent, plainBlock, keyframes, layer, container, propertyRule]
  · intro entry hentry
    obtain ⟨box, -, rfl⟩ := List.mem_map.1 hentry
    simp [plainBlock]
  · simp [unknownAtRule, statements]

lemma recovers_scssTable (nested : Bool) (name : Text) :
    Recovers (MayConsume nested) ((ruleFor? (scssAtRules nested) name).getD fail) := by
  refine of_ruleFor? (P := Recovers _) ?_ recovers_fail name
  simp [scssAtRules, scssMixinDeclaration, requiredIdent, scssMixinReference, scssMixinName,
    contentDeclaration, contentReference, functionDeclaration, expressionRule, ifStatement,
    forStatement, requiredVariable, eachStatement, whileStatement, extend, atRoot, mediaFeature,
    comparison, operator, closeParen, useRule, stringLiteral, moduleConfiguration, variableFlags,
    forwardRule, stringOrUri, forwardVisibility]

lemma recovers_dialectAtRule (d : Dialect) (nested : Bool) :
    (rule d (.dialectAtRule nested)).Recovers (MayConsume nested) := by
  cases d with
  | css => trivial
  | scss => exact fun v => recovers_scssTable nested _
  | less =>
      simp [rule, dialectAtRule, lessAtRule, lessVariableDeclaration, statements, priority, plugin,
        stringOrUri]

lemma recovers_simpleSelector : (rule d .simpleSelector).Recovers (MayConsume true) := by
  have hnth : Recovers (MayConsume true) (nthPart d) := by
    intro v
    dsimp only
    split <;> simp
  have hpart : Recovers (MayConsume true) (selectorPart d) := by
    intro v
    dsimp only
    split <;> simp [classSelector, parentReference, attributeSelector, pseudoSelector,
      pseudoArgument, nth, hnth]
  simp [rule, simpleSelector, elementName, parentReference, hpart]

lemma recovers_unsignedTerm : (rule d .unsignedTerm).Recovers (MayConsume true) := by
  intro v
  dsimp only
  split <;>
    simp [hexColor, bracketed, parenthesized, listEntry, named, uriLiteral, progid, identOrCall]

lemma recovers_mediaCondition : (rule d .mediaCondition).Recovers (MayConsume true) := by
  have hoperand : Recovers (MayConsume true) (mediaOperand d) := by
    intro v
    dsimp only
    split <;> simp [mediaFeature, comparison, closeParen, queryFunction, operator]
  simp [rule, mediaCondition, joinedOperands, hoperand]

/-- A group is skipped like the tokens of a recovery, but its rounds look again, for closers of
other brackets. -/
lemma recovers_balanced : Recovers (MayConsume true) balanced := by
  have htoCloser : ∀ closer : TokenKind, closer ≠ .ident → Recovers (MayConsume true) (take >>
      many (choose (·.isAny [closer, .rightBrace, .endOfInput]) fail <|
        choose (·.isAny [.rightParen, .rightBracket]) take (call .balanced >> accept)) >>
        token closer) := by
    intro closer hcloser
    refine (recovers_then rfl).2 ⟨trivial, fun consume stop heq => ?_, by simp, by simp⟩
    have hlook := isLook_of_eq_resume heq ⟨fun _ => .ident, fun _ => [], fun _ => true, none⟩
    rw [if_neg (by simpa [View.isAny] using hcloser.symm)] at hlook
    cases hlook
  intro v
  dsimp only
  split <;> first | exact htoCloser _ (by simp) | trivial

lemma recovers_combinator : Recovers (MayConsume true) combinator := by
  intro v
  dsimp only
  split <;> simp

theorem recovers_rule (d : Dialect) (name : Nonterminal) :
    (rule d name).Recovers (MayConsume name.isInner) := by
  cases name with
  | atRule nested =>
      exact (recovers_when _ _).2 fun _ _ =>
        (recovers_or _ _).2 ⟨trivial, fun v => recovers_cssTable d nested _⟩
  | dialectAtRule nested => exact recovers_dialectAtRule d nested
  | simpleSelector => exact recovers_simpleSelector
  | unsignedTerm => exact recovers_unsignedTerm
  | mediaCondition => exact recovers_mediaCondition
  | balanced => exact recovers_balanced
  | combinator => exact recovers_combinator
  | stylesheet => simp [rule, stylesheet, endOfStatement, skipStatement]
  | statement => cases d <;> simp [rule, statement, dialectStatement]
  | blockItem => cases d <;> simp [rule, blockItem, dialectStatement]
  | keyframe => simp [rule, keyframe, keyframeOffset, Nonterminal.isInner]
  | block item missing => cases item <;> simp [rule, block, endOfItem, skipStatement, itemName]
  | ruleset nested => simp [rule, ruleset, rulesetGuard, Nonterminal.isInner]
  | nestedRuleset => simp [rule, nestedRuleset, rulesetGuard, Nonterminal.isInner]
  | declaration =>
      simp [rule, declaration, customProperty, plainDeclaration, customValue, priority, statements]
  | property => cases d <;> simp [rule, property, mergeSign]
  | ident => simp [rule, ident]
  | interpolation => cases d <;> simp [rule, interpolation]
  | selectors => simp [rule, selectors]
  | selector => simp [rule, selector]
  | expression single => simp [rule, expression]
  | binary level => simp [rule, binary, operator]
  | term => simp [rule, term, operator]
  | arguments => simp [rule, arguments]
  | argument => simp [rule, argument, operator]
  | mediaQueryList => simp [rule, mediaQueryList]
  | mediaQuery => simp [rule, mediaQuery]
  | supportsCondition =>
      simp [rule, supportsCondition, supportsOperand, selectorFunction, supportsGroup, closeParen,
        joinedOperands]
  | variableDeclaration =>
      cases d <;> simp [rule, variableDeclaration, scssVariableDeclaration, priority, variableFlags]
  | variableName | moduleMember | ifRest nested | mixinStatement nested | mixinDeclaration nested
  | mixinReference | escapedValue | parameterList | guard =>
      simp [rule, variableName, moduleMember, ifRest, lessMixinStatement, lessMixinDeclaration,
        lessMixinName, lessMixinReference, furtherMixinName, priority, escapedValue, parameterList,
        lessParameter, scssParameter, guard, guardCondition, comparison, operator,
        Nonterminal.isInner]

/-- A recovery of the grammar consumes no brace. Only in a rule that may stand outside of all blocks
there is one that consumes a semicolon or a closing brace. -/
theorem consume_of_isPartOf {name : Nonterminal} {consume stop : List TokenKind}
    (h : (resume consume stop).IsPartOf (rule d name)) :
    (∀ kind ∈ consume, kind.isBrace = false) ∨
      (name.isInner = false ∧ ∀ kind, kind ∈ consume ↔ kind ∈ [.semicolon, .rightBrace]) :=
  ((recovers_rule d name).of_isPartOf h).imp_right (And.imp_right Set.ext_iff.1)

end Grammar

end StyleSheet
