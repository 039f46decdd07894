import Mathlib
import StyleSheet.Proofs.Execution

/-!
# The kinds of the nodes that rules build

`Rule.Uses` collects what a rule is made of: the kinds of its nodes and the nonterminals that it
calls. If all rules that are reached use nodes of certain kinds only, then so do the events
(`exec_opens`), whatever has been tried, given up or put around something else. No rule builds a
node that marks an error; such nodes come from faults alone.
-/

namespace StyleSheet

namespace Rule

/-- The kinds of all nodes of a rule satisfy `P`, and the nonterminals that it calls satisfy `Q`. -/
def Uses (P : NodeKind → Prop) (Q : Nonterminal → Prop) : Rule → Prop
  | done _ | take | report _ | cutRange => True
  | look next => ∀ v, Uses P Q (next v)
  | seq first next => Uses P Q first ∧ ∀ matched, Uses P Q (next matched)
  | many body => Uses P Q body
  | node kind body => P kind ∧ Uses P Q body
  | wrap kind first _ body => P kind ∧ Uses P Q first ∧ Uses P Q body
  | attempt body => Uses P Q body
  | call name => Q name

lemma Uses.mono {P P' : NodeKind → Prop} {Q Q' : Nonterminal → Prop} {r : Rule} (h : r.Uses P Q)
    (hP : ∀ kind, P kind → P' kind) (hQ : ∀ name, Q name → Q' name) : r.Uses P' Q' := by
  induction r with
  | look next ih => exact fun v => ih v (h v)
  | seq first next ih ih' => exact ⟨ih h.1, fun m => ih' m (h.2 m)⟩
  | many body ih => exact ih h
  | node kind body ih => exact ⟨hP kind h.1, ih h.2⟩
  | wrap kind first more body ih ih' => exact ⟨hP kind h.1, ih h.2.1, ih' h.2.2⟩
  | attempt body ih => exact ih h
  | call name => exact hQ name h
  | _ => trivial

/-! ## Larger rules -/

section

variable {P : NodeKind → Prop} {Q : Nonterminal → Prop}

attribute [simp] Uses

@[simp] lemma uses_ite (c : Prop) [Decidable c] (a b : Rule) :
    Uses P Q (if c then a else b) ↔ (c → Uses P Q a) ∧ (¬ c → Uses P Q b) := by
  split <;> simp_all

@[simp] lemma uses_accept : Uses P Q accept := trivial

@[simp] lemma uses_fail : Uses P Q fail := trivial

@[simp] lemma uses_test (c : View → Bool) : Uses P Q (test c) := fun _ => trivial

@[simp] lemma uses_choose (c : View → Bool) (a b : Rule) :
    Uses P Q (choose c a b) ↔ ∀ v, (c v = true → Uses P Q a) ∧ (c v = false → Uses P Q b) := by
  simp [choose]

@[simp] lemma uses_when (c : View → Bool) (a : Rule) :
    Uses P Q (when c a) ↔ ∀ v, c v = true → Uses P Q a := by
  simp [when]

@[simp] lemma uses_then (a b : Rule) : Uses P Q (a >> b) ↔ Uses P Q a ∧ Uses P Q b := by
  change Uses P Q a ∧ (Bool → Uses P Q b) ↔ _
  simp

@[simp] lemma uses_or (a b : Rule) : Uses P Q (a ||| b) ↔ Uses P Q a ∧ Uses P Q b := by
  change Uses P Q a ∧ (∀ matched, Uses P Q (if matched = true then accept else b)) ↔ _
  simp

@[simp] lemma uses_and (a b : Rule) : Uses P Q (a &&& b) ↔ Uses P Q a ∧ Uses P Q b := by
  change Uses P Q a ∧ (∀ matched, Uses P Q (if matched = true then b else fail)) ↔ _
  simp

@[simp] lemma uses_token (kind : TokenKind) : Uses P Q (token kind) := by simp [token]

@[simp] lemma uses_word (w : String) : Uses P Q (word w) := by simp [word]

@[simp] lemma uses_expect (kind : TokenKind) (fault : Fault) : Uses P Q (expect kind fault) := by
  simp [expect]

@[simp] lemma uses_group (kind : NodeKind) (body : Rule) :
    Uses P Q (group kind body) ↔ P kind ∧ Uses P Q body := by
  simp [group]

@[simp] lemma uses_leaf (kind : NodeKind) : Uses P Q (leaf kind) ↔ P kind := by
  simp [leaf]

@[simp] lemma uses_moreAfterCommas (item : Rule) (missing : Fault) :
    Uses P Q (moreAfterCommas item missing) ↔ Uses P Q item := by
  simp [moreAfterCommas]

@[simp] lemma uses_skipUntil (c : View → Bool) (h : Q .balanced) : Uses P Q (skipUntil c) := by
  simp [skipUntil, h]

@[simp] lemma uses_resume (consume stop : List TokenKind) (h : Q .balanced) :
    Uses P Q (resume consume stop) := by
  simp [resume, h]

@[simp] lemma uses_close (kind : TokenKind) (fault : Fault) (stop : List TokenKind)
    (h : Q .balanced) : Uses P Q (close kind fault stop) := by
  simp [close, h]

end

end Rule

/-! ## Events -/

namespace Parser

/-- The kinds of all nodes that have been opened satisfy `P`. -/
def Opens (P : NodeKind → Prop) (p : Parser) : Prop :=
  ∀ kind outer, .opening kind outer ∈ p.events.toList → P kind

namespace Opens

variable {P : NodeKind → Prop} {p : Parser}

lemma push (h : Opens P p) {e : Event} (he : ∀ kind outer, e = .opening kind outer → P kind) :
    Opens P { p with events := p.events.push e } := by
  intro kind outer hmem
  rw [Array.toList_push] at hmem
  rcases List.mem_append.1 hmem with hmem | hmem
  · exact h kind outer hmem
  · exact he kind outer (List.mem_singleton.1 hmem).symm

lemma set (h : Opens P p) (place : Nat) {e : Event}
    (he : ∀ kind outer, e = .opening kind outer → P kind) :
    Opens P { p with events := p.events.setIfInBounds place e } := by
  intro kind outer hmem
  rw [Array.toList_setIfInBounds] at hmem
  rcases List.mem_or_eq_of_mem_set hmem with hmem | heq
  · exact h kind outer hmem
  · exact he kind outer heq.symm

/-- Events may be dropped. -/
lemma subset {q : Parser} (h : Opens P p) (hsub : q.events.toList ⊆ p.events.toList) : Opens P q :=
  fun kind outer hmem => h kind outer (hsub hmem)

lemma take (h : Opens P p) : Opens P p.take := by
  unfold Parser.take
  split
  · exact h
  · exact h.push (e := .token) (by simp)

lemma report (h : Opens P p) (f : Fault) : Opens P (p.report f) :=
  h.push (e := .fault f) (by simp)

lemma cutRange (h : Opens P p) : Opens P p.cutRange := by
  unfold Parser.cutRange
  split
  · exact h
  · split
    · exact h
    · exact h

lemma openNode (h : Opens P p) : Opens P p.openNode := h.push (e := .vacant) (by simp)

lemma closeNode (h : Opens P p) (place : Nat) {kind : NodeKind} (hkind : P kind) :
    Opens P (p.closeNode place kind) := by
  have hset := h.set place (e := .opening kind none) (by rintro _ _ ⟨⟩; exact hkind)
  exact hset.push (e := .closing) (by simp)

lemma dropNode (h : Opens P p) (place : Nat) : Opens P (p.dropNode place) := by
  unfold Parser.dropNode
  split
  · refine h.subset ?_
    rw [Array.toList_pop]
    exact List.dropLast_subset _
  · exact h

lemma openAround (h : Opens P p) (place : Nat) : Opens P (p.openAround place) := by
  unfold Parser.openAround
  dsimp only
  split
  · rename_i kind outer hplace
    have hkind := h kind outer (List.mem_of_getElem? (by simpa using hplace))
    have hset := h.set place (e := .opening kind (some (p.events.size - place)))
      (by rintro _ _ ⟨⟩; exact hkind)
    exact hset.push (e := .vacant) (by simp)
  · exact h.openNode

lemma restore (h : Opens P p) (c : Snapshot) : Opens P (p.restore c) := by
  have hundo : ∀ (cuts : List Cut) (p : Parser), (cuts.foldl undoCut p).events = p.events := by
    intro cuts
    induction cuts with
    | nil => exact fun p => rfl
    | cons c cuts ih => exact fun p => ih (p.undoCut c)
  refine h.subset ?_
  rw [Parser.restore]
  dsimp only
  rw [hundo, Array.take_eq_extract, Array.toList_extract, List.extract_eq_take_drop]
  simpa using List.take_subset _ _

end Opens

/-! ## Rules -/

section

variable {P : NodeKind → Prop} {Q : Nonterminal → Prop}
  {call : Nonterminal → Parser → Option Rule.Outcome} {body : Parser → Option Rule.Outcome}

lemma repeatUntil_opens (hbody : ∀ p o, Opens P p → body p = some o → Opens P o.parser)
    {bound : Nat} {p : Parser} {o : Rule.Outcome} (h : Opens P p)
    (ho : Rule.repeatUntil body bound p = some o) : Opens P o.parser := by
  induction bound generalizing p with
  | zero => cases ho
  | succ bound ih =>
      obtain ⟨q, hq, ho⟩ | ⟨q, hq, rfl⟩ := Rule.repeatUntil_eq_some.1 ho
      · exact ih (hbody _ _ h hq) ho
      · exact hbody p ⟨false, q⟩ h hq

lemma wrapWhile_opens {kind : NodeKind} (hkind : P kind) {more : Nat → View → Bool}
    (hbody : ∀ p o, Opens P p → body p = some o → Opens P o.parser) {bound layers place : Nat}
    {p : Parser} {o : Rule.Outcome} (h : Opens P p)
    (ho : Rule.wrapWhile kind more body bound layers place p = some o) : Opens P o.parser := by
  induction bound generalizing layers place p with
  | zero => cases ho
  | succ bound ih =>
      obtain ⟨-, m, q, hq, ho⟩ | ⟨-, rfl⟩ := Rule.wrapWhile_eq_some.1 ho
      · exact ih ((hbody _ _ (h.openAround place) hq).closeNode _ hkind) ho
      · exact h

/-- A rule opens nodes of the kinds that it uses. -/
theorem exec_opens
    (hcall : ∀ name p o, Q name → Opens P p → call name p = some o → Opens P o.parser)
    {bound : Nat} {r : Rule} (hr : r.Uses P Q) {p : Parser} {o : Rule.Outcome} (h : Opens P p)
    (ho : r.exec call bound p = some o) : Opens P o.parser := by
  induction r generalizing p o with
  | done matched =>
      cases ho
      exact h
  | look next ih => exact ih _ (hr _) h ho
  | take =>
      cases ho
      exact h.take
  | report fault =>
      cases ho
      exact h.report fault
  | cutRange =>
      cases ho
      exact h.cutRange
  | seq first next hfirst hnext =>
      obtain ⟨m, q, hq, ho⟩ := Rule.exec_seq_eq_some.1 ho
      exact hnext m (hr.2 m) (hfirst hr.1 h hq) ho
  | many body ih => exact repeatUntil_opens (fun p o hp ho => ih hr hp ho) h ho
  | node kind body ih =>
      obtain ⟨q, hq, rfl⟩ | ⟨q, hq, rfl⟩ := Rule.exec_node_eq_some.1 ho
      · exact (ih hr.2 h.openNode hq).closeNode _ hr.1
      · exact (ih hr.2 h.openNode hq).dropNode _
  | wrap kind first more body hfirst hbody =>
      obtain ⟨q, hq, rfl⟩ | ⟨q, hq, ho⟩ := Rule.exec_wrap_eq_some.1 ho
      · exact hfirst hr.2.1 h hq
      · exact wrapWhile_opens hr.1 (fun p o hp ho => hbody hr.2.2 hp ho) (hfirst hr.2.1 h hq) ho
  | attempt body ih =>
      obtain ⟨q, hq, -, rfl⟩ | ⟨m, q, hq, -, rfl⟩ := Rule.exec_attempt_eq_some.1 ho
      · exact ih hr h hq
      · exact (ih hr h hq).restore _
  | call name => exact hcall name p o hr h ho

/-- Reading opens nodes of the kinds that the rules use. -/
theorem run_opens {d : Dialect} (hrules : ∀ name, Q name → (Grammar.rule d name).Uses P Q)
    {bound : Nat} {name : Nonterminal} {p : Parser} {o : Rule.Outcome} (hname : Q name)
    (h : Opens P p) (ho : Grammar.run d bound name p = some o) : Opens P o.parser := by
  induction bound generalizing name p o with
  | zero => cases ho
  | succ bound ih =>
      exact exec_opens (fun name p o hname hp ho => ih hname hp ho) (hrules name hname) h ho

end

end Parser

/-! ## The rules of the nonterminals -/

namespace Grammar

open Rule

section

variable {P : NodeKind → Prop} {Q : Nonterminal → Prop}

@[simp] lemma uses_identPieces (d : Dialect) (h : Q .interpolation) : Uses P Q (identPieces d) := by
  simp [identPieces, identPiece, furtherPiece, h]

@[simp] lemma uses_blockOf (item : BlockItem) (missing : Fault) (nested : Bool)
    (hblock : Q (.block item missing)) (h : Q .balanced) :
    Uses P Q (blockOf item missing nested) := by
  simp [blockOf, hblock, h]

@[simp] lemma uses_operator : Uses P Q operator ↔ P .operator := uses_leaf _

/-- What holds of all entries of a table with a name holds of the rule that is found under this
name. -/
lemma of_ruleFor?_name {P : Rule → Prop} {table : List (String × Rule)} {name : Text}
    (h : ∀ entry ∈ table, Text.ofString entry.1 = name → P entry.2) {other : Rule}
    (hother : P other) : P ((ruleFor? table name).getD other) := by
  cases hr : ruleFor? table name with
  | none => exact hother
  | some r =>
      simp only [ruleFor?, Option.map_eq_some_iff] at hr
      obtain ⟨entry, hentry, rfl⟩ := hr
      exact h entry (List.mem_of_find?_eq_some hentry) (by simpa using List.find?_some hentry)

lemma of_ruleFor? {P : Rule → Prop} {table : List (String × Rule)} (h : ∀ entry ∈ table, P entry.2)
    {other : Rule} (hother : P other) (name : Text) : P ((ruleFor? table name).getD other) :=
  of_ruleFor?_name (fun entry hentry _ => h entry hentry) hother

end

/-- Whether the rule of a nonterminal may build a function by itself. -/
def callsIn : Nonterminal → Bool
  | .unsignedTerm | .moduleMember | .mediaCondition | .supportsCondition | .atRule _ => true
  | _ => false

/-- The kinds of nodes whose tokens are looked at when a tree is read. -/
def lexicalKinds : List NodeKind := [
  .stringLiteral, .variableDeclaration, .variableFlag, .keyframes, .useRule, .forwardRule]

/-- Whether the rule of a nonterminal may build such a node by itself. -/
def isLexical : Nonterminal → Bool
  | .unsignedTerm | .variableDeclaration | .atRule _ | .dialectAtRule _ => true
  | _ => false

/-- What a rule may build: no nodes that mark an error, and functions and the nodes above only if it
`calls` or is `lexical`. -/
def MayUse (calls lexical : Bool) (kind : NodeKind) : Prop :=
  kind ≠ .error ∧ (kind = .function → calls = true) ∧ (kind ∈ lexicalKinds → lexical = true)

section

variable (d : Dialect) (nested : Bool)

attribute [local simp] MayUse lexicalKinds callsIn isLexical

lemma uses_cssAtRules : ∀ entry ∈ cssAtRules d nested,
    entry.2 ∈ [importRule d, charset, keyframes nested] ∨
      Uses (MayUse false false) (fun _ => True) entry.2 := by
  simp [cssAtRules, stringOrUri, layerName, namespaceRule, media, body, supports, page,
    pageSelector, requiredIdent, plainBlock, layer, container, propertyRule]

lemma uses_marginBoxRules :
    ∀ entry ∈ marginBoxRules nested, Uses (MayUse false false) (fun _ => True) entry.2 := by
  intro entry hentry
  obtain ⟨name, -, rfl⟩ := List.mem_map.1 hentry
  simp [plainBlock, body]

lemma uses_unknownAtRule : Uses (MayUse false false) (fun _ => True) unknownAtRule := by
  simp [unknownAtRule, statements]

lemma uses_scssAtRules : ∀ entry ∈ scssAtRules nested,
    entry.2 ∈ [useRule, forwardRule] ∨ Uses (MayUse false false) (fun _ => True) entry.2 := by
  simp [scssAtRules, scssMixinDeclaration, requiredIdent, body, scssMixinReference, scssMixinName,
    contentDeclaration, contentReference, functionDeclaration, expressionRule, ifStatement,
    forStatement, requiredVariable, eachStatement, whileStatement, extend, atRoot, mediaFeature,
    comparison, closeParen]

lemma uses_atRule : (rule d (.atRule nested)).Uses (MayUse true true) fun _ => True := by
  have hmono : ∀ {r : Rule}, Uses (MayUse false false) (fun _ => True) r →
      Uses (MayUse true true) (fun _ => True) r :=
    fun h => h.mono (fun _ hkind => ⟨hkind.1, fun _ => rfl, fun _ => rfl⟩) fun _ h => h
  have hcss : ∀ entry ∈ cssAtRules d nested, Uses (MayUse true true) (fun _ => True) entry.2 := by
    intro entry hentry
    rcases uses_cssAtRules d nested entry hentry with hmem | huses
    · simp only [List.mem_cons, List.not_mem_nil, or_false] at hmem
      rcases hmem with hentry | hentry | hentry
      · simp [hentry, importRule, importOptions, importTargets, stringOrUri, importLayer, layerName,
          closeParen, importSupports]
      · simp [hentry, charset, stringLiteral]
      · simp [hentry, keyframes, stringLiteral]
    · exact hmono huses
  have hrules := of_ruleFor? (P := Uses (MayUse true true) fun _ => True)
    (List.forall_mem_append.2
      ⟨hcss, fun entry hentry => hmono (uses_marginBoxRules nested entry hentry)⟩)
    (hmono uses_unknownAtRule)
  simp [rule, atRule, hrules]

lemma uses_dialectAtRules :
    (rule d (.dialectAtRule nested)).Uses (MayUse false true) fun _ => True := by
  cases d with
  | css => trivial
  | scss =>
      refine fun v => of_ruleFor? (P := Uses (MayUse false true) fun _ => True)
        (fun entry hentry => ?_) uses_fail _
      rcases uses_scssAtRules nested entry hentry with hmem | huses
      · simp only [List.mem_cons, List.not_mem_nil, or_false] at hmem
        rcases hmem with hentry | hentry <;>
          simp [hentry, useRule, forwardRule, stringLiteral, stringOrUri, requiredIdent,
            moduleConfiguration, variableFlags, forwardVisibility]
      · exact huses.mono (fun _ hkind => ⟨hkind.1, hkind.2.1, fun _ => rfl⟩) fun _ h => h
  | less =>
      simp [rule, dialectAtRule, lessAtRule, lessVariableDeclaration, statements, priority, plugin,
        stringOrUri]

/-- Which nodes the rules build by themselves. -/
theorem mayUse_rule (name : Nonterminal) :
    (rule d name).Uses (MayUse (callsIn name) (isLexical name)) fun _ => True := by
  cases name with
  | unsignedTerm =>
      intro v
      dsimp only
      split <;> simp [hexColor, bracketed, parenthesized, listEntry, named, uriLiteral, progid,
        identOrCall]
  | moduleMember => simp [rule, moduleMember]
  | mediaCondition =>
      have hoperand : Uses (MayUse true false) (fun _ => True) (mediaOperand d) := by
        intro v
        dsimp only
        split <;> simp [mediaFeature, comparison, closeParen, queryFunction]
      simp [rule, mediaCondition, joinedOperands, hoperand]
  | supportsCondition =>
      simp [rule, supportsCondition, supportsOperand, selectorFunction, supportsGroup, closeParen,
        joinedOperands]
  | atRule nested => exact uses_atRule d nested
  | dialectAtRule nested => exact uses_dialectAtRules d nested
  | variableDeclaration =>
      simp [rule, variableDeclaration, scssVariableDeclaration, priority, variableFlags]
  | balanced =>
      intro v
      dsimp only
      split <;> simp
  | stylesheet => simp [rule, stylesheet, endOfStatement, skipStatement]
  | statement => cases d <;> simp [rule, statement, dialectStatement]
  | blockItem => cases d <;> simp [rule, blockItem, dialectStatement]
  | keyframe => simp [rule, keyframe, keyframeOffset, body]
  | block item missing => simp [rule, block, endOfItem, skipStatement]
  | ruleset nested => simp [rule, ruleset, rulesetGuard, body]
  | nestedRuleset => simp [rule, nestedRuleset, rulesetGuard, body]
  | declaration =>
      simp [rule, declaration, customProperty, plainDeclaration, customValue, priority, statements]
  | property => simp [rule, property, mergeSign]
  | ident => simp [rule, ident]
  | interpolation => cases d <;> simp [rule, interpolation]
  | selectors => simp [rule, selectors]
  | selector => simp [rule, selector]
  | combinator =>
      refine ⟨by simp, fun v => ?_⟩
      dsimp only
      split <;> simp
  | simpleSelector =>
      have hnth : Uses (MayUse false false) (fun _ => True) (nthPart d) := by
        intro v
        dsimp only
        split <;> simp
      have hpart : Uses (MayUse false false) (fun _ => True) (selectorPart d) := by
        intro v
        dsimp only
        split <;> simp [classSelector, attributeSelector, pseudoSelector, pseudoArgument, nth, hnth,
          parentReference]
      simp [rule, simpleSelector, elementName, parentReference, hpart]
  | expression single => simp [rule, expression]
  | binary level => simp [rule, binary]
  | term => simp [rule, term]
  | arguments => simp [rule, arguments]
  | argument => simp [rule, argument]
  | mediaQueryList => simp [rule, mediaQueryList]
  | mediaQuery => simp [rule, mediaQuery]
  | variableName => simp [rule, variableName]
  | ifRest nested => simp [rule, ifRest, body]
  | mixinStatement nested => simp [rule, lessMixinStatement]
  | mixinDeclaration nested => simp [rule, lessMixinDeclaration, lessMixinName, body]
  | mixinReference => simp [rule, lessMixinReference, lessMixinName, furtherMixinName, priority]
  | escapedValue => simp [rule, escapedValue]
  | parameterList => simp [rule, parameterList, lessParameter, scssParameter]
  | guard => simp [rule, guard, guardCondition, comparison]

end

/-- No rule builds a node that marks an error. -/
theorem uses_rule (d : Dialect) (name : Nonterminal) :
    (rule d name).Uses (· ≠ .error) fun _ => True :=
  (mayUse_rule d name).mono (fun _ h => h.1) fun _ h => h

end Grammar

end StyleSheet
