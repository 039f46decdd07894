import Mathlib
import StyleSheet.Proofs.Grammar.Statement

/-!
# Carrying out the grammar

Every nonterminal keeps its promise wherever it is called, so `Grammar.run` has an outcome for every
source as soon as its bound exceeds 64 times the number of bytes ahead (`run_fulfils`): between two
calls from which no token is taken the rank falls, and there are fewer than 64 ranks. A greater
bound does not change the outcome (`exec_mono`).
-/

namespace StyleSheet

open Rule

/-! ## Greater bounds -/

namespace Rule

variable {call call' : Nonterminal → Parser → Option Outcome}

lemma repeatUntil_mono {body body' : Parser → Option Outcome}
    (hbody : ∀ p o, body p = some o → body' p = some o) {bound bound' : Nat} (hle : bound ≤ bound')
    {p : Parser} {o : Outcome} (ho : repeatUntil body bound p = some o) :
    repeatUntil body' bound' p = some o := by
  induction bound generalizing bound' p with
  | zero => cases ho
  | succ bound ih =>
      obtain ⟨bound', rfl⟩ : ∃ n, bound' = n + 1 := ⟨bound' - 1, by omega⟩
      rw [repeatUntil_eq_some] at ho ⊢
      obtain ⟨q, hq, ho⟩ | ⟨q, hq, rfl⟩ := ho
      · exact .inl ⟨q, hbody _ _ hq, ih (by omega) ho⟩
      · exact .inr ⟨q, hbody _ _ hq, rfl⟩

lemma wrapWhile_mono {kind : NodeKind} {more : Nat → View → Bool}
    {body body' : Parser → Option Outcome} (hbody : ∀ p o, body p = some o → body' p = some o)
    {bound bound' : Nat} (hle : bound ≤ bound') {layers place : Nat} {p : Parser} {o : Outcome}
    (ho : wrapWhile kind more body bound layers place p = some o) :
    wrapWhile kind more body' bound' layers place p = some o := by
  induction bound generalizing bound' layers place p with
  | zero => cases ho
  | succ bound ih =>
      obtain ⟨bound', rfl⟩ : ∃ n, bound' = n + 1 := ⟨bound' - 1, by omega⟩
      rw [wrapWhile_eq_some] at ho ⊢
      obtain ⟨hmore, m, q, hq, ho⟩ | hends := ho
      · exact .inl ⟨hmore, m, q, hbody _ _ hq, ih (by omega) ho⟩
      · exact .inr hends

/-- An outcome stays the same if the bound grows and more calls are answered. -/
theorem exec_mono (hcall : ∀ name p o, call name p = some o → call' name p = some o)
    {bound bound' : Nat} (hle : bound ≤ bound') {r : Rule} {p : Parser} {o : Outcome}
    (ho : r.exec call bound p = some o) : r.exec call' bound' p = some o := by
  induction r generalizing p o with
  | look next ih => exact ih _ ho
  | seq first next hfirst hnext =>
      rw [exec_seq_eq_some] at ho ⊢
      obtain ⟨m, q, hq, ho⟩ := ho
      exact ⟨m, q, hfirst hq, hnext m ho⟩
  | many body ih => exact repeatUntil_mono (fun p o => ih) hle ho
  | node kind body ih =>
      rw [exec_node_eq_some] at ho ⊢
      obtain ⟨q, hq, rfl⟩ | ⟨q, hq, rfl⟩ := ho
      · exact .inl ⟨q, ih hq, rfl⟩
      · exact .inr ⟨q, ih hq, rfl⟩
  | wrap kind first more body hfirst hbody =>
      rw [exec_wrap_eq_some] at ho ⊢
      obtain ⟨q, hq, rfl⟩ | ⟨q, hq, ho⟩ := ho
      · exact .inl ⟨q, hfirst hq, rfl⟩
      · exact .inr ⟨q, hfirst hq, wrapWhile_mono (fun p o => hbody) hle ho⟩
  | attempt body ih =>
      rw [exec_attempt_eq_some] at ho ⊢
      obtain ⟨q, hq, hclean, rfl⟩ | ⟨m, q, hq, hback, rfl⟩ := ho
      · exact .inl ⟨q, ih hq, hclean, rfl⟩
      · exact .inr ⟨m, q, ih hq, hback, rfl⟩
  | call name => exact hcall name p o ho
  | _ => exact ho

end Rule

namespace Grammar

variable {d : Dialect} {source : Text}

lemma run_mono {bound bound' : Nat} (hle : bound ≤ bound') {name : Nonterminal} {p : Parser}
    {o : Outcome} (ho : run d bound name p = some o) : run d bound' name p = some o := by
  induction bound generalizing bound' name p o with
  | zero => cases ho
  | succ bound ih =>
      obtain ⟨bound', rfl⟩ : ∃ n, bound' = n + 1 := ⟨bound' - 1, by omega⟩
      exact Rule.exec_mono (fun name p o => ih (by omega)) (by omega) ho

lemma exec_mono {bound bound' : Nat} (hle : bound ≤ bound') {r : Rule} {p : Parser} {o : Outcome}
    (ho : exec d bound r p = some o) : exec d bound' r p = some o :=
  Rule.exec_mono (fun _ _ _ => run_mono hle) hle ho

/-! ## The rules of the nonterminals -/

lemma keeps {name : Nonterminal} (h : name.isOf d = true) (hne : name ≠ .mediaCondition) :
    Keeps d name := by
  cases name with
  | balanced => exact keeps_balanced
  | stylesheet => exact keeps_stylesheet
  | statement => exact keeps_statement
  | blockItem => exact keeps_blockItem
  | keyframe => exact keeps_keyframe
  | block item missing => exact keeps_block item missing
  | ruleset nested => exact keeps_ruleset nested
  | nestedRuleset => exact keeps_nestedRuleset
  | declaration => exact keeps_declaration
  | property => exact keeps_property
  | ident => exact keeps_ident
  | interpolation => exact keeps_interpolation
  | selectors => exact keeps_selectors
  | selector => exact keeps_selector
  | combinator => exact keeps_combinator
  | simpleSelector => exact keeps_simpleSelector
  | expression single => exact keeps_expression single
  | binary level => exact keeps_binary level
  | term => exact keeps_term
  | unsignedTerm => exact keeps_unsignedTerm
  | arguments => exact keeps_arguments
  | argument => exact keeps_argument
  | atRule nested => exact keeps_atRule nested
  | mediaQueryList => exact keeps_mediaQueryList
  | mediaQuery => exact keeps_mediaQuery
  | mediaCondition => exact absurd rfl hne
  | supportsCondition => exact keeps_supportsCondition
  | variableDeclaration => exact keeps_variableDeclaration
  | variableName => exact keeps_variableName
  | moduleMember => exact keeps_moduleMember
  | dialectAtRule nested => exact keeps_dialectAtRule nested
  | ifRest nested => exact keeps_ifRest nested
  | mixinStatement nested =>
      obtain rfl : d = .less := of_decide_eq_true h
      exact keeps_mixinStatement nested
  | mixinDeclaration nested =>
      obtain rfl : d = .less := of_decide_eq_true h
      exact keeps_mixinDeclaration nested
  | mixinReference =>
      obtain rfl : d = .less := of_decide_eq_true h
      exact keeps_mixinReference
  | escapedValue => exact keeps_escapedValue
  | parameterList => exact keeps_parameterList
  | guard => exact keeps_guard

lemma total_rule {name : Nonterminal} (h : name.isOf d = true) : (rule d name).Total d := by
  by_cases hname : name = .mediaCondition
  · rw [hname]
    exact total_mediaCondition
  · exact (keeps h hname).total

lemma nested_rule (d : Dialect) (name : Nonterminal) : (rule d name).Nested := by
  cases h : name.isOf d with
  | true => exact (total_rule h).nested
  | false =>
      -- Only one dialect calls these, but their rules are the same in all of them.
      have hless : rule d name = rule .less name := by
        cases name <;> first | rfl | simp at h
      have hof : name.isOf .less = true := by
        cases name <;> rfl
      rw [hless]
      exact (total_rule hof).nested

lemma noded_rule {name : Nonterminal} (h : isNodeName name = true) : (rule d name).Noded := by
  cases name with
  | term => trivial
  | stylesheet => trivial
  | ident =>
      intro v
      dsimp only
      split
      · trivial
      · exact rfl
  | _ => cases h

lemma tame_run (bound : Nat) : Parser.Tame d source (run d bound) := by
  induction bound with
  | zero =>
      exact ⟨Session.run_follows 0, fun _ _ _ _ ho => (by cases ho),
        fun _ _ _ _ ho => (by cases ho)⟩
  | succ bound ih =>
      refine ⟨Session.run_follows (bound + 1), ?_, ?_⟩
      · intro name p o hp ho
        exact (Parser.exec_grown ih (nested_rule d name) hp ho).1
      · intro name p o hp ho hnode
        exact (Parser.exec_grown ih (nested_rule d name) hp ho).2 (noded_rule hnode)

/-! ## Keeping the promises -/

section

variable {call : Nonterminal → Parser → Option Outcome} {bound : Nat} {p : Parser}

lemma kind_take (hp : p.Consistent d source) (h : p.stream.view.kind 0 ≠ .endOfInput) :
    p.take.stream.view.kind 0 = p.stream.view.kind 1 := by
  rw [Parser.take, if_neg (mt hp.isExhausted_iff.1 h)]
  rfl

/-- Behind `not` and before a parenthesis, a media condition reads an operand. What is seen there is
known, but only from the token before the one taken, so this is not seen from the rule alone. -/
lemma fulfils_mediaCondition (hcall : Parser.Tame d source call) (hp : p.Consistent d source)
    (hbound : p.ahead + 2 ≤ bound)
    (hanswers : Parser.Answers d source call Nonterminal.mediaCondition.rank p.ahead) :
    ∃ o g, (rule d .mediaCondition).exec call bound p = some o ∧ g.Holds p o.parser ∧
      Nonterminal.mediaCondition.Promise d p.stream.view o.matched g := by
  by_cases h : p.stream.view.isWord 0 "not" = true ∧ p.stream.view.kind 1 = .leftParen
  · have hident := kind_of_isWord h.1
    have hend : p.stream.view.kind 0 ≠ .endOfInput := by rw [hident]; simp
    have htake := Parser.advances_take hp
    have hmoved : p.stream.cursor < p.take.stream.cursor := by
      rw [Parser.take, if_neg (mt hp.isExhausted_iff.1 hend)]
      exact Nat.lt_succ_self _
    have hlt := htake.ahead_lt hmoved
    have hparen : p.take.stream.view.kind 0 = .leftParen := by rw [kind_take hp hend]; exact h.2
    have hnested : (mediaOperands d).Nested := by
      have := nested_rule d .mediaCondition
      exact this.2 true
    have hbehind : p.take.ahead + 2 ≤ bound := by omega
    obtain ⟨o, g, ho, hg, hmatched, rfl⟩ := (Parser.analysed hcall hnested).ensures p.take
      Nonterminal.topRank _ hp.take hbehind (hanswers.of_lt hlt)
      (ensures_mediaOperands (by decide) hparen)
    have hword : (word "not").exec call bound p = some ⟨true, p.take⟩ := by
      simp [word, when, choose, Rule.exec, h.1]
    refine ⟨o, .moved, ?_, hmoved.trans hg, ?_⟩
    · have hseq : rule d .mediaCondition = .seq (word "not") fun _ => mediaOperands d := rfl
      rw [hseq, Rule.exec, hword]
      exact ho
    · rw [hmatched]
      rfl
  · have hensures : (rule d .mediaCondition).Ensures d Nonterminal.mediaCondition.rank p.stream.view
        fun matched g _ => Nonterminal.mediaCondition.Promise d p.stream.view matched g :=
      ensures_mediaCondition fun hnot hparen => h ⟨hnot, hparen⟩
    exact (Parser.analysed hcall (nested_rule d .mediaCondition)).ensures p _ _ hp hbound hanswers
      hensures

/-- The rule of a nonterminal keeps its promise if the nonterminals that it calls do. -/
lemma fulfils {name : Nonterminal} (hname : name.isOf d = true) (hcall : Parser.Tame d source call)
    (hp : p.Consistent d source) (hbound : p.ahead + 2 ≤ bound)
    (hanswers : Parser.Answers d source call name.rank p.ahead) :
    ∃ o g, (rule d name).exec call bound p = some o ∧ g.Holds p o.parser ∧
      name.Promise d p.stream.view o.matched g := by
  by_cases hne : name = .mediaCondition
  · subst hne
    exact fulfils_mediaCondition hcall hp hbound hanswers
  · exact (Parser.analysed hcall (nested_rule d name)).ensures p _ _ hp hbound hanswers
      ((keeps hname hne).ensures _ hp.proper)

end

theorem run_fulfils {bound : Nat} {name : Nonterminal} {p : Parser} (hname : name.isOf d = true)
    (hp : p.Consistent d source) (hbound : 64 * p.ahead + name.rank + 3 ≤ bound) :
    ∃ o g, run d bound name p = some o ∧ g.Holds p o.parser ∧
      name.Promise d p.stream.view o.matched g := by
  induction bound generalizing name p with
  | zero => omega
  | succ bound ih =>
      refine fulfils hname (tame_run bound) hp (by omega) ?_
      intro name' q hname' hq hless
      -- A byte is worth more than all ranks together, so `64 * ahead + rank` falls.
      have hrank : name'.rank < 61 := name'.rank_lt
      exact ih hname' hq (by omega)

/-- With the bound of the grammar, every nonterminal keeps its promise in every state. -/
lemma answers_run {bound : Nat} (hbound : Grammar.bound source.length ≤ bound) (k n : Nat) :
    Parser.Answers d source (run d bound) k n := by
  intro name q hname hq _
  have hrank : name.rank < 61 := name.rank_lt
  have hahead : q.ahead ≤ source.length := hq.ahead_le
  refine run_fulfils hname hq ?_
  rw [Grammar.bound] at hbound
  omega

section

variable {r : Rule} {p : Parser} (hp : p.Consistent d source)
include hp

/-- A total rule has an outcome, which is the same for all bounds that are large enough. -/
theorem exec_total (hr : r.Total d) :
    ∃ o, ∀ bound, Grammar.bound source.length ≤ bound → exec d bound r p = some o := by
  have hahead : p.ahead ≤ source.length := hp.ahead_le
  have hbound : p.ahead + 2 ≤ Grammar.bound source.length := by rw [Grammar.bound]; omega
  obtain ⟨o, ho⟩ := (Parser.analysed (tame_run _) hr.nested).total p hp hbound
    (answers_run (le_refl _) _ _) hr
  exact ⟨o, fun bound hbound => exec_mono hbound ho⟩

theorem exec_ensures (hr : r.Nested) {post : Post}
    (hpost : r.Ensures d Nonterminal.topRank p.stream.view post) :
    ∃ o g, (∀ bound, Grammar.bound source.length ≤ bound → exec d bound r p = some o) ∧
      g.Holds p o.parser ∧ post o.matched g o.parser.stream.view := by
  have hahead : p.ahead ≤ source.length := hp.ahead_le
  have hbound : p.ahead + 2 ≤ Grammar.bound source.length := by rw [Grammar.bound]; omega
  obtain ⟨o, g, ho, hg, hout⟩ := (Parser.analysed (tame_run _) hr).ensures p _ post hp hbound
    (answers_run (le_refl _) _ _) hpost
  exact ⟨o, g, fun bound hbound => exec_mono hbound ho, hg, hout⟩

end

end Grammar

end StyleSheet
