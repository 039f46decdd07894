import Mathlib
import StyleSheet.Proofs.Execution

/-!
# Productions take a token or change nothing

A production reads one construct. If it matches, it has taken a token; if it does not, the state of
the parser is the very state before it, whatever was tried in between: events, tokens, the cursor,
the faults and the log of cuts. Rules that are called only where their construct has begun already,
such as argument lists, are no productions.
-/

namespace StyleSheet

open Rule

namespace Grammar

/-- Whether a nonterminal stands for a production. -/
def isProduction : Nonterminal → Bool
  | .balanced | .stylesheet | .arguments | .mediaCondition | .supportsCondition | .ifRest _
  | .parameterList | .guard => false
  | _ => true

/-- The productions of a dialect that may be tried where `v` is seen. The use of a mixin is tried
only where the name of a mixin starts. -/
inductive Production (d : Dialect) (v : View) : Rule → Prop
  | call {name : Nonterminal} (hname : isProduction name = true) (hof : name.isOf d = true)
      (hmixin : name = .mixinReference → startsMixinName v = true) : Production d v (.call name)
  | priority : Production d v priority
  | stringLiteral : Production d v stringLiteral
  | anyDeclaration : Production d v (.call .variableDeclaration ||| .call .declaration)

variable {d : Dialect} {v : View} {r : Rule}

lemma Production.nested (h : Production d v r) : r.Nested := by
  cases h with
  | call hname hof _ => exact trivial
  | priority => exact (total_priority (d := d)).nested
  | stringLiteral => exact (total_stringLiteral (d := d)).nested
  | anyDeclaration =>
      have htotal : (Rule.call .variableDeclaration ||| Rule.call .declaration).Total d := by simp
      exact htotal.nested

/-- A nonterminal that stands for a production promises to take a token or to change nothing. -/
lemma eq_of_promise {name : Nonterminal} (hname : isProduction name = true)
    (hmixin : name = .mixinReference → startsMixinName v = true) (matched : Bool) (g : Grade)
    (h : name.Promise d v matched g) : g = if matched then .moved else .same := by
  have hend : startsMixinName v = true → v.kind 0 ≠ .endOfInput := ne_end_of_startsMixinName
  cases matched <;> cases name <;> simp_all [isProduction]

lemma Production.ensures (h : Production d v r) :
    r.Ensures d Nonterminal.topRank v fun matched g _ => g = if matched then .moved else .same := by
  cases h with
  | @call name hname hof hmixin =>
      have hmatch : ∀ g, name.MayMatch v g → g = .moved := eq_of_promise (d := d) hname hmixin true
      have hfail : ∀ g, name.MayFail d v g → g = .same := eq_of_promise hname hmixin false
      refine ⟨hof, name.rank_lt, fun g hg => ?_, fun g hg => ?_⟩
      · simp [hmatch g hg]
      · simp [hfail g hg]
  | priority => simp +contextual [Grammar.priority, View.isImportant]
  | stringLiteral =>
      have hend : v.isAny [.string, .badString] = true → v.kind 0 ≠ .endOfInput := by
        intro hv hend
        simp [View.isAny, hend] at hv
      simp +contextual [Grammar.stringLiteral, hend]
  | anyDeclaration => simp

end Grammar

namespace Session

/-- Every production has an outcome in every reachable session, the same one for all bounds that are
large enough. If it does not match, the parser is as it was; if it matches, the cursor has passed at
least one significant token. -/
theorem production_pure_or_progress {d : Dialect} {source : Text} {s : Session}
    (h : Reachable d source s) {r : Rule} (hr : Grammar.Production d s.parser.stream.view r) :
    ∃ o : Outcome,
      (∀ bound, Grammar.bound source.length ≤ bound → Grammar.exec d bound r s.parser = some o) ∧
      (o.matched = false → o.parser = s.parser) ∧
      (o.matched = true → s.parser.stream.cursor < o.parser.stream.cursor ∧
        o.parser.stream.cursor ≤ (Token.significant o.parser.tokens.toList).length) := by
  have hp := h.sound.parser
  obtain ⟨o, g, ho, hg, rfl⟩ := Grammar.exec_ensures hp hr.nested hr.ensures
  refine ⟨o, ho, ?_, ?_⟩
  · intro hmatched
    rw [hmatched] at hg
    exact hg
  · intro hmatched
    rw [hmatched] at hg
    have ho' := (h.exec (ho _ (le_refl _))).sound.parser
    refine ⟨hg, ?_⟩
    rw [← ho'.stream]
    simpa using ho'.cursor_le

/-- Trying a rule set cuts the range, finds no block and leaves no trace. -/
theorem production_pure_or_progress_cut :
    ∃ o : Outcome,
      Grammar.exec .scss 384 (.call .nestedRuleset)
        (Parser.ofSource .scss (Text.ofString "u+a b")) =
        some o ∧
      o.matched = false ∧ o.parser = Parser.ofSource .scss (Text.ofString "u+a b") := by
  have hreach : Reachable .scss (Text.ofString "u+a b")
      ⟨Parser.ofSource .scss (Text.ofString "u+a b"), [], []⟩ := .refl
  obtain ⟨o, ho, hpure, -⟩ := production_pure_or_progress hreach
    (r := .call .nestedRuleset) (.call rfl rfl (by simp))
  have hexec := ho 384 (by decide +kernel)
  have hmatched : (Grammar.exec .scss 384 (.call .nestedRuleset)
      (Parser.ofSource .scss (Text.ofString "u+a b"))).map Outcome.matched = some false := by
    decide +kernel
  rw [hexec, Option.map_some, Option.some.injEq] at hmatched
  exact ⟨o, hexec, hmatched, hpure hmatched⟩

end Session

end StyleSheet
