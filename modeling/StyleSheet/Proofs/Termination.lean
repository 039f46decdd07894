import Mathlib
import StyleSheet.Proofs.Activity
import StyleSheet.Proofs.Building

/-!
# Reading ends, and a style sheet is read to its end

Whatever the source is, reading it has an outcome, and the bound of the grammar is large enough to
find it. A style sheet is read until no significant token is left, so that closing its root adds
white space and comments only. All loops and all calls are measured by the bytes ahead, which a cut
does not change.
-/

namespace StyleSheet

open Event Token

/-! ## Entries -/

namespace Entry

lemma total_rule (d : Dialect) (entry : Entry) : entry.rule.Total d := by
  cases entry <;> simp [rule]

lemma noded_rule (entry : Entry) : entry.rule.Noded := by
  cases entry <;> trivial

lemma matched_of_exec {d : Dialect} {bound : Nat} (entry : Entry) {p : Parser} {o : Rule.Outcome}
    (ho : Grammar.exec d bound entry.rule p = some o) : o.matched = true := by
  cases entry with
  | stylesheet =>
      cases bound with
      | zero => cases ho
      | succ bound =>
          have haccepts : (Grammar.rule d .stylesheet).Accepts := fun _ => rfl
          exact haccepts.matched ho
  | _ =>
      have haccepts : ∀ kind (body : Rule), (Rule.group kind body).Accepts := fun _ _ _ => rfl
      exact (haccepts _ _).matched ho

/-- Reading a source has an outcome, which is the same for all bounds that are large enough. -/
lemma exists_outcome (d : Dialect) (entry : Entry) (source : Text) :
    ∃ o : Rule.Outcome, (∀ bound, Grammar.bound source.length ≤ bound →
      Grammar.exec d bound entry.rule (Parser.ofSource d source) = some o) ∧
      readSource d entry source = o.parser := by
  obtain ⟨o, ho⟩ := Grammar.exec_total (.ofSource d source) (total_rule d entry)
  refine ⟨o, ho, ?_⟩
  rw [readSource]
  simp only [ho _ (le_refl _)]

lemma consistent_readSource (d : Dialect) (entry : Entry) (source : Text) :
    (readSource d entry source).Consistent d source := by
  obtain ⟨o, ho, hread⟩ := exists_outcome d entry source
  rw [hread]
  exact (Grammar.tame_run _).consistent (.ofSource d source) (ho _ (le_refl _))

/-- The events of reading a source are those of one node. -/
lemma events_readSource (d : Dialect) (entry : Entry) (source : Text) :
    ∃ kind inner, (readSource d entry source).events.toList = nodeRow kind none inner ∧
      Records inner := by
  obtain ⟨o, ho, hread⟩ := exists_outcome d entry source
  have ho := ho _ (le_refl _)
  obtain ⟨-, kind, inner, hevents, hrec⟩ := (Parser.exec_grown (Grammar.tame_run _)
    (total_rule d entry).nested (.ofSource d source) ho).2 (noded_rule entry)
    (matched_of_exec entry ho)
  rw [hread]
  exact ⟨kind, inner, hevents, hrec⟩

/-- The steps of reading a source build one node. -/
lemma steps_readSource (d : Dialect) (entry : Entry) (source : Text) :
    ∃ kind inner, Event.steps (readSource d entry source).events =
      .opening kind :: (inner ++ [.closing]) ∧ Balanced inner := by
  obtain ⟨kind, inner, hevents, hrec⟩ := events_readSource d entry source
  refine ⟨kind, _, ?_, hrec.balanced⟩
  have hrow : (readSource d entry source).events = (nodeRow kind none inner).toArray :=
    Array.ext' hevents
  rw [hrow, steps_nodeRow kind hrec.closed]

end Entry

/-! ## Exhaustion -/

lemma Rule.last_of_repeatUntil {body : Parser → Option Outcome} {bound : Nat} {p : Parser}
    {o : Outcome} (ho : repeatUntil body bound p = some o) :
    ∃ q, body q = some ⟨false, o.parser⟩ := by
  induction bound generalizing p with
  | zero => cases ho
  | succ bound ih =>
      obtain ⟨q, -, ho⟩ | ⟨q, hq, rfl⟩ := repeatUntil_eq_some.1 ho
      · exact ih ho
      · exact ⟨p, hq⟩

/-- A parser that has taken all significant tokens. -/
lemma Parser.Consistent.taken_eq {d : Dialect} {source : Text} {p : Parser}
    (h : p.Consistent d source) (hend : p.stream.isExhausted = true) :
    taken p.events.toList = (significant p.tokens.toList).length := by
  have hle : p.stream.tokens.size ≤ p.stream.cursor := by simpa [Stream.isExhausted] using hend
  rw [← h.cursor, ← h.stream, Array.length_toList]
  exact Nat.le_antisymm h.cursor_le hle

/-- If no significant token is left, closing the root adds white space and comments only. -/
lemma Entry.trivia_of_isExhausted {d : Dialect} {entry : Entry} {source : Text}
    (hend : (readSource d entry source).stream.isExhausted = true) :
    ∃ steps, Event.steps (readSource d entry source).events = steps ++ [.closing] ∧
      (Tree.Builder.run source.length (readSource d entry source).tokens.toList
        steps).frames.length = 1 ∧
      ∀ t ∈ (Tree.Builder.run source.length (readSource d entry source).tokens.toList
        steps).pending, t.isTrivia = true := by
  obtain ⟨kind, inner, hsteps, hbalanced⟩ := steps_readSource d entry source
  obtain ⟨hdepth, -, hpending⟩ := Tree.Builder.run_open source.length
    (readSource d entry source).tokens.toList kind hbalanced
  refine ⟨.opening kind :: inner, hsteps, hdepth, ?_⟩
  -- The steps inside of the root take as many tokens as there are significant ones.
  have hcount : inner.count .token = taken (readSource d entry source).events.toList := by
    rw [← count_steps, hsteps]
    simp
  rw [hcount, (consistent_readSource d entry source).taken_eq hend, List.drop_length, significant,
    List.filter_eq_nil_iff] at hpending
  intro t ht
  simpa using hpending t ht

namespace Grammar

open Rule Relation

variable {d : Dialect} {source : Text} {bound : Nat}

/-- Only at the end of the input a round does not match. -/
lemma end_of_stylesheetRound {call : Nonterminal → Parser → Option Outcome} {p q : Parser}
    (ho : stylesheetRound.exec call bound p = some ⟨false, q⟩) :
    q.stream.view.kind 0 = .endOfInput := by
  rw [stylesheetRound, choose, Rule.exec] at ho
  by_cases hend : p.stream.view.is 0 .endOfInput = true
  · rw [if_pos hend] at ho
    cases ho
    exact is_eq_true.1 hend
  · rw [if_neg hend] at ho
    have haccepts : (choose (·.isAny [.markupOpen, .markupClose, .semicolon]) take <|
        seq (Rule.call .statement) fun matched =>
          (if matched then endOfStatement
            else report .ruleOrSelectorExpected >> Rule.call .balanced) >> accept).Accepts := by
      intro v
      dsimp only
      split
      · trivial
      · exact fun _ _ => rfl
    exact absurd (haccepts.matched ho) (by simp)

lemma isExhausted_of_stylesheet {p : Parser} {o : Outcome} (hp : p.Consistent d source)
    (ho : exec d bound (.call .stylesheet) p = some o) : o.parser.stream.isExhausted = true := by
  refine (consistent_of_exec hp ho).isExhausted_iff.2 ?_
  have hmatched := Entry.matched_of_exec .stylesheet ho
  cases bound with
  | zero => cases ho
  | succ bound =>
      have hnode : (node .stylesheet (seq (many stylesheetRound) fun _ => accept)).exec
          (run d bound) bound p = some o := ho
      obtain ⟨q, hq, rfl⟩ | ⟨q, -, rfl⟩ := exec_node_eq_some.1 hnode
      · obtain ⟨matched, q', hloop, hdone⟩ := exec_seq_eq_some.1 hq
        cases hdone
        obtain ⟨r, hlast⟩ := last_of_repeatUntil hloop
        have hend := end_of_stylesheetRound hlast
        exact hend
      · cases hmatched

/-- Reading has an outcome for every nonterminal of the dialect in every reachable session, and for
every entry; the bounds do not matter, as long as they are large enough. A style sheet leaves no
significant token, so that only white space and comments are left when its root is closed.

No outcome depends on a call that is not started. Among all activities that a call starts, each
round after which a loop goes on leaves fewer bytes ahead, and so does what comes before each call
inside of another one unless it has a lower rank: a nonterminal is never called inside of itself
without a token in between. A cut does not change the bytes ahead. -/
theorem terminates_and_exhausts (d : Dialect) (source : Text) :
    (∀ entry : Entry, ∃ o : Outcome, (∀ bound, Grammar.bound source.length ≤ bound →
        exec d bound entry.rule (Parser.ofSource d source) = some o) ∧
      readSource d entry source = o.parser) ∧
    ((readSource d .stylesheet source).stream.isExhausted = true ∧
      taken (readSource d .stylesheet source).events.toList =
        (significant (readSource d .stylesheet source).tokens.toList).length ∧
      ∃ steps, Event.steps (readSource d .stylesheet source).events = steps ++ [.closing] ∧
        (Tree.Builder.run source.length (readSource d .stylesheet source).tokens.toList
          steps).frames.length = 1 ∧
        ∀ t ∈ (Tree.Builder.run source.length (readSource d .stylesheet source).tokens.toList
          steps).pending, t.isTrivia = true) ∧
    ∀ s, Session.Reachable d source s → ∀ name : Nonterminal, name.isOf d = true →
      ∃ o : Outcome, ∀ bound, Grammar.bound source.length ≤ bound →
        exec d bound (.call name) s.parser = some o ∧
        (name = .stylesheet → o.parser.stream.isExhausted = true) ∧
        ∀ a, ReflTransGen (Starts d bound) ⟨.rule (.call name), s.parser⟩ a →
          (∀ r call, a.task = .rule r → Agrees d bound call a →
            r.exec call bound a.parser = exec d bound r a.parser) ∧
          (∀ b, Repeats d bound a b → b.parser.ahead < a.parser.ahead) ∧
          (∀ outer inner p q, a = ⟨.rule (.call outer), p⟩ →
            TransGen (Starts d bound) a ⟨.rule (.call inner), q⟩ → outer.rank ≤ inner.rank →
              q.ahead < p.ahead) ∧
          a.parser.cutRange.ahead = a.parser.ahead := by
  refine ⟨fun entry => Entry.exists_outcome d entry source, ?_, ?_⟩
  · have hend : (readSource d .stylesheet source).stream.isExhausted = true := by
      obtain ⟨o, ho, hread⟩ := Entry.exists_outcome d .stylesheet source
      rw [hread]
      exact isExhausted_of_stylesheet (.ofSource d source) (ho _ (le_refl _))
    exact ⟨hend, (Entry.consistent_readSource d .stylesheet source).taken_eq hend,
      Entry.trivia_of_isExhausted hend⟩
  · intro s hs name hname
    have hp := hs.sound.parser
    obtain ⟨o, ho⟩ := exec_total (r := .call name) hp hname
    refine ⟨o, fun bound hbound => ⟨ho bound hbound, ?_, ?_⟩⟩
    · rintro rfl
      exact isExhausted_of_stylesheet hp (ho bound hbound)
    · intro a hrun
      have hstart : Inside d source 0 (s.parser.ahead + 1) ⟨.rule (.call name), s.parser⟩ :=
        ⟨hp, hname, .inl (Nat.lt_succ_self _)⟩
      have ha := hstart.run hbound hrun
      refine ⟨?_, fun b hb => hb.ahead_lt hbound ha, ?_, Parser.ahead_cutRange ha.consistent⟩
      · obtain ⟨task, p⟩ := a
        rintro r call rfl hagrees
        exact exec_eq_of_agrees hagrees
      · rintro outer inner p q rfl hinner hrank
        exact call_decreases hbound ha.1 ha.2.1 hinner hrank

/-- The loop of a style sheet goes round over a semicolon. -/
theorem terminates_and_exhausts_semicolon :
    ∃ a b, ReflTransGen (Starts .css 192)
        ⟨.rule (.call .stylesheet), Parser.ofSource .css (Text.ofString ";a")⟩ a ∧
      Repeats .css 192 a b ∧ b.parser.ahead < a.parser.ahead := by
  obtain ⟨-, -, h⟩ := terminates_and_exhausts .css (Text.ofString ";a")
  obtain ⟨o, ho⟩ := h ⟨Parser.ofSource .css (Text.ofString ";a"), [], []⟩ .refl .stylesheet rfl
  obtain ⟨-, -, hstarted⟩ := ho 192 (by decide +kernel)
  have hloop : ReflTransGen (Starts .css 192)
      ⟨.rule (.call .stylesheet), Parser.ofSource .css (Text.ofString ";a")⟩
      ⟨.rule (.many stylesheetRound), (Parser.ofSource .css (Text.ofString ";a")).openNode⟩ :=
    .head (.call _ _) (.head (.node _ _ _) (.single (.first _ _ _)))
  have hround : exec .css 192 stylesheetRound
      (Parser.ofSource .css (Text.ofString ";a")).openNode =
        some ⟨true, (Parser.ofSource .css (Text.ofString ";a")).openNode.take⟩ := by
    rw [stylesheetRound, choose, exec, Rule.exec, if_neg (by decide +kernel), choose, Rule.exec,
      if_pos (by decide +kernel), Rule.exec]
  exact ⟨_, _, hloop, .many hround, (hstarted _ hloop).2.1 _ (.many hround)⟩

-- A cut may well leave more tokens to take than before.
example : (Parser.ofSource .css (Text.ofString "u+1-a")).stream.tokens.size = 1 ∧
    (Parser.ofSource .css (Text.ofString "u+1-a")).cutRange.stream.tokens.size = 4 ∧
    (Parser.ofSource .css (Text.ofString "u+1-a")).cutRange.ahead = 5 := by
  decide +kernel

end Grammar

end StyleSheet
