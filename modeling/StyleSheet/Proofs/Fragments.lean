import Mathlib
import StyleSheet.Proofs.Grammar.Parts
import StyleSheet.Proofs.Layout

/-!
# Fragments and sheets

A single at-rule or rule set is also a whole sheet. If nothing is left over behind it, then the loop
of the sheet takes the same way through the grammar: it has other things to try first, but these do
not match, and the end of the only statement is no fault.
-/

namespace StyleSheet

open Token

namespace Grammar

open Rule

/-! ## The loop of a sheet -/

section

variable {d : Dialect} {C : Calls} {s s₁ s' : Spot} {m : Bool} {y z : Yield} {t : Token}

/-- A rule that is skipped, or that decides. -/
lemma reads_or_left {a b : Rule} (h : Reads d C (.rule a) s true y s') :
    Reads d C (.rule (a ||| b)) s true y s' :=
  reads_or.2 (.inl ⟨rfl, h⟩)

lemma reads_or_right {a b : Rule} (h : Reads d C (.rule a) s false .nil s)
    (h' : Reads d C (.rule b) s m y s') : Reads d C (.rule (a ||| b)) s m y s' :=
  reads_or.2 (.inr ⟨.nil, s, y, h, h', rfl⟩)

lemma reads_round_end (h : s.ahead = []) : Reads d C (.rule stylesheetRound) s false .nil s := by
  have hend : s.view.is 0 .endOfInput = true := by simp [View.is, Spot.kind_view, h]
  rw [stylesheetRound, reads_choose, if_pos hend]
  exact .done false s

lemma reads_round_semicolon (h : s.ahead = [t]) (ht : t.kind = .semicolon) :
    Reads d C (.rule stylesheetRound) s true (.token t .nil) ⟨some t, [], s.length⟩ := by
  have hkind : s.view.kind 0 = .semicolon := by simp [Spot.kind_view, h, ht]
  rw [stylesheetRound, reads_choose, if_neg (by simp [View.is, hkind]), reads_choose,
    if_pos (by simp [View.isAny, hkind]), reads_take, Spot.taken_of_cons h, Spot.next_of_cons h]
  exact ⟨rfl, rfl, rfl⟩

lemma reads_round_statement
    (hkind : s.view.kind 0 ∉ [.endOfInput, .markupOpen, .markupClose, .semicolon])
    (hstatement : C .statement s true y s₁) (hend : Reads d C (.rule endOfStatement) s₁ m z s') :
    Reads d C (.rule stylesheetRound) s true (y ++ z) s' := by
  rw [List.mem_cons, not_or] at hkind
  obtain ⟨hinput, hmark⟩ := hkind
  rw [stylesheetRound, reads_choose, if_neg (by simpa [View.is] using hinput), reads_choose,
    if_neg (by simpa [View.isAny] using hmark), reads_seq]
  refine ⟨true, y, s₁, z, reads_call.2 hstatement, reads_then.2 ⟨m, z, s', .nil, hend, ?_, ?_⟩, rfl⟩
  · exact .done true s'
  · rw [Yield.append_nil]

/-- A single statement ends with the source. -/
lemma reads_sheet_statement
    (hkind : s.view.kind 0 ∉ [.endOfInput, .markupOpen, .markupClose, .semicolon])
    (hstatement : C .statement s true y s') (hend : s'.ahead = []) :
    Reads d C (.rule (many stylesheetRound)) s true y s' := by
  have hview : s'.view.isAny [.endOfInput, .rightBrace] = true := by
    simp [View.isAny, Spot.kind_view, hend]
  have hfirst : Reads d C (.rule endOfStatement) s' true .nil s' := by
    refine reads_or_left (reads_or_left ?_)
    cases hblock : s'.view.afterBlockOrSemicolon with
    | true => exact reads_or_left (reads_test.2 ⟨hblock.symm, rfl, rfl⟩)
    | false =>
        exact reads_or_right (reads_test.2 ⟨hblock.symm, rfl, rfl⟩)
          (reads_test.2 ⟨hview.symm, rfl, rfl⟩)
  have hround := reads_round_statement hkind hstatement hfirst
  simpa using Reads.again hround (.stop (reads_round_end hend))

/-- A single statement ends with a semicolon at the end of the source. -/
lemma reads_sheet_semicolon
    (hkind : s.view.kind 0 ∉ [.endOfInput, .markupOpen, .markupClose, .semicolon])
    (hstatement : C .statement s true y s₁) (hend : s₁.ahead = [t]) (ht : t.kind = .semicolon) :
    Reads d C (.rule (many stylesheetRound)) s true (y ++ .token t .nil)
      ⟨some t, [], s₁.length⟩ := by
  have hsemicolon : s₁.view.kind 0 = .semicolon := by simp [Spot.kind_view, hend, ht]
  have hlast : Reads d C (.rule (many stylesheetRound)) ⟨some t, [], s₁.length⟩ true .nil
      ⟨some t, [], s₁.length⟩ := .stop (reads_round_end rfl)
  cases hblock : s₁.view.afterBlockOrSemicolon with
  | true =>
      -- Behind a block the semicolon is left to the next round.
      have hfirst : Reads d C (.rule endOfStatement) s₁ true .nil s₁ :=
        reads_or_left (reads_or_left (reads_or_left (reads_test.2 ⟨hblock.symm, rfl, rfl⟩)))
      have hround := reads_round_statement hkind hstatement hfirst
      simpa using Reads.again hround (.again (reads_round_semicolon hend ht) hlast)
  | false =>
      have hview : s₁.view.isAny [.endOfInput, .rightBrace] = false := by
        simp [View.isAny, hsemicolon]
      have hfirst :
          Reads d C (.rule endOfStatement) s₁ true (.token t .nil) ⟨some t, [], s₁.length⟩ := by
        refine reads_or_left (reads_or_right ?_ ?_)
        · exact reads_or_right (reads_test.2 ⟨hblock.symm, rfl, rfl⟩)
            (reads_test.2 ⟨hview.symm, rfl, rfl⟩)
        · rw [reads_token, if_pos hsemicolon, Spot.taken_of_cons hend, Spot.next_of_cons hend]
          exact ⟨rfl, rfl, rfl⟩
      simpa using Reads.again (reads_round_statement hkind hstatement hfirst) hlast

end

/-! ## Statements -/

section

variable {d : Dialect} {depth : Nat} {s s' : Spot} {m nested : Bool} {y : Yield} {kind : NodeKind}

/-- Every at-keyword begins an at-rule. -/
lemma not_matched_of_atRule (h : Yields d depth (.atRule nested) s false y s') :
    s.view.kind 0 ≠ .atKeyword ∧ y = .nil ∧ s' = s := by
  obtain ⟨depth, h⟩ := reads_of_yields h
  rw [rule, atRule, reads_when] at h
  split at h
  · -- All rules of the table are groups.
    have htable : ∀ v : View, ((ruleFor? (cssAtRules d nested ++ marginBoxRules nested)
        (plainAtRuleName (v.text 0))).getD unknownAtRule).Accepts := by
      intro v
      refine of_ruleFor? (P := Accepts) ?_ ?_ _
      · simp [cssAtRules, importRule, namespaceRule, charset, media, supports, page, plainBlock,
          keyframes, layer, container, propertyRule, marginBoxRules]
      · simp [unknownAtRule]
    cases matched_of_accepts (by simpa using htable) h
  · rename_i hkind
    exact ⟨by simpa [View.is] using hkind, h.2⟩

/-- What begins no selector. -/
def selectorFree : List TokenKind := [
  .endOfInput, .markupOpen, .markupClose, .semicolon, .atKeyword, .dollarName]

lemma startsIdent_eq_false {v : View} (hkind : v.kind 0 ∈ selectorFree) :
    startsIdent d v = false := by
  simp only [selectorFree, List.mem_cons, List.not_mem_nil, or_false] at hkind
  cases d <;> rcases hkind with h | h | h | h | h | h <;>
    simp [startsIdent, startsPiece, opensInterpolation, interpolationOpener?, View.is, h]

lemma not_combinator (hkind : s.view.kind 0 ∈ selectorFree)
    (h : Yields d depth .combinator s m y s') : m = false ∧ s' = s := by
  obtain ⟨depth, h⟩ := reads_of_yields h
  rw [rule, combinator, reads_node] at h
  obtain ⟨z, h, -⟩ := h
  rw [reads_look] at h
  simp only [selectorFree, List.mem_cons, List.not_mem_nil, or_false] at hkind
  rcases hkind with hkind | hkind | hkind | hkind | hkind | hkind <;> rw [hkind] at h <;>
    exact ⟨(reads_done.1 h).1, (reads_done.1 h).2.2⟩

lemma not_simpleSelector (hkind : s.view.kind 0 ∈ selectorFree)
    (h : Yields d depth .simpleSelector s m y s') : m = false := by
  have hident := startsIdent_eq_false (d := d) hkind
  obtain ⟨depth, h⟩ := reads_of_yields h
  have hnone : ∀ kind ∉ selectorFree, s.view.is 0 kind = false := by
    rintro kind hfree
    exact beq_false_of_ne fun heq => hfree (heq ▸ hkind)
  have helement : Reads d (Yields d depth) (.rule (elementName d)) s false .nil s := by
    rw [elementName, reads_choose, if_neg (by simp [hnone .pipe (by decide)]), reads_when,
      if_neg (by simp [hident, hnone .star (by decide)])]
    exact ⟨rfl, rfl, rfl⟩
  have hparent : Reads d (Yields d depth) (.rule (parentReference d)) s false .nil s := by
    rw [parentReference, reads_when, if_neg (by simp [hnone .ampersand (by decide)])]
    exact ⟨rfl, rfl, rfl⟩
  have hpart : Reads d (Yields d depth) (.rule (selectorPart d)) s false .nil s := by
    have hother : Reads d (Yields d depth)
        (.rule (when (startsIdent d) (call .ident >> accept))) s false .nil s := by
      rw [reads_when, if_neg (by simp [hident])]
      exact ⟨rfl, rfl, rfl⟩
    rw [selectorPart, reads_look]
    simp only [selectorFree, List.mem_cons, List.not_mem_nil, or_false] at hkind
    rcases hkind with hkind | hkind | hkind | hkind | hkind | hkind <;> rw [hkind] <;> exact hother
  have hfirst := reads_or_right (reads_or_right helement hparent) hpart
  rw [rule, simpleSelector, reads_choose] at h
  split at h
  · exact (reads_done.1 h).1
  · obtain ⟨z, h, -⟩ := reads_node.1 h
    obtain ⟨hm, -⟩ | ⟨y₁, s₁, y₂, h, -⟩ := reads_and.1 h
    · exact hm
    · cases (reads_unique h hfirst).1

/-- A rule set begins with a selector. -/
lemma kind_of_ruleset (h : Yields d depth (.ruleset nested) s true y s') :
    s.view.kind 0 ∉ selectorFree := by
  intro hkind
  have hcut : s.cut d = s := by
    rw [Spot.cut]
    cases hahead : s.ahead with
    | nil => rw [Spot.cutAhead, ← hahead]
    | cons t rest =>
        have ht : t.kind ≠ .unicodeRange := by
          rintro heq
          rw [Spot.kind_view, hahead] at hkind
          simp [heq, selectorFree] at hkind
        rw [Spot.cutAhead, if_neg ht, ← hahead]
  -- Neither the rule set nor what it begins with can match.
  obtain ⟨depth, h⟩ := reads_of_yields h
  obtain ⟨z, h, -⟩ := reads_node.1 h
  obtain ⟨hm, -⟩ | ⟨y₁, s₁, y₂, h, -⟩ := reads_and.1 h
  · cases hm
  obtain ⟨depth, h⟩ := reads_of_yields (reads_call.1 h)
  obtain ⟨z, h, -⟩ := reads_node.1 h
  obtain ⟨hm, -⟩ | ⟨y₁, s₁, y₂, h, -⟩ := reads_and.1 h
  · cases hm
  obtain ⟨depth, h⟩ := reads_of_yields (reads_call.1 h)
  obtain ⟨z, h, -⟩ := reads_node.1 h
  obtain ⟨hm, -⟩ | ⟨y₁, s₁, y₂, h, -⟩ := reads_and.1 h
  · cases hm
  obtain ⟨m₁, y₁, s₁, y₂, hcutRange, hpart, -⟩ := reads_then.1 h
  rw [(reads_cutRange.1 hcutRange).2.2, hcut] at hpart
  obtain ⟨-, hcombinator⟩ | ⟨y₁, s₂, y₂, hcombinator, hsimple, -⟩ := reads_or.1 hpart
  · cases (not_combinator hkind (reads_call.1 hcombinator)).1
  · rw [(not_combinator hkind (reads_call.1 hcombinator)).2] at hsimple
    cases not_simpleSelector hkind (reads_call.1 hsimple)

lemma statement_of_atRule (hkind : s.view.kind 0 = .atKeyword)
    (h : Yields d depth (.atRule false) s m y s') : Yields d (depth + 1) .statement s m y s' := by
  show Reads d _ (.rule (statement d)) s m y s'
  rw [statement, reads_choose, if_pos (by simp [View.is, hkind])]
  exact reads_call.2 h

/-- In CSS and SCSS, nothing that is tried before a rule set begins like one. -/
lemma statement_of_ruleset (hd : d ≠ .less) (h : Yields d depth (.ruleset false) s true y s') :
    Yields d (depth + 1) .statement s true y s' := by
  have hkind := kind_of_ruleset h
  have hdialect : Reads d (Yields d depth) (.rule (dialectStatement d false)) s false .nil s := by
    cases d with
    | css => exact .done false s
    | less => exact absurd rfl hd
    | scss =>
        cases depth with
        | zero => cases h
        | succ depth =>
            refine reads_call.2 ?_
            show Reads .scss _ (.rule (variableDeclaration .scss)) s false .nil s
            rw [variableDeclaration, if_pos rfl, scssVariableDeclaration, reads_when, if_neg]
            · exact ⟨rfl, rfl, rfl⟩
            · intro hvariable
              exact hkind (by simp_all [View.is, selectorFree])
  show Reads d _ (.rule (statement d)) s true y s'
  rw [statement, reads_choose, if_neg]
  · exact reads_or_right hdialect (reads_call.2 h)
  · intro hat
    exact hkind (by simp_all [View.is, selectorFree])

/-! ## Whole sources -/

/-- What takes no token does not reach the end. -/
lemma tracks_ahead (d : Dialect) :
    Tracks d fun s y s' => y.tokens = [] → s'.ahead = [] → s.ahead = [] where
  nil _ _ h := h
  append _ _ _ _ _ h h' htokens hend := by
    rw [Yield.tokens_append, List.append_eq_nil_iff] at htokens
    exact h htokens.1 (h' htokens.2 hend)
  take s htokens _ := by
    cases hahead : s.ahead with
    | nil => rfl
    | cons t rest => simp [Spot.taken_of_cons hahead, Yield.tokens] at htokens
  fault _ _ _ h := h
  cut s _ hend := by
    rw [Spot.cut] at hend
    dsimp only at hend
    cases hahead : s.ahead with
    | nil => rfl
    | cons t rest =>
        rw [hahead, Spot.cutAhead] at hend
        split at hend <;> cases hend
  node _ _ _ _ h htokens := h (by simpa [Yield.tokens] using htokens)

lemma reads_semicolon_end (h : Reads d (Yields d depth) (.rule (token .semicolon)) s m y s')
    (hend : s'.ahead = []) :
    (s.ahead = [] ∧ y = .nil ∧ s' = s) ∨ ∃ t, t.kind = .semicolon ∧ s.ahead = [t] ∧
      y = .token t .nil ∧
      s' = ⟨some t, [], s.length⟩ := by
  rw [reads_token] at h
  split at h
  · rename_i hkind
    obtain ⟨-, rfl, rfl⟩ := h
    obtain ⟨t, rest, hahead⟩ :=
      List.exists_cons_of_ne_nil (Spot.ahead_ne_nil (s := s) (by simp [hkind]))
    rw [Spot.next_of_cons hahead] at hend ⊢
    obtain rfl : rest = [] := hend
    rw [Spot.kind_view, hahead] at hkind
    exact .inr ⟨t, hkind, hahead, Spot.taken_of_cons hahead, rfl⟩
  · obtain ⟨-, rfl, rfl⟩ := h
    exact .inl ⟨hend, rfl, rfl⟩

lemma sheet_of_rounds (h : Reads d (Yields d depth) (.rule (many stylesheetRound)) s true y s') :
    Reads d (Yields d (depth + 1)) (.rule Entry.stylesheet.rule) s true
      (.node .stylesheet y .nil) s' := by
  refine reads_call.2 ?_
  show Reads d _ (.rule (group .stylesheet (many stylesheetRound))) s true _ s'
  exact reads_group.2 ⟨rfl, true, y, h, rfl⟩

/-- A whole source that is read as an at-rule is read in the same way as a sheet. -/
theorem sheet_of_atRule
    (h : Reads d (Yields d depth) (.rule Entry.atRule.rule) s true (.node kind y .nil) s')
    (hend : s'.ahead = []) :
    Reads d (Yields d (depth + 2)) (.rule Entry.stylesheet.rule) s true
      (.node .stylesheet y .nil) s' := by
  obtain ⟨-, m, z, h, hnode⟩ := reads_group.1 h
  cases hnode
  obtain ⟨m₁, y₁, s₁, y₂, hrule, htoken, rfl⟩ := reads_then.1 h
  refine sheet_of_rounds ?_
  rw [reads_call] at hrule
  have htoken := reads_semicolon_end htoken hend
  cases m₁ with
  | false =>
      obtain ⟨-, rfl, rfl⟩ := not_matched_of_atRule hrule
      rcases htoken with ⟨hahead, rfl, rfl⟩ | ⟨t, ht, hahead, rfl, rfl⟩
      · exact .stop (reads_round_end hahead)
      · rw [Yield.nil_append, ← Yield.append_nil (.token t .nil)]
        exact .again (reads_round_semicolon hahead ht) (.stop (reads_round_end rfl))
  | true =>
      have hkind : s.view.kind 0 = .atKeyword := by
        obtain ⟨depth, hreads⟩ := reads_of_yields hrule
        rw [rule, atRule, reads_when] at hreads
        split at hreads
        · exact is_eq_true.1 (by assumption)
        · cases hreads.1
      have hmark : s.view.kind 0 ∉ [.endOfInput, .markupOpen, .markupClose, .semicolon] := by
        simp [hkind]
      have hstatement := statement_of_atRule hkind hrule
      rcases htoken with ⟨hahead, rfl, rfl⟩ | ⟨t, ht, hahead, rfl, rfl⟩
      · rw [Yield.append_nil]
        exact reads_sheet_statement hmark hstatement hahead
      · exact reads_sheet_semicolon hmark hstatement hahead ht

/-- A whole source that is read as a rule set is read in the same way as a sheet of CSS or SCSS. -/
theorem sheet_of_ruleset (hd : d ≠ .less)
    (h : Reads d (Yields d depth) (.rule Entry.ruleset.rule) s true (.node kind y .nil) s')
    (hend : s'.ahead = []) :
    ∃ s₁, Reads d (Yields d (depth + 2)) (.rule Entry.stylesheet.rule) s true
      (.node .stylesheet y .nil) s₁ ∧
      s₁.ahead = [] := by
  obtain ⟨-, m, z, h, hnode⟩ := reads_group.1 h
  cases hnode
  rw [reads_call] at h
  cases m with
  | false =>
      -- A rule set that does not match takes nothing, so there is nothing.
      obtain rfl := eq_nil_of_yields h rfl
      have hahead := yields_reaches (tracks_ahead d) h rfl hend
      exact ⟨s, sheet_of_rounds (.stop (reads_round_end hahead)), hahead⟩
  | true =>
      have hmark : s.view.kind 0 ∉ [.endOfInput, .markupOpen, .markupClose, .semicolon] := by
        have hfree : [.endOfInput, .markupOpen, .markupClose, .semicolon] ⊆ selectorFree := by
          decide
        exact fun hmem => kind_of_ruleset h (hfree hmem)
      exact ⟨s',
        sheet_of_rounds (reads_sheet_statement hmark (statement_of_ruleset hd h) hend), hend⟩

end

end Grammar

/-- The tokens in the end are those of the source, up to cuts that show in the significant ones. -/
lemma tokens_readSource_eq {d : Dialect} {entry entry' : Entry} {source : Text}
    (h : significant (readSource d entry source).tokens.toList =
      significant (readSource d entry' source).tokens.toList) :
    (readSource d entry source).tokens.toList = (readSource d entry' source).tokens.toList := by
  have hrow := read_row d source
  have hhistory := (Entry.consistent_readSource d entry source).history
  have hhistory' := (Entry.consistent_readSource d entry' source).history
  refine (hhistory.row hrow).ordered.eq_of_significant (hhistory'.row hrow).ordered ?_ h
  rw [hhistory.filter_isTrivia hrow, hhistory'.filter_isTrivia hrow]

/-- If a fragment is read in the same way as a sheet, their trees differ in the kind of the root
only. -/
lemma agree_of_reads {d : Dialect} {entry : Entry} {source : Text}
    (hsheet : ∀ depth kind y s',
      Rule.Reads d (Grammar.Yields d depth) (.rule entry.rule) (.ofSource d source)
      true (.node kind y .nil) s' → s'.ahead = [] →
        ∃ s₁, Rule.Reads d (Grammar.Yields d (depth + 2)) (.rule Entry.stylesheet.rule)
          (.ofSource d source) true (.node .stylesheet y .nil) s₁ ∧ s₁.ahead = [])
    (hcomplete : (parse d entry source).complete = true) :
    ∃ parts, (parse d entry source).root = .ofNode entry.rootKind parts ∧
      (parse d .stylesheet source).root = .ofNode .stylesheet parts ∧
      (parse d entry source).diagnostics = (parse d .stylesheet source).diagnostics := by
  obtain ⟨kind, y, s, hreads, htokens, hroot, hdiagnostics, hend⟩ :=
    exists_layout_parse d entry source
  obtain ⟨kind', y', s', hreads', htokens', hroot', hdiagnostics', -⟩ :=
    exists_layout_parse d .stylesheet source
  have hentry := hreads _ (le_refl _)
  obtain ⟨s₁, hsame, hend₁⟩ := hsheet _ _ _ _ hentry (hend.1 hcomplete)
  obtain ⟨-, hyield, rfl⟩ := Grammar.reads_unique hsame (hreads' _ (le_refl _))
  cases hyield
  rw [hend.1 hcomplete] at htokens
  rw [hend₁] at htokens'
  have hequal := tokens_readSource_eq (htokens.trans htokens'.symm)
  refine ⟨_, ?_, hroot', ?_⟩
  · rw [hroot, hequal, Entry.kind_eq_rootKind hentry]
  · rw [hdiagnostics, hdiagnostics', hequal]

/-- A source that is read as one at-rule has the same parts and diagnostics if it is read as a
sheet. In CSS and SCSS this is so for a rule set as well. -/
theorem fragments_agree_with_sheets (d : Dialect) (source : Text) :
    ((parse d .atRule source).complete = true →
      ∃ parts, (parse d .atRule source).root = .ofNode .fragment parts ∧
        (parse d .stylesheet source).root = .ofNode .stylesheet parts ∧
        (parse d .atRule source).diagnostics = (parse d .stylesheet source).diagnostics) ∧
      (d = .css ∨ d = .scss → (parse d .ruleset source).complete = true →
        ∃ parts, (parse d .ruleset source).root = .ofNode .fragment parts ∧
          (parse d .stylesheet source).root = .ofNode .stylesheet parts ∧
          (parse d .ruleset source).diagnostics = (parse d .stylesheet source).diagnostics) := by
  refine ⟨?_, ?_⟩
  · refine agree_of_reads ?_
    rintro depth kind y s' h hend
    exact ⟨s', Grammar.sheet_of_atRule h hend, hend⟩
  · rintro hd
    refine agree_of_reads ?_
    rintro depth kind y s' h hend
    exact Grammar.sheet_of_ruleset (by rintro rfl; simp at hd) h hend

/-- An at-rule with a fault in its block and a semicolon behind it, and a rule set that begins with
a range of code points and lacks its closing braces. -/
theorem fragments_agree_with_sheets_broken :
    (parse .less .atRule (Text.ofString "@media a\x7bb;\x7d;")).complete = true ∧
      (∃ parts, (parse .less .atRule (Text.ofString "@media a\x7bb;\x7d;")).root =
        .ofNode .fragment parts ∧
        (parse .less .stylesheet (Text.ofString "@media a\x7bb;\x7d;")).root =
          .ofNode .stylesheet parts ∧
        (parse .less .atRule (Text.ofString "@media a\x7bb;\x7d;")).diagnostics =
          (parse .less .stylesheet (Text.ofString "@media a\x7bb;\x7d;")).diagnostics) ∧
      (parse .scss .ruleset (Text.ofString "u+a \x7b b \x7b")).complete = true ∧
      ∃ parts, (parse .scss .ruleset (Text.ofString "u+a \x7b b \x7b")).root =
        .ofNode .fragment parts ∧
        (parse .scss .stylesheet (Text.ofString "u+a \x7b b \x7b")).root =
          .ofNode .stylesheet parts ∧
        (parse .scss .ruleset (Text.ofString "u+a \x7b b \x7b")).diagnostics =
          (parse .scss .stylesheet (Text.ofString "u+a \x7b b \x7b")).diagnostics := by
  have hatRule : (parse .less .atRule (Text.ofString "@media a\x7bb;\x7d;")).complete = true := by
    decide +kernel
  have hruleset : (parse .scss .ruleset (Text.ofString "u+a \x7b b \x7b")).complete = true := by
    decide +kernel
  exact ⟨hatRule, (fragments_agree_with_sheets _ _).1 hatRule, hruleset,
    (fragments_agree_with_sheets _ _).2 (.inr rfl) hruleset⟩

end StyleSheet
