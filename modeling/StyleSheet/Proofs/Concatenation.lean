import Mathlib
import StyleSheet.Proofs.CleanBraces
import StyleSheet.Proofs.Grammar.Front
import StyleSheet.Proofs.Grammar.Start

/-!
# One sheet behind another

A sheet of CSS ends with a rule set whose block is closed. If another sheet is written behind it,
and no token reaches across the border, then both are read as each of them alone: the parts of the
whole are those of the first sheet and then those of the second one, and so are the diagnostics
(`append_after_block`). The first sheet is read the same because the grammar does not look behind
the closing brace, and the second one because the grammar does not look back at its start.
-/

namespace StyleSheet

open Token

/-- The diagnostic as it stands `n` bytes further on. -/
def Diagnostic.shift (n : Nat) (d : Diagnostic) : Diagnostic :=
  { d with start := d.start + n, stop := d.stop + n }

/-! ## Layouts -/

namespace Yield

variable {length length' n : Nat} {y z : Yield} {l r more trivia : List Token}

lemma layout_append (y z : Yield) (l : List Token) :
    (y ++ z).layout length l =
      { z.layout length (y.layout length l).rest with
        parts := (y.layout length l).parts ++ (z.layout length (y.layout length l).rest).parts
        diagnostics :=
          (y.layout length l).diagnostics ++
              (z.layout length (y.layout length l).rest).diagnostics } := by
  induction y generalizing l with
  | nil => rfl
  | token t rest ih => simp [layout, ih]
  | fault f rest ih => simp [layout, ih]
  | node kind inner rest _ ih => simp [layout, ih]

/-- White space and comments before a yield go before its parts. -/
lemma layout_trivia (length : Nat) (y : Yield) (l : List Token)
    (htrivia : ∀ t ∈ trivia, t.isTrivia = true) :
    (y.layout length (trivia ++ l)).parts ++ (y.layout length (trivia ++ l)).rest.map Token.tree =
        trivia.map Token.tree ++
          ((y.layout length l).parts ++ (y.layout length l).rest.map Token.tree) ∧
      (y.layout length (trivia ++ l)).diagnostics = (y.layout length l).diagnostics := by
  have htake : (trivia ++ l).takeWhile Token.isTrivia = trivia ++ l.takeWhile Token.isTrivia :=
    List.takeWhile_append_of_pos htrivia
  have hdrop : (trivia ++ l).dropWhile Token.isTrivia = l.dropWhile Token.isTrivia :=
    List.dropWhile_append_of_pos htrivia
  cases y with
  | nil => simp [layout]
  | token t rest => simp [layout, htake, hdrop]
  | fault f rest => simp [layout, htake, hdrop]
  | node kind inner rest => simp [layout, htake, hdrop]

/-- White space and comments before a significant token stay the same if more tokens follow. -/
lemma span_append (hne : significant l ≠ []) (more : List Token) :
    (l ++ more).takeWhile Token.isTrivia = l.takeWhile Token.isTrivia ∧
      ∃ t behind, l.dropWhile Token.isTrivia = t :: behind ∧
        (l ++ more).dropWhile Token.isTrivia = t :: (behind ++ more) := by
  obtain ⟨t, r, h⟩ := List.exists_cons_of_ne_nil hne
  obtain ⟨trivia, behind, rfl, htrivia, ht, -⟩ := List.filter_eq_cons_iff.1 h
  have hspan : ∀ u ∈ trivia, u.isTrivia = true := by simpa using htrivia
  have hstop : t.isTrivia = false := by simpa using ht
  rw [List.append_assoc, List.takeWhile_append_of_pos hspan, List.takeWhile_append_of_pos hspan,
    List.dropWhile_append_of_pos hspan, List.dropWhile_append_of_pos hspan]
  simp [hstop]

/-- Tokens behind the last one of a yield are left over. -/
lemma layout_more (h : significant l = y.tokens ++ r) (hy : r ≠ [] ∨ y.Tight) :
    y.layout length (l ++ more) =
      { y.layout length' l with rest := (y.layout length' l).rest ++ more } := by
  induction y generalizing l r with
  | nil => rfl
  | token t rest ih =>
      obtain ⟨htake, u, behind, hdrop, hmore⟩ := span_append (l := l) (by simp [h, tokens]) more
      obtain ⟨behind', hdrop', -, hbehind⟩ := dropWhile_eq_cons h
      obtain ⟨rfl, rfl⟩ := List.cons.inj (hdrop.symm.trans hdrop')
      have hrest := ih hbehind hy
      simp [layout, htake, hdrop, hmore, hrest]
  | fault f rest ih =>
      have hne : rest.tokens ++ r ≠ [] := by
        rcases hy with hr | ⟨hrest, -⟩
        · simp [hr]
        · simp [hrest]
      obtain ⟨htake, u, behind, hdrop, hmore⟩ := span_append (l := l) (by rwa [h]) more
      have hrest := ih ((significant_dropWhile l).trans h) (hy.imp_right And.right)
      rw [hdrop, List.cons_append] at hrest
      simp [layout, htake, hdrop, hmore, hrest, Tree.Builder.diagnosticBefore]
  | node kind inner rest ih ih' =>
      rw [tokens, List.append_assoc] at h
      have hinner : rest.tokens ++ r ≠ [] ∨ inner.tokens ≠ [] ∧ inner.Tight := by
        rcases hy with hr | ⟨hrest | hinner, -⟩
        · exact .inl (by simp [hr])
        · exact .inl (by simp [hrest])
        · exact .inr hinner
      have hne : inner.tokens ++ (rest.tokens ++ r) ≠ [] := by
        rcases hinner with hbehind | ⟨hinside, -⟩
        · exact List.append_ne_nil_of_right_ne_nil _ hbehind
        · exact List.append_ne_nil_of_left_ne_nil hinside _
      obtain ⟨htake, u, behind, hdrop, hmore⟩ := span_append (l := l) (by rwa [h]) more
      have hsignificant := (significant_dropWhile l).trans h
      have hrest : significant (inner.layout length' (l.dropWhile Token.isTrivia)).rest =
          rest.tokens ++ r :=
        significant_rest hsignificant
      have hinside := ih hsignificant (hinner.imp_right And.right)
      have hbehind := ih' hrest (hy.imp_right And.right)
      rw [hdrop, List.cons_append] at hinside
      rw [hdrop] at hbehind
      simp [layout, htake, hdrop, hmore, hinside, hbehind]

/-- A layout over the same tokens `n` bytes further on. -/
lemma layout_shift (n : Nat) (y : Yield) (l : List Token) :
    (y.shift n).layout (length + n) (l.map (Token.shift n)) =
      ⟨(y.layout length l).parts, (y.layout length l).diagnostics.map (Diagnostic.shift n),
        (y.layout length l).rest.map (Token.shift n)⟩ := by
  have htree : Token.tree ∘ Token.shift n = Token.tree := rfl
  have htrivia : Token.isTrivia ∘ Token.shift n = Token.isTrivia := rfl
  have hdiagnostic : ∀ (f : Fault) (l : List Token),
      Tree.Builder.diagnosticBefore (length + n) f (l.map (Token.shift n)) =
        (Tree.Builder.diagnosticBefore length f l).shift n := by
    intro f l
    cases l <;> rfl
  induction y generalizing l with
  | nil => rfl
  | token t rest ih =>
      simp only [shift, layout, List.takeWhile_map, List.dropWhile_map, htrivia]
      rw [← List.map_drop, ih, ← List.map_take, ← List.map_append, List.map_map, htree]
  | fault f rest ih =>
      simp only [shift, layout, List.takeWhile_map, List.dropWhile_map, htrivia]
      rw [ih, List.map_map, htree, hdiagnostic, List.map_cons]
  | node kind inner rest ih ih' =>
      simp only [shift, layout, List.takeWhile_map, List.dropWhile_map, htrivia]
      rw [ih, ih', List.map_map, htree, List.map_append]

/-- What is laid out behind a yield that ends with a token is laid out as if it stood alone. -/
lemma layout_sheets (length length' n : Nat) (z : Yield) (l' : List Token)
    (h : significant l = y.tokens) (hy : y.Tight) :
    ((y ++ z.shift n).layout (length' + n) (l ++ l'.map (Token.shift n))).parts ++
        ((y ++ z.shift n).layout (length' + n) (l ++ l'.map (Token.shift n))).rest.map Token.tree =
      (y.layout length l).parts ++ (y.layout length l).rest.map Token.tree ++
        ((z.layout length' l').parts ++ (z.layout length' l').rest.map Token.tree) ∧
    ((y ++ z.shift n).layout (length' + n) (l ++ l'.map (Token.shift n))).diagnostics =
      (y.layout length l).diagnostics ++ (z.layout length' l').diagnostics.map
        (Diagnostic.shift n) := by
  rw [← List.append_nil y.tokens] at h
  have hfirst : y.layout (length' + n) (l ++ l'.map (Token.shift n)) =
      { y.layout length l with rest := (y.layout length l).rest ++ l'.map (Token.shift n) } :=
    layout_more h (.inr hy)
  -- No significant token of the first yield is left.
  have htrivia : ∀ t ∈ (y.layout length l).rest, t.isTrivia = true := by
    have hrest : significant (y.layout length l).rest = [] := significant_rest h
    simpa [significant] using hrest
  obtain ⟨hparts, hdiagnostics⟩ :=
    layout_trivia (length' + n) (z.shift n) (l'.map (Token.shift n)) htrivia
  have htree : Token.tree ∘ Token.shift n = Token.tree := rfl
  rw [layout_append, hfirst]
  dsimp only
  rw [List.append_assoc, hparts, hdiagnostics, layout_shift, List.map_map, htree, List.append_assoc]
  exact ⟨rfl, rfl⟩

end Yield

/-! ## The nodes of a root -/

/-- Whether the last child node is a rule set with a block that ends with a closing brace. -/
def Site.endsWithBlock (s : Site) : Bool :=
  s.children.getLast?.any fun ruleset => ruleset.kind == .ruleset &&
    (ruleset.childrenOf .declarations).any fun block =>
      block.here.children.getLast?.any fun part => part.kind == .token .rightBrace

namespace Tree

lemma getLast?_bareOf {cs : List Tree} {c : Tree} (h : cs.getLast? = some c)
    (hc : c.isTrivia = false) : (bareOf cs).getLast? = some c.bare := by
  obtain ⟨front, rfl⟩ := List.getLast?_eq_some_iff.1 h
  rw [bareOf_eq, List.filter_append, List.map_append]
  simp [hc]

end Tree

namespace Site

variable {s : Site} {kind : NodeKind} {y : Yield}

lemma endsWithBlock_of_bare (h : s.tree.bare = .node kind y.trees) (hs : s.endsWithBlock = true) :
    y.EndsWithBlock := by
  obtain ⟨ruleset, hlast, hruleset⟩ := (Option.any_eq_true _ _).1 hs
  rw [Bool.and_eq_true, beq_iff_eq] at hruleset
  obtain ⟨hkind, hblocks⟩ := hruleset
  obtain ⟨block, hmem, hbrace⟩ := List.any_eq_true.1 hblocks
  rw [childrenOf, List.mem_filter, beq_iff_eq] at hmem
  obtain ⟨part, hpart, hpartKind⟩ := (Option.any_eq_true _ _).1 hbrace
  -- The rule set is the last node of the yield.
  have hbranch : (y.branches.map fun b => Tree.node b.1 b.2.trees).getLast? =
      some ruleset.tree.bare := by
    rw [← bare_children h, List.getLast?_map, hlast]
    rfl
  rw [List.getLast?_map] at hbranch
  obtain ⟨⟨kind₁, z⟩, hz, hruleset⟩ := Option.map_eq_some_iff.1 hbranch
  obtain rfl := kind_of_bare hruleset.symm
  -- The block is one of its nodes.
  have hinner := List.mem_map_of_mem (f := fun c => c.tree.bare) hmem.1
  rw [bare_children hruleset.symm] at hinner
  obtain ⟨⟨kind₂, u⟩, hu, hblock⟩ := List.mem_map.1 hinner
  obtain rfl := kind_of_bare hblock.symm
  rw [hkind] at hz
  rw [hmem.2] at hu
  cases part with
  | leaf kind text =>
      obtain rfl : kind = .rightBrace := by simpa [Tree.kind] using hpartKind
      refine ⟨z, u, text, hz, hu, ?_⟩
      rw [← bareOf_children hblock.symm]
      exact Tree.getLast?_bareOf hpart rfl
  | node kind cs => simp [Tree.kind] at hpartKind

end Site

/-! ## Sources -/

lemma Token.Ordered.shift {lo hi : Nat} {l : List Token} (n : Nat) (h : Ordered lo l hi) :
    Ordered (lo + n) (l.map (Token.shift n)) (hi + n) := by
  induction l generalizing lo with
  | nil => exact Nat.add_le_add_right h n
  | cons t l ih => exact ⟨Nat.add_le_add_right h.1 n, Nat.add_lt_add_right h.2.1 n, ih h.2.2⟩

lemma Token.significant_shift (n : Nat) (l : List Token) :
    significant (l.map (Token.shift n)) = (significant l).map (Token.shift n) :=
  List.filter_map

/-- A sheet is read by the loop over its statements, up to the end. -/
lemma exists_rounds_parse (d : Dialect) (source : Text) :
    ∃ depth m y s,
      Rule.Reads d (Grammar.Yields d depth) (.rule (.many Grammar.stylesheetRound))
        (.ofSource d source) m y s ∧
      s.ahead = [] ∧ (parse d .stylesheet source).root.tree.bare = .node .stylesheet y.trees ∧
      let tokens := (readSource d .stylesheet source).tokens.toList
      significant tokens = y.tokens ∧
      (parse d .stylesheet source).root = .ofNode .stylesheet
        ((y.layout source.length tokens).parts ++
          (y.layout source.length tokens).rest.map Token.tree) ∧
      (parse d .stylesheet source).diagnostics = (y.layout source.length tokens).diagnostics := by
  obtain ⟨kind, y, s, hreads, htokens, hroot, hdiagnostics, -⟩ :=
    exists_layout_parse d .stylesheet source
  obtain ⟨kind', y', s', hreads', hbare, -⟩ := exists_yield_parse d .stylesheet source
  obtain ⟨-, hsame, rfl⟩ := Grammar.reads_unique (hreads _ (le_refl _)) (hreads' _ (le_refl _))
  cases hsame
  have hyields := Rule.reads_call.1 (hreads _ (le_refl _))
  have hahead :=
    Grammar.ahead_of_stylesheet (Spot.sound_ofTokens (read_row d source) none _) hyields
  obtain ⟨depth, hrule⟩ := Grammar.reads_of_yields hyields
  rw [Grammar.rule_stylesheet, Rule.reads_group] at hrule
  obtain ⟨-, m, z, hrounds, hnode⟩ := hrule
  cases hnode
  rw [hahead, Yield.row, Yield.append_nil] at hbare
  rw [hahead, List.append_nil] at htokens
  exact ⟨depth, m, y, s, hrounds, hahead, hbare, htokens, hroot, hdiagnostics⟩

/-- The tokens in the end of two sheets, one behind the other. -/
lemma tokens_readSource_append {d : Dialect} {A B : Text} {y z : Yield}
    (htokens : read d (A ++ B) = read d A ++ (read d B).map (Token.shift A.length))
    (hA : significant (readSource d .stylesheet A).tokens.toList = y.tokens)
    (hB : significant (readSource d .stylesheet B).tokens.toList = z.tokens)
    (hAB : significant (readSource d .stylesheet (A ++ B)).tokens.toList =
      (y ++ z.shift A.length).tokens) :
    (readSource d .stylesheet (A ++ B)).tokens.toList =
      (readSource d .stylesheet A).tokens.toList ++
        (readSource d .stylesheet B).tokens.toList.map (Token.shift A.length) := by
  have hhistory := fun source => (Entry.consistent_readSource d .stylesheet source).history
  have hordered := fun source => ((hhistory source).row (read_row d source)).ordered
  have htrivia := fun source => (hhistory source).filter_isTrivia (read_row d source)
  have hwhole : Ordered 0 ((readSource d .stylesheet A).tokens.toList ++
      (readSource d .stylesheet B).tokens.toList.map (Token.shift A.length))
      (B.length + A.length) := by
    have hshift := (hordered B).shift A.length
    rw [Nat.zero_add] at hshift
    exact ordered_append.2 ⟨A.length, hordered A, hshift⟩
  have hfilter : ∀ l : List Token, (l.map (Token.shift A.length)).filter Token.isTrivia =
      (l.filter Token.isTrivia).map (Token.shift A.length) := fun l => List.filter_map
  refine (hordered (A ++ B)).eq_of_significant hwhole ?_ ?_
  · rw [htrivia, htokens, List.filter_append, List.filter_append, hfilter, hfilter,
      htrivia, htrivia]
  · rw [hAB, significant_append, hA, significant_shift, hB, Yield.tokens_append, Yield.tokens_shift]

/-- The length of the source stays the same, and the token taken last is the last one of the
yield. -/
lemma Rule.tracks_last (d : Dialect) :
    Tracks d fun s y s' => s'.length = s.length ∧ s'.last = y.tokens.getLast?.or s.last where
  nil s := by simp
  append s s' s'' y z h h' := by
    rw [h'.1, h'.2, h.1, h.2, Yield.tokens_append, List.getLast?_append, Option.or_assoc]
    exact ⟨rfl, rfl⟩
  take s := by
    cases hahead : s.ahead with
    | nil => simp [Spot.next_of_nil hahead, Spot.taken_of_nil hahead]
    | cons t rest => simp [Spot.next_of_cons hahead, Spot.taken_of_cons hahead, Yield.tokens]
  fault s f := by simp [Yield.tokens]
  cut s := by simp [Spot.cut]
  node s s' kind y h := by simpa [Yield.tokens] using h

namespace Grammar

open Rule

/-- Two sheets, one behind the other, yield what each of them yields alone. -/
lemma rounds_append {A B : Text} {depth depth' depth'' : Nat} {m m' m'' : Bool} {y z w : Yield}
    {s s' s'' : Spot} (htokens : readSignificant .css (A ++ B) =
      readSignificant .css A ++ (readSignificant .css B).map (Token.shift A.length))
    (hbrace : ∀ t ∈ (readSignificant .css A).getLast?, t.kind = .rightBrace) (hy : y.EndsWithBlock)
    (hA : Reads .css (Yields .css depth) (.rule (many stylesheetRound)) (.ofSource .css A) m y s)
    (hs : s.ahead = [])
    (hB : Reads .css (Yields .css depth') (.rule (many stylesheetRound)) (.ofSource .css B) m' z s')
    (hAB : Reads .css (Yields .css depth'') (.rule (many stylesheetRound))
      (.ofSource .css (A ++ B)) m'' w s'') :
    w = y ++ z.shift A.length ∧ y.Tight := by
  have hsound : (Spot.ofSource .css (A ++ B)).Sound :=
    Spot.sound_ofTokens (read_row .css (A ++ B)) none _
  have hstart : (Spot.ofSource .css A).IsFront ((readSignificant .css B).map (Token.shift A.length))
      (.ofSource .css (A ++ B)) :=
    ⟨rfl, htokens, hbrace, hsound⟩
  obtain ⟨x, t, rfl, hfront, hrest, hne, htight⟩ := reads_front hA hstart hAB hy
  have htracks : ∀ {depth r s m y s'}, Reads .css (Yields .css depth) (.rule r) s m y s' →
      s'.length = s.length ∧ s'.last = y.tokens.getLast?.or s.last :=
    fun h => h.reaches (tracks_last .css) fun _ _ _ _ _ h => yields_reaches (tracks_last .css) h
  -- The second sheet begins behind the last token of the first one.
  obtain ⟨l, hl⟩ : ∃ l, s.last = some l := by
    rw [(htracks hA).2, List.getLast?_eq_some_getLast hne]
    exact ⟨_, rfl⟩
  have hlength : t.length = (A ++ B).length := (htracks hrest).1.symm.trans (htracks hAB).1
  have ht : t = (Spot.ofSource .css B).behind l A.length := by
    obtain ⟨last, ahead, length⟩ := t
    cases hfront.last.trans hl
    cases hfront.ahead
    cases hlength
    simp [Spot.behind, Spot.ofSource, hs, Nat.add_comm]
  rw [ht] at hrest
  obtain ⟨-, rfl, -⟩ := reads_unique hrest (rounds_behind l A.length rfl hB)
  exact ⟨rfl, htight⟩

end Grammar

/-- If a sheet of CSS ends with a closed block, then another sheet behind it is read as if it stood
alone. -/
theorem append_after_block {A B : Text}
    (htokens : read .css (A ++ B) = read .css A ++ (read .css B).map (Token.shift A.length))
    (hblock : (parse .css .stylesheet A).root.endsWithBlock = true)
    (hbrace : (readSignificant .css A).getLast?.map Token.kind = some .rightBrace) :
    (parse .css .stylesheet (A ++ B)).root = .ofNode .stylesheet
        ((parse .css .stylesheet A).root.here.children ++
          (parse .css .stylesheet B).root.here.children) ∧
      (parse .css .stylesheet (A ++ B)).diagnostics =
        (parse .css .stylesheet A).diagnostics ++
          (parse .css .stylesheet B).diagnostics.map (Diagnostic.shift A.length) := by
  obtain ⟨_, _, y, s, hA, hs, hbare, htokensA, hrootA, hdiagnosticsA⟩ := exists_rounds_parse .css A
  obtain ⟨_, _, z, _, hB, -, -, htokensB, hrootB, hdiagnosticsB⟩ := exists_rounds_parse .css B
  obtain ⟨_, _, w, _, hAB, -, -, htokensAB, hrootAB, hdiagnosticsAB⟩ :=
    exists_rounds_parse .css (A ++ B)
  have hsignificant : readSignificant .css (A ++ B) =
      readSignificant .css A ++ (readSignificant .css B).map (Token.shift A.length) := by
    rw [readSignificant, htokens, significant_append, significant_shift]
    rfl
  have hends : ∀ t ∈ (readSignificant .css A).getLast?, t.kind = .rightBrace := by
    intro t ht
    rw [ht] at hbrace
    exact Option.some_inj.1 hbrace
  obtain ⟨rfl, htight⟩ :=
    Grammar.rounds_append hsignificant hends (Site.endsWithBlock_of_bare hbare hblock) hA hs hB hAB
  have hwhole := tokens_readSource_append htokens htokensA htokensB htokensAB
  obtain ⟨hparts, hdiagnostics⟩ := Yield.layout_sheets A.length B.length A.length z
    (readSource .css .stylesheet B).tokens.toList htokensA htight
  rw [hrootAB, hrootA, hrootB, hdiagnosticsAB, hdiagnosticsA, hdiagnosticsB, hwhole,
    List.length_append, Nat.add_comm]
  exact ⟨congrArg _ hparts, hdiagnostics⟩

/-- An unknown at-rule whose block is given up and a declaration without a value, and directly
behind them a range of code points as a selector and a block that is not closed. -/
theorem append_after_block_broken :
    read .css (Text.ofString "@x\x7ba;\x7db\x7bc\x7d" ++ Text.ofString "u+a\x7bd") =
        read .css (Text.ofString "@x\x7ba;\x7db\x7bc\x7d") ++
          (read .css (Text.ofString "u+a\x7bd")).map
            (Token.shift (Text.ofString "@x\x7ba;\x7db\x7bc\x7d").length) ∧
      (parse .css .stylesheet (Text.ofString "@x\x7ba;\x7db\x7bc\x7d")).root.endsWithBlock = true ∧
      (readSignificant .css (Text.ofString "@x\x7ba;\x7db\x7bc\x7d")).getLast?.map Token.kind =
        some .rightBrace ∧
      (parse .css .stylesheet
        (Text.ofString "@x\x7ba;\x7db\x7bc\x7d" ++ Text.ofString "u+a\x7bd")).root =
        .ofNode .stylesheet
          ((parse .css .stylesheet (Text.ofString "@x\x7ba;\x7db\x7bc\x7d")).root.here.children ++
          (parse .css .stylesheet (Text.ofString "u+a\x7bd")).root.here.children) ∧
      (parse .css .stylesheet
        (Text.ofString "@x\x7ba;\x7db\x7bc\x7d" ++ Text.ofString "u+a\x7bd")).diagnostics =
        (parse .css .stylesheet (Text.ofString "@x\x7ba;\x7db\x7bc\x7d")).diagnostics ++
          (parse .css .stylesheet (Text.ofString "u+a\x7bd")).diagnostics.map
            (Diagnostic.shift (Text.ofString "@x\x7ba;\x7db\x7bc\x7d").length) := by
  have htokens : read .css (Text.ofString "@x\x7ba;\x7db\x7bc\x7d" ++ Text.ofString "u+a\x7bd") =
      read .css (Text.ofString "@x\x7ba;\x7db\x7bc\x7d") ++
        (read .css (Text.ofString "u+a\x7bd")).map
        (Token.shift (Text.ofString "@x\x7ba;\x7db\x7bc\x7d").length) := by
    decide +kernel
  have hblock :
      (parse .css .stylesheet (Text.ofString "@x\x7ba;\x7db\x7bc\x7d")).root.endsWithBlock =
        true := by
    decide +kernel
  have hbrace :
      (readSignificant .css (Text.ofString "@x\x7ba;\x7db\x7bc\x7d")).getLast?.map Token.kind =
      some .rightBrace := by
    decide +kernel
  exact ⟨htokens, hblock, hbrace, append_after_block htokens hblock hbrace⟩

end StyleSheet
