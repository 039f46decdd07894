import Mathlib
import StyleSheet.Proofs.Grammar.Closing
import StyleSheet.Proofs.Shape

/-!
# Braces of a source without faults

If a source is read without a fault, its braces are paired (`clean_parse_pairs_braces`): no brace
closes what is not open, and all groups are closed in the end. There are three exceptions, in which
a brace goes unnoticed (`clean_parse_misses_braces`):

* The prelude of an unknown at-rule may be cut off inside of a group by the end of the input.
* In LESS and SCSS, a namespace in an attribute selector may start with an interpolated value. Its
  opening brace is taken for a name and stays open.
* In SCSS, one token behind the interpolated name of a query function is taken for its parenthesis.
  This may be a brace.

The theorem excludes them by what they leave in the tree: a brace that is a direct part of an
attribute selector or a function, and a prelude in which not as many braces are closed as opened.
-/

namespace StyleSheet

open Rule Braces Token

/-! ## From nodes to yields -/

namespace Yield

variable {d : Dialect} {y : Yield}

lemma tidy_of_nodes {direct : Bool}
    (hdirect : direct = true → ∀ t ∈ y.direct, t.kind.isBrace = false)
    (hnodes : ∀ n ∈ y.nodes, n.1.isRash d = true → ∀ t ∈ n.2.direct, t.kind.isBrace = false) :
    y.Tidy d direct := by
  induction y generalizing direct with
  | nil => trivial
  | token t rest ih =>
      refine ⟨fun h => hdirect h t (by simp [Yield.direct]), ih (fun h u hu => ?_) hnodes⟩
      exact hdirect h u (by simp [Yield.direct, hu])
  | fault f rest ih => exact ih hdirect fun n hn => hnodes n (by simp [Yield.nodes, hn])
  | node kind inner rest ih ih' =>
      refine ⟨ih (fun h => hnodes (kind, inner) (by simp [Yield.nodes]) h) fun n hn => ?_,
        ih' hdirect fun n hn => ?_⟩
      · exact hnodes n (by simp [Yield.nodes, hn])
      · exact hnodes n (by simp [Yield.nodes, hn])

lemma even_of_nodes (h : ∀ n ∈ y.nodes, n.1 = .atRulePrelude →
    n.2.braces.countP TokenKind.opensBrace = n.2.braces.count .rightBrace) : y.Even := by
  induction y with
  | nil => trivial
  | token t rest ih => exact ih h
  | fault f rest ih => exact ih fun n hn => h n (by simp [Yield.nodes, hn])
  | node kind inner rest ih ih' =>
      refine ⟨fun hkind => ?_, ih fun n hn => ?_, ih' fun n hn => ?_⟩
      · exact h (kind, inner) (by simp [Yield.nodes]) (NodeKind.isPrelude_eq_true.1 hkind)
      · exact h n (by simp [Yield.nodes, hn])
      · exact h n (by simp [Yield.nodes, hn])

end Yield

/-! ## Whole style sheets -/

/-- Reading a style sheet comes to the end of the input. -/
lemma Grammar.ahead_of_stylesheet {d : Dialect} {depth : Nat} {s s' : Spot} {m : Bool} {y : Yield}
    (hs : s.Sound) (h : Yields d depth .stylesheet s m y s') : s'.ahead = [] := by
  have hs' := (passes_of_yields hs h).sound
  obtain ⟨depth', h⟩ := reads_of_yields h
  obtain ⟨-, _, z, h, -⟩ := reads_group.1 h
  have haccepts : (choose (·.isAny [.markupOpen, .markupClose, .semicolon]) take <|
      seq (call .statement) fun matched =>
        (if matched then endOfStatement
          else report .ruleOrSelectorExpected >> call .balanced) >> accept).Accepts := by simp
  exact hs'.kind_eq_end.1 (is_eq_true.1 (reads_until haccepts h))

lemma TokenKind.countP_filter_isBrace (row : List TokenKind) :
    (row.filter isBrace).countP opensBrace = row.countP opensBrace := by
  rw [List.countP_filter]
  refine List.countP_congr fun kind _ => ?_
  cases kind <;> simp [opensBrace, isBrace]

lemma TokenKind.count_filter_isBrace (row : List TokenKind) :
    (row.filter isBrace).count .rightBrace = row.count .rightBrace :=
  List.count_filter rfl

/-- The braces among the leaves of a node are those of its yield. -/
lemma Site.braces_of_bare {s : Site} {kind : NodeKind} {y : Yield}
    (h : s.tree.bare = .node kind y.trees) :
    (s.tree.leaves.map Leaf.kind).filter TokenKind.isBrace = y.braces := by
  have htrivia : ∀ l : Leaf, l.kind.isBrace = true → l.kind.isTrivia = false := by
    rintro ⟨k, t⟩ hk
    cases k <;> first | rfl | cases hk
  have hleaves : (s.tree.leaves.filter (!·.kind.isTrivia)).filter (·.kind.isBrace) =
      s.tree.leaves.filter (·.kind.isBrace) := by
    rw [List.filter_filter]
    refine List.filter_congr fun l _ => ?_
    cases hk : l.kind.isBrace with
    | true => simp [htrivia l hk]
    | false => rfl
  rw [List.filter_map]
  refine (congrArg (List.map Leaf.kind) hleaves).symm.trans ?_
  rw [leaves_of_bare h, Yield.braces, Token.braces, List.filter_map, List.filter_map, List.map_map]
  rfl

/-- If a style sheet is read without a fault, no prefix of its significant tokens closes more braces
than it opens, and in the end all braces are closed. Excepted are sources with a brace directly in a
node that may take one for another token, and for the end also those with an open group in the
prelude of an unknown at-rule. -/
theorem clean_parse_pairs_braces (d : Dialect) (source : Text)
    (hclean : (parse d .stylesheet source).diagnostics = [])
    (htidy : ∀ s ∈ (parse d .stylesheet source).root.descendants, s.kind.isRash d = true →
      ∀ l ∈ s.tokens, l.kind.isBrace = false) :
    (∀ front, front <+: (readSignificant d source).map Token.kind →
      front.count .rightBrace ≤ front.countP TokenKind.opensBrace) ∧
    ((∀ s ∈ (parse d .stylesheet source).root.descendants, s.kind = .atRulePrelude →
        (s.tree.leaves.map Leaf.kind).countP TokenKind.opensBrace =
          (s.tree.leaves.map Leaf.kind).count .rightBrace) →
      ((readSignificant d source).map Token.kind).countP TokenKind.opensBrace =
        ((readSignificant d source).map Token.kind).count .rightBrace) := by
  obtain ⟨kind, y, s, hreads, hbare, hfaults⟩ := exists_yield_parse d .stylesheet source
  have hyields := reads_call.1 (hreads _ (le_refl _))
  have hs : (Spot.ofSource d source).Sound := Spot.sound_ofTokens (read_row d source) none _
  have hpasses := Grammar.passes_of_yields hs hyields
  have hahead := Grammar.ahead_of_stylesheet hs hyields
  have hbraces : ((readSignificant d source).map Token.kind).filter TokenKind.isBrace =
      y.braces := by
    have := hpasses.braces
    rw [hahead, Yield.braces_node, Token.braces_nil, List.append_nil] at this
    exact this
  rw [hahead, Yield.row, Yield.append_nil] at hbare
  have hfair : (Yield.node kind y .nil).Fair d true false := by
    refine fun _ => ⟨?_, Yield.tidy_of_nodes (by simp) fun n hn hrash t ht => ?_⟩
    · rw [hclean] at hfaults
      simp [Yield.faults, ← hfaults]
    · obtain ⟨s', hs', hnode⟩ := Site.exists_of_mem_nodes hbare hn
      have hmem : t.leaf ∈ s'.significantTokens := by
        rw [Site.significantTokens_of_bare hnode]
        exact List.mem_map_of_mem ht
      exact htidy s' hs' (by rwa [Site.kind_of_bare hnode]) t.leaf (List.mem_of_mem_filter hmem)
  obtain ⟨count, hclimb, hcount, -⟩ :=
    Grammar.balances_yields (by simp) _ _ _ _ _ _ hyields hs trivial (by simp) hfair
  rw [Yield.braces_node, ← hbraces, climb_filter] at hclimb
  obtain ⟨hfront, hall⟩ := climb_eq_some_iff.1 hclimb
  refine ⟨by simpa using hfront, fun hpreludes => ?_⟩
  have heven : (Yield.node kind y .nil).Even := Yield.even_of_nodes fun n hn hkind => by
    obtain ⟨s', hs', hnode⟩ := Site.exists_of_mem_nodes hbare hn
    have hcounts := hpreludes s' hs' ((Site.kind_of_bare hnode).trans hkind)
    rw [← TokenKind.countP_filter_isBrace, ← TokenKind.count_filter_isBrace,
      Site.braces_of_bare hnode] at hcounts
    exact hcounts
  have hzero : count = 0 := (hcount rfl heven).resolve_right fun h => by cases h.1
  rw [hzero] at hall
  simpa using hall

/-- Braces of all kinds, in a source with a function, an attribute with a namespace and a
prelude. -/
theorem clean_parse_pairs_braces_nested :
    let source := (Text.ofString "a[b|c]#\x7bd\x7d\x7be:f(#\x7bg\x7d)\x7d@x #\x7by\x7d\x7b\x7d")
    (parse .scss .stylesheet source).diagnostics = [] ∧
      (∀ front, front <+: (readSignificant .scss source).map Token.kind →
        front.count .rightBrace ≤ front.countP TokenKind.opensBrace) ∧
      ((readSignificant .scss source).map Token.kind).countP TokenKind.opensBrace =
        ((readSignificant .scss source).map Token.kind).count .rightBrace := by
  have hclean : (parse .scss .stylesheet
      (Text.ofString "a[b|c]#\x7bd\x7d\x7be:f(#\x7bg\x7d)\x7d@x #\x7by\x7d\x7b\x7d")).diagnostics =
      [] := by
    decide +kernel
  have hpairs := clean_parse_pairs_braces .scss _ hclean (by decide +kernel)
  exact ⟨hclean, hpairs.1, hpairs.2 (by decide +kernel)⟩

/-- Sources that are read without a fault although a brace stays open or closes nothing: a prelude
that is cut off, a namespace that starts with an interpolated value, and a query function with an
interpolated name. -/
theorem clean_parse_misses_braces :
    ((parse .css .stylesheet (Text.ofString "@x #\x7b")).diagnostics = [] ∧
      (readSignificant .css (Text.ofString "@x #\x7b")).map Token.kind = [.atKeyword, .hashBrace]) ∧
    ((parse .less .stylesheet (Text.ofString "a[@\x7b|b]\x7b\x7d")).diagnostics = [] ∧
      (readSignificant .less (Text.ofString "a[@\x7b|b]\x7b\x7d")).map Token.kind =
        [.ident, .leftBracket, .atBrace, .pipe, .ident, .rightBracket, .leftBrace, .rightBrace]) ∧
    (parse .scss .stylesheet (Text.ofString "@media #\x7b(a)\x7d\x7d b:c) \x7b\x7d")).diagnostics =
      [] ∧
      (readSignificant .scss (Text.ofString "@media #\x7b(a)\x7d\x7d b:c) \x7b\x7d")).map
        Token.kind =
        [.atKeyword, .hashBrace, .leftParen, .ident, .rightParen, .rightBrace, .rightBrace,
          .ident, .colon, .ident, .rightParen, .leftBrace, .rightBrace] := by
  decide +kernel

end StyleSheet
