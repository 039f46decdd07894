import Mathlib
import StyleSheet.Proofs.Fragments
import StyleSheet.Proofs.Grammar.Tandem

/-!
# A sheet with more behind it

A sheet ends with a rule set whose block is closed. If more tokens follow, the sheet is read the
same, and then the loop of statements goes on behind the closing brace (`reads_front`). Each round
but the last one does not reach the end, so that it keeps pace with itself. The last round reads the
rule set: its selectors end before the block, the block is closed, and behind a closing brace no
semicolon is asked for.
-/

namespace StyleSheet

open Braces Token

namespace Yield

variable {y z : Yield}

lemma branches_eq_nil : y.branches = [] ↔ y.kids = [] := by
  induction y with
  | nil => simp [branches]
  | token t rest ih => exact ih
  | fault f rest => simp [branches, kids]
  | node kind inner rest => simp [branches, kids]

/-- The last node is a rule set with a block that ends with a closing brace. -/
def EndsWithBlock (y : Yield) : Prop :=
  ∃ z u text, y.branches.getLast? = some (.ruleset, z) ∧ (.declarations, u) ∈ z.branches ∧
    u.trees.getLast? = some (.leaf .rightBrace text)

/-- Tokens behind the last node do not matter. -/
lemma endsWithBlock_append_of_kids (hz : z.kids = []) :
    (y ++ z).EndsWithBlock ↔ y.EndsWithBlock := by
  rw [EndsWithBlock, EndsWithBlock, branches_append, branches_eq_nil.2 hz, List.append_nil]

/-- Nodes before the last one do not matter. -/
lemma endsWithBlock_append (hz : z.kids ≠ []) : (y ++ z).EndsWithBlock ↔ z.EndsWithBlock := by
  rw [EndsWithBlock, EndsWithBlock, branches_append,
    List.getLast?_append_of_ne_nil _ (branches_eq_nil.not.2 hz)]

/-- An error behind the last rule set. -/
lemma not_endsWithBlock_of_fault (f : Fault) (hz : z.kids = []) :
    ¬ (y ++ .fault f z).EndsWithBlock := by
  rw [endsWithBlock_append (by simp [kids])]
  rintro ⟨w, u, text, hlast, -⟩
  rw [branches, branches_eq_nil.2 hz] at hlast
  cases hlast

/-- Nothing stands behind the last token, but for the ends of nodes. -/
def Tight : Yield → Prop
  | nil => True
  | token _ rest => rest.Tight
  | fault _ rest => rest.tokens ≠ [] ∧ rest.Tight
  | node _ inner rest => (rest.tokens ≠ [] ∨ inner.tokens ≠ [] ∧ inner.Tight) ∧ rest.Tight

/-- What is before the last token does not matter. -/
lemma tight_append (hne : z.tokens ≠ []) (hz : z.Tight) : (y ++ z).Tight := by
  have hright : ∀ x : Yield, (x ++ z).tokens ≠ [] := fun x => by simp [hne]
  induction y with
  | nil => exact hz
  | token t rest ih => exact ih
  | fault f rest ih => exact ⟨hright rest, ih⟩
  | node kind inner rest _ ih => exact ⟨.inl (hright rest), ih⟩

end Yield

namespace Grammar

open Rule

section

variable {depth depth' : Nat} {more : List Token} {s s' t t' : Spot} {m m' nested : Bool}
  {y y' : Yield}

/-- An at-rule of CSS is one node, and no rule set. -/
lemma node_of_atRule (h : Yields .css depth (.atRule nested) s true y s') :
    ∃ kind z, kind ≠ .ruleset ∧ y = .node kind z .nil := by
  have hgroups : ∀ name, ∃ kind body, kind ≠ NodeKind.ruleset ∧
      (ruleFor? (cssAtRules .css nested ++ marginBoxRules nested) name).getD unknownAtRule =
      group kind body := by
    refine of_ruleFor? (P := fun r => ∃ kind body, kind ≠ NodeKind.ruleset ∧ r = group kind body) ?_
      ⟨_, _, by decide, rfl⟩
    rw [List.forall_mem_append]
    constructor
    · simp only [cssAtRules, List.forall_mem_cons, List.not_mem_nil, false_imp_iff,
        implies_true, and_true]
      exact ⟨⟨_, _, by decide, rfl⟩, ⟨_, _, by decide, rfl⟩, ⟨_, _, by decide, rfl⟩,
        ⟨_, _, by decide, rfl⟩, ⟨_, _, by decide, rfl⟩, ⟨_, _, by decide, rfl⟩,
        ⟨_, _, by decide, rfl⟩, ⟨_, _, by decide, rfl⟩, ⟨_, _, by decide, rfl⟩,
        ⟨_, _, by decide, rfl⟩, ⟨_, _, by decide, rfl⟩⟩
    · intro entry hentry
      obtain ⟨name, -, rfl⟩ := List.mem_map.1 hentry
      exact ⟨_, _, by decide, rfl⟩
  obtain ⟨depth, h⟩ := reads_of_yields h
  rw [rule, atRule, reads_when] at h
  split at h
  · obtain ⟨-, hdialect⟩ | ⟨y₁, s₁, y₂, hdialect, hrule, rfl⟩ := reads_or.1 h
    · obtain ⟨depth, hfail⟩ := reads_of_yields (reads_call.1 hdialect)
      cases (reads_done.1 hfail).1
    · obtain ⟨depth', hfail⟩ := reads_of_yields (reads_call.1 hdialect)
      obtain ⟨-, rfl, rfl⟩ := reads_done.1 hfail
      obtain ⟨kind, body, hkind, hgroup⟩ := hgroups (plainAtRuleName (s₁.view.text 0))
      rw [reads_look, hgroup] at hrule
      obtain ⟨-, _, z, -, rfl⟩ := reads_group.1 hrule
      exact ⟨kind, z, hkind, rfl⟩
  · cases h.1

/-- Behind a statement, nothing but a fault becomes a node. -/
lemma kids_of_endOfStatement (h : Reads .css (Yields .css depth) (.rule endOfStatement) s m y s') :
    y.kids = [] ∨ ∃ x f z, y = x ++ .fault f z ∧ z.kids = [] := by
  have htests : ∀ {a b : View → Bool} {m : Bool} {y : Yield} {s' : Spot},
      Reads .css (Yields .css depth) (.rule (test a ||| test b)) s m y s' → y = .nil := by
    intro a b m y s' h
    obtain ⟨-, h⟩ | ⟨y₁, s₁, y₂, h₁, h₂, rfl⟩ := reads_or.1 h
    · exact (reads_test.1 h).2.1
    · rw [(reads_test.1 h₁).2.1, (reads_test.1 h₂).2.1, Yield.append_nil]
  obtain ⟨-, hsoon⟩ | ⟨y₁, s₁, y₂, -, hskip, rfl⟩ := reads_or.1 h
  · left
    obtain ⟨-, h⟩ | ⟨y₁, s₁, y₂, h₁, hsemicolon, rfl⟩ := reads_or.1 hsoon
    · rw [htests h, Yield.kids_nil]
    · rw [reads_token] at hsemicolon
      split at hsemicolon <;> simp [htests h₁, hsemicolon.2.1]
  · obtain ⟨_, y₃, s₂, y₄, hreport, hresume, rfl⟩ := reads_then.1 hskip
    obtain ⟨-, rfl, -⟩ := reads_report.1 hreport
    exact .inr ⟨y₁, _, y₄, rfl, kids_of_resume hresume⟩

/-! ## The last round -/

/-- A block that ends with a closing brace. -/
lemma guarded_of_closed {item : BlockItem} {missing : Fault} {u : Yield} {text : Text}
    (hopens : s.view.kind 0 = .leftBrace) (hs : s.Sound)
    (h : Reads .css (Yields .css depth) (.rule (block item missing)) s m
      (.node .declarations u .nil) s')
    (hclosed : u.trees.getLast? = some (.leaf .rightBrace text)) :
    s.next.Guarded ∧ s'.view.last = some .rightBrace ∧ u.tokens ≠ [] ∧ u.Tight := by
  obtain ⟨m₁, y₁, y₂, s₁, -, -, hu, hclose⟩ := block_cases hopens hs h
  cases hu
  rcases hclose with ⟨hguard, hkind, rfl, rfl, -⟩ | ⟨-, rfl, -⟩
  · obtain ⟨t, rest, hahead₁⟩ :=
      List.exists_cons_of_ne_nil (Spot.ahead_ne_nil (s := s₁) (by simp [hkind]))
    rw [Spot.kind_view, hahead₁] at hkind
    rw [Spot.next_of_cons hahead₁, Spot.taken_of_cons hahead₁, ← Yield.append_assoc]
    have hne : (Yield.token t .nil).tokens ≠ [] := List.cons_ne_nil t []
    exact ⟨hguard, congrArg some hkind, by simp [hne], Yield.tight_append hne trivial⟩
  · -- A block that is not closed ends with an error.
    simp [Yield.trees] at hclosed

/-- A rule set is selectors and a body. -/
lemma ruleset_parts (h : Yields .css depth (.ruleset nested) s m y s') :
    ∃ depth y₁ s₁, Yields .css depth .selectors s m y₁ s₁ ∧
      if m then
        ∃ m₂ y₂, Reads .css (Yields .css depth) (.rule (body nested)) s₁ m₂ y₂ s' ∧
          y = .node .ruleset (y₁ ++ y₂) .nil
      else y = y₁ ∧ s' = s₁ := by
  obtain ⟨depth, h⟩ := reads_of_yields h
  obtain ⟨z, hinside, rfl⟩ := reads_node.1 h
  obtain ⟨rfl, hselectors⟩ | ⟨y₁, s₁, y₂, hselectors, hrest, rfl⟩ := reads_and.1 hinside
  · exact ⟨depth, z, s', reads_call.1 hselectors, rfl, rfl⟩
  · obtain ⟨_, y₃, s₂, y₄, hguard, hblock, rfl⟩ := reads_then.1 hrest
    obtain ⟨m₂, y₅, s₃, y₆, hbody, haccept, rfl⟩ := reads_then.1 hblock
    obtain ⟨rfl, rfl, rfl⟩ := reads_done.1 haccept
    rw [rulesetGuard, reads_when, if_neg (by simp)] at hguard
    obtain ⟨-, rfl, rfl⟩ := hguard
    refine ⟨depth, y₁, s₂, reads_call.1 hselectors, m₂, y₅, hbody, ?_⟩
    rw [Yield.nil_append, Yield.append_nil, if_pos rfl]

/-- A block in a body is all of it. -/
lemma block_of_body {u : Yield} (h : Reads .css (Yields .css depth) (.rule (body nested)) s m y s')
    (hblock : (.declarations, u) ∈ y.branches) :
    s.view.kind 0 = .leftBrace ∧ y = .node .declarations u .nil ∧
      Yields .css depth (.block .statement .ruleOrSelectorExpected) s true y s' := by
  obtain ⟨-, hreads⟩ | ⟨y₁, s₁, y₂, hnone, hskip, rfl⟩ := reads_or.1 h
  · rw [reads_call] at hreads
    obtain ⟨-, u, rfl⟩ | ⟨⟨⟩, -⟩ := yields_node rfl hreads
    obtain rfl : _ = u := by simpa [Yield.branches] using hblock
    refine ⟨?_, rfl, hreads⟩
    obtain ⟨depth, hreads⟩ := reads_of_yields hreads
    rw [rule, block_eq, reads_when] at hreads
    split at hreads
    · exact is_eq_true.1 (by assumption)
    · cases hreads.1
  · obtain ⟨⟨⟩, -⟩ | ⟨-, rfl⟩ := yields_node rfl (reads_call.1 hnone)
    obtain ⟨_, y₃, s₂, y₄, hreport, hresume, rfl⟩ := reads_then.1 hskip
    obtain ⟨-, rfl, -⟩ := reads_report.1 hreport
    have hrest := Yield.branches_eq_nil.2 (kids_of_resume hresume)
    simp [Yield.branches, hrest] at hblock

/-- A rule set with a closed block. -/
lemma sync_ruleset (hs : Yields .css depth (.ruleset false) s true y s') (hfront : s.IsFront more t)
    (ht : Yields .css depth' (.ruleset false) t m' y' t') (hy : y.EndsWithBlock) :
    m' = true ∧ y' = y ∧ s'.IsFront more t' ∧ s'.view.last = some .rightBrace ∧ y.tokens ≠ [] ∧
      y.Tight := by
  obtain ⟨depth, y₁, s₁, hselectors, m₂, y₂, hbody, rfl⟩ := ruleset_parts hs
  obtain ⟨depth', y₁', t₁, hselectors', hrest'⟩ := ruleset_parts ht
  obtain ⟨z, u, text, hlast, hmem, hclosed⟩ := hy
  cases hlast
  obtain ⟨-, w, rfl⟩ | ⟨⟨⟩, -⟩ := yields_node rfl hselectors
  replace hmem : (.declarations, u) ∈ y₂.branches := by simpa [Yield.branches] using hmem
  obtain ⟨hopens, rfl, hblock⟩ := block_of_body hbody hmem
  -- The selectors end before the block.
  have hahead : s₁.ahead ≠ [] := Spot.ahead_ne_nil (by simp [hopens])
  have hcoupled := coupled_yields more depth depth'
  have hpace := hcoupled.steady .selectors trivial s t _ _ _ _ _ _ hfront (reads_call.2 hselectors)
    (reads_call.2 hselectors')
  obtain ⟨rfl, rfl, hfront₁⟩ := hpace.resolve_right fun hended => hahead hended.1
  -- The block is closed.
  obtain ⟨depth₁, hreads⟩ := reads_of_yields hblock
  obtain ⟨hguard, hrightBrace, hne, htight⟩ :=
    guarded_of_closed hopens hfront₁.sound_left hreads hclosed
  have hblockTokens : (Yield.node .declarations u .nil).tokens ≠ [] := by
    simpa [Yield.tokens] using hne
  have hinner : (Yield.node .selectors w .nil ++ .node .declarations u .nil).Tight :=
    Yield.tight_append hblockTokens ⟨.inr ⟨hne, htight⟩, trivial⟩
  obtain ⟨m₂', y₂', hbody', rfl⟩ := hrest'
  have hsync := hcoupled.sealed .statement .ruleOrSelectorExpected s₁ hopens hguard t₁
  obtain ⟨-, hblock'⟩ | ⟨y₃, t₂, y₄, hblock', -⟩ := reads_or.1 hbody'
  · obtain ⟨-, rfl, hfront'⟩ := hsync _ _ _ _ _ _ hfront₁ (reads_call.2 hblock) hblock'
    refine ⟨rfl, rfl, hfront', hrightBrace, ?_, ⟨.inr ⟨?_, hinner⟩, trivial⟩⟩ <;>
      simp [Yield.tokens, hne]
  · obtain ⟨⟨⟩, -⟩ := hsync _ _ _ _ _ _ hfront₁ (reads_call.2 hblock) hblock'

/-! ## Rounds -/

/-- What a round does, by the token ahead. -/
lemma round_cases (h : Reads .css (Yields .css depth) (.rule stylesheetRound) s m y s') :
    (s.view.kind 0 = .endOfInput ∧ m = false ∧ y = .nil ∧ s' = s) ∨
      (s.view.kind 0 ∈ [.markupOpen, .markupClose, .semicolon] ∧ m = true ∧ y = s.taken ∧
        s' = s.next) ∨
      (s.view.kind 0 ∉ [.endOfInput, .markupOpen, .markupClose, .semicolon] ∧ m = true ∧
        ∃ m₁ m₂ y₁ y₂ s₁, Yields .css depth .statement s m₁ y₁ s₁ ∧ y = y₁ ++ y₂ ∧
          Reads .css (Yields .css depth) (.rule (if m₁ then endOfStatement
            else report .ruleOrSelectorExpected >> call .balanced)) s₁ m₂ y₂ s') := by
  rw [stylesheetRound, reads_choose] at h
  split at h
  · rename_i hend
    exact .inl ⟨is_eq_true.1 hend, reads_done.1 h⟩
  rename_i hend
  rw [reads_choose] at h
  split at h
  · rename_i hmark
    exact .inr (.inl ⟨isAny_eq_true.1 hmark, reads_take.1 h⟩)
  rename_i hmark
  obtain ⟨m₁, y₁, s₁, y₂, hstatement, hrest, rfl⟩ := reads_seq.1 h
  obtain ⟨m₂, y₃, s₂, y₄, hends, haccept, rfl⟩ := reads_then.1 hrest
  obtain ⟨rfl, rfl, rfl⟩ := reads_done.1 haccept
  rw [Yield.append_nil]
  refine .inr (.inr ⟨?_, rfl, m₁, m₂, y₁, y₃, s₁, reads_call.1 hstatement, rfl, hends⟩)
  simp only [is_eq_true, isAny_eq_true] at hend hmark
  exact List.not_mem_cons_of_ne_of_not_mem hend hmark

lemma statement_cases (h : Yields .css depth .statement s m y s') :
    if s.view.kind 0 = .atKeyword then ∃ depth, Yields .css depth (.atRule false) s m y s'
    else ∃ depth, Yields .css depth (.ruleset false) s m y s' := by
  obtain ⟨depth, h⟩ := reads_of_yields h
  rw [rule, statement, reads_choose] at h
  split at h
  · rename_i hat
    rw [if_pos (is_eq_true.1 hat)]
    exact ⟨depth, reads_call.1 h⟩
  · rename_i hat
    rw [if_neg fun hkind => hat (is_eq_true.2 hkind)]
    obtain ⟨-, hfail⟩ | ⟨y₁, s₁, y₂, hfail, hruleset, rfl⟩ := reads_or.1 h
    · cases (reads_done.1 hfail).1
    · obtain ⟨-, rfl, rfl⟩ := reads_done.1 hfail
      exact ⟨depth, reads_call.1 hruleset⟩

/-- A statement is one node. -/
lemma kids_of_statement (h : Yields .css depth .statement s true y s') : y.kids ≠ [] := by
  have hcases := statement_cases h
  split at hcases
  · obtain ⟨depth, hatRule⟩ := hcases
    obtain ⟨kind, z, -, rfl⟩ := node_of_atRule hatRule
    simp [Yield.kids]
  · obtain ⟨depth, hruleset⟩ := hcases
    obtain ⟨-, y₁, s₁, -, m₂, y₂, -, rfl⟩ := ruleset_parts hruleset
    simp [Yield.kids]

/-- A round that ends with a rule set begins with it. -/
lemma ruleset_of_round (h : Reads .css (Yields .css depth) (.rule stylesheetRound) s m y s')
    (hy : y.EndsWithBlock) :
    s.view.kind 0 ∉ [.endOfInput, .markupOpen, .markupClose, .semicolon] ∧
      s.view.kind 0 ≠ .atKeyword ∧
      ∃ depth₁ m₂ y₁ y₂ s₁, Yields .css depth₁ (.ruleset false) s true y₁ s₁ ∧ y = y₁ ++ y₂ ∧
      y₁.EndsWithBlock ∧
        Reads .css (Yields .css depth) (.rule endOfStatement) s₁ m₂ y₂ s' := by
  obtain ⟨-, -, rfl, -⟩ | ⟨-, -, rfl, -⟩ |
    ⟨hkind, rfl, m₁, m₂, y₁, y₂, s₁, hstatement, rfl, hends⟩ := round_cases h
  · obtain ⟨z, u, text, ⟨⟩, -⟩ := hy
  · rw [← Yield.nil_append s.taken, Yield.endsWithBlock_append_of_kids (Spot.kids_taken s)] at hy
    obtain ⟨z, u, text, ⟨⟩, -⟩ := hy
  cases m₁ with
  | false =>
      obtain ⟨_, y₃, s₂, y₄, hreport, hskip, rfl⟩ := reads_then.1 hends
      obtain ⟨-, rfl, rfl⟩ := reads_report.1 hreport
      exact absurd hy
        (Yield.not_endsWithBlock_of_fault _ (kids_of_yields_balanced (reads_call.1 hskip)))
  | true =>
      have hy₁ : y₁.EndsWithBlock := by
        rcases kids_of_endOfStatement hends with hkids | ⟨x, f, z, rfl, hkids⟩
        · rwa [Yield.endsWithBlock_append_of_kids hkids] at hy
        · rw [← Yield.append_assoc] at hy
          exact absurd hy (Yield.not_endsWithBlock_of_fault f hkids)
      have hcases := statement_cases hstatement
      split at hcases
      · obtain ⟨depth', hatRule⟩ := hcases
        obtain ⟨kind, z, hne, rfl⟩ := node_of_atRule hatRule
        obtain ⟨w, u, text, hlast, -⟩ := hy₁
        cases hlast
        exact absurd rfl hne
      · rename_i hat
        obtain ⟨depth₁, hruleset⟩ := hcases
        exact ⟨hkind, hat, depth₁, m₂, y₁, y₂, s₁, hruleset, rfl, hy₁, hends⟩

/-- Behind a closing brace, a statement has ended. -/
lemma reads_endOfStatement (hlast : s.view.last = some .rightBrace)
    (h : Reads .css (Yields .css depth) (.rule endOfStatement) s m y s') : y = .nil ∧ s' = s := by
  have hafter : s.view.afterBlockOrSemicolon = true := by simp [View.afterBlockOrSemicolon, hlast]
  have htest : Reads .css (Yields .css depth) (.rule endOfStatement) s true .nil s :=
    reads_or_left (reads_or_left (reads_or_left (reads_test.2 ⟨hafter.symm, rfl, rfl⟩)))
  exact (reads_unique h htest).2

/-- A round that ends with a closed block. -/
lemma sync_round (hs : Reads .css (Yields .css depth) (.rule stylesheetRound) s m y s')
    (hfront : s.IsFront more t)
    (ht : Reads .css (Yields .css depth') (.rule stylesheetRound) t m' y' t')
    (hy : y.EndsWithBlock) : m' = true ∧ y' = y ∧ s'.IsFront more t' ∧ y.tokens ≠ [] ∧ y.Tight := by
  obtain ⟨hkind, hat, depth₁, m₂, y₁, y₂, s₁, hruleset, rfl, hy₁, hends⟩ := ruleset_of_round hs hy
  have hahead : s.ahead ≠ [] := Spot.ahead_ne_nil fun hend => hkind (by simp [hend])
  have hsame : t.view.kind 0 = s.view.kind 0 := (hfront.agrees hahead).reach.2.1.1
  obtain ⟨hend, -⟩ | ⟨hmark, -⟩ | ⟨-, rfl, m₁', m₂', y₁', y₂', t₁, hstatement', rfl, hends'⟩ :=
    round_cases ht
  · exact absurd (List.mem_cons.2 (.inl (hsame.symm.trans hend))) hkind
  · rw [hsame] at hmark
    exact absurd (List.mem_cons_of_mem _ hmark) hkind
  have hcases := statement_cases hstatement'
  rw [hsame, if_neg hat] at hcases
  obtain ⟨depth', hruleset'⟩ := hcases
  obtain ⟨rfl, rfl, hfront₁, hlast, hne, htight⟩ := sync_ruleset hruleset hfront hruleset' hy₁
  have hlast' : t₁.view.last = some .rightBrace := by
    rw [← hlast]
    exact congrArg (Option.map kind) hfront₁.last
  obtain ⟨rfl, rfl⟩ := reads_endOfStatement hlast hends
  obtain ⟨rfl, rfl⟩ := reads_endOfStatement hlast' hends'
  rw [Yield.append_nil]
  exact ⟨rfl, rfl, hfront₁, hne, htight⟩

/-! ## The loop -/

lemma nearsighted_round (v : View) : Nearsighted stylesheetRound v := by
  simp [stylesheetRound, Nonterminal.IsSteady]

/-- If the last token is a closing brace, what is left of a sheet contains a node. -/
lemma kids_of_rounds (hs : s.Sound) (hends : ∀ u ∈ s.ahead.getLast?, u.kind = .rightBrace)
    (hne : s.ahead ≠ [])
    (h : Reads .css (Yields .css depth) (.rule (many stylesheetRound)) s m y s') : y.kids ≠ [] := by
  generalize hphase : Phase.rule (many stylesheetRound) = phase at h
  induction h with
  | @again body s s₁ s' y₁ y₂ h₁ h₂ _ ih =>
      cases hphase
      rw [Yield.kids_append]
      obtain ⟨-, ⟨⟩, -⟩ | ⟨hmark, -, rfl, rfl⟩ |
        ⟨-, -, m₁, m₂, z₁, z₂, s₂, hstatement, rfl, hrest⟩ := round_cases h₁
      · -- A mark is no closing brace, so that more tokens follow.
        obtain ⟨u, rest, hahead⟩ := List.exists_cons_of_ne_nil hne
        have hnext : s.next.ahead = rest := by rw [Spot.next_of_cons hahead]
        rw [hahead] at hends
        have hrest : rest ≠ [] := by
          rintro rfl
          rw [Spot.kind_view, hahead] at hmark
          simp [hends u rfl] at hmark
        refine List.append_ne_nil_of_right_ne_nil _ (ih hs.next ?_ ?_ rfl)
        · rw [hnext]
          exact Spot.IsFront.ends_tail hends
        · rwa [hnext]
      · cases m₁ with
        | true => simp [kids_of_statement hstatement]
        | false =>
            obtain ⟨_, y₃, s₃, y₄, hreport, -, rfl⟩ := reads_then.1 hrest
            obtain ⟨-, rfl, -⟩ := reads_report.1 hreport
            simp [Yield.kids]
  | stop h₁ _ =>
      cases hphase
      obtain ⟨hend, -⟩ | ⟨-, ⟨⟩, -⟩ | ⟨-, ⟨⟩, -⟩ := round_cases h₁
      exact absurd (hs.kind_eq_end.1 hend) hne
  | _ => cases hphase

/-- If a sheet ends with a rule set and more tokens follow, it is read the same, and then the loop
goes on. Its last token is the brace that closes the rule set. -/
theorem reads_front (hs : Reads .css (Yields .css depth) (.rule (many stylesheetRound)) s m y s')
    (hfront : s.IsFront more t)
    (ht : Reads .css (Yields .css depth') (.rule (many stylesheetRound)) t m' y' t')
    (hy : y.EndsWithBlock) :
    ∃ z t₁, y' = y ++ z ∧ s'.IsFront more t₁ ∧
      Reads .css (Yields .css depth') (.rule (many stylesheetRound)) t₁ m' z t' ∧ y.tokens ≠ [] ∧
      y.Tight := by
  generalize hphase : Phase.rule (many stylesheetRound) = phase at hs
  induction hs generalizing t m' y' t' with
  | @again body s s₁ s' y₁ y₂ h₁ h₂ _ ih =>
      cases hphase
      by_cases hnil : s₁.ahead = []
      · -- Nothing is left for further rounds, so this is the last one.
        have hstop :
            Reads .css (Yields .css depth) (.rule (many stylesheetRound)) s₁ true .nil s₁ :=
          .stop (reads_round_end hnil)
        obtain ⟨-, rfl, rfl⟩ := reads_unique h₂ hstop
        rw [Yield.append_nil] at hy ⊢
        cases ht with
        | again h₁' h₂' =>
            obtain ⟨-, rfl, hfront₁, hlast⟩ := sync_round h₁ hfront h₁' hy
            exact ⟨_, _, rfl, hfront₁, h₂', hlast⟩
        | stop h₁' => cases (sync_round h₁ hfront h₁' hy).1
      · have hpace :=
          tandem_nearsighted (coupled_yields more depth depth') (nearsighted_round s.view) t
        cases ht with
        | again h₁' h₂' =>
            obtain ⟨-, rfl, hfront₁⟩ :=
              (hpace _ _ _ _ _ _ hfront h₁ h₁').resolve_right fun hended => hnil hended.1
            rw [Yield.endsWithBlock_append
              (kids_of_rounds hfront₁.sound_left hfront₁.ends hnil h₂)] at hy
            obtain ⟨z, t₁, rfl, hfront', hgoes, hne, htight⟩ := ih hfront₁ h₂' hy rfl
            refine ⟨z, t₁,
              by rw [Yield.append_assoc], hfront', hgoes, ?_, Yield.tight_append hne htight⟩
            simp [hne]
        | stop h₁' =>
            obtain ⟨⟨⟩, -⟩ :=
              (hpace _ _ _ _ _ _ hfront h₁ h₁').resolve_right fun hended => hnil hended.1
  | stop h₁ _ =>
      cases hphase
      obtain ⟨-, -, rfl, -⟩ | ⟨-, ⟨⟩, -⟩ | ⟨-, ⟨⟩, -⟩ := round_cases h₁
      obtain ⟨z, u, text, ⟨⟩, -⟩ := hy
  | _ => cases hphase

end

end Grammar

end StyleSheet
