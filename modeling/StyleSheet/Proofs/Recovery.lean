import Mathlib
import StyleSheet.Proofs.Account
import StyleSheet.Proofs.Grammar.Closing

/-!
# Recovery stays inside of the block

Whatever goes wrong in an item of a block of CSS or LESS, the item and the recovery behind it take
no closing brace beyond those of groups that they have opened themselves. So the brace of the block
is left to the block, and the items behind a broken one are items of the same block
(`items_stay_in_block`).

In SCSS this is not so: a query function with an interpolated name takes one token of it for its
parenthesis, whatever that token is.
-/

namespace StyleSheet

open Rule Braces Token

/-! ## Tokens taken by a parser -/

namespace Parser

variable {d : Dialect} {source : Text} {p q : Parser} {y : Yield}

/-- The significant tokens that have been taken on the way from `p` to `q`. -/
def takenSince (p q : Parser) : List Token :=
  ((significant q.tokens.toList).take q.stream.cursor).drop p.stream.cursor

lemma sound_spot (hp : p.Consistent d source) : p.spot.Sound := by
  intro t ht
  have hmem : t ∈ p.stream.tokens.toList := List.mem_of_mem_drop ht
  rw [hp.stream] at hmem
  exact hp.row.regular t (List.mem_of_mem_filter hmem)

/-- The tokens taken are those of the yield. -/
lemma takenSince_eq (hp : p.Consistent d source) (hq : q.Consistent d source) (h : Tally p y q) :
    p.takenSince q = y.tokens := by
  have hlength : (p.stream.tokens.toList.take p.stream.cursor).length = p.stream.cursor := by
    simpa using hp.cursor_le
  rw [takenSince, ← hq.stream, h.tokens, List.drop_left' hlength]

lemma cursor_of_tally (hp : p.Consistent d source) (hq : q.Consistent d source) (h : Tally p y q) :
    q.stream.cursor = p.stream.cursor + y.tokens.length := by
  have hlength := congrArg List.length h.tokens
  have hple := hp.cursor_le
  have hqle := hq.cursor_le
  simp only [List.length_append, List.length_take, Array.length_toList] at hlength
  omega

lemma cursor_le_of_tally (hp : p.Consistent d source) (hq : q.Consistent d source)
    (h : Tally p y q) : p.stream.cursor ≤ q.stream.cursor := by
  rw [cursor_of_tally hp hq h]
  exact Nat.le_add_right _ _

end Parser

/-! ## Items and blocks -/

namespace Grammar

variable {d : Dialect} {source : Text} {p : Parser} {o : Outcome} {bound : Nat}

/-- Inside of a block, a rule that spares braces closes no group that it has not opened. -/
lemma climb_of_reads (hd : d ≠ .scss) {r : Rule} (hr : ∀ v, Spares d false r false v) {s s' : Spot}
    {m : Bool} {y : Yield} (h : Reads d (Yields d bound) (.rule r) s m y s') (hs : s.Sound) :
    ∃ level, climb 0 (y.tokens.map kind) = some level := by
  obtain ⟨level, hlevel, -⟩ := h.weighs (honest_yields d bound)
    (balances_yields (fun _ => hd) bound) hs false (hr _) (by simp) (by simp [Yield.Fair])
  rw [Yield.braces, Token.braces, climb_filter] at hlevel
  exact ⟨level, hlevel⟩

lemma total_itemRound (item : BlockItem) (missing : Fault) : Total d (itemRound item missing) := by
  cases item <;> simp [itemRound, itemName]

/-- The tokens of a block: an opening brace, items that stay inside, and a closing brace unless the
input has ended. -/
lemma tokens_of_block (hd : d ≠ .scss) {item : BlockItem} {missing : Fault} {s s' : Spot} {m : Bool}
    {y : Yield} (h : Reads d (Yields d bound) (.rule (block item missing)) s m y s') (hs : s.Sound)
    (hkind : s.view.kind 0 = .leftBrace) :
    ∃ opening items closing, y.tokens = opening :: (items ++ closing) ∧ opening.kind = .leftBrace ∧
      (∃ level, climb 0 (items.map kind) = some level) ∧
      (closing.map kind = [.rightBrace] ∨ closing = [] ∧ s'.view.kind 0 = .endOfInput) := by
  obtain ⟨opening, rest, hahead⟩ :=
    List.exists_cons_of_ne_nil (Spot.ahead_ne_nil (s := s) (by simp [hkind]))
  rw [block_eq, reads_when, if_pos (by simp [hkind])] at h
  obtain ⟨m₁, y₁, y₂, s₁, hitems, rfl, hclose⟩ := reads_enclosed h
  have hopening : opening.kind = .leftBrace := by simpa [Spot.kind_view, hahead] using hkind
  refine ⟨opening, y₁.tokens, y₂.tokens,
    by simp [Yield.tokens, Spot.taken_of_cons hahead], hopening,
    climb_of_reads hd (fun v => spares_items _ _) hitems hs.next, ?_⟩
  rcases hclose with ⟨hclosing, rfl, -⟩ | ⟨hclosing, rfl, rfl⟩
  · obtain ⟨closing, behind, hahead₁⟩ :=
      List.exists_cons_of_ne_nil (Spot.ahead_ne_nil (s := s₁) (by simp [hclosing]))
    have hbrace : closing.kind = .rightBrace := by simpa [Spot.kind_view, hahead₁] using hclosing
    exact .inl (by simp [Spot.taken_of_cons hahead₁, Yield.tokens, hbrace])
  · exact .inr ⟨rfl, by simpa [hclosing] using ends_of_items hitems⟩

end Grammar

namespace Session

/-- Inside of a block of CSS or LESS, an item and the recovery behind it have an outcome and take a
row of tokens in which no prefix has more closing braces than braces opened before. The items of a
whole block stay behind its opening brace in the same way, and only a closing brace or the end of
the input ends them. -/
theorem items_stay_in_block {d : Dialect} {source : Text} {s : Session} (h : Reachable d source s)
    (hd : d ≠ .scss) (item : BlockItem) (missing : Fault) :
    (∃ o : Outcome,
      (∀ bound, Grammar.bound source.length ≤ bound →
        Grammar.exec d bound (Grammar.itemRound item missing) s.parser = some o) ∧
      s.parser.stream.cursor ≤ o.parser.stream.cursor ∧
      ∀ front, front <+: (s.parser.takenSince o.parser).map Token.kind →
        front.count .rightBrace ≤ front.countP TokenKind.opensBrace) ∧
    (s.parser.stream.kindAt 0 = .leftBrace →
      ∃ (o : Outcome) (opening : Token) (items closing : List Token),
        (∀ bound, Grammar.bound source.length ≤ bound →
          Grammar.exec d bound (.call (.block item missing)) s.parser = some o) ∧
        s.parser.takenSince o.parser = opening :: (items ++ closing) ∧ opening.kind = .leftBrace ∧
        (∀ front, front <+: items.map Token.kind →
          front.count .rightBrace ≤ front.countP TokenKind.opensBrace) ∧
        (closing.map Token.kind = [.rightBrace] ∨
          closing = [] ∧ o.parser.stream.kindAt 0 = .endOfInput)) := by
  have hp := h.sound.parser
  have hs := Parser.sound_spot hp
  constructor
  · obtain ⟨o, ho⟩ := Grammar.exec_total hp (Grammar.total_itemRound (d := d) item missing)
    have hq := (h.exec (ho _ (le_refl _))).sound.parser
    obtain ⟨y, hread, htally, -⟩ := (Grammar.reads_of_exec
      (Grammar.total_itemRound (d := d) item missing).nested hp (ho _ (le_refl _))).1
    obtain ⟨level, hlevel⟩ :=
      Grammar.climb_of_reads hd (fun v => Grammar.spares_itemRound item missing) hread hs
    refine ⟨o, ho, Parser.cursor_le_of_tally hp hq htally, ?_⟩
    rw [Parser.takenSince_eq hp hq htally]
    simpa using (climb_eq_some_iff.1 hlevel).1
  · intro hkind
    have htotal : (Rule.call (.block item missing)).Total d := by simp
    obtain ⟨o, ho⟩ := Grammar.exec_total hp htotal
    have hq := (h.exec (ho _ (le_refl _))).sound.parser
    obtain ⟨y, hread, htally, -⟩ := (Grammar.reads_of_exec htotal.nested hp (ho _ (le_refl _))).1
    obtain ⟨depth, hblock⟩ := Grammar.reads_of_yields (reads_call.1 hread)
    obtain ⟨opening, items, closing, htokens, hopening, ⟨level, hlevel⟩, hclosing⟩ :=
      Grammar.tokens_of_block hd hblock hs (by rwa [Parser.view_spot])
    rw [Parser.view_spot] at hclosing
    refine ⟨o, opening, items, closing, ho, ?_, hopening, ?_, hclosing⟩
    · rw [Parser.takenSince_eq hp hq htally, htokens]
    · simpa using (climb_eq_some_iff.1 hlevel).1

/-- The brackets of the first item do not match and a parenthesis closes nothing, which are faults.
The block goes on to its own brace, and the tokens behind it are left. -/
theorem items_stay_in_block_broken :
    ∃ (o : Outcome) (opening : Token) (items closing : List Token),
      Grammar.exec .css 2000 (.call (.block .statement .ruleOrSelectorExpected))
        (Parser.ofSource .css (Text.ofString "\x7bb[\x7bc:]\x7d);d:e\x7d f")) = some o ∧
      (Parser.ofSource .css (Text.ofString "\x7bb[\x7bc:]\x7d);d:e\x7d f")).takenSince o.parser =
        opening :: (items ++ closing) ∧
      opening.kind = .leftBrace ∧
      (∀ front, front <+: items.map Token.kind →
        front.count .rightBrace ≤ front.countP TokenKind.opensBrace) ∧
      closing.map Token.kind = [.rightBrace] ∧ 0 < o.parser.faults ∧
      o.parser.stream.kindAt 0 = .ident := by
  have hreach : Reachable .css (Text.ofString "\x7bb[\x7bc:]\x7d);d:e\x7d f")
      ⟨Parser.ofSource .css (Text.ofString "\x7bb[\x7bc:]\x7d);d:e\x7d f"), [], []⟩ := .refl
  obtain ⟨o, opening, items, closing, ho, htaken, hopening, hitems, hclosing⟩ :=
    (items_stay_in_block hreach (by decide) .statement .ruleOrSelectorExpected).2
      (by decide +kernel)
  have hexec := ho 2000 (by decide +kernel)
  have hend : (Grammar.exec .css 2000 (.call (.block .statement .ruleOrSelectorExpected))
      (Parser.ofSource .css (Text.ofString "\x7bb[\x7bc:]\x7d);d:e\x7d f"))).map
        (fun o => (decide (0 < o.parser.faults), o.parser.stream.kindAt 0)) =
        some (true, .ident) := by
    decide +kernel
  rw [hexec, Option.map_some, Option.some.injEq, Prod.mk.injEq, decide_eq_true_eq] at hend
  refine ⟨o, opening, items, closing, hexec, htaken, hopening, hitems, ?_, hend⟩
  refine hclosing.resolve_right fun hnone => ?_
  rw [hend.2] at hnone
  cases hnone.2

end Session

end StyleSheet
