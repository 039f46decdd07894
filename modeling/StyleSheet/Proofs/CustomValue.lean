import Mathlib
import StyleSheet.Proofs.Grammar.Brackets
import StyleSheet.Proofs.Recovery

/-!
# Where the value of a custom property ends

The value of a custom property is an expression if it reads as one without a fault up to a token
that may follow it, and otherwise a row of tokens and groups up to a token that ends it. Which of
both it is should not matter for what belongs to the value.

An expression that is read without a fault is a whole row, and the scan passes over whole rows
(`many_over_whole`). So both end at the same place, with one exception: an expression may be
followed by any exclamation mark, but the scan stops at `!important` only
(`structured_value_ends_with_scan`). Before another exclamation mark, a value is cut short if what
stands there reads as an expression (`structured_value_cut_short`).
-/

namespace StyleSheet

open Rule Brackets TokenKind Token

namespace Grammar

/-- The value of a custom property as an expression. -/
def structuredValue : Rule :=
  attempt (call (.expression false) &&&
    test (·.isAny [.semicolon, .rightBrace, .rightParen, .bang, .endOfInput]))

/-- Whether the scan over the value of a custom property stops. -/
def endsScan (v : View) : Bool :=
  v.isAny [.semicolon, .rightBrace, .rightParen, .rightBracket, .endOfInput] || v.isImportant

/-- The value of a custom property as a row of tokens and groups. -/
def scannedValue : Rule := skipUntil endsScan

lemma customValue_eq : customValue = structuredValue ||| group .customValue scannedValue := rfl

/-! ## Skipping groups -/

/-- One round of skipping inside of a group. -/
def groupRound (closer : TokenKind) : Rule :=
  choose (·.isAny [closer, .rightBrace, .endOfInput]) fail <|
    choose (·.isAny [.rightParen, .rightBracket]) take (call .balanced >> accept)

section

variable {d : Dialect} {C : Calls} {depth : Nat} {s s' : Spot} {m : Bool} {y : Yield}
  {closer : TokenKind}

lemma reads_balanced_of_closer? (h : Reads d C (.rule balanced) s m y s')
    (hkind : (s.view.kind 0).closer? = some closer) :
    Reads d C (.rule (take >> many (groupRound closer) >> token closer)) s m y s' := by
  rw [balanced, reads_look] at h
  unfold closer? at hkind
  split at hkind <;> cases hkind <;> simp_all [groupRound]

lemma reads_balanced_of_plain (h : Reads d C (.rule balanced) s m y s')
    (hkind : (s.view.kind 0).closer? = none) : y = s.taken ∧ s' = s.next := by
  rw [balanced, reads_look] at h
  dsimp only at h
  split at h <;> simp_all [closer?, reads_take]

/-- Skipping takes at least one token, if there is one. -/
lemma tokens_ne_of_balanced (h : Reads d C (.rule balanced) s m y s') (hahead : s.ahead ≠ []) :
    y.tokens ≠ [] := by
  obtain ⟨t, rest, hcons⟩ := List.exists_cons_of_ne_nil hahead
  cases hkind : (s.view.kind 0).closer? with
  | none =>
      obtain ⟨rfl, -⟩ := reads_balanced_of_plain h hkind
      simp [Spot.taken_of_cons hcons, Yield.tokens]
  | some closer =>
      obtain ⟨_, y₁, _, y₂, htake, -, rfl⟩ := reads_then.1 (reads_balanced_of_closer? h hkind)
      obtain ⟨-, rfl, -⟩ := reads_take.1 htake
      simp [Spot.taken_of_cons hcons, Yield.tokens]

/-- Skipping a group takes all of it. -/
def SkipsGroups (C : Calls) : Prop :=
  ∀ {s m y s' opener closer inner rest}, C .balanced s m y s' → opener.closer? = some closer →
    Whole false inner → s.ahead.map kind = opener :: (inner ++ closer :: rest) →
      s.ahead = y.tokens ++ s'.ahead ∧ s'.ahead.map kind = rest

/-- A loop whose rounds skip a token or a group passes over a whole row and goes on behind it. -/
theorem many_over_whole {r : Rule} {top : Bool} {row rest : List TokenKind}
    (hgroups : SkipsGroups (Yields d depth))
    (hround : ∀ {s m y s'}, Reads d (Yields d depth) (.rule r) s m y s' →
      (s.view.kind 0).isCloser = false → s.view.kind 0 ≠ .endOfInput →
      (top = true → (s.view.kind 0).endsValue = false) →
      m = true ∧ ∃ m', Yields d depth .balanced s m' y s')
    (hrow : Whole top row) (h : Reads d (Yields d depth) (.rule (many r)) s m y s')
    (hahead : s.ahead.map kind = row ++ rest) :
    ∃ l s₁ y₁, s.ahead = l ++ s₁.ahead ∧ s₁.ahead.map kind = rest ∧ y.tokens = l ++ y₁.tokens ∧
      Reads d (Yields d depth) (.rule (many r)) s₁ m y₁ s' := by
  induction hrow generalizing s y with
  | nil => exact ⟨[], s, y, rfl, hahead, rfl, h⟩
  | @plain top k row hplain _ ih =>
      obtain ⟨t, behind, hcons, hkind, hbehind⟩ := List.map_eq_cons_iff.1 hahead
      have hview : s.view.kind 0 = k := by simp [Spot.kind_view, hcons, hkind]
      rw [← hview] at hplain
      cases h with
      | stop hstop => exact absurd (hround hstop hplain.2.1 hplain.2.2.1 hplain.2.2.2).1 (by simp)
      | @again _ _ s₁ _ y₁ z hskip hmore =>
          obtain ⟨-, _, hbalanced⟩ := hround hskip hplain.2.1 hplain.2.2.1 hplain.2.2.2
          obtain ⟨depth', hbalanced⟩ := reads_of_yields hbalanced
          obtain ⟨rfl, rfl⟩ := reads_balanced_of_plain hbalanced hplain.1
          rw [Spot.next_of_cons hcons] at hmore
          obtain ⟨l, s₂, y₂, hl, hrest, htokens, hmany⟩ := ih hround hmore hbehind
          refine ⟨t :: l, s₂, y₂, ?_, hrest, ?_, hmany⟩
          · rw [hcons, List.cons_append, ← hl]
          · simp [Spot.taken_of_cons hcons, Yield.tokens, htokens]
  | @group top opener closer inner row hopener hinner _ _ ih =>
      obtain ⟨t, behind, hcons, hkind, -⟩ := List.map_eq_cons_iff.1 hahead
      have hview : s.view.kind 0 = opener := by simp [Spot.kind_view, hcons, hkind]
      have hcloser : (s.view.kind 0).isCloser = false ∧ s.view.kind 0 ≠ .endOfInput ∧
          (s.view.kind 0).endsValue = false := by
        rw [hview]
        exact facts_of_closer? hopener
      cases h with
      | stop hstop =>
          exact absurd (hround hstop hcloser.1 hcloser.2.1 fun _ => hcloser.2.2).1 (by simp)
      | @again _ _ s₁ _ y₁ z hskip hmore =>
          obtain ⟨-, _, hbalanced⟩ := hround hskip hcloser.1 hcloser.2.1 fun _ => hcloser.2.2
          obtain ⟨hgroup, hbehind⟩ := hgroups hbalanced hopener hinner (by simpa using hahead)
          obtain ⟨l, s₂, y₂, hl, hrest, htokens, hmany⟩ := ih hround hmore hbehind
          refine ⟨y₁.tokens ++ l, s₂, y₂, ?_, hrest, ?_, hmany⟩
          · rw [hgroup, hl, List.append_assoc]
          · rw [Yield.tokens_append, htokens, List.append_assoc]

lemma reads_skip (h : Reads d C (.rule (call .balanced >> accept)) s m y s') :
    m = true ∧ ∃ m', C .balanced s m' y s' := by
  obtain ⟨m', y₁, s₁, y₂, hcall, haccept, rfl⟩ := reads_then.1 h
  obtain ⟨rfl, rfl, rfl⟩ := reads_done.1 haccept
  rw [Yield.append_nil]
  exact ⟨rfl, m', reads_call.1 hcall⟩

/-- Inside of a group, a token that closes nothing is skipped, with its group if it opens one. -/
lemma reads_groupRound (hcloser : closer.isCloser = true)
    (h : Reads d C (.rule (groupRound closer)) s m y s')
    (hinside : (s.view.kind 0).isCloser = false) (hend : s.view.kind 0 ≠ .endOfInput) :
    m = true ∧ ∃ m', C .balanced s m' y s' := by
  have hne : s.view.kind 0 ≠ closer := by
    rintro heq
    rw [heq, hcloser] at hinside
    cases hinside
  simp only [isCloser, List.contains_eq_mem, List.mem_cons, List.not_mem_nil, or_false,
    decide_eq_false_iff_not, not_or] at hinside
  rw [groupRound, reads_choose, if_neg (by simp [hne, hinside, hend]), reads_choose,
    if_neg (by simp [hinside])] at h
  exact reads_skip h

/-- Groups are skipped as a whole, whatever is inside of them. -/
theorem skipsGroups (d : Dialect) (depth : Nat) : SkipsGroups (Yields d depth) := by
  induction depth with
  | zero =>
      intro s m y s' opener closer inner rest h
      cases h
  | succ depth ih =>
      intro s m y s' opener closer inner rest h hopener hinner hahead
      obtain ⟨t, behind, hcons, hkind, hbehind⟩ := List.map_eq_cons_iff.1 hahead
      have hview : s.view.kind 0 = opener := by simp [Spot.kind_view, hcons, hkind]
      have hcloser := isCloser_of_closer? hopener
      obtain ⟨_, y₁, s₁, y₂, htake, hrest, rfl⟩ :=
        reads_then.1 (reads_balanced_of_closer? h (hview ▸ hopener))
      obtain ⟨_, y₃, s₂, y₄, hmany, hclose, rfl⟩ := reads_then.1 hrest
      obtain ⟨-, rfl, rfl⟩ := reads_take.1 htake
      rw [Spot.next_of_cons hcons] at hmany
      obtain ⟨l, s₃, z, hl, hclosed, htokens, hstop⟩ := many_over_whole ih
        (fun h hinside hend _ => reads_groupRound hcloser h hinside hend) hinner hmany hbehind
      -- The loop ends at the closer, which is taken then.
      obtain ⟨c, rest', hcons', hkind', hrest'⟩ := List.map_eq_cons_iff.1 hclosed
      have hview' : s₃.view.kind 0 = closer := by simp [Spot.kind_view, hcons', hkind']
      obtain ⟨rfl, rfl⟩ : z = .nil ∧ s₂ = s₃ := by
        cases hstop with
        | stop hround =>
            rw [groupRound, reads_choose, if_pos (by simp [hview'])] at hround
            exact (reads_done.1 hround).2
        | again hround _ =>
            rw [groupRound, reads_choose, if_pos (by simp [hview'])] at hround
            cases (reads_done.1 hround).1
      rw [reads_token, if_pos (by simp [hview'])] at hclose
      obtain ⟨-, rfl, rfl⟩ := hclose
      rw [Spot.next_of_cons hcons']
      refine ⟨?_, hrest'⟩
      have hl : behind = l ++ c :: rest' := hcons' ▸ hl
      simp [hcons, Spot.taken_of_cons hcons, Spot.taken_of_cons hcons', Yield.tokens, htokens, hl]

/-- Inside of a value, the scan skips a token, with its group if it opens one. -/
lemma reads_scanRound
    (h : Reads d C (.rule (choose endsScan fail (call .balanced >> accept))) s m y s')
    (hcloser : (s.view.kind 0).isCloser = false) (hend : s.view.kind 0 ≠ .endOfInput)
    (hvalue : (s.view.kind 0).endsValue = false) : m = true ∧ ∃ m', C .balanced s m' y s' := by
  simp only [isCloser, endsValue, List.contains_eq_mem, List.mem_cons, List.not_mem_nil, or_false,
    decide_eq_false_iff_not, not_or] at hcloser hvalue
  rw [reads_choose, if_neg (by simp [endsScan, View.isImportant, hcloser, hend, hvalue])] at h
  exact reads_skip h

lemma endsScan_congr {s₁ : Spot} (h : s.ahead = s₁.ahead) : endsScan s.view = endsScan s₁.view := by
  simp [endsScan, View.isAny, View.isImportant, View.isWord, View.is, Spot.kind_view,
    Spot.text_view, h]

/-- The scan passes over a whole row. It ends behind it, or goes on if nothing there stops it. -/
theorem scan_over_whole {l : List Token} {s₁ : Spot}
    (h : Reads d (Yields d depth) (.rule scannedValue) s m y s') (hahead : s.ahead = l ++ s₁.ahead)
    (hrow : Whole true (l.map kind)) :
    if endsScan s₁.view then y.tokens = l ∧ s'.ahead = s₁.ahead
      else l.length < y.tokens.length := by
  have hkinds : s.ahead.map kind = l.map kind ++ s₁.ahead.map kind := by
    rw [hahead, List.map_append]
  obtain ⟨l', s₂, y₁, hl', hrest, htokens, hmore⟩ := many_over_whole (skipsGroups d depth)
    (fun h hcloser hend hvalue => reads_scanRound h hcloser hend (hvalue rfl)) hrow h hkinds
  obtain ⟨rfl, hsame⟩ : l' = l ∧ s₂.ahead = s₁.ahead := by
    have hlength : s₂.ahead.length = s₁.ahead.length := by simpa using congrArg List.length hrest
    exact List.append_inj' (hl'.symm.trans hahead) hlength
  rw [← endsScan_congr hsame]
  split
  · rename_i hends
    cases hmore with
    | stop hstop =>
        rw [reads_choose, if_pos hends] at hstop
        obtain ⟨-, rfl, rfl⟩ := reads_done.1 hstop
        exact ⟨by simpa using htokens, hsame⟩
    | again hround _ =>
        rw [reads_choose, if_pos hends] at hround
        cases (reads_done.1 hround).1
  · rename_i hends
    have hnil : s₂.ahead ≠ [] := by
      refine Spot.ahead_ne_nil fun hend => hends ?_
      simp [endsScan, hend]
    cases hmore with
    | stop hstop =>
        rw [reads_choose, if_neg hends] at hstop
        cases (reads_skip hstop).1
    | again hround _ =>
        rw [reads_choose, if_neg hends] at hround
        obtain ⟨-, _, hskip⟩ := reads_skip hround
        obtain ⟨depth', hbalanced⟩ := reads_of_yields hskip
        have hpos := List.length_pos_of_ne_nil (tokens_ne_of_balanced hbalanced hnil)
        rw [htokens]
        simp only [Yield.tokens_append, List.length_append]
        omega

/-- An expression that stands for the value of a custom property is a whole row, and a token that
may follow it comes behind it. -/
lemma whole_of_structuredValue (h : Reads d (Yields d depth) (.rule structuredValue) s true y s')
    (hs : s.Sound) :
    s.ahead = y.tokens ++ s'.ahead ∧ Whole true (y.tokens.map kind) ∧
      s'.view.kind 0 ∈ [.semicolon, .rightBrace, .rightParen, .bang, .endOfInput] := by
  obtain ⟨-, hread, hclean⟩ | ⟨⟨⟩, -⟩ := reads_attempt h
  obtain ⟨⟨⟩, -⟩ | ⟨y₁, s₁, y₂, hexpression, htest, rfl⟩ := reads_and.1 hread
  obtain ⟨hends, rfl, rfl⟩ := reads_test.1 htest
  rw [Yield.append_nil] at hclean ⊢
  obtain ⟨hahead, hwhole⟩ := whole_of_expression (reads_call.1 hexpression) hs hclean
  exact ⟨hahead, hwhole, isAny_eq_true.1 hends.symm⟩

/-- Behind an expression, the scan stops unless an exclamation mark begins something else than
`!important`. -/
lemma endsScan_iff {v : View}
    (h : v.kind 0 ∈ [.semicolon, .rightBrace, .rightParen, .bang, .endOfInput]) :
    endsScan v = !(v.is 0 .bang && !v.isImportant) := by
  simp only [List.mem_cons, List.not_mem_nil, or_false] at h
  rcases h with h | h | h | h | h <;> simp [endsScan, View.isImportant, View.is, View.isAny, h]

lemma exec_or_of_matched {a b : Rule} {bound : Nat} {p : Parser} {o : Outcome}
    (h : exec d bound a p = some o) (hmatched : o.matched = true) :
    exec d bound (a ||| b) p = some o := by
  obtain ⟨_, q⟩ := o
  cases hmatched
  have h : a.exec (run d bound) bound p = some ⟨true, q⟩ := h
  change (seq a fun m => if m = true then accept else b).exec (run d bound) bound p = _
  rw [Rule.exec, h]
  rfl

lemma total_structuredValue : Total d structuredValue := by simp [structuredValue]

lemma total_scannedValue : Total d scannedValue :=
  total_skipUntil (by simp +contextual [endsScan, View.isAny])

end

end Grammar

/-- Two ways to go on from a parser end at the same place, if they take the same tokens and leave
the same ones ahead. -/
lemma Parser.stream_eq_of_tally {d : Dialect} {source : Text} {p q q' : Parser} {y y' : Yield}
    (hp : p.Consistent d source) (hq : q.Consistent d source) (hq' : q'.Consistent d source)
    (h : Tally p y q) (h' : Tally p y' q') (htokens : y.tokens = y'.tokens)
    (hahead : q.spot.ahead = q'.spot.ahead) : q.stream = q'.stream := by
  have htaken : q.stream.tokens.toList.take q.stream.cursor =
      q'.stream.tokens.toList.take q'.stream.cursor := by
    rw [h.tokens, h'.tokens, htokens]
  have hlist : q.stream.tokens.toList = q'.stream.tokens.toList := by
    rw [← List.take_append_drop q.stream.cursor q.stream.tokens.toList,
      ← List.take_append_drop q'.stream.cursor q'.stream.tokens.toList, htaken]
    exact congrArg _ hahead
  have hcursor : q.stream.cursor = q'.stream.cursor := by
    rw [cursor_of_tally hp hq h, cursor_of_tally hp hq' h', htokens]
  have hlength : q.stream.length = q'.stream.length := hq.length.trans hq'.length.symm
  cases hs : q.stream
  cases hs' : q'.stream
  simp_all [Array.toList_inj]

namespace Session

/-- If an expression is read for the value of a custom property, the scan over the value would have
stopped at the same place, with the same tokens ahead. Only if the expression ends before an
exclamation mark that does not begin `!important`, the scan would have gone on. -/
theorem structured_value_ends_with_scan {d : Dialect} {source : Text} {s : Session}
    (h : Reachable d source s) :
    ∃ o₁ o₂ : Outcome,
      (∀ bound, Grammar.bound source.length ≤ bound →
        Grammar.exec d bound Grammar.structuredValue s.parser = some o₁ ∧
        Grammar.exec d bound Grammar.scannedValue s.parser = some o₂ ∧
        (o₁.matched = true → Grammar.exec d bound Grammar.customValue s.parser = some o₁)) ∧
      Grammar.endsScan o₂.parser.stream.view = true ∧
      (o₁.matched = true →
        if o₁.parser.stream.view.is 0 .bang && !o₁.parser.stream.view.isImportant then
          o₁.parser.stream.cursor < o₂.parser.stream.cursor
        else o₁.parser.stream = o₂.parser.stream) := by
  have hp := h.sound.parser
  obtain ⟨o₁, ho₁⟩ := Grammar.exec_total hp (Grammar.total_structuredValue (d := d))
  obtain ⟨o₂, ho₂⟩ := Grammar.exec_total hp (Grammar.total_scannedValue (d := d))
  have hq₁ := (h.exec (ho₁ _ (le_refl _))).sound.parser
  have hq₂ := (h.exec (ho₂ _ (le_refl _))).sound.parser
  obtain ⟨y₁, hread₁, htally₁, -⟩ := (Grammar.reads_of_exec
    (Grammar.total_structuredValue (d := d)).nested hp (ho₁ _ (le_refl _))).1
  obtain ⟨y₂, hread₂, htally₂, -⟩ := (Grammar.reads_of_exec
    (Grammar.total_scannedValue (d := d)).nested hp (ho₂ _ (le_refl _))).1
  refine ⟨o₁, o₂,
    fun bound hbound => ⟨ho₁ bound hbound, ho₂ bound hbound, fun hmatched => ?_⟩, ?_, ?_⟩
  · rw [Grammar.customValue_eq]
    exact Grammar.exec_or_of_matched (ho₁ bound hbound) hmatched
  · rw [← Parser.view_spot]
    exact reads_until (by simp) hread₂
  · intro hmatched
    rw [hmatched] at hread₁
    obtain ⟨hahead, hwhole, hends⟩ :=
      Grammar.whole_of_structuredValue hread₁ (Parser.sound_spot hp)
    have hscan := Grammar.scan_over_whole hread₂ hahead hwhole
    rw [Grammar.endsScan_iff hends, Parser.view_spot] at hscan
    split
    · rename_i hgoes
      rw [hgoes] at hscan
      rw [Parser.cursor_of_tally hp hq₁ htally₁, Parser.cursor_of_tally hp hq₂ htally₂]
      exact Nat.add_lt_add_left hscan _
    · rename_i hstops
      rw [Bool.not_eq_true] at hstops
      rw [hstops] at hscan
      exact Parser.stream_eq_of_tally hp hq₁ hq₂ htally₁ htally₂ hscan.1.symm hscan.2.symm

/-- A value with a group that holds a semicolon, before `!important`. -/
theorem structured_value_ends_with_scan_important :
    ∃ (p : Parser) (o₁ o₂ : Outcome),
      p = (Parser.ofSource .less (Text.ofString "--x:f(a;[b]) !important")).take.take ∧
      Grammar.exec .less 2000 Grammar.structuredValue p = some o₁ ∧
      Grammar.exec .less 2000 Grammar.scannedValue p = some o₂ ∧ o₁.matched = true ∧
      o₁.parser.stream.view.isImportant = true ∧ o₁.parser.stream = o₂.parser.stream := by
  obtain ⟨p, hp⟩ : ∃ p,
      p = (Parser.ofSource .less (Text.ofString "--x:f(a;[b]) !important")).take.take :=
    ⟨_, rfl⟩
  have hreach : Reachable .less (Text.ofString "--x:f(a;[b]) !important") ⟨p, [], []⟩ := by
    rw [hp]
    exact .tail (.tail .refl (.take _)) (.take _)
  obtain ⟨o₁, o₂, hexec, -, hends⟩ := structured_value_ends_with_scan hreach
  obtain ⟨ho₁, ho₂, -⟩ := hexec 2000 (by decide +kernel)
  have hend : (Grammar.exec .less 2000 Grammar.structuredValue p).map
      (fun o => (o.matched, o.parser.stream.view.isImportant)) = some (true, true) := by
    rw [hp]
    decide +kernel
  rw [ho₁, Option.map_some, Option.some.injEq, Prod.mk.injEq] at hend
  have hends := hends hend.1
  rw [hend.2, Bool.not_true, Bool.and_false] at hends
  exact ⟨p, o₁, o₂, hp, ho₁, ho₂, hend.1, hend.2, hends⟩

/-- The expression ends before the exclamation mark, and the scan would have gone on to the end. -/
theorem structured_value_cut_short :
    ∃ p, p = (Parser.ofSource .css (Text.ofString "--x:a!b")).take.take ∧
      (Grammar.exec .css 2000 Grammar.structuredValue p).map
        (fun o => (o.matched, o.parser.stream.cursor, o.parser.stream.kindAt 0)) =
          some (true, 3, .bang) ∧
      (Grammar.exec .css 2000 Grammar.scannedValue p).map
        (fun o => (o.parser.stream.cursor, o.parser.stream.kindAt 0)) = some (5, .endOfInput) := by
  refine ⟨_, rfl, ?_⟩
  decide +kernel

end Session

end StyleSheet
