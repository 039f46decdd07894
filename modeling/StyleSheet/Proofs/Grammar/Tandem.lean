import Mathlib
import StyleSheet.Proofs.Grammar.Braceless
import StyleSheet.Proofs.Grammar.Nearsight

/-!
# Reading CSS with more behind it

The rules of CSS keep pace with themselves when more tokens follow behind a closing brace
(`coupled_yields`). Three of them try something and go back if it fails, and there a failure must
not depend on what follows:

* A nested rule set is tried inside of a block. If the block is closed, so that its items are
  `Guarded` by a closing brace, the selectors do not reach the end. If it is not closed, a run over
  the front alone comes to its end in any case.
* The block of an unknown at-rule is tried as statements. If it is closed, the block is read the
  same; if it is not closed, the run over the front alone fails and skips all that is left.
* The value of a custom property is tried as an expression. Without a fault this takes no brace, so
  that it ends before the end of the front.
-/

namespace StyleSheet

open Braces Token

namespace Braces

/-- A row that falls below its start comprises one that does not, if both start alike. -/
lemma prefix_of_climb {row row' behind : List TokenKind} (hrow : row <+: row' ++ behind)
    (hfalls : climb 0 row = none) (hstays : climb 0 row' ≠ none) : row' <+: row := by
  rcases List.prefix_or_prefix_of_prefix hrow (List.prefix_append row' behind) with ⟨rest, rfl⟩ |
    hcomprised
  · refine absurd ?_ hstays
    rw [climb_append, hfalls]
    rfl
  · exact hcomprised

end Braces

/-- Ahead lies a brace that closes nothing which is opened ahead. -/
def Spot.Guarded (s : Spot) : Prop := climb 0 (Token.braces s.ahead) = none

lemma Spot.Guarded.ahead_ne {s : Spot} (h : s.Guarded) : s.ahead ≠ [] := by
  intro hnil
  simp [Guarded, hnil] at h

namespace Grammar

open Rule

section

variable {depth depth' : Nat} {more : List Token} {s s' t t' : Spot} {m m' : Bool} {y y' : Yield}
  {r : Rule}

/-! ## Guarded spots -/

lemma balances_css (depth : Nat) : Balances .css false (Yields .css depth) :=
  balances_yields (by simp) depth

lemma guarded_of_balance {clean : Bool} {opened : Prop} (h : Balance .css clean opened y s')
    (hpasses : s.Passes y s') (hs : s.Guarded) : s'.Guarded := by
  obtain ⟨count, hclimb, -, hcss⟩ := h
  rw [Spot.Guarded, hpasses.braces, climb_append, hclimb] at hs
  rcases hcss rfl with rfl | hnil
  · exact hs
  · simp [hnil] at hs

/-- What spares the braces of others leaves the closing brace of a block ahead. -/
lemma guarded_of_reads (h : Reads .css (Yields .css depth) (.rule r) s m y s') (hs : s.Sound)
    (hspares : Spares .css false r false s.view) (hguard : s.Guarded) : s'.Guarded := by
  have hbalance :=
    h.weighs (honest_yields .css depth) (balances_css depth) hs false hspares (by simp)
    (fun hclean => by cases hclean)
  exact guarded_of_balance hbalance (passes_of_reads hs h) hguard

/-- Before the closing brace of a block the end is not reached. -/
lemma sync_of_guarded (h : Tandem .css (Yields .css depth) (Yields .css depth') more r s)
    (hspares : Spares .css false r false s.view) (hguard : s.Guarded) :
    Sync .css (Yields .css depth) (Yields .css depth') more r s := by
  rintro t m y s' m' y' t' hfront hs ht
  refine (h t _ _ _ _ _ _ hfront hs ht).resolve_right ?_
  rintro ⟨hnil, -⟩
  exact (guarded_of_reads hs hfront.sound_left hspares hguard).ahead_ne hnil

/-! ## Blocks -/

/-- A block is closed if its items are guarded, and otherwise it is cut off by the end of the
input. -/
lemma block_cases {item : BlockItem} {missing : Fault} (hopens : s.view.kind 0 = .leftBrace)
    (hs : s.Sound) (h : Reads .css (Yields .css depth) (.rule (block item missing)) s m y s') :
    ∃ m₁ y₁ y₂ s₁, Reads .css (Yields .css depth) (.rule (items item missing)) s.next m₁ y₁ s₁ ∧
      m = true ∧ y = .node .declarations (s.taken ++ (y₁ ++ y₂)) .nil ∧
      ((s.next.Guarded ∧ s₁.view.kind 0 = .rightBrace ∧ y₂ = s₁.taken ∧ s' = s₁.next ∧
          climb 0 (y₁.braces ++ y₂.braces) = none) ∨
        (¬ s.next.Guarded ∧ y₂ = .fault .rightCurlyExpected .nil ∧ s' = s₁ ∧ s'.ahead = [])) := by
  rw [block_eq, reads_when, if_pos (is_eq_true.2 hopens)] at h
  obtain ⟨rfl, -⟩ := reads_group.1 h
  obtain ⟨m₁, y₁, y₂, s₁, hitems, rfl, hclose⟩ := reads_enclosed h
  refine ⟨m₁, y₁, y₂, s₁, hitems, rfl, rfl, ?_⟩
  have hpasses := passes_of_reads hs.next hitems
  have hends := ends_of_items hitems
  rcases hclose with ⟨hkind, rfl, rfl⟩ | ⟨hkind, rfl, rfl⟩
  · have hahead : s₁.ahead ≠ [] := Spot.ahead_ne_nil (by simp [hkind])
    have htaken := braces_taken hkind rfl hahead
    obtain ⟨count, hclimb, -, hcss⟩ :=
      hitems.weighs (honest_yields .css depth) (balances_css depth) hs.next
      false (spares_items item missing) (by simp) (fun hclean => by cases hclean)
    obtain rfl := (hcss rfl).resolve_right hahead
    have hfalls : climb 0 (y₁.braces ++ s₁.taken.braces) = none := by
      rw [climb_append, hclimb, htaken]
      rfl
    refine .inl ⟨?_, hkind, rfl, rfl, hfalls⟩
    have hrest := (Spot.tracks_passes .css).take s₁ hpasses.sound
    rw [Spot.Guarded, hpasses.braces, hrest.braces, ← List.append_assoc, climb_append, hfalls]
    rfl
  · have hnil : s'.ahead = [] := by
      simp only [List.mem_cons, hkind, List.not_mem_nil, or_false, false_or] at hends
      exact hpasses.sound.kind_eq_end.1 hends
    refine .inr ⟨fun hguard => ?_, rfl, rfl, hnil⟩
    exact (guarded_of_reads hitems hs.next (spares_items item missing) hguard).ahead_ne hnil

end

/-! ## What nonterminals rely on -/

/-- How nonterminals keep pace. Items of blocks do so if the block is closed, and then the block is
read the same. -/
structure Coupled (more : List Token) (C C' : Calls) : Prop where
  steady : ∀ name, name.IsSteady → ∀ s, Tandem .css C C' more (call name) s
  item : ∀ s, s.Guarded → Tandem .css C C' more (call .blockItem) s
  nested : ∀ s, s.Guarded → Tandem .css C C' more (call .nestedRuleset) s
  sealed : ∀ item missing s, s.view.kind 0 = .leftBrace → s.next.Guarded →
    Sync .css C C' more (call (.block item missing)) s

section

variable {depth depth' : Nat} {more : List Token} {s s' t t' : Spot} {m m' : Bool} {y y' : Yield}
  {r : Rule} {nested : Bool}

variable (h : Coupled more (Yields .css depth) (Yields .css depth'))

include h

lemma tandem_nearsighted (hr : Nearsighted r s.view) :
    Tandem .css (Yields .css depth) (Yields .css depth') more r s :=
  tandem_of_nearsighted (honest_yields .css depth) h.steady hr

lemma tandem_items (item : BlockItem) (missing : Fault) (hguard : s.Guarded) :
    Tandem .css (Yields .css depth) (Yields .css depth') more (items item missing) s := by
  have hC := honest_yields .css depth
  have hitem : ∀ s, s.Guarded →
      Tandem .css (Yields .css depth) (Yields .css depth') more (call (itemName item)) s := by
    cases item with
    | statement => exact h.item
    | keyframe => exact fun s _ => h.steady .keyframe trivial s
  refine tandem_many (I := Spot.Guarded) hC (fun s hguard => ?_)
    (fun s m y s' hguard hs hround => ?_) hguard
  · refine tandem_choose hC (View.near_isAny _) (fun _ => tandem_done false) fun _ => ?_
    refine tandem_choose hC (View.near_is _) (fun _ => tandem_take hC) fun _ => ?_
    refine tandem_seq hC (hitem s hguard) fun m y s' _ _ => tandem_nearsighted h ?_
    cases m <;> simp
  · exact guarded_of_reads hround hs (spares_items (v := s.view) item missing s.view) hguard

/-- A closed block. -/
lemma sync_block (item : BlockItem) (missing : Fault) (hopens : s.view.kind 0 = .leftBrace)
    (hguard : s.next.Guarded) :
    Sync .css (Yields .css depth) (Yields .css depth') more (block item missing) s := by
  rintro t m y s' m' y' t' hfront hs ht
  have hahead : s.ahead ≠ [] := Spot.ahead_ne_nil (by simp [hopens])
  obtain ⟨hnext, htaken⟩ := hfront.next hahead
  have hopens' : t.view.kind 0 = .leftBrace := by rw [(hfront.agrees hahead).reach.2.1.1, hopens]
  obtain ⟨m₁, y₁, y₂, s₁, hs₁, rfl, rfl, hclose⟩ := block_cases hopens hfront.sound_left hs
  obtain ⟨m₁', y₁', y₂', t₁, ht₁, rfl, rfl, hclose'⟩ := block_cases hopens' hfront.sound ht
  obtain ⟨-, hkind, rfl, rfl, -⟩ := hclose.resolve_right fun hcut => hcut.1 hguard
  have hsync :=
    sync_of_guarded (tandem_items h item missing hguard) (spares_items item missing) hguard
  obtain ⟨rfl, rfl, hfront₁⟩ := hsync _ _ _ _ _ _ _ hnext hs₁ ht₁
  have hahead₁ : s₁.ahead ≠ [] := Spot.ahead_ne_nil (by simp [hkind])
  rcases hclose' with ⟨-, -, rfl, rfl, -⟩ | ⟨-, -, rfl, hnil⟩
  · obtain ⟨hnext₁, htaken₁⟩ := hfront₁.next hahead₁
    rw [htaken, htaken₁]
    exact ⟨rfl, rfl, hnext₁⟩
  · rw [hfront₁.ahead, List.append_eq_nil_iff] at hnil
    exact absurd hnil.1 hahead₁

omit h in
/-- A block that is cut off. -/
lemma cut_of_block {item : BlockItem} {missing : Fault} (hopens : s.view.kind 0 = .leftBrace)
    (hguard : ¬ s.next.Guarded) (hs : s.Sound)
    (h : Reads .css (Yields .css depth) (.rule (block item missing)) s m y s') :
    s'.ahead = [] ∧ y.faults ≠ [] := by
  obtain ⟨m₁, y₁, y₂, s₁, hitems, rfl, rfl, hclose⟩ := block_cases hopens hs h
  obtain ⟨-, rfl, rfl, hnil⟩ := hclose.resolve_left fun hclosed => hguard hclosed.1
  exact ⟨hnil, by simp [Yield.faults]⟩

omit h in
/-- If a block is cut off, what more follows is needed to close it. -/
lemma braces_of_cut {item : BlockItem} {missing : Fault} (hopens : s.view.kind 0 = .leftBrace)
    (hguard : ¬ s.next.Guarded) (hfront : s.IsFront more t)
    (ht : Reads .css (Yields .css depth) (.rule (block item missing)) t m y t') :
    Token.braces s.ahead <+: y.braces := by
  have hahead : s.ahead ≠ [] := Spot.ahead_ne_nil (by simp [hopens])
  obtain ⟨hnext, htaken⟩ := hfront.next hahead
  have hopens' : t.view.kind 0 = .leftBrace := by rw [(hfront.agrees hahead).reach.2.1.1, hopens]
  have hall := (passes_of_reads hfront.sound ht).braces
  obtain ⟨m₁, y₁, y₂, t₁, hitems, rfl, rfl, hclose⟩ := block_cases hopens' hfront.sound ht
  rcases hclose with ⟨-, hkind, rfl, rfl, hfalls⟩ | ⟨-, -, -, hnil⟩
  · have hpasses := passes_of_reads hnext.sound hitems
    have htake := (Spot.tracks_passes .css).take s hfront.sound_left
    have htake₁ := (Spot.tracks_passes .css).take t₁ hpasses.sound
    have hrow : y₁.braces ++ t₁.taken.braces <+:
        Token.braces s.next.ahead ++ Token.braces more := by
      rw [← Token.braces_append, ← hnext.ahead, hpasses.braces, htake₁.braces, ← List.append_assoc]
      exact List.prefix_append _ _
    rw [htake.braces, Yield.braces_node, Yield.braces_append, htaken, Yield.braces_append]
    exact (List.prefix_append_right_inj _).2 (prefix_of_climb hrow hfalls hguard)
  · rw [hfront.ahead, hnil, Token.braces_append, Token.braces_nil, List.append_nil] at hall
    rw [← hall]
    exact List.prefix_append _ _

lemma tandem_block (item : BlockItem) (missing : Fault) :
    Tandem .css (Yields .css depth) (Yields .css depth') more (block item missing) s := by
  have hC := honest_yields .css depth
  by_cases hopens : s.view.kind 0 = .leftBrace
  · by_cases hguard : s.next.Guarded
    · exact (sync_block h item missing hopens hguard).tandem
    · rintro t m y s' m' y' t' hfront hs ht
      exact .inr
        ⟨(cut_of_block hopens hguard hfront.sound_left hs).1, braces_of_cut hopens hguard hfront ht⟩
  · rw [block_eq]
    exact tandem_when hC (View.near_is _) fun hkind => absurd (is_eq_true.1 hkind) hopens

/-! ## Attempts -/

omit h in
/-- A skipped block that is cut off. -/
lemma cut_of_balanced (hopens : s.view.kind 0 = .leftBrace) (hguard : ¬ s.next.Guarded)
    (hs : s.Sound) (h : Yields .css depth .balanced s m y s') : s'.ahead = [] := by
  have hahead : s.ahead ≠ [] := Spot.ahead_ne_nil (by simp [hopens])
  obtain ⟨count, hclimb, -, hcss⟩ :=
    balances_css depth _ _ _ _ _ h hs (by simp [Nonterminal.Due, hopens])
    (fun _ => rfl) (fun hclean => by cases hclean)
  refine (hcss rfl).resolve_left ?_
  rintro rfl
  refine hguard ?_
  have hall := (passes_of_yields hs h).braces
  obtain ⟨depth', h⟩ := reads_of_yields h
  simp only [rule, balanced, reads_look, hopens] at h
  obtain ⟨_, y₁, s₁, y₂, htake, -, rfl⟩ := reads_then.1 h
  obtain ⟨-, rfl, rfl⟩ := reads_take.1 htake
  have hbrace := braces_taken hopens rfl hahead
  have hrest : Token.braces s.next.ahead = y₂.braces ++ Token.braces s'.ahead := by
    rw [((Spot.tracks_passes .css).take s hs).braces, Yield.braces_append,
      List.append_assoc] at hall
    exact List.append_cancel_left hall
  rw [Yield.braces_append, hbrace, List.singleton_append, climb_cons_of_opens rfl] at hclimb
  have hfalls : climb 0 y₂.braces = none := by
    by_contra hsome
    obtain ⟨count, hcount⟩ := Option.ne_none_iff_exists'.1 hsome
    have hone := climb_add hcount 1
    rw [hclimb] at hone
    cases hone
  rw [Spot.Guarded, hrest, climb_append, hfalls]
  rfl

/-- The block of an unknown at-rule, which is tried as statements. -/
lemma tandem_unknownBlock (hopens : s.view.kind 0 = .leftBrace) :
    Tandem .css (Yields .css depth) (Yields .css depth') more
      (attempt (statements >> accept) ||| call .balanced) s := by
  have hC := honest_yields .css depth
  by_cases hguard : s.next.Guarded
  · have hsync :
        Sync .css (Yields .css depth) (Yields .css depth') more (statements >> accept) s := by
      rintro t m y s' m' y' t' hfront hs ht
      obtain ⟨m₁, y₁, s₁, y₂, hs₁, hs₂, rfl⟩ := reads_then.1 hs
      obtain ⟨m₁', y₁', t₁, y₂', ht₁, ht₂, rfl⟩ := reads_then.1 ht
      obtain ⟨rfl, rfl, hfront₁⟩ := h.sealed _ _ s hopens hguard t _ _ _ _ _ _ hfront hs₁ ht₁
      obtain ⟨rfl, rfl, rfl⟩ := reads_done.1 hs₂
      obtain ⟨rfl, rfl, rfl⟩ := reads_done.1 ht₂
      exact ⟨rfl, rfl, hfront₁⟩
    exact tandem_or hC hsync.attempt.tandem fun _ s' _ _ => h.steady .balanced trivial s'
  · rintro t m y s' m' y' t' hfront hs ht
    have hsound := hfront.sound_left
    rcases reads_or.1 hs with ⟨rfl, htry⟩ | ⟨y₁, s₁, y₂, hback, hskip, rfl⟩
    · -- The block is cut off, so that there is a fault.
      obtain ⟨-, hbody, hclean⟩ := (reads_attempt htry).resolve_right fun hback => by cases hback.1
      obtain ⟨_, y₁, s₁, y₂, hblock, -, rfl⟩ := reads_then.1 hbody
      obtain ⟨_, hblock⟩ := reads_of_yields (reads_call.1 hblock)
      rw [Yield.faults_append, List.append_eq_nil_iff] at hclean
      exact absurd hclean.1 (cut_of_block hopens hguard hsound hblock).2
    · obtain ⟨-, rfl, rfl⟩ := (reads_attempt hback).resolve_left fun htry => by cases htry.1
      rcases reads_or.1 ht with ⟨rfl, htry'⟩ | ⟨y₁', t₁, y₂', hback', hskip', rfl⟩
      · obtain ⟨-, hbody, -⟩ := (reads_attempt htry').resolve_right fun hback => by cases hback.1
        obtain ⟨_, y₁, t₁, y₂', hblock, -, rfl⟩ := reads_then.1 hbody
        obtain ⟨_, hblock⟩ := reads_of_yields (reads_call.1 hblock)
        refine .inr ⟨cut_of_balanced hopens hguard hsound (reads_call.1 hskip), ?_⟩
        rw [Yield.braces_append]
        exact (braces_of_cut hopens hguard hfront hblock).trans (List.prefix_append _ _)
      · obtain ⟨-, rfl, rfl⟩ := (reads_attempt hback').resolve_left fun htry => by cases htry.1
        exact h.steady .balanced trivial s₁ _ _ _ _ _ _ _ hfront hskip hskip'

lemma tandem_unknownAtRule :
    Tandem .css (Yields .css depth) (Yields .css depth') more unknownAtRule s := by
  have hC := honest_yields .css depth
  refine tandem_node _ (tandem_then hC ?_ fun _ _ _ _ _ => tandem_done true)
  refine tandem_then hC (tandem_take hC) fun _ _ s' _ _ => ?_
  refine tandem_then hC (tandem_nearsighted h (by simp)) fun _ _ s' _ _ => ?_
  refine tandem_when hC (View.near_is _) fun hopens => ?_
  exact tandem_or hC (tandem_unknownBlock h (is_eq_true.1 hopens)) fun _ _ _ _ => tandem_report _

/-- The value of a custom property, which is tried as an expression. -/
lemma tandem_customValue :
    Tandem .css (Yields .css depth) (Yields .css depth') more customValue s := by
  have hC := honest_yields .css depth
  by_cases hnil : s.ahead = []
  · exact tandem_of_nil hC hnil
  have hclean : ∀ depth s m y s', s.Sound →
      Reads .css (Yields .css depth) (.rule (call (.expression false) &&&
      test (·.isAny [.semicolon, .rightBrace, .rightParen, .bang, .endOfInput]))) s m y s' →
      y.faults = [] →
      y.braces = [] := by
    intro depth s m y s' hs hread hclean
    exact hread.braceless (honest_yields .css depth) braces_of_value hs hclean (by simp [IsValue])
      (by simp [Nonterminal.Due])
  have hskip : ∀ v, View.Near
      (fun v => v.isAny [.semicolon, .rightBrace, .rightParen, .rightBracket, .endOfInput] ||
      v.isImportant) v := by
    intro v w hagrees
    simp [View.near_isImportant w hagrees, View.isAny, hagrees.reach.2.1.1]
  intro t m y s' m' y' t' hfront hs ht
  have hsync := Tandem.attempt hC (tandem_nearsighted h (r := call (.expression false) &&&
      test (·.isAny [.semicolon, .rightBrace, .rightParen, .bang, .endOfInput])) (s := s)
      (by simp [Nonterminal.IsSteady]))
      hnil (fun m y s' hread => hclean depth s m y s' hfront.sound_left hread)
      (fun t m y t' ht hread => hclean depth' t m y t' ht hread)
  exact tandem_or hC hsync.tandem
    (fun _ _ _ _ => tandem_nearsighted h (by simp [hskip])) t _ _ _ _ _ _ hfront hs ht

lemma tandem_declaration :
    Tandem .css (Yields .css depth) (Yields .css depth') more declaration s := by
  have hC := honest_yields .css depth
  have hcustom : s.view.Near (fun v => v.is 0 .ident && (v.text 0).startsWith "--") := by
    intro w hagrees
    simp [View.is, hagrees.reach.2.1.1, hagrees.reach.2.1.2.1]
  refine tandem_choose hC hcustom (fun _ => ?_) fun _ =>
    tandem_nearsighted h nearsighted_plainDeclaration
  refine tandem_node _ (tandem_then hC ?_ fun _ _ _ _ _ => tandem_done true)
  refine tandem_then hC (tandem_nearsighted h (by simp)) fun _ _ s' _ _ => ?_
  refine tandem_and hC (tandem_nearsighted h (by simp)) fun _ s' _ _ => ?_
  exact tandem_then hC (tandem_customValue h) fun _ _ s' _ _ => tandem_nearsighted h (by simp)

lemma tandem_atRule :
    Tandem .css (Yields .css depth) (Yields .css depth') more (atRule .css nested) s := by
  have hC := honest_yields .css depth
  refine tandem_when hC (View.near_is _) fun _ => ?_
  refine tandem_or hC (h.steady (.dialectAtRule nested) trivial s) fun _ s' _ _ => ?_
  refine tandem_look hC (fun w hagrees => by rw [hagrees.reach.2.1.2.1]) ?_
  refine of_ruleFor?
    (P := fun r => Tandem .css (Yields .css depth) (Yields .css depth') more r s') ?_
    (tandem_unknownAtRule h) _
  intro entry hentry
  exact tandem_nearsighted h ((List.mem_append.1 hentry).elim (nearsighted_cssAtRules entry)
    (nearsighted_marginBoxRules entry))

/-! ## Items of closed blocks -/

lemma tandem_nestedRuleset (hguard : s.Guarded) :
    Tandem .css (Yields .css depth) (Yields .css depth') more (nestedRuleset .css) s := by
  have hC := honest_yields .css depth
  have hstarts : s.view.Near (fun v => startsSelector .css v && !startsDeclaration v) := by
    intro w hagrees
    have hident := near_startsIdent w hagrees
    have hreach := hagrees.reach
    grind [startsSelector, startsDeclaration, View.isAny, View.is, View.SameAt]
  refine tandem_when hC hstarts fun _ => tandem_node _ ?_
  refine tandem_and hC ?_ fun _ s' _ _ => tandem_nearsighted h (by simp)
  have hselectors : Nearsighted (seq (call .selectors) fun matched =>
      rulesetGuard .css >> test (fun v => matched && v.is 0 .leftBrace)) s.view := by
    have hbrace : ∀ (matched : Bool) v, View.Near (fun v => matched && v.is 0 .leftBrace) v := by
      intro matched v w hagrees
      simp [View.is, hagrees.reach.2.1.1]
    simp [Nonterminal.IsSteady, hbrace]
  have hspares : Spares .css false (seq (call .selectors) fun matched =>
      rulesetGuard .css >> test (fun v => matched && v.is 0 .leftBrace)) false s.view := by
    simp [Nonterminal.Due, Nonterminal.isInner]
  exact (sync_of_guarded (tandem_nearsighted h hselectors) hspares hguard).attempt.tandem

lemma tandem_blockItem (hguard : s.Guarded) :
    Tandem .css (Yields .css depth) (Yields .css depth') more (blockItem .css) s := by
  have hC := honest_yields .css depth
  refine tandem_choose hC (View.near_is _) (fun _ => h.steady (.atRule true) trivial s) fun _ => ?_
  refine tandem_or hC (tandem_or hC (tandem_done false) fun _ s' _ hread => ?_)
    fun _ s' _ _ => h.steady .declaration trivial s'
  obtain ⟨-, -, rfl⟩ := reads_done.1 hread
  exact h.nested s' hguard

end

/-! ## All nonterminals -/

/-- Nonterminals keep pace, if what their rules call does. -/
lemma Coupled.succ {depth depth' : Nat} {more : List Token}
    (h : Coupled more (Yields .css depth) (Yields .css depth')) :
    Coupled more (Yields .css (depth + 1)) (Yields .css (depth' + 1)) := by
  have hcall : ∀ name s,
      Tandem .css (Yields .css depth) (Yields .css depth') more (rule .css name) s →
      Tandem .css (Yields .css (depth + 1)) (Yields .css (depth' + 1)) more (call name) s :=
    fun name s hrule t m y s' m' y' t' hfront hs ht =>
      hrule t m y s' m' y' t' hfront (reads_call.1 hs) (reads_call.1 ht)
  refine ⟨fun name hname s => hcall name s ?_,
    fun s hguard => hcall _ s (tandem_blockItem h hguard),
    fun s hguard => hcall _ s (tandem_nestedRuleset h hguard),
    fun item missing s hopens hguard => ?_⟩
  · cases name with
    | balanced => exact tandem_nearsighted h nearsighted_balanced
    | statement => exact tandem_nearsighted h nearsighted_statement
    | keyframe => exact tandem_nearsighted h nearsighted_keyframe
    | block item missing => exact tandem_block h item missing
    | ruleset nested => exact tandem_nearsighted h nearsighted_ruleset
    | declaration => exact tandem_declaration h
    | property => exact tandem_nearsighted h nearsighted_property
    | ident => exact tandem_nearsighted h nearsighted_ident
    | interpolation => exact tandem_done false
    | selectors => exact tandem_nearsighted h nearsighted_selectors
    | selector => exact tandem_nearsighted h nearsighted_selector
    | combinator => exact tandem_nearsighted h nearsighted_combinator
    | simpleSelector => exact tandem_nearsighted h nearsighted_simpleSelector
    | expression single => exact tandem_nearsighted h (nearsighted_expression single)
    | binary level => exact tandem_nearsighted h (nearsighted_binary level)
    | term => exact tandem_nearsighted h nearsighted_term
    | unsignedTerm => exact tandem_nearsighted h nearsighted_unsignedTerm
    | arguments => exact tandem_nearsighted h nearsighted_arguments
    | argument => exact tandem_nearsighted h nearsighted_argument
    | atRule nested => exact tandem_atRule h
    | mediaQueryList => exact tandem_nearsighted h nearsighted_mediaQueryList
    | mediaQuery => exact tandem_nearsighted h nearsighted_mediaQuery
    | mediaCondition => exact tandem_nearsighted h nearsighted_mediaCondition
    | supportsCondition => exact tandem_nearsighted h nearsighted_supportsCondition
    | dialectAtRule nested => exact tandem_done false
    | _ => cases hname
  · intro t m y s' m' y' t' hfront hs ht
    exact sync_block h item missing hopens hguard t m y s' m' y' t' hfront (reads_call.1 hs)
      (reads_call.1 ht)

/-- Where nothing is read there is nothing to compare. -/
lemma coupled_of_silent {more : List Token} {C C' : Calls}
    (h : ∀ name s m y s' t m' y' t', C name s m y s' → ¬ C' name t m' y' t') :
    Coupled more C C' where
  steady _ _ _ _ _ _ _ _ _ _ _ hs ht :=
    absurd (reads_call.1 ht) (h _ _ _ _ _ _ _ _ _ (reads_call.1 hs))
  item _ _ _ _ _ _ _ _ _ _ hs ht := absurd (reads_call.1 ht) (h _ _ _ _ _ _ _ _ _ (reads_call.1 hs))
  nested _ _ _ _ _ _ _ _ _ _ hs ht :=
    absurd (reads_call.1 ht) (h _ _ _ _ _ _ _ _ _ (reads_call.1 hs))
  sealed _ _ _ _ _ _ _ _ _ _ _ _ _ hs ht :=
    absurd (reads_call.1 ht) (h _ _ _ _ _ _ _ _ _ (reads_call.1 hs))

/-- The nonterminals of CSS keep pace with themselves when more tokens follow behind a closing
brace. -/
theorem coupled_yields (more : List Token) (depth depth' : Nat) :
    Coupled more (Yields .css depth) (Yields .css depth') := by
  induction depth generalizing depth' with
  | zero => exact coupled_of_silent fun _ _ _ _ _ _ _ _ _ hs => by cases hs
  | succ depth ih =>
      cases depth' with
      | zero =>
          refine coupled_of_silent fun _ _ _ _ _ _ _ _ _ _ ht => ?_
          cases ht
      | succ depth' => exact (ih depth').succ

end Grammar

end StyleSheet
