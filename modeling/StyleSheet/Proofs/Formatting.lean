import Mathlib
import StyleSheet.Proofs.Boundary
import StyleSheet.Proofs.Likeness
import StyleSheet.Proofs.OneTree

/-!
# White space and comments do not change the structure

Two sources with the same significant tokens and gaps at the same places have the same tree, as far
as white space and comments are left out of it, and the same faults (`parse_ignores_trivia`). What a
gap is made of does not matter, nor what stands before the first significant token.

The parsers of the two sources are alike to the end, so they hand over the same steps. The builders,
which put white space and comments back, are then compared step by step without them.
-/

namespace StyleSheet

open Token

namespace Tree

/-! ## Trees without white space and comments -/

/-- Whether the tree is a leaf of white space or a comment. -/
def isTrivia : Tree → Bool
  | leaf kind _ => kind.isTrivia
  | node .. => false

mutual

/-- The tree without white space and comments. -/
def bare : Tree → Tree
  | leaf kind text => leaf kind text
  | node kind cs => node kind (bareOf cs)

/-- A row of trees without white space and comments. -/
def bareOf : List Tree → List Tree
  | [] => []
  | c :: cs => if c.isTrivia then bareOf cs else c.bare :: bareOf cs

end

lemma bareOf_cons_trivia {c : Tree} (h : c.isTrivia = true) (cs : List Tree) :
    bareOf (c :: cs) = bareOf cs := by
  rw [bareOf, if_pos h]

lemma bareOf_cons {c : Tree} (h : c.isTrivia = false) (cs : List Tree) :
    bareOf (c :: cs) = c.bare :: bareOf cs := by
  rw [bareOf, h]
  rfl

lemma bareOf_eq (cs : List Tree) : bareOf cs = (cs.filter (!·.isTrivia)).map bare := by
  induction cs with
  | nil => rfl
  | cons c cs ih =>
      cases h : c.isTrivia with
      | true => rw [bareOf_cons_trivia h, ih, List.filter_cons_of_neg (by simp [h])]
      | false => rw [bareOf_cons h, ih, List.filter_cons_of_pos (by simp [h]), List.map_cons]

lemma bareOf_reverse (cs : List Tree) : bareOf cs.reverse = (bareOf cs).reverse := by
  rw [bareOf_eq, bareOf_eq, List.filter_reverse, List.map_reverse]

/-! ## Builders that differ in white space and comments -/

/-- An open node without white space and comments. -/
def Frame.bare (f : Frame) : NodeKind × List Tree := (f.kind, bareOf f.parts)

namespace Builder

/-- The builders differ in white space, comments and offsets only. -/
structure Alike (b c : Builder) : Prop where
  frames : b.frames.map Frame.bare = c.frames.map Frame.bare
  pending : (significant b.pending).map Token.leaf = (significant c.pending).map Token.leaf
  roots : bareOf b.roots = bareOf c.roots
  faults : b.diagnostics.map Diagnostic.fault = c.diagnostics.map Diagnostic.fault

namespace Alike

variable {b c : Builder}

lemma refl (b : Builder) : Alike b b := ⟨rfl, rfl, rfl, rfl⟩

lemma symm (h : Alike b c) : Alike c b :=
  ⟨h.frames.symm, h.pending.symm, h.roots.symm, h.faults.symm⟩

lemma trans {e : Builder} (h : Alike b c) (h' : Alike c e) : Alike b e :=
  ⟨h.frames.trans h'.frames, h.pending.trans h'.pending, h.roots.trans h'.roots,
    h.faults.trans h'.faults⟩

lemma depth (h : Alike b c) : b.frames.length = c.frames.length := by
  simpa using congrArg List.length h.frames

lemma frames_nil (h : Alike b c) (hb : b.frames = []) : c.frames = [] := by
  have hdepth := h.depth
  rw [hb] at hdepth
  exact List.length_eq_zero_iff.1 hdepth.symm

lemma frames_cons (h : Alike b c) {f : Frame} {rest : List Frame} (hb : b.frames = f :: rest) :
    ∃ f' rest', c.frames = f' :: rest' ∧ f.kind = f'.kind ∧ bareOf f.parts = bareOf f'.parts ∧
      rest.map Frame.bare = rest'.map Frame.bare := by
  have hframes := h.frames
  rw [hb, List.map_cons] at hframes
  obtain ⟨f', rest', hc, hfirst, hrest⟩ := List.map_eq_cons_iff.1 hframes.symm
  obtain ⟨hkind, hparts⟩ := Prod.mk.inj hfirst
  exact ⟨f', rest', hc, hkind.symm, hparts.symm, hrest.symm⟩

/-- White space and comments make no difference. -/
lemma add_trivia (b : Builder) (part : Tree) (h : part.isTrivia = true) : Alike (b.add part) b := by
  rcases hb : b.frames with _ | ⟨f, rest⟩
  · rw [add_of_nil hb]
    exact { refl b with roots := bareOf_cons_trivia h _ }
  · rw [add_of_cons hb]
    exact { refl b with frames := by simp [hb, Frame.bare, bareOf_cons_trivia h] }

/-- Other parts are added to both builders. -/
lemma add (h : Alike b c) {part part' : Tree} (hpart : part.isTrivia = false)
    (hpart' : part'.isTrivia = false) (hbare : part.bare = part'.bare) :
    Alike (b.add part) (c.add part') := by
  rcases hb : b.frames with _ | ⟨f, rest⟩
  · rw [add_of_nil hb, add_of_nil (h.frames_nil hb)]
    exact { h with roots := by rw [bareOf_cons hpart, bareOf_cons hpart', hbare, h.roots] }
  · obtain ⟨f', rest', hc, hkind, hparts, hrest⟩ := h.frames_cons hb
    rw [add_of_cons hb, add_of_cons hc]
    refine { h with frames := ?_ }
    rw [List.map_cons, List.map_cons, hrest, Frame.bare, Frame.bare, hkind, bareOf_cons hpart,
      bareOf_cons hpart', hbare, hparts]

lemma addTokens_trivia (b : Builder) {l : List Token} (h : ∀ t ∈ l, t.isTrivia = true) :
    Alike (b.addTokens l) b := by
  induction l generalizing b with
  | nil => exact refl b
  | cons t l ih =>
      have hfirst := add_trivia b (.leaf t.kind t.text) (h t (by simp))
      exact (ih (b.add (.leaf t.kind t.text)) fun u hu => h u (by simp [hu])).trans hfirst

lemma addTokens (h : Alike b c) (l : List Token) : Alike (b.addTokens l) (c.addTokens l) := by
  induction l generalizing b c with
  | nil => exact h
  | cons t l ih =>
      refine ih ?_
      cases ht : t.isTrivia with
      | true =>
          have htrivia : ∀ b : Builder, Alike (b.add (.leaf t.kind t.text)) b :=
            fun b => add_trivia b _ ht
          exact (htrivia b).trans (h.trans (htrivia c).symm)
      | false => exact h.add ht ht rfl

/-- Only the significant ones among the tokens make a difference. -/
lemma addTokens_significant (b : Builder) (l : List Token) :
    Alike (b.addTokens l) (b.addTokens (significant l)) := by
  induction l generalizing b with
  | nil => exact refl b
  | cons t l ih =>
      cases ht : t.isTrivia with
      | true =>
          rw [significant_cons_trivia ht]
          have hfirst := add_trivia b (.leaf t.kind t.text) ht
          exact (ih (b.add (.leaf t.kind t.text))).trans (hfirst.addTokens (significant l))
      | false =>
          rw [significant_cons ht]
          exact ih (b.add (.leaf t.kind t.text))

end Alike

lemma addTokens_congr (b : Builder) {l l' : List Token} (h : l.map Token.leaf = l'.map Token.leaf) :
    b.addTokens l = b.addTokens l' := by
  have hfold : ∀ l : List Token, b.addTokens l =
      (l.map Token.leaf).foldl (fun b x => b.add (.leaf x.kind x.text)) b := by
    intro l
    rw [List.foldl_map]
    rfl
  rw [hfold, h, hfold]

/-! ## The steps -/

namespace Alike

variable {b c : Builder}

lemma addTrivia (b : Builder) : Alike b.addTrivia b := by
  set trivia := b.pending.takeWhile Token.isTrivia
  have hadd := addTokens_trivia { b with pending := b.pending.drop trivia.length } (l := trivia)
    fun t ht => List.mem_takeWhile_imp ht
  exact ⟨hadd.frames, by rw [significant_addTrivia], hadd.roots, hadd.faults⟩

lemma openNode (h : Alike b c) (kind : NodeKind) : Alike (b.openNode kind) (c.openNode kind) := by
  have hopen : ∀ {b c : Builder}, Alike b c → Alike { b with frames := ⟨kind, []⟩ :: b.frames }
      { c with frames := ⟨kind, []⟩ :: c.frames } := by
    intro b c h
    exact { h with frames := by rw [List.map_cons, List.map_cons, h.frames] }
  have htrivia : ∀ b : Builder, Alike (if b.frames.isEmpty then b else b.addTrivia) b := by
    intro b
    split
    · exact refl b
    · exact addTrivia b
  exact hopen ((htrivia b).trans (h.trans (htrivia c).symm))

/-- If a significant token comes next in one builder, one with the same leaf comes next in the
other. -/
lemma next (h : Alike b c) {t : Token} {rest : List Token} (hb : b.addTrivia.pending = t :: rest) :
    ∃ t' rest', c.addTrivia.pending = t' :: rest' ∧ t.leaf = t'.leaf ∧
      (significant rest).map Token.leaf = (significant rest').map Token.leaf := by
  have hpending := h.pending
  rw [← significant_addTrivia b, ← significant_addTrivia c, hb, significant_cons (isTrivia_next hb)]
    at hpending
  rcases hc : c.addTrivia.pending with _ | ⟨t', rest'⟩
  · rw [hc] at hpending
    cases hpending
  · rw [hc, significant_cons (isTrivia_next hc)] at hpending
    obtain ⟨hleaf, hrest⟩ := List.cons.inj hpending
    exact ⟨t', rest', rfl, hleaf, hrest⟩

lemma token (h : Alike b c) : Alike b.token c.token := by
  have htrivia := (addTrivia b).trans (h.trans (addTrivia c).symm)
  rcases hb : b.addTrivia.pending with _ | ⟨t, rest⟩
  · have hc : c.addTrivia.pending = [] := by
      rcases hc : c.addTrivia.pending with _ | ⟨t', rest'⟩
      · rfl
      · obtain ⟨t, rest, hb', -⟩ := h.symm.next hc
        rw [hb] at hb'
        cases hb'
    rw [Builder.token, hb, Builder.token, hc]
    exact htrivia
  · obtain ⟨t', rest', hc, hleaf, hrest⟩ := h.next hb
    have hrests :
        Alike { b.addTrivia with pending := rest } { c.addTrivia with pending := rest' } :=
      { htrivia with pending := hrest }
    rw [Builder.token, hb, Builder.token, hc]
    refine hrests.add (isTrivia_next hb) (isTrivia_next hc) ?_
    have hkind : t.kind = t'.kind := congrArg Leaf.kind hleaf
    have htext : t.text = t'.text := congrArg Leaf.text hleaf
    rw [hkind, htext]

lemma report (h : Alike b c) (length length' : Nat) (f : Fault) :
    Alike (b.report length f) (c.report length' f) := by
  have htrivia := (addTrivia b).trans (h.trans (addTrivia c).symm)
  rw [report_eq, report_eq]
  refine add ?_ rfl rfl rfl
  refine { htrivia with faults := ?_ }
  rw [List.map_cons, List.map_cons, fault_diagnosticBefore, fault_diagnosticBefore, htrivia.faults]

/-- The tokens that are left are added to the root. -/
lemma addRest (h : Alike b c) : Alike b.addRest c.addRest := by
  have hempty : Alike { b with pending := [] } { c with pending := [] } := { h with pending := rfl }
  have hleft := addTokens_significant { b with pending := [] } b.pending
  have hright := addTokens_significant { c with pending := [] } c.pending
  rw [addTokens_congr _ h.pending] at hleft
  exact hleft.trans ((hempty.addTokens _).trans hright.symm)

lemma closeNode (h : Alike b c) : Alike b.closeNode c.closeNode := by
  have hrest : Alike (if b.frames.length = 1 then b.addRest else b)
      (if c.frames.length = 1 then c.addRest else c) := by
    rw [h.depth]
    split
    · exact h.addRest
    · exact h
  rw [Builder.closeNode, Builder.closeNode]
  revert hrest
  generalize (if b.frames.length = 1 then b.addRest else b) = b
  generalize (if c.frames.length = 1 then c.addRest else c) = c
  intro h
  rcases hb : b.frames with _ | ⟨f, rest⟩
  · rw [h.frames_nil hb]
    exact h
  · obtain ⟨f', rest', hc, hkind, hparts, hrest⟩ := h.frames_cons hb
    rw [hc]
    have hpop : Alike { b with frames := rest } { c with frames := rest' } :=
      { h with frames := hrest }
    refine hpop.add rfl rfl ?_
    rw [bare, bare, bareOf_reverse, bareOf_reverse, hkind, hparts]

lemma step (h : Alike b c) (length length' : Nat) (s : Step) :
    Alike (b.step length s) (c.step length' s) := by
  cases s with
  | opening kind => exact h.openNode kind
  | token => exact h.token
  | closing => exact h.closeNode
  | fault f => exact h.report length length' f

lemma run (length length' : Nat) {tokens tokens' : List Token}
    (h : (significant tokens).map Token.leaf = (significant tokens').map Token.leaf)
    (steps : List Step) : Alike (run length tokens steps) (run length' tokens' steps) := by
  have hsteps : ∀ (steps : List Step) (b c : Builder), Alike b c →
      Alike (steps.foldl (Builder.step length) b) (steps.foldl (Builder.step length') c) := by
    intro steps
    induction steps with
    | nil => exact fun b c h => h
    | cons s steps ih => exact fun b c h => ih _ _ (h.step length length' s)
  exact hsteps steps _ _ ⟨rfl, h, rfl, rfl⟩

end Alike

end Builder

end Tree

/-! ## Sources -/

section

variable (d : Dialect) (entry : Entry) {source source' : Text}

/-- Parsers that are alike at first are alike after the sources have been read. -/
lemma alike_readSource (hwhole : ∀ t ∈ read d source, t.isWhole = true)
    (hwhole' : ∀ t ∈ read d source', t.isWhole = true)
    (h : (Parser.ofSource d source).Alike (Parser.ofSource d source')) :
    (readSource d entry source).Alike (readSource d entry source') := by
  obtain ⟨o, ho, hread⟩ := Entry.exists_outcome d entry source
  obtain ⟨o', ho', hread'⟩ := Entry.exists_outcome d entry source'
  -- The longer source needs the greater bound, which does for the other one as well.
  set bound := max (Grammar.bound source.length) (Grammar.bound source'.length)
  have hagree := Parser.exec_agree hwhole hwhole' (Grammar.tame_run bound) (Grammar.tame_run bound)
    (Parser.run_agree hwhole hwhole' bound) bound (Entry.total_rule d entry).nested _ _
    ⟨.ofSource d source, .ofSource d source', h⟩
  have hleft := ho bound (le_max_left _ _)
  have hright := ho' bound (le_max_right _ _)
  rw [Grammar.exec] at hleft hright
  rcases hagree with ⟨hnone, -⟩ | ⟨matched, p, q, hp, hq, halike⟩
  · rw [hleft] at hnone
    cases hnone
  · rw [hleft] at hp
    rw [hright] at hq
    rw [hread, hread', Option.some.inj hp, Option.some.inj hq]
    exact halike

/-- Parsers that are alike in the end give the same structure. -/
lemma bare_parse (h : (readSource d entry source).Alike (readSource d entry source')) :
    (parse d entry source).root.tree.bare = (parse d entry source').root.tree.bare ∧
      (parse d entry source).diagnostics.map Diagnostic.fault =
        (parse d entry source').diagnostics.map Diagnostic.fault := by
  have htokens := leaves_eq h.outline
  rw [(Entry.consistent_readSource d entry source).stream,
    (Entry.consistent_readSource d entry source').stream] at htokens
  have hbuilt : (built d entry source).Alike (built d entry source') := by
    have hrun := Tree.Builder.Alike.run source.length source'.length htokens
      (Event.steps (readSource d entry source).events)
    rw [built, built, ← h.events]
    exact hrun
  obtain ⟨-, -, kind, cs, hroots, hroot⟩ := built_root d entry source
  obtain ⟨-, -, kind', cs', hroots', hroot'⟩ := built_root d entry source'
  constructor
  · have hbare := hbuilt.roots
    rw [hroots, hroots', Tree.bareOf_cons rfl, Tree.bareOf_cons rfl] at hbare
    rw [hroot, hroot']
    exact (List.cons.inj hbare).1
  · show (built d entry source).diagnostics.reverse.map Diagnostic.fault =
      (built d entry source').diagnostics.reverse.map Diagnostic.fault
    rw [List.map_reverse, List.map_reverse, hbuilt.faults]

end

/-- If no token of two sources ends inside of a character, their significant tokens have the same
kinds and texts, and gaps stand behind the same ones of them, then their trees are the same up to
white space and comments, and so are the faults. -/
theorem parse_ignores_trivia (d : Dialect) (entry : Entry) (s s' : String)
    (hwhole : ∀ t ∈ read d (Text.ofString s), ¬ InsideCharacter s.toList t.stop)
    (hwhole' : ∀ t ∈ read d (Text.ofString s'), ¬ InsideCharacter s'.toList t.stop)
    (htokens : (readSignificant d (Text.ofString s)).map Token.leaf =
      (readSignificant d (Text.ofString s')).map Token.leaf)
    (hgaps : gaps (read d (Text.ofString s)) = gaps (read d (Text.ofString s'))) :
    (parse d entry (Text.ofString s)).root.tree.bare =
        (parse d entry (Text.ofString s')).root.tree.bare ∧
      (parse d entry (Text.ofString s)).diagnostics.map Diagnostic.fault =
        (parse d entry (Text.ofString s')).diagnostics.map Diagnostic.fault := by
  refine bare_parse d entry (alike_readSource d entry ((whole_iff d s).2 hwhole)
    ((whole_iff d s').2 hwhole') ⟨rfl, rfl, rfl, rfl, ?_⟩)
  have houtline : ∀ source : Text, (Parser.ofSource d source).stream.outline =
      ((readSignificant d source).map Token.leaf).zip (gaps (read d source)) := by
    intro source
    have htiles := readFrom_tiles d 0 source
    rw [Nat.zero_add] at htiles
    exact outline_significant htiles
  rw [houtline, houtline, htokens, hgaps]

/-- A range that is cut, in sources with a fault. -/
theorem parse_ignores_trivia_cut :
    (readSource .css .stylesheet (Text.ofString "a u+b >\x7bc: d")).cuts.length = 1 ∧
      (parse .css .stylesheet (Text.ofString "a u+b >\x7bc: d")).root.tree.bare =
        (parse .css .stylesheet (Text.ofString " /**/a\n\tu+b/*é*/>\x7bc:/**/ d")).root.tree.bare ∧
      (parse .css .stylesheet (Text.ofString "a u+b >\x7bc: d")).diagnostics.map Diagnostic.fault =
        (parse .css .stylesheet
          (Text.ofString " /**/a\n\tu+b/*é*/>\x7bc:/**/ d")).diagnostics.map Diagnostic.fault :=
  ⟨by decide +kernel,
    parse_ignores_trivia .css .stylesheet _ _ ((whole_iff _ _).1 (by decide +kernel))
    ((whole_iff _ _).1 (by decide +kernel)) (by decide +kernel) (by decide +kernel)⟩

end StyleSheet
