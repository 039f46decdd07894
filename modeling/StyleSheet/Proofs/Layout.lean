import Mathlib
import StyleSheet.Proofs.Marks
import StyleSheet.Proofs.Shape

/-!
# Laying out a yield

The builder carries out one step after another. `Yield.layout` says what comes out of it, part by
part: the white space and the comments before a part go where the part goes, a token becomes a leaf,
a fault an empty error node, and a node is laid out over what comes next. This is what the builder
does (`foldl_layout`), so a parsed tree is the layout of what its source yields, with the rest of
the tokens behind it (`exists_layout_parse`).

White space and comments are added only before another part, which goes to the same node. So no node
but the root begins or ends with them.
-/

namespace StyleSheet

open Token

/-- A token as a part of a tree. -/
def Token.tree (t : Token) : Tree := .leaf t.kind t.text

@[simp] lemma Token.isTrivia_tree (t : Token) : t.tree.isTrivia = t.isTrivia := rfl

/-! ## Layouts -/

/-- What becomes of a yield that is laid out over tokens. -/
structure Layout where
  /-- The parts in order. -/
  parts : List Tree
  /-- The diagnostics of the faults in order. -/
  diagnostics : List Diagnostic
  /-- The tokens that are left. -/
  rest : List Token

namespace Yield

/-- Lays out a yield over the tokens of a source of `length` bytes. -/
def layout (length : Nat) : Yield → List Token → Layout
  | nil, l => ⟨[], [], l⟩
  | token _ rest, l =>
    let next := l.dropWhile Token.isTrivia
    let behind := rest.layout length (next.drop 1)
    { behind with parts :=
      (l.takeWhile Token.isTrivia ++ next.take 1).map Token.tree ++ behind.parts }
  | fault f rest, l =>
    let next := l.dropWhile Token.isTrivia
    let behind := rest.layout length next
    { behind with
      parts := (l.takeWhile Token.isTrivia).map Token.tree ++ .node .error [] :: behind.parts
      diagnostics := Tree.Builder.diagnosticBefore length f next :: behind.diagnostics }
  | node kind inner rest, l =>
    let inside := inner.layout length (l.dropWhile Token.isTrivia)
    let behind := rest.layout length inside.rest
    { behind with
      parts :=
        (l.takeWhile Token.isTrivia).map Token.tree ++ .node kind inside.parts :: behind.parts
      diagnostics := inside.diagnostics ++ behind.diagnostics }

end Yield

/-! ## The builder lays out -/

namespace Tree.Builder

lemma addTrivia_of_cons (f : Frame) (frames : List Frame) (pending : List Token) (roots : List Tree)
    (diagnostics : List Diagnostic) :
    addTrivia ⟨f :: frames, pending, roots, diagnostics⟩ =
      ⟨⟨f.kind, ((pending.takeWhile Token.isTrivia).map Token.tree).reverse ++ f.parts⟩ :: frames,
        pending.dropWhile Token.isTrivia, roots, diagnostics⟩ := by
  have hdrop : pending.drop (pending.takeWhile Token.isTrivia).length =
      pending.dropWhile Token.isTrivia := by
    nth_rewrite 2 [← List.takeWhile_append_dropWhile (p := Token.isTrivia) (l := pending)]
    exact List.drop_left
  rw [addTrivia]
  dsimp only
  rw [hdrop]
  exact addTokens_of_cons f frames _ roots diagnostics _

/-- The steps of a yield add its layout to the innermost open node. -/
theorem foldl_layout (length : Nat) (y : Yield) (f : Frame) (frames : List Frame)
    (pending : List Token) (roots : List Tree) (diagnostics : List Diagnostic) :
    y.steps.foldl (step length) ⟨f :: frames, pending, roots, diagnostics⟩ =
      ⟨⟨f.kind, (y.layout length pending).parts.reverse ++ f.parts⟩ :: frames,
        (y.layout length pending).rest, roots,
        (y.layout length pending).diagnostics.reverse ++ diagnostics⟩ := by
  induction y generalizing f frames pending diagnostics with
  | nil => rfl
  | token t rest ih =>
      rw [Yield.steps, List.foldl_cons, step, token, addTrivia_of_cons]
      cases hnext : pending.dropWhile Token.isTrivia with
      | nil => simp [ih, Yield.layout, hnext]
      | cons u behind => simp [ih, Yield.layout, hnext, add, Token.tree]
  | fault e rest ih =>
      rw [Yield.steps, List.foldl_cons, step, report_eq, addTrivia_of_cons]
      simp [ih, Yield.layout, add]
  | node kind inner rest ih ih' =>
      have hopen : openNode ⟨f :: frames, pending, roots, diagnostics⟩ kind =
          ⟨⟨kind, []⟩ :: ⟨f.kind,
            ((pending.takeWhile Token.isTrivia).map Token.tree).reverse ++ f.parts⟩ :: frames,
            pending.dropWhile Token.isTrivia, roots, diagnostics⟩ := by
        rw [openNode, if_neg (by simp), addTrivia_of_cons]
      rw [Yield.steps, List.foldl_cons, step, hopen, List.foldl_append, ih, List.foldl_cons, step,
        closeNode, if_neg (by simp)]
      simp [add, ih', Yield.layout]

/-- The steps of a node build its layout, and the outermost node takes the tokens that are left. -/
theorem run_layout (length : Nat) (tokens : List Token) (kind : NodeKind) (y : Yield) :
    run length tokens (.opening kind :: (y.steps ++ [.closing])) =
      ⟨[], [], [.node kind ((y.layout length tokens).parts ++
        (y.layout length tokens).rest.map Token.tree)],
        (y.layout length tokens).diagnostics.reverse⟩ := by
  have hopen : step length (ofTokens tokens) (.opening kind) = ⟨[⟨kind, []⟩], tokens, [], []⟩ := rfl
  rw [run, List.foldl_cons, List.foldl_append, hopen, foldl_layout, List.foldl_cons,
    List.foldl_nil, step, closeNode_of_singleton]
  simp only [List.append_nil, List.reverse_reverse]
  rfl

end Tree.Builder

/-- What is read from a source yields one node, and the tree is its layout over the tokens that the
parser has in the end. -/
theorem exists_layout_parse (d : Dialect) (entry : Entry) (source : Text) :
    ∃ kind y s, (∀ bound, Grammar.bound source.length ≤ bound →
        Rule.Reads d (Grammar.Yields d bound) (.rule entry.rule) (.ofSource d source) true
          (.node kind y .nil) s) ∧
      let tokens := (readSource d entry source).tokens.toList
      significant tokens = y.tokens ++ s.ahead ∧
      (parse d entry source).root = .ofNode kind
        ((y.layout source.length tokens).parts ++
          (y.layout source.length tokens).rest.map Token.tree) ∧
      (parse d entry source).diagnostics = (y.layout source.length tokens).diagnostics ∧
      ((parse d entry source).complete = true ↔ s.ahead = []) := by
  obtain ⟨kind, y, s, hreads, hsteps, htokens, hspot⟩ := Entry.yield_readSource d entry source
  refine ⟨kind, y, s, hreads, htokens, ?_, ?_, ?_⟩
  · rw [parse, Parsed.ofParser, hsteps, Tree.Builder.run_layout]
    rfl
  · rw [parse, Parsed.ofParser, hsteps, Tree.Builder.run_layout]
    simp
  · rw [← hspot, Parser.spot, Stream.spot, List.drop_eq_nil_iff]
    simp [parse, Parsed.ofParser, Stream.isExhausted]

/-! ## The tokens in the end -/

/-- A cut leaves white space and comments alone. -/
lemma Parser.CutHistory.filter_isTrivia {d : Dialect} {hi : Nat} {a b : List Token}
    {cuts : List Cut} (h : CutHistory d a cuts b) (ha : Row hi a) :
    b.filter Token.isTrivia = a.filter Token.isTrivia := by
  induction h with
  | nil => rfl
  | cons hbefore hstep ih =>
      rw [← ih]
      have hrow := hbefore.row ha
      obtain ⟨before, range, glued, behind, hrun⟩ := hstep
      have hrun' : ∀ t ∈ range :: glued, t.Regular := fun t ht => hrow.regular t (mem_run ht)
      have hold : (range :: glued).filter Token.isTrivia = [] := by
        rw [← hrun.significant, significant, List.filter_filter]
        simp
      have hnew : (rangePieces d range glued).filter Token.isTrivia = [] := by
        rw [List.filter_eq_nil_iff]
        exact fun t ht => by simp [hrun.pieces_significant d hrun' t ht]
      simp only [List.filter_append, hold, hnew]

namespace Token.Ordered

variable {lo lo' hi hi' : Nat} {l l' : List Token}

lemma pairwise_start (h : Ordered lo l hi) : l.Pairwise fun a b => a.start < b.start := by
  refine h.pairwise.imp_of_mem ?_
  rintro a b ha - hab
  exact (h.mem ha).2.1.trans_le hab

/-- Rows with the same significant tokens and the same other ones are equal: where a token stands
among the others is a matter of its offset. -/
lemma eq_of_significant (h : Ordered lo l hi) (h' : Ordered lo' l' hi')
    (htrivia : l.filter Token.isTrivia = l'.filter Token.isTrivia)
    (hsignificant : significant l = significant l') : l = l' := by
  have hperm : l.Perm l' :=
    calc l.Perm (l.filter Token.isTrivia ++ significant l) := (List.filter_append_perm _ l).symm
      _ = l'.filter Token.isTrivia ++ significant l' := by rw [htrivia, hsignificant]
      List.Perm _ l' := List.filter_append_perm _ l'
  exact hperm.eq_of_pairwise
    (fun a b _ _ hab hba => absurd hab (Nat.lt_asymm hba)) h.pairwise_start h'.pairwise_start

end Token.Ordered

/-! ## White space and comments inside of nodes -/

namespace Yield

variable {length : Nat} {y : Yield} {l r : List Token}

/-- The first of some significant tokens, behind white space and comments. -/
lemma dropWhile_eq_cons {t : Token} (h : significant l = t :: r) :
    ∃ behind, l.dropWhile Token.isTrivia = t :: behind ∧ t.isTrivia = false ∧
      significant behind = r := by
  obtain ⟨trivia, behind, rfl, htrivia, ht, hbehind⟩ := List.filter_eq_cons_iff.1 h
  have hkind : t.isTrivia = false := by simpa using ht
  refine ⟨behind, ?_, hkind, hbehind⟩
  rw [List.dropWhile_append_of_pos (by simpa using htrivia),
    List.dropWhile_cons_of_neg (by simp [hkind])]

/-- A layout takes the tokens of the yield and leaves the other ones. -/
lemma significant_rest (h : significant l = y.tokens ++ r) :
    significant (y.layout length l).rest = r := by
  induction y generalizing l r with
  | nil => exact h
  | token t rest ih =>
      obtain ⟨behind, hnext, -, hbehind⟩ := dropWhile_eq_cons h
      simpa [layout, hnext] using ih hbehind
  | fault f rest ih => exact ih ((significant_dropWhile l).trans h)
  | node kind inner rest ih ih' =>
      rw [tokens, List.append_assoc] at h
      exact ih' (ih ((significant_dropWhile l).trans h))

/-- A layout does not begin with white space or a comment, unless its tokens do. -/
lemma isTrivia_head_layout (h : significant l = y.tokens ++ r)
    (hl : l.takeWhile Token.isTrivia = []) :
    ∀ t ∈ (y.layout length l).parts.head?, t.isTrivia = false := by
  cases y with
  | nil => simp [layout]
  | token t rest =>
      obtain ⟨behind, hnext, ht, -⟩ := dropWhile_eq_cons h
      simpa [layout, hl, hnext] using ht
  | fault f rest => simp [layout, hl, Tree.isTrivia]
  | node kind inner rest => simp [layout, hl, Tree.isTrivia]

/-- A layout does not end with white space or a comment. -/
lemma isTrivia_last_layout (h : significant l = y.tokens ++ r) :
    ∀ t ∈ (y.layout length l).parts.getLast?, t.isTrivia = false := by
  -- What is added last is the part behind which the rest of the yield is laid out.
  have hlast : ∀ (front : List Tree) {behind : List Tree} {part : Tree}, part.isTrivia = false →
      (∀ t ∈ behind.getLast?, t.isTrivia = false) →
        ∀ t ∈ (front ++ part :: behind).getLast?, t.isTrivia = false := by
    intro front behind part hpart hbehind t ht
    rw [List.getLast?_append_cons, List.getLast?_cons] at ht
    cases hb : behind.getLast? with
    | none => simp_all
    | some u => simp_all
  induction y generalizing l r with
  | nil => simp [layout]
  | token t rest ih =>
      obtain ⟨behind, hnext, ht, hbehind⟩ := dropWhile_eq_cons h
      have hend := hlast ((l.takeWhile Token.isTrivia).map Token.tree)
        ((Token.isTrivia_tree t).trans ht) (ih hbehind)
      simpa [layout, hnext] using hend
  | fault f rest ih => exact hlast _ rfl (ih ((significant_dropWhile l).trans h))
  | node kind inner rest _ ih =>
      rw [tokens, List.append_assoc] at h
      exact hlast _ rfl (ih (significant_rest ((significant_dropWhile l).trans h)))

lemma sitesOf_tokens (above : List Place) (start : Nat) (l : List Token) :
    Tree.sitesOf above start (l.map Token.tree) = [] := by
  induction l generalizing start with
  | nil => rfl
  | cons t l ih => exact ih _

/-- The nodes of a layout neither begin nor end with white space or a comment. -/
lemma isTrivia_sites_layout (h : significant l = y.tokens ++ r) (above : List Place) (start : Nat) :
    ∀ s ∈ Tree.sitesOf above start (y.layout length l).parts,
      (∀ t ∈ s.here.children.head?, t.isTrivia = false) ∧
        ∀ t ∈ s.here.children.getLast?, t.isTrivia = false := by
  induction y generalizing l r above start with
  | nil => simp [layout, Tree.sitesOf]
  | token t rest ih =>
      obtain ⟨behind, hnext, -, hbehind⟩ := dropWhile_eq_cons h
      rw [layout]
      dsimp only
      rw [Tree.sitesOf_append, sitesOf_tokens, List.nil_append, hnext]
      exact ih hbehind above _
  | fault f rest ih =>
      rw [layout]
      dsimp only
      rw [Tree.sitesOf_append, sitesOf_tokens, List.nil_append, Tree.sitesOf, Tree.sites,
        Tree.sitesOf, List.cons_append, List.nil_append, List.forall_mem_cons]
      exact ⟨by simp, ih ((significant_dropWhile l).trans h) above _⟩
  | node kind inner rest ih ih' =>
      rw [tokens, List.append_assoc, ← significant_dropWhile] at h
      rw [layout]
      dsimp only
      rw [Tree.sitesOf_append, sitesOf_tokens, List.nil_append, Tree.sitesOf, Tree.sites,
        List.cons_append, List.forall_mem_cons, List.forall_mem_append]
      -- The white space before the node has gone to the enclosing one.
      have hfirst : (l.dropWhile Token.isTrivia).takeWhile Token.isTrivia = [] := by
        rw [List.takeWhile_eq_nil_iff]
        intro hlt
        simpa using List.dropWhile_get_zero_not Token.isTrivia l hlt
      exact ⟨⟨isTrivia_head_layout h hfirst, isTrivia_last_layout h⟩, ih h _ _,
        ih' (significant_rest h) above _⟩

end Yield

/-- The first and the last part of a node other than the root are no white space and no comment. -/
lemma isTrivia_ends {d : Dialect} {entry : Entry} {source : Text} {s : Site}
    (hs : s ∈ (parse d entry source).root.descendants) (hroot : s.above ≠ []) :
    (∀ t ∈ s.here.children.head?, t.isTrivia = false) ∧
      ∀ t ∈ s.here.children.getLast?, t.isTrivia = false := by
  obtain ⟨kind, y, s₀, -, htokens, hparse, -⟩ := exists_layout_parse d entry source
  rw [hparse, Site.descendants, Site.tree, Place.tree, Tree.sites, List.mem_cons] at hs
  rcases hs with rfl | hs
  · exact absurd rfl hroot
  · rw [Site.ofNode, Tree.sitesOf_append, Yield.sitesOf_tokens, List.append_nil] at hs
    exact Yield.isTrivia_sites_layout htokens _ _ s hs

/-- Only the root of a tree may begin or end with white space or a comment: in all other nodes,
these stand between two other parts. -/
theorem trivia_between_parts (d : Dialect) (entry : Entry) (source : Text) :
    ∀ s ∈ (parse d entry source).root.descendants, s.above ≠ [] →
      (∀ t ∈ s.here.children.head?, t.isTrivia = false) ∧
        (∀ t ∈ s.here.children.getLast?, t.isTrivia = false) ∧
        ∀ before t after, s.here.children = before ++ t :: after → t.isTrivia = true →
          before ≠ [] ∧ after ≠ [] := by
  intro s hs hroot
  have hends := isTrivia_ends hs hroot
  refine ⟨hends.1, hends.2, ?_⟩
  rintro before t after hchildren ht
  rw [hchildren] at hends
  refine ⟨?_, ?_⟩
  · rintro rfl
    cases ht.symm.trans (hends.1 t rfl)
  · rintro rfl
    cases ht.symm.trans (hends.2 t (by simp))

/-- A comment in a block without anything else. -/
theorem trivia_between_parts_block :
    ∃ s ∈ (parse .css .stylesheet (Text.ofString " a \x7b/**/\x7d ")).root.descendants,
      s.above ≠ [] ∧ ∃ before t after, s.here.children = before ++ t :: after ∧ t.isTrivia = true ∧
        before ≠ [] ∧ after ≠ [] := by
  have hmem :=
    List.get_mem (parse .css .stylesheet (Text.ofString " a \x7b/**/\x7d ")).root.descendants
    ⟨6, by decide +kernel⟩
  have hchildren : ((parse .css .stylesheet (Text.ofString " a \x7b/**/\x7d ")).root.descendants.get
      ⟨6, by decide +kernel⟩).here.children = [.leaf .leftBrace (Text.ofString "\x7b")] ++
        .leaf .comment (Text.ofString "/**/") :: [.leaf .rightBrace (Text.ofString "\x7d")] := by
    decide +kernel
  have hbetween := (trivia_between_parts _ _ _ _ hmem (by decide +kernel)).2.2 _ _ _ hchildren rfl
  exact ⟨_, hmem, by decide +kernel, _, _, _, hchildren, rfl, hbetween⟩

end StyleSheet
