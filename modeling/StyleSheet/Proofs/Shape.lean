import Mathlib
import StyleSheet.Proofs.Account
import StyleSheet.Proofs.Formatting

/-!
# The shape of a parsed tree

A parsed tree is, without its white space and comments, what the rule of the entry yields
(`exists_yield_parse`): its nodes are the nodes of the yield, and its diagnostics are the faults. So
a fact about the yields of the grammar is one about all trees.
-/

namespace StyleSheet

open Token

/-! ## Nodes of yields and of trees -/

namespace Yield

/-- A row of tokens. -/
def row : List Token → Yield
  | [] => nil
  | t :: l => token t (row l)

@[simp] lemma tokens_row (l : List Token) : (row l).tokens = l := by
  induction l with
  | nil => rfl
  | cons t l ih => rw [row, tokens, ih]

@[simp] lemma faults_row (l : List Token) : (row l).faults = [] := by
  induction l with
  | nil => rfl
  | cons t l ih => rw [row, faults, ih]

@[simp] lemma trees_row (l : List Token) : (row l).trees = l.map fun t => .leaf t.kind t.text := by
  induction l with
  | nil => rfl
  | cons t l ih => rw [row, trees, ih, List.map_cons]

/-- The tokens that stand outside of all nodes. -/
def direct : Yield → List Token
  | nil => []
  | token t rest => t :: rest.direct
  | fault _ rest => rest.direct
  | node _ _ rest => rest.direct

/-- All nodes with what is inside of them, an enclosing one first. A fault is an empty error
node. -/
def nodes : Yield → List (NodeKind × Yield)
  | nil => []
  | token _ rest => rest.nodes
  | fault _ rest => (.error, nil) :: rest.nodes
  | node kind inner rest => (kind, inner) :: (inner.nodes ++ rest.nodes)

@[simp] lemma nodes_row (l : List Token) : (row l).nodes = [] := by
  induction l with
  | nil => rfl
  | cons t l ih => rw [row, nodes, ih]

@[simp] lemma nodes_append (y z : Yield) : (y ++ z).nodes = y.nodes ++ z.nodes := by
  induction y with
  | nil => rfl
  | token t rest ih => rw [token_append, nodes, nodes, ih]
  | fault f rest ih => rw [fault_append, nodes, nodes, ih, List.cons_append]
  | node kind inner rest _ ih =>
      rw [node_append, nodes, nodes, ih, List.cons_append, List.append_assoc]

end Yield

namespace Tree

mutual

/-- The nodes of a tree without its white space and comments are its nodes without theirs. -/
lemma map_bare_sites (above above' : List Place) (start start' : Nat) :
    ∀ t : Tree, (sites above' start' t.bare).map Site.tree =
      (sites above start t).map fun s => s.tree.bare
  | leaf _ _ => rfl
  | node k cs => by
      rw [bare, sites, sites, List.map_cons, List.map_cons,
        map_bare_sitesOf (⟨k, cs, start⟩ :: above) _ start start' cs]
      rfl

/-- The nodes of a row of trees without its white space and comments. -/
lemma map_bare_sitesOf (above above' : List Place) (start start' : Nat) :
    ∀ cs : List Tree, (sitesOf above' start' (bareOf cs)).map Site.tree =
      (sitesOf above start cs).map fun s => s.tree.bare
  | [] => rfl
  | c :: cs => by
      rw [sitesOf, List.map_append]
      cases hc : c.isTrivia with
      | true =>
          rw [bareOf_cons_trivia hc, map_bare_sitesOf above above' (start + c.length) start' cs]
          cases c with
          | leaf k t => rfl
          | node k ds => cases hc
      | false =>
          rw [bareOf_cons hc, sitesOf, List.map_append, map_bare_sites above above' start start' c,
            map_bare_sitesOf above above' (start + c.length) _ cs]

end

/-- The nodes of the trees of a yield are those of the yield. -/
lemma map_tree_sitesOf (above : List Place) (start : Nat) (y : Yield) :
    (sitesOf above start y.trees).map Site.tree = y.nodes.map fun n => .node n.1 n.2.trees := by
  induction y generalizing above start with
  | nil => rfl
  | token t rest ih => simp [Yield.trees, Yield.nodes, sitesOf, sites, ih]
  | fault f rest ih =>
      simp [Yield.trees, Yield.nodes, sitesOf, sites, ih, Site.tree, Place.tree]
  | node kind inner rest ih ih' =>
      simp [Yield.trees, Yield.nodes, sitesOf, sites, ih, ih', Site.tree, Place.tree]

/-- Without white space and comments among its tokens, the trees of a yield are bare. -/
lemma bareOf_trees {y : Yield} (h : ∀ t ∈ y.tokens, t.isTrivia = false) :
    bareOf y.trees = y.trees := by
  induction y with
  | nil => rfl
  | token t rest ih =>
      have ht : (leaf t.kind t.text).isTrivia = false := h t (by simp [Yield.tokens])
      rw [Yield.trees, bareOf_cons ht, bare, ih fun t ht => h t (by simp [Yield.tokens, ht])]
  | fault f rest ih => rw [Yield.trees, bareOf_cons rfl, ih h, bare, bareOf]
  | node kind inner rest ih ih' =>
      rw [Yield.trees, bareOf_cons rfl, bare, ih fun t ht => h t (by simp [Yield.tokens, ht]),
        ih' fun t ht => h t (by simp [Yield.tokens, ht])]

mutual

lemma leaves_bare : ∀ t : Tree, t.isTrivia = false →
    t.bare.leaves = t.leaves.filter (!·.kind.isTrivia)
  | leaf k _, h => by
      have hk : k.isTrivia = false := h
      simp [bare, leaves, hk]
  | node _ cs, _ => by
      rw [bare, leaves, leaves]
      exact leavesOf_bareOf cs

/-- The leaves of a row of trees without its white space and comments. -/
lemma leavesOf_bareOf : ∀ cs : List Tree,
    leavesOf (bareOf cs) = (leavesOf cs).filter (!·.kind.isTrivia)
  | [] => rfl
  | c :: cs => by
      rw [leavesOf, List.filter_append, ← leavesOf_bareOf cs]
      cases hc : c.isTrivia with
      | true =>
          cases c with
          | leaf k t =>
              have hk : k.isTrivia = true := hc
              simp [bareOf_cons_trivia hc, leaves, hk]
          | node k ds => cases hc
      | false => rw [bareOf_cons hc, leavesOf, leaves_bare c hc]

end

/-- The leaf that a tree is, if it is one. -/
def leaf? : Tree → Option Leaf
  | leaf k t => some ⟨k, t⟩
  | node .. => none

@[simp] lemma leaf?_leaf (k : TokenKind) (t : Text) : leaf? (leaf k t) = some ⟨k, t⟩ := rfl

@[simp] lemma leaf?_node (k : NodeKind) (cs : List Tree) : leaf? (node k cs) = none := rfl

lemma filterMap_leaf?_bareOf (cs : List Tree) :
    (bareOf cs).filterMap leaf? = (cs.filterMap leaf?).filter (!·.kind.isTrivia) := by
  induction cs with
  | nil => rfl
  | cons c cs ih =>
      cases c with
      | leaf k t =>
          cases hc : (leaf k t).isTrivia with
          | true =>
              have hk : k.isTrivia = true := hc
              rw [bareOf_cons_trivia hc, ih]
              simp [hk]
          | false =>
              have hk : k.isTrivia = false := hc
              rw [bareOf_cons hc, bare]
              simp [hk, ih]
      | node k ds =>
          rw [bareOf_cons rfl, bare, List.filterMap_cons_none (leaf?_node _ _), ih,
            List.filterMap_cons_none (leaf?_node _ _)]

lemma filterMap_leaf?_trees (y : Yield) : y.trees.filterMap leaf? = y.direct.map Token.leaf := by
  induction y with
  | nil => rfl
  | token t rest ih =>
      rw [Yield.trees, List.filterMap_cons_some (leaf?_leaf _ _), ih]
      rfl
  | fault f rest ih => rw [Yield.trees, List.filterMap_cons_none (leaf?_node _ _), ih, Yield.direct]
  | node kind inner rest _ ih =>
      rw [Yield.trees, List.filterMap_cons_none (leaf?_node _ _), ih, Yield.direct]

lemma leavesOf_trees (y : Yield) : leavesOf y.trees = y.tokens.map Token.leaf := by
  induction y with
  | nil => rfl
  | token t rest ih =>
      rw [Yield.trees, leavesOf, leaves, ih]
      rfl
  | fault f rest ih =>
      rw [Yield.trees, leavesOf, leaves, ih]
      rfl
  | node kind inner rest ih ih' =>
      rw [Yield.trees, leavesOf, leaves, ih, ih', Yield.tokens, List.map_append]

end Tree

namespace Site

variable {s : Site} {kind : NodeKind} {y : Yield}

/-- The direct tokens of a node, without white space and comments. -/
def significantTokens (s : Site) : List Leaf := s.tokens.filter (!·.kind.isTrivia)

/-- The nodes of a tree, if it is the node of a yield. -/
lemma map_bare_descendants (h : s.tree.bare = .node kind y.trees) :
    s.descendants.map (fun s => s.tree.bare) =
      .node kind y.trees :: y.nodes.map fun n => .node n.1 n.2.trees := by
  rw [descendants, ← Tree.map_bare_sites s.above [] s.here.start 0, h, Tree.sites, List.map_cons,
    Tree.map_tree_sitesOf]
  rfl

/-- Every node of a yield is a node of its tree. -/
lemma exists_of_mem_nodes (h : s.tree.bare = .node kind y.trees) {n : NodeKind × Yield}
    (hn : n ∈ (Yield.node kind y .nil).nodes) :
    ∃ s' ∈ s.descendants, s'.tree.bare = .node n.1 n.2.trees := by
  have hmem : Tree.node n.1 n.2.trees ∈ s.descendants.map fun s => s.tree.bare := by
    rw [map_bare_descendants h,
      ← List.map_cons (f := fun n : NodeKind × Yield => Tree.node n.1 n.2.trees) (a := (kind, y))]
    refine List.mem_map_of_mem ?_
    simpa [Yield.nodes] using hn
  simpa using hmem

lemma kind_of_bare (h : s.tree.bare = .node kind y.trees) : s.kind = kind := by
  rw [tree, Place.tree, Tree.bare, Tree.node.injEq] at h
  exact h.1

lemma tokens_eq (s : Site) : s.tokens = s.here.children.filterMap Tree.leaf? := by
  refine List.filterMap_congr fun c _ => ?_
  cases c <;> rfl

/-- The tokens of a node, if it is the node of a yield. -/
lemma significantTokens_of_bare (h : s.tree.bare = .node kind y.trees) :
    s.significantTokens = y.direct.map Token.leaf := by
  rw [tree, Place.tree, Tree.bare, Tree.node.injEq] at h
  rw [significantTokens, tokens_eq, ← Tree.filterMap_leaf?_bareOf, h.2, Tree.filterMap_leaf?_trees]

lemma leaves_of_bare (h : s.tree.bare = .node kind y.trees) :
    s.tree.leaves.filter (!·.kind.isTrivia) = y.tokens.map Token.leaf := by
  rw [← Tree.leavesOf_trees, ← Tree.leaves_bare s.tree rfl, h, Tree.leaves]

end Site

namespace Tree

/-! ## Building from significant tokens -/

namespace Builder

lemma addTrivia_of_significant {b : Builder} (h : ∀ t ∈ b.pending, t.isTrivia = false) :
    b.addTrivia = b := by
  have hnone : b.pending.takeWhile Token.isTrivia = [] := by
    rw [List.takeWhile_eq_nil_iff]
    intro hlt
    simpa using h _ (List.getElem_mem hlt)
  rw [addTrivia, hnone]
  rfl

/-- The steps of a yield add its trees to the innermost open node, and take its tokens. -/
lemma foldl_steps (length : Nat) (y : Yield) (f : Frame) (frames : List Frame)
    (pending : List Token) (roots : List Tree) (diagnostics : List Diagnostic)
    (hsignificant : ∀ t ∈ y.tokens ++ pending, t.isTrivia = false) :
    ∃ new, new.map Diagnostic.fault = y.faults.reverse ∧
      y.steps.foldl (step length) ⟨f :: frames, y.tokens ++ pending, roots, diagnostics⟩ =
        ⟨⟨f.kind, y.trees.reverse ++ f.parts⟩ :: frames, pending, roots, new ++ diagnostics⟩ := by
  induction y generalizing f frames pending diagnostics with
  | nil => exact ⟨[], rfl, rfl⟩
  | token t rest ih =>
      have hstep :
          step length ⟨f :: frames, t :: (rest.tokens ++ pending), roots, diagnostics⟩ .token =
          ⟨⟨f.kind, .leaf t.kind t.text :: f.parts⟩ :: frames, rest.tokens ++ pending, roots,
            diagnostics⟩ := by
        rw [step, token, addTrivia_of_significant hsignificant]
        rfl
      obtain ⟨new, hnew, hrest⟩ :=
        ih ⟨f.kind, .leaf t.kind t.text :: f.parts⟩ frames pending diagnostics
        fun t ht => hsignificant t (List.mem_cons_of_mem _ ht)
      refine ⟨new, hnew, ?_⟩
      rw [Yield.steps, List.foldl_cons, Yield.tokens, List.cons_append, hstep, hrest]
      simp [Yield.trees]
  | fault e rest ih =>
      have hstep :
          step length ⟨f :: frames, rest.tokens ++ pending, roots, diagnostics⟩ (.fault e) =
          ⟨⟨f.kind, .node .error [] :: f.parts⟩ :: frames, rest.tokens ++ pending, roots,
            diagnosticBefore length e (rest.tokens ++ pending) :: diagnostics⟩ := by
        rw [step, report_eq, addTrivia_of_significant hsignificant]
        rfl
      obtain ⟨new, hnew, hrest⟩ := ih ⟨f.kind, .node .error [] :: f.parts⟩ frames pending
        (diagnosticBefore length e (rest.tokens ++ pending) :: diagnostics) hsignificant
      refine ⟨new ++ [diagnosticBefore length e (rest.tokens ++ pending)],
        by simp [Yield.faults, hnew], ?_⟩
      rw [Yield.steps, List.foldl_cons, Yield.tokens, hstep, hrest]
      simp [Yield.trees]
  | node kind inner rest ih ih' =>
      have hopen :
          step length ⟨f :: frames, inner.tokens ++ (rest.tokens ++ pending), roots, diagnostics⟩
          (.opening kind) =
          ⟨⟨kind, []⟩ :: f :: frames, inner.tokens ++ (rest.tokens ++ pending), roots,
            diagnostics⟩ := by
        rw [step, openNode, addTrivia_of_significant (by simpa [Yield.tokens] using hsignificant)]
        rfl
      obtain ⟨new, hnew, hinner⟩ := ih ⟨kind, []⟩ (f :: frames) (rest.tokens ++ pending) diagnostics
        (by simpa [Yield.tokens] using hsignificant)
      have hclose :
          step length ⟨⟨kind, inner.trees.reverse ++ []⟩ :: f :: frames, rest.tokens ++ pending,
          roots, new ++ diagnostics⟩ .closing =
          ⟨⟨f.kind, .node kind inner.trees :: f.parts⟩ :: frames, rest.tokens ++ pending, roots,
            new ++ diagnostics⟩ := by
        simp [step, closeNode, add]
      obtain ⟨new', hnew', hrest⟩ := ih' ⟨f.kind, .node kind inner.trees :: f.parts⟩ frames pending
        (new ++ diagnostics) fun t ht => hsignificant t (by simp_all [Yield.tokens])
      refine ⟨new' ++ new, by simp [Yield.faults, hnew, hnew'], ?_⟩
      rw [Yield.steps, List.foldl_cons, Yield.tokens, List.append_assoc, hopen,
        List.foldl_append, hinner, List.foldl_cons, hclose, hrest]
      simp [Yield.trees]

lemma addTokens_of_cons (f : Frame) (frames : List Frame) (pending : List Token) (roots : List Tree)
    (diagnostics : List Diagnostic) (l : List Token) :
    addTokens ⟨f :: frames, pending, roots, diagnostics⟩ l =
      ⟨⟨f.kind, (l.map fun t => .leaf t.kind t.text).reverse ++ f.parts⟩ :: frames, pending, roots,
        diagnostics⟩ := by
  induction l generalizing f with
  | nil => rfl
  | cons t l ih =>
      rw [addTokens, List.foldl_cons]
      refine (ih ⟨f.kind, .leaf t.kind t.text :: f.parts⟩).trans ?_
      simp

/-- The outermost node takes all tokens that are left. -/
lemma closeNode_of_singleton (f : Frame) (pending : List Token) (roots : List Tree)
    (diagnostics : List Diagnostic) :
    closeNode ⟨[f], pending, roots, diagnostics⟩ =
      ⟨[], [], .node f.kind (f.parts.reverse ++ pending.map fun t => .leaf t.kind t.text) :: roots,
        diagnostics⟩ := by
  simp [closeNode, addRest, addTokens_of_cons, add]

/-- Building the node of a yield, with the tokens that are left over. -/
lemma run_yield (length : Nat) (kind : NodeKind) (y : Yield) {rest : List Token}
    (hsignificant : ∀ t ∈ y.tokens ++ rest, t.isTrivia = false) :
    ∃ new, new.map Diagnostic.fault = y.faults.reverse ∧
      run length (y.tokens ++ rest) (.opening kind :: (y.steps ++ [.closing])) =
        ⟨[], [], [.node kind (y ++ .row rest).trees], new⟩ := by
  obtain ⟨new, hnew, hinner⟩ := foldl_steps length y ⟨kind, []⟩ [] rest [] [] hsignificant
  refine ⟨new, hnew, ?_⟩
  have hopen : step length (ofTokens (y.tokens ++ rest)) (.opening kind) =
      ⟨[⟨kind, []⟩], y.tokens ++ rest, [], []⟩ := rfl
  rw [run, List.foldl_cons, List.foldl_append, hopen, hinner, List.foldl_cons, List.foldl_nil, step,
    closeNode_of_singleton]
  simp

end Builder

end Tree

/-! ## Sources -/

/-- What is read from a source yields one node. Without its white space and comments, the root of
the tree is this node with the tokens that are left over. -/
theorem exists_yield_parse (d : Dialect) (entry : Entry) (source : Text) :
    ∃ kind y s, (∀ bound, Grammar.bound source.length ≤ bound →
        Rule.Reads d (Grammar.Yields d bound) (.rule entry.rule) (.ofSource d source) true
          (.node kind y .nil) s) ∧
      (parse d entry source).root.tree.bare = .node kind (y ++ .row s.ahead).trees ∧
      (parse d entry source).diagnostics.map Diagnostic.fault = y.faults := by
  obtain ⟨kind, y, s, hreads, hsteps, htokens, -⟩ := Entry.yield_readSource d entry source
  refine ⟨kind, y, s, hreads, ?_⟩
  have hsignificant : ∀ t ∈ y.tokens ++ s.ahead, t.isTrivia = false := by
    intro t ht
    rw [← htokens] at ht
    simpa using List.of_mem_filter ht
  obtain ⟨new, hnew, hrun⟩ := Tree.Builder.run_yield source.length kind y hsignificant
  have halike : (built d entry source).Alike
      ⟨[], [], [.node kind (y ++ .row s.ahead).trees], new⟩ := by
    rw [← hrun, built, hsteps]
    refine Tree.Builder.Alike.run _ _ ?_ _
    rw [htokens, significant_eq_self hsignificant]
  obtain ⟨-, -, kind', cs, hroots, hroot⟩ := built_root d entry source
  constructor
  · have hbare := halike.roots
    rw [hroots, Tree.bareOf_cons rfl, Tree.bareOf_cons rfl] at hbare
    rw [hroot]
    refine (List.cons.inj hbare).1.trans ?_
    rw [Tree.bare, Tree.bareOf_trees (by simpa using hsignificant)]
  · have hfaults := congrArg List.reverse (halike.faults.trans hnew)
    rw [← List.map_reverse, List.reverse_reverse] at hfaults
    exact hfaults

end StyleSheet
