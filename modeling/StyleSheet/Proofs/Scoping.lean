import Mathlib
import StyleSheet.Proofs.Numbering
import StyleSheet.Scope

/-!
# The tour that finds scopes

The builder of scopes keeps the scopes that have begun on a stack. A tour around a tree leaves the
stack as it was, so at each node the top of the stack is the scope of the innermost block around the
node, whatever has begun and ended before. This turns a tour into a walk over the nodes in preorder,
each of them with the scope that is open there (`Tree.withScopes`), and nothing below speaks of the
stack again.
-/

namespace StyleSheet

/-- Whether a node is a block in braces. -/
def Site.isBlock (s : Site) : Bool := s.kind == .declarations

namespace Tree

/-! ## Scopes of nodes -/

/-- The numbers of the blocks that enclose the node of number `j`, the outermost one first. -/
def blocksAround (l : List Site) (j : Nat) : List Nat :=
  (enclosing l j).filter fun i => l[i]?.any Site.isBlock

/-- The scope of the block of number `b`, if the scope of the first block is `first`. -/
def scopeOf (l : List Site) (first b : Nat) : Nat := first + (l.take b).countP Site.isBlock

/-- The innermost scope that is open at the node of number `j`: that of the innermost block around
it, `current` if there is none. -/
def scopeAround (l : List Site) (current first j : Nat) : Nat :=
  ((blocksAround l j).getLast?.map (scopeOf l first)).getD current

/-- The nodes of a row, each of them with the innermost scope that is open there. -/
def withScopes (l : List Site) (current first : Nat) : List (Site × Nat) :=
  l.mapIdx fun j s => (s, scopeAround l current first j)

section

variable {l l' : List Site} {s : Site} {j : Nat} (current first : Nat)

lemma map_fst_withScopes : (withScopes l current first).map Prod.fst = l :=
  List.ext_getElem (by simp [withScopes]) (by simp [withScopes])

lemma mem_blocksAround {b : Nat} : b ∈ blocksAround l j ↔
    b < j ∧ ∃ s, l[b]? = some s ∧ s.isBlock = true ∧ j < b + s.tree.size := by
  rw [blocksAround, List.mem_filter, mem_enclosing, Option.any_eq_true]
  constructor
  · rintro ⟨⟨hlt, s, hs, hsize⟩, s', hs', hblock⟩
    cases hs.symm.trans hs'
    exact ⟨hlt, s, hs, hblock, hsize⟩
  · rintro ⟨hlt, s, hs, hblock, hsize⟩
    exact ⟨⟨hlt, s, hs, hsize⟩, s, hs, hblock⟩

lemma blocksAround_append_left (hj : j < l.length) :
    blocksAround (l ++ l') j = blocksAround l j := by
  rw [blocksAround, enclosing_append_left hj]
  refine List.filter_congr fun i hi => ?_
  rw [List.getElem?_append_left ((mem_enclosing.1 hi).1.trans hj)]

lemma blocksAround_append_right (h : Closed l) (j : Nat) :
    blocksAround (l ++ l') (l.length + j) = (blocksAround l' j).map (l.length + ·) := by
  rw [blocksAround, enclosing_append_right h, List.filter_map]
  refine congrArg _ (List.filter_congr fun i _ => ?_)
  rw [Function.comp_apply, List.getElem?_append_right (Nat.le_add_right _ _),
    Nat.add_sub_cancel_left]

lemma blocksAround_cons (hs : s.tree.size = l.length + 1) (hj : j < l.length) :
    blocksAround (s :: l) (j + 1) =
      (if s.isBlock then [0] else []) ++ (blocksAround l j).map (· + 1) := by
  rw [blocksAround, enclosing_cons hs hj, List.filter_cons, List.filter_map]
  cases hblock : s.isBlock <;> simp [hblock, blocksAround, Function.comp_def]

lemma scopeOf_append_right (b : Nat) :
    scopeOf (l ++ l') first (l.length + b) = scopeOf l' (first + l.countP Site.isBlock) b := by
  rw [scopeOf, scopeOf, List.take_length_add_append, List.countP_append, Nat.add_assoc]

lemma scopeOf_cons_succ (b : Nat) :
    scopeOf (s :: l) first (b + 1) = scopeOf l (first + if s.isBlock then 1 else 0) b := by
  rw [scopeOf, scopeOf, List.take_succ_cons, List.countP_cons]
  omega

lemma scopeAround_append_left (hj : j < l.length) :
    scopeAround (l ++ l') current first j = scopeAround l current first j := by
  rw [scopeAround, blocksAround_append_left hj]
  refine congrArg (Option.getD · current) (Option.map_congr fun b hb => ?_)
  have hlt := (mem_blocksAround.1 (List.mem_of_getLast? hb)).1
  rw [scopeOf, List.take_append_of_le_length (hlt.trans hj).le]
  rfl

lemma scopeAround_append_right (h : Closed l) (j : Nat) :
    scopeAround (l ++ l') current first (l.length + j) =
      scopeAround l' current (first + l.countP Site.isBlock) j := by
  rw [scopeAround, blocksAround_append_right h, List.getLast?_map, Option.map_map]
  refine congrArg (Option.getD · current) (Option.map_congr fun b _ => ?_)
  exact scopeOf_append_right first b

lemma scopeAround_cons (hs : s.tree.size = l.length + 1) (hj : j < l.length) :
    scopeAround (s :: l) current first (j + 1) =
      scopeAround l (if s.isBlock then first else current)
        (first + if s.isBlock then 1 else 0) j := by
  rw [scopeAround, blocksAround_cons hs hj, List.getLast?_append, List.getLast?_map, scopeAround]
  cases hlast : (blocksAround l j).getLast? with
  | none => cases hblock : s.isBlock <;> simp [scopeOf]
  | some b => simp [scopeOf_cons_succ]

/-- Behind a closed row the scopes are those that were open before it. -/
lemma withScopes_append (h : Closed l) : withScopes (l ++ l') current first =
    withScopes l current first ++ withScopes l' current (first + l.countP Site.isBlock) := by
  rw [withScopes, List.mapIdx_append]
  refine congrArg₂ _ (List.mapIdx_eq_mapIdx_iff.2 fun j hj => ?_)
    (List.mapIdx_eq_mapIdx_iff.2 fun j _ => ?_)
  · rw [scopeAround_append_left current first hj]
  · rw [Nat.add_comm j, scopeAround_append_right current first h]

/-- Inside of a block the scope of the block is open. -/
lemma withScopes_cons (hs : s.tree.size = l.length + 1) : withScopes (s :: l) current first =
    (s, current) ::
      withScopes l (if s.isBlock then first else current) (first + if s.isBlock then 1 else 0) := by
  rw [withScopes, List.mapIdx_cons]
  refine congrArg₂ _ rfl (List.mapIdx_eq_mapIdx_iff.2 fun j hj => ?_)
  rw [scopeAround_cons current first hs hj]

end

end Tree

namespace Scopes

/-! ## What a node does to the scopes -/

/-- The scopes once a node has begun in scope `current`. -/
def enter (g : Scopes) (s : Site) (current : Nat) : Scopes :=
  if s.isBlock then
    (Symbol.bound s).foldl (fun h symbol => h.declare g.size symbol) (g.push current s)
  else
    (Symbol.declared s).foldl
      (fun h d => h.declare (if d.1 = .everywhere then global else current) d.2) g

/-- The scopes once all nodes of a row have begun. -/
def enterAll (g : Scopes) (row : List (Site × Nat)) : Scopes :=
  row.foldl (fun h p => h.enter p.1 p.2) g

@[simp] lemma size_declare (g : Scopes) (scope : Nat) (symbol : Symbol) :
    (g.declare scope symbol).size = g.size := by
  simp [declare, size]

@[simp] lemma size_push (g : Scopes) (parent : Nat) (block : Site) :
    (g.push parent block).size = g.size + 1 := by
  simp [push, size]

lemma size_foldl_declare {α : Type} (g : Scopes) (l : List α) (scope : α → Nat)
    (symbol : α → Symbol) :
    (l.foldl (fun h a => h.declare (scope a) (symbol a)) g).size = g.size := by
  induction l generalizing g with
  | nil => rfl
  | cons a l ih => rw [List.foldl_cons, ih, size_declare]

lemma size_enter (g : Scopes) (s : Site) (current : Nat) :
    (g.enter s current).size = g.size + if s.isBlock then 1 else 0 := by
  rw [enter]
  split
  · rw [size_foldl_declare, size_push]
  · rw [size_foldl_declare]
    rfl

lemma size_enterAll (g : Scopes) (row : List (Site × Nat)) :
    (g.enterAll row).size = g.size + row.countP fun p => p.1.isBlock := by
  induction row generalizing g with
  | nil => rfl
  | cons p row ih =>
      rw [enterAll, List.foldl_cons, ← enterAll, ih, size_enter, List.countP_cons, Nat.add_assoc,
        Nat.add_comm (ite _ _ _)]

lemma size_enterAll_withScopes (g : Scopes) (l : List Site) (current first : Nat) :
    (g.enterAll (Tree.withScopes l current first)).size = g.size + l.countP Site.isBlock := by
  have hcount :=
    congrArg (List.countP Site.isBlock) (Tree.map_fst_withScopes (l := l) current first)
  rw [List.countP_map] at hcount
  rw [size_enterAll, ← hcount]
  rfl

lemma enterAll_append (g : Scopes) (row row' : List (Site × Nat)) :
    g.enterAll (row ++ row') = (g.enterAll row).enterAll row' := List.foldl_append

/-! ## The stack -/

namespace Builder

lemma step_enter (b : Builder) (s : Site) : b.step (.enter s) =
    ⟨b.scopes.enter s b.current, if s.isBlock then b.scopes.size :: b.opened else b.opened⟩ := by
  have htarget : ∀ r, b.target r = if r = .everywhere then global else b.current := by
    intro r
    cases r <;> rfl
  by_cases h : s.kind = .declarations
  · simp [step, openBlock, enter, Site.isBlock, h]
  · simp [step, declareAll, enter, Site.isBlock, h, htarget]

lemma step_leave (b : Builder) (s : Site) : b.step (.leave s) =
    ⟨b.scopes, if s.isBlock then b.opened.tail else b.opened⟩ := by
  by_cases h : s.kind = .declarations
  · simp [step, Site.isBlock, h]
  · simp [step, Site.isBlock, h]

mutual

lemma run_tour (above : List Place) (start : Nat) : ∀ (t : Tree) (b : Builder),
    (t.tour above start).foldl step b =
      ⟨b.scopes.enterAll (Tree.withScopes (t.sites above start) b.current b.scopes.size), b.opened⟩
  | .leaf _ _, b => rfl
  | .node k cs, b => by
      have hsize : (Site.mk ⟨k, cs, start⟩ above).tree.size =
          (Tree.sitesOf (⟨k, cs, start⟩ :: above) start cs).length + 1 := by
        simp [Site.tree, Place.tree, Tree.size]
      rw [Tree.tour, Tree.sites, Tree.withScopes_cons _ _ hsize, List.foldl_cons, List.foldl_append,
        run_tourOf _ start cs, List.foldl_cons, List.foldl_nil, step_leave, step_enter]
      simp only [size_enter]
      -- What the beginning of a block puts on the stack is taken off at its end.
      by_cases hblock : (Site.mk ⟨k, cs, start⟩ above).isBlock = true
      · simp [hblock, current, enterAll]
      · simp [hblock, current, enterAll]

/-- A tour around a row of trees visits its nodes in preorder, each of them in the innermost scope
that is open there, and leaves the stack as it was. -/
lemma run_tourOf (above : List Place) (start : Nat) : ∀ (cs : List Tree) (b : Builder),
    (Tree.tourOf above start cs).foldl step b =
      ⟨b.scopes.enterAll (Tree.withScopes (Tree.sitesOf above start cs) b.current b.scopes.size),
        b.opened⟩
  | [], b => rfl
  | c :: cs, b => by
      rw [Tree.tourOf, List.foldl_append, run_tour above start c, run_tourOf above _ cs,
        Tree.sitesOf, Tree.withScopes_append _ _ (Tree.closed_sites above start c), enterAll_append,
        size_enterAll_withScopes]
      rfl

end

end Builder

/-- The scopes of a tree come from its nodes in preorder, each of them taken in the innermost scope
that is open there. -/
lemma ofSite_eq (root : Site) : ofSite root =
    (⟨[.ofSite root none]⟩ : Scopes).enterAll (Tree.withScopes root.descendants global 1) := by
  rw [ofSite, Site.tour, Builder.run_tour]
  rfl

end Scopes

end StyleSheet
