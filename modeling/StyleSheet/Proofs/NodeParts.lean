import Mathlib
import StyleSheet.Proofs.CallForm

/-!
# The parts of nodes

What the nodes of a tree are made of is a matter of the rules that build them. `Yield.kids` lists
the kinds of the nodes that stand side by side in a yield, and these are the kinds of the child
nodes in the tree (`Site.kinds_of_bare`). A rule that yields nothing unless it matches is `Mute`;
with the node that it builds if it matches, this says what it adds to the node around it.

A property of nodes that each rule ensures for the nodes it builds holds of all nodes
(`Reads.nodes_shaped`); often the kinds of the nodes are enough (`Reads.nodes_ensure`).
-/

namespace StyleSheet

open Token

namespace Yield

/-- The kinds of the nodes that stand side by side. A fault is an error node. -/
def kids : Yield → List NodeKind
  | nil => []
  | token _ rest => rest.kids
  | fault _ rest => .error :: rest.kids
  | node kind _ rest => kind :: rest.kids

@[simp] lemma kids_nil : kids nil = [] := rfl

@[simp] lemma kids_append (y z : Yield) : (y ++ z).kids = y.kids ++ z.kids := by
  induction y with
  | nil => rfl
  | token t rest ih => rw [token_append, kids, kids, ih]
  | fault f rest ih => rw [fault_append, kids, kids, ih, List.cons_append]
  | node kind inner rest _ ih => rw [node_append, kids, kids, ih, List.cons_append]

@[simp] lemma kids_row (l : List Token) : (row l).kids = [] := by
  induction l with
  | nil => rfl
  | cons t l ih => rw [row, kids, ih]

/-- The nodes that stand side by side, each with what is inside of it. A fault is an empty error
node. -/
def branches : Yield → List (NodeKind × Yield)
  | nil => []
  | token _ rest => rest.branches
  | fault _ rest => (.error, nil) :: rest.branches
  | node kind inner rest => (kind, inner) :: rest.branches

@[simp] lemma branches_append (y z : Yield) : (y ++ z).branches = y.branches ++ z.branches := by
  induction y with
  | nil => rfl
  | token t rest ih => rw [token_append, branches, branches, ih]
  | fault f rest ih => rw [fault_append, branches, branches, ih, List.cons_append]
  | node kind inner rest _ ih => rw [node_append, branches, branches, ih, List.cons_append]

end Yield

@[simp] lemma Spot.kids_taken (s : Spot) : s.taken.kids = [] := by
  rw [Spot.taken]
  split <;> rfl

/-! ## Child nodes -/

namespace Tree

lemma map_kind_nodesOf_bareOf (above above' : List Place) (start start' : Nat) (cs : List Tree) :
    (nodesOf above' start' (bareOf cs)).map Site.kind = (nodesOf above start cs).map Site.kind := by
  induction cs generalizing start start' with
  | nil => rfl
  | cons c cs ih =>
      cases c with
      | leaf k t =>
          cases hc : (leaf k t).isTrivia with
          | true =>
              rw [bareOf_cons_trivia hc, nodesOf]
              exact ih _ _
          | false =>
              rw [bareOf_cons hc, bare, nodesOf, nodesOf]
              exact ih _ _
      | node k ds =>
          rw [bareOf_cons rfl, bare, nodesOf, nodesOf, List.map_cons, List.map_cons]
          exact congrArg (k :: ·) (ih _ _)

lemma map_kind_nodesOf_trees (above : List Place) (start : Nat) (y : Yield) :
    (nodesOf above start y.trees).map Site.kind = y.kids := by
  induction y generalizing start with
  | nil => rfl
  | token t rest ih => exact ih _
  | fault f rest ih => exact congrArg (_ :: ·) (ih _)
  | node kind inner rest _ ih => exact congrArg (kind :: ·) (ih _)

lemma map_tree_nodesOf_bareOf (above above' : List Place) (start start' : Nat) (cs : List Tree) :
    (nodesOf above' start' (bareOf cs)).map Site.tree = (nodesOf above start cs).map fun s =>
      s.tree.bare := by
  induction cs generalizing start start' with
  | nil => rfl
  | cons c cs ih =>
      cases c with
      | leaf k t =>
          cases hc : (leaf k t).isTrivia with
          | true =>
              rw [bareOf_cons_trivia hc, nodesOf]
              exact ih _ _
          | false =>
              rw [bareOf_cons hc, bare, nodesOf, nodesOf]
              exact ih _ _
      | node k ds =>
          rw [bareOf_cons rfl, bare, nodesOf, nodesOf, List.map_cons, List.map_cons]
          exact congrArg (.node k (bareOf ds) :: ·) (ih _ _)

lemma map_tree_nodesOf_trees (above : List Place) (start : Nat) (y : Yield) :
    (nodesOf above start y.trees).map Site.tree = y.branches.map fun b => .node b.1 b.2.trees := by
  induction y generalizing start with
  | nil => rfl
  | token t rest ih => exact ih _
  | fault f rest ih => exact congrArg (_ :: ·) (ih _)
  | node kind inner rest _ ih => exact congrArg (_ :: ·) (ih _)

end Tree

namespace Site

variable {s : Site} {kind : NodeKind} {y : Yield}

lemma bareOf_children (h : s.tree.bare = .node kind y.trees) :
    Tree.bareOf s.here.children = y.trees := by
  rw [tree, Place.tree, Tree.bare, Tree.node.injEq] at h
  exact h.2

/-- The kinds of the child nodes of a node, if it is the node of a yield. -/
lemma kinds_of_bare (h : s.tree.bare = .node kind y.trees) : s.children.map Site.kind = y.kids := by
  rw [children, ← Tree.map_kind_nodesOf_bareOf _ [] _ 0, bareOf_children h,
    Tree.map_kind_nodesOf_trees]

/-- The child nodes of a node, if it is the node of a yield. -/
lemma bare_children (h : s.tree.bare = .node kind y.trees) :
    (s.children.map fun c => c.tree.bare) = y.branches.map fun b => .node b.1 b.2.trees := by
  rw [children, ← Tree.map_tree_nodesOf_bareOf _ [] _ 0, bareOf_children h,
    Tree.map_tree_nodesOf_trees]

/-- What holds of all nodes of a yield holds of all nodes of its tree. -/
lemma forall_descendants {E : NodeKind → Yield → Prop} (h : s.tree.bare = .node kind y.trees)
    (hroot : E kind y) (hnodes : ∀ n ∈ y.nodes, E n.1 n.2) :
    ∀ s' ∈ s.descendants, ∃ z, s'.tree.bare = .node s'.kind z.trees ∧ E s'.kind z := by
  intro s' hs'
  have hmem : s'.tree.bare ∈ s.descendants.map fun s => s.tree.bare := List.mem_map_of_mem hs'
  rw [map_bare_descendants h] at hmem
  rcases List.mem_cons.1 hmem with hbare | hmem
  · obtain rfl := kind_of_bare hbare
    exact ⟨y, hbare, hroot⟩
  · obtain ⟨⟨kind', z⟩, hn, hbare⟩ := List.mem_map.1 hmem
    obtain rfl := kind_of_bare hbare.symm
    exact ⟨z, hbare.symm, hnodes _ hn⟩

end Site

namespace Rule

variable {d : Dialect} {C : Calls} {s s' : Spot} {m : Bool} {y : Yield} {a b : Rule}
  {kind : NodeKind}

/-! ## Properties of nodes -/

/-- Where `v` is seen, the nodes that a rule builds by itself satisfy `E`, and the nonterminals that
it calls satisfy `Q`. -/
def Shapes (d : Dialect) (C : Calls) (E : NodeKind → Yield → Prop) (Q : Nonterminal → Prop) :
    Rule → View → Prop
  | done _, _ | take, _ | report _, _ | cutRange, _ => True
  | look next, v => Shapes d C E Q (next v) v
  | seq first next, v => Shapes d C E Q first v ∧ ∀ m v, Shapes d C E Q (next m) v
  | many body, _ => ∀ v, Shapes d C E Q body v
  | node kind body, v => Shapes d C E Q body v ∧
      ∀ s y s', s.view = v → Reads d C (.rule body) s true y s' → E kind y
  | wrap kind first _ body, v =>
      Shapes d C E Q first v ∧ (∀ v, Shapes d C E Q body v) ∧ ∀ y, E kind y
  | attempt body, v => Shapes d C E Q body v
  | call name, _ => Q name

section

variable {E : NodeKind → Yield → Prop} {Q : Nonterminal → Prop} {v : View}

/-- If the kinds of its nodes ensure a property of nodes, a rule builds nodes with this property
only. -/
lemma shapes_of_uses {r : Rule} (h : r.Uses (fun k => ∀ z, E k z) Q) : Shapes d C E Q r v := by
  induction r generalizing v with
  | look next ih => exact ih v (h v)
  | seq first next ih ih' => exact ⟨ih h.1, fun m v => ih' m (h.2 m)⟩
  | many body ih => exact fun v => ih h
  | node kind body ih => exact ⟨ih h.2, fun _ y _ _ _ => h.1 y⟩
  | wrap kind first more body ih ih' => exact ⟨ih h.2.1, fun v => ih' h.2.2, h.1⟩
  | attempt body ih => exact ih h
  | call name => exact h
  | _ => trivial

/-- What follows for a phase from the nodes that its rule builds. -/
def BuildsShaped (d : Dialect) (C : Calls) (E : NodeKind → Yield → Prop) (Q : Nonterminal → Prop) :
    Phase → Spot → Yield → Prop
  | .rule r, s, y => Shapes d C E Q r s.view → ∀ n ∈ y.nodes, E n.1 n.2
  | .layers kind _ body _ inner, _, y => (∀ v, Shapes d C E Q body v) → (∀ z, E kind z) →
      (∀ n ∈ inner.nodes, E n.1 n.2) → ∀ n ∈ y.nodes, E n.1 n.2

/-- If the nodes that a rule builds by itself have a property, and the answers to its calls have it,
then all nodes that it yields have it. -/
theorem Reads.nodes_shaped (herror : E .error .nil)
    (hcalls : ∀ name s m y s', Q name → C name s m y s' → ∀ n ∈ y.nodes, E n.1 n.2) {phase : Phase}
    (h : Reads d C phase s m y s') : BuildsShaped d C E Q phase s y := by
  have happend : ∀ {y z : Yield}, (∀ n ∈ y.nodes, E n.1 n.2) → (∀ n ∈ z.nodes, E n.1 n.2) →
      ∀ n ∈ (y ++ z).nodes, E n.1 n.2 := by
    intro y z hy hz
    rw [Yield.nodes_append]
    exact List.forall_mem_append.2 ⟨hy, hz⟩
  have hnode : ∀ {kind : NodeKind} {y : Yield}, E kind y → (∀ n ∈ y.nodes, E n.1 n.2) →
      ∀ n ∈ (Yield.node kind y .nil).nodes, E n.1 n.2 := by
    intro kind y hkind hy
    rw [Yield.nodes, Yield.nodes, List.append_nil]
    exact List.forall_mem_cons.2 ⟨hkind, hy⟩
  induction h with
  | done _ _ => exact fun _ => List.forall_mem_nil _
  | look _ ih => exact ih
  | take s =>
      intro _
      rw [Spot.taken]
      split <;> exact List.forall_mem_nil _
  | report f s => exact fun _ => List.forall_mem_singleton.2 herror
  | cutRange s => exact fun _ => List.forall_mem_nil _
  | seq _ _ ih ih' => exact fun hr => happend (ih hr.1) (ih' (hr.2 _ _))
  | again _ _ ih ih' => exact fun hr => happend (ih (hr _)) (ih' hr)
  | stop _ ih => exact fun hr => ih (hr _)
  | node h ih => exact fun hr => hnode (hr.2 _ _ _ rfl h) (ih hr.1)
  | drop _ ih => exact fun hr => ih hr.1
  | wrap _ _ ih ih' => exact fun hr => ih' hr.2.1 hr.2.2 (ih hr.1)
  | unwrapped _ ih => exact fun hr => ih hr.1
  | attempt _ _ ih => exact ih
  | back _ _ _ => exact fun _ => List.forall_mem_nil _
  | call h => exact fun hr => hcalls _ _ _ _ _ hr h
  | layer _ _ _ ih ih' =>
      exact fun hr hkind hinner => ih' hr hkind (hnode (hkind _) (happend hinner (ih (hr _))))
  | enough _ => exact fun _ _ hinner => hinner

/-- If the kinds of the nodes that a rule builds ensure a property of nodes, and the answers to its
calls have it, then all nodes that it yields have it. -/
theorem Reads.nodes_ensure (herror : E .error .nil)
    (hcalls : ∀ name s m y s', Q name → C name s m y s' → ∀ n ∈ y.nodes, E n.1 n.2) {r : Rule}
    (h : Reads d C (.rule r) s m y s') (hr : r.Uses (fun k => ∀ z, E k z) Q) :
    ∀ n ∈ y.nodes, E n.1 n.2 :=
  h.nodes_shaped herror hcalls (shapes_of_uses hr)

end

/-! ## Rules that yield nothing unless they match -/

/-- Whether a nonterminal yields nothing if it does not match, for reasons that its rule shows. -/
def isMuteName : Nonterminal → Bool
  | .balanced | .ifRest _ | .mediaCondition | .mediaQuery | .mediaQueryList | .supportsCondition =>
      false
  | _ => true

/-- The rule yields nothing if it ends with `m`. -/
def Mute : Rule → Bool → Prop
  | done _, _ | cutRange, _ => True
  | look next, m => ∀ v, Mute (next v) m
  | take, m | many _, m | attempt _, m => m = false
  | report _, m => m = true
  | seq first next, m => ∀ m₁, (m = false ∧ Accepts (next m₁)) ∨ (Mute first m₁ ∧ Mute (next m₁) m)
  | node _ body, m => m = false ∧ Mute body false
  | wrap _ first _ _, m => m = false ∧ Mute first false
  | call name, m => m = false ∧ isMuteName name = true

lemma Reads.eq_nil_of_mute {r : Rule}
    (hcalls : ∀ name s y s', isMuteName name = true → C name s false y s' → y = .nil)
    (hr : r.Mute m) (h : Reads d C (.rule r) s m y s') : y = .nil := by
  induction r generalizing s m y s' with
  | done matched => exact (reads_done.1 h).2.1
  | look next ih => exact ih _ (hr _) (reads_look.1 h)
  | take => cases hr.symm.trans (reads_take.1 h).1
  | report fault => cases hr.symm.trans (reads_report.1 h).1
  | cutRange => exact (reads_cutRange.1 h).2.1
  | seq first next ih ih' =>
      obtain ⟨m₁, y₁, s₁, y₂, hfirst, hnext, rfl⟩ := reads_seq.1 h
      rcases hr m₁ with ⟨rfl, haccepts⟩ | ⟨hmute, hmute'⟩
      · cases matched_of_accepts haccepts hnext
      · rw [ih hmute hfirst, ih' m₁ hmute' hnext, Yield.nil_append]
  | many body => cases hr.symm.trans (matched_of_accepts (r := many body) trivial h)
  | node kind body ih =>
      obtain ⟨rfl, hmute⟩ := hr
      obtain ⟨z, hbody, rfl⟩ := reads_node.1 h
      simpa using ih hmute hbody
  | wrap kind first more body ih =>
      obtain ⟨rfl, hmute⟩ := hr
      cases h with
      | unwrapped h => exact ih hmute h
  | attempt body =>
      rcases reads_attempt h with ⟨rfl, -⟩ | ⟨-, hnil, -⟩
      · cases hr
      · exact hnil
  | call name =>
      obtain ⟨rfl, hname⟩ := hr
      exact hcalls name s y s' hname (reads_call.1 h)

section

attribute [simp] Mute isMuteName

@[simp] lemma mute_ite (c : Prop) [Decidable c] (a b : Rule) :
    Mute (if c then a else b) m ↔ (c → Mute a m) ∧ (¬ c → Mute b m) := by
  split <;> simp_all

@[simp] lemma mute_accept : Mute accept m := trivial

@[simp] lemma mute_fail : Mute fail m := trivial

@[simp] lemma mute_test (c : View → Bool) : Mute (test c) m := fun _ => trivial

@[simp] lemma mute_choose (c : View → Bool) (a b : Rule) :
    Mute (choose c a b) m ↔ ∀ v, (c v = true → Mute a m) ∧ (c v = false → Mute b m) := by
  simp [choose]

@[simp] lemma mute_when (c : View → Bool) (a : Rule) :
    Mute (when c a) m ↔ ∀ v, c v = true → Mute a m := by
  simp [when]

@[simp] lemma mute_token (kind : TokenKind) : Mute (token kind) false := by simp [token]

@[simp] lemma mute_word (w : String) : Mute (word w) false := by simp [word]

@[simp] lemma mute_then (a b : Rule) :
    Mute (a >> b) false ↔ Accepts b ∨ (Mute a true ∧ Mute a false ∧ Mute b false) := by
  change (∀ m₁, (false = false ∧ Accepts b) ∨ (Mute a m₁ ∧ Mute b false)) ↔ _
  simp only [Bool.forall_bool]
  tauto

@[simp] lemma mute_or (a b : Rule) :
    Mute (a ||| b) false ↔ Accepts b ∨ (Mute a false ∧ Mute b false) := by
  change (∀ m₁, (false = false ∧ Accepts (if m₁ = true then accept else b)) ∨
    (Mute a m₁ ∧ Mute (if m₁ = true then accept else b) false)) ↔ _
  simp [Bool.forall_bool]

@[simp] lemma mute_and (a b : Rule) :
    Mute (a &&& b) false ↔ Mute a false ∧ (Accepts b ∨ (Mute a true ∧ Mute b false)) := by
  change (∀ m₁, (false = false ∧ Accepts (if m₁ = true then b else fail)) ∨
    (Mute a m₁ ∧ Mute (if m₁ = true then b else fail) false)) ↔ _
  simp [Bool.forall_bool]

@[simp] lemma mute_group (kind : NodeKind) (body : Rule) : Mute (group kind body) false := by
  simp [group]

@[simp] lemma mute_leaf (kind : NodeKind) : Mute (leaf kind) false := by simp [leaf]

end

/-! ## Rules that build one node -/

/-- If the rule matches, it yields one node of the given kind. -/
def Makes (kind : NodeKind) : Rule → Prop
  | done matched => matched = false
  | look next => ∀ v, Makes kind (next v)
  | node k _ => k = kind
  | take | report _ | cutRange | seq .. | many _ | wrap .. | attempt _ | call _ => False

lemma Reads.eq_node_of_makes {r : Rule} (hr : r.Makes kind) (h : Reads d C (.rule r) s true y s') :
    ∃ z, y = .node kind z .nil := by
  induction r with
  | done matched => cases hr.symm.trans (reads_done.1 h).1.symm
  | look next ih => exact ih _ (hr _) (reads_look.1 h)
  | node k body =>
      obtain ⟨z, -, rfl⟩ := reads_node.1 h
      cases hr
      exact ⟨z, rfl⟩
  | _ => cases hr

section

attribute [simp] Makes

@[simp] lemma makes_fail : Makes kind fail := rfl

@[simp] lemma makes_choose (c : View → Bool) (a b : Rule) :
    Makes kind (choose c a b) ↔
      ∀ v, (c v = true → Makes kind a) ∧ (c v = false → Makes kind b) := by
  rw [choose, Makes]
  refine forall_congr' fun v => ?_
  cases c v <;> simp

@[simp] lemma makes_when (c : View → Bool) (a : Rule) :
    Makes kind (when c a) ↔ ∀ v, c v = true → Makes kind a := by
  simp [when]

@[simp] lemma makes_group (k : NodeKind) (body : Rule) : Makes kind (group k body) ↔ k = kind :=
  Iff.rfl

@[simp] lemma makes_leaf (k : NodeKind) : Makes kind (leaf k) ↔ k = kind := Iff.rfl

end

/-! ## Repetitions -/

/-- What holds behind the last round of a repetition, and is kept by a round before it, holds of the
whole. -/
lemma Reads.many_induction {P : Yield → Prop}
    (hstop : ∀ s y s', Reads d C (.rule a) s false y s' → P y)
    (hround : ∀ s y s' z, Reads d C (.rule a) s true y s' → P z → P (y ++ z))
    (h : Reads d C (.rule (many a)) s m y s') : P y := by
  generalize hphase : Phase.rule (many a) = phase at h
  induction h with
  | again hbody _ _ ih =>
      cases hphase
      exact hround _ _ _ _ hbody (ih rfl)
  | stop hbody _ =>
      cases hphase
      exact hstop _ _ _ hbody
  | _ => cases hphase

/-- What holds of the node that layers are put around, and is kept by a layer, holds behind the last
one. -/
lemma Reads.layers_induction {P : Nat → Yield → Spot → Prop} {more : Nat → View → Bool}
    {body : Rule} {count : Nat} {inner : Yield}
    (hlayer : ∀ count inner s m y s', more count s.view = true → Reads d C (.rule body) s m y s' →
      P count inner s → P (count + 1) (.node kind (inner ++ y) .nil) s')
    (h : Reads d C (.layers kind more body count inner) s m y s') (hinner : P count inner s) :
    ∃ count', P count' y s' ∧ more count' s'.view = false := by
  generalize hphase : Phase.layers kind more body count inner = phase at h
  induction h generalizing count inner with
  | layer hmore hbody _ _ ih =>
      cases hphase
      exact ih (hlayer _ _ _ _ _ _ hmore hbody hinner) rfl
  | enough hmore =>
      cases hphase
      exact ⟨_, hinner, hmore⟩
  | _ => cases hphase

/-- If no round of a repetition adds a node, the repetition adds none. -/
lemma kids_of_many (hround : ∀ s m y s', Reads d C (.rule a) s m y s' → y.kids = [])
    (h : Reads d C (.rule (many a)) s m y s') : y.kids = [] :=
  h.many_induction (P := (·.kids = [])) (fun s y s' h => hround s _ y s' h)
    fun s y s' z h hz => by rw [Yield.kids_append, hround s _ y s' h, hz, List.nil_append]

end Rule

/-- The root of a tree is of the kind of its entry. -/
lemma Entry.kind_eq_rootKind {d : Dialect} {entry : Entry} {depth : Nat} {s s' : Spot}
    {kind : NodeKind} {y : Yield}
    (h : Rule.Reads d (Grammar.Yields d depth) (.rule entry.rule) s true (.node kind y .nil) s') :
    kind = entry.rootKind := by
  cases entry with
  | stylesheet =>
      obtain ⟨depth', h⟩ := Grammar.reads_of_yields (Rule.reads_call.1 h)
      obtain ⟨-, _, z, -, heq⟩ := Rule.reads_group.1 h
      exact (Yield.node.inj heq).1
  | _ =>
      obtain ⟨-, _, z, -, heq⟩ := Rule.reads_group.1 h
      exact (Yield.node.inj heq).1

end StyleSheet
